import HumanDataFactory.Billing.Grouping
import HumanDataFactory.Concurrency.Invoicing
import HumanDataFactory.Provenance.Footprint
import HumanDataFactory.Provenance.Progress

/-!
# Invoice numbers

The number of an invoice counts the invoices that were there when it was
written.  Requests at work at the same time may count alike, and one of them is
then refused; but no number in use ever runs ahead of the count, so that a
request that is served alone always finds its number free.
-/

namespace HumanDataFactory

open Transact

namespace Datetime

theorem chars_zeroPad (width n : ℕ) : ∀ c ∈ (zeroPad width n).toList, c ∈ "0123456789".toList := by
  intro c hc
  simp only [zeroPad, String.toList_append, String.toList_ofList, List.mem_append] at hc
  rcases hc with hc | hc
  · rw [List.eq_of_mem_replicate hc]
    decide
  · exact Json.chars_nat n c hc

/-- Leading zeros do not change what is read. -/
theorem zeroPad_inj {width m n : ℕ} (h : zeroPad width m = zeroPad width n) : m = n := by
  have hread (k : ℕ) : Nat.ofDigitChars 10 (zeroPad width k).toList 0 = k := by
    simp only [zeroPad, String.toList_append, String.toList_ofList, Nat.ofDigitChars_append,
      Nat.ofDigitChars_replicate_zero, Nat.mul_zero]
    rw [show (toString k).toList = Nat.toDigits 10 k from Nat.toList_repr,
      Nat.ofDigitChars_ten_toDigits]
  rw [← hread m, h, hread n]

end Datetime

namespace Billing

/-- The count is read off a number, whatever its month. -/
theorem invoiceNumber_inj {now now' : Time} {m n : ℕ}
    (h : invoiceNumber now m = invoiceNumber now' n) : m = n := by
  have hdash (k : ℕ) : ∀ c ∈ (Datetime.zeroPad 4 k).toList.reverse, c ∉ ({'-'} : Set Char) := by
    have hdigit : "0123456789".toList.all (fun c ↦ c ≠ '-') := by decide
    exact fun c hc ↦ of_decide_eq_true
      (List.all_eq_true.mp hdigit c (Datetime.chars_zeroPad 4 k c (List.mem_reverse.mp hc)))
  have htext (now : Time) (k : ℕ) : (invoiceNumber now k).toList.reverse =
      (Datetime.zeroPad 4 (k + 1)).toList.reverse ++
        '-' :: ("HDF-" ++ Datetime.yearMonth now).toList.reverse := by
    simp [invoiceNumber, toString]
  have hsame := congrArg (fun t ↦ t.toList.reverse) h
  simp only [htext] at hsame
  have hdigits := (PrefixCode.append_inj_of_delimited (hdash _) (hdash _)
    (PrefixCode.delimited_cons (Set.mem_singleton _) _)
    (PrefixCode.delimited_cons (Set.mem_singleton _) _) hsame).1
  have hcount := Datetime.zeroPad_inj (String.toList_inj.mp (List.reverse_injective hdigits))
  omega

end Billing

namespace Provenance

variable {env : Env} {s s' : Db} {u : Write}

theorem length_invoices (h : Db.apply u s = some s') :
    s'.invoices.rows.length =
      s.invoices.rows.length + if u.change = .insert .invoices then 1 else 0 := by
  cases u <;> simp only [Db.apply, Option.ite_none_right_eq_some, Option.some.injEq] at h
  case insertInvoice a =>
    obtain ⟨hv, rfl⟩ := h
    simp [Table.rows_push hv.1, Write.change]
  all_goals first
    | subst h
      simp [Write.change]
    | obtain ⟨hv, rfl⟩ := h
      simp [Write.change]

/-- The number belongs to a count up to `n`. -/
def NumberBelow (n : ℕ) (inv : Invoice) : Prop :=
  ∃ now k, inv.number = Billing.invoiceNumber now k ∧ k < n

theorem NumberBelow.mono {m n : ℕ} {inv : Invoice} (h : NumberBelow m inv) (hmn : m ≤ n) :
    NumberBelow n inv := by
  obtain ⟨now, k, hnumber, hk⟩ := h
  exact ⟨now, k, hnumber, by omega⟩

/-- Numbers are used once, and each belongs to a count of fewer invoices than
there are. -/
structure Numbered (s : Db) : Prop where
  below : ∀ inv ∈ s.invoices, NumberBelow s.invoices.rows.length inv
  once : ∀ inv ∈ s.invoices, ∀ inv' ∈ s.invoices, inv.number = inv'.number → inv.id = inv'.id

theorem numbered_empty : Numbered Db.empty :=
  ⟨fun _ h ↦ absurd h List.not_mem_nil, fun _ h ↦ absurd h List.not_mem_nil⟩

/-- The next number is free, in any month. -/
theorem Numbered.free (h : Numbered s) (now : Time) :
    ∀ inv ∈ s.invoices, inv.number ≠ Billing.invoiceNumber now s.invoices.rows.length := by
  intro inv hinv heq
  obtain ⟨_, k, hnumber, hk⟩ := h.below inv hinv
  have hcount := Billing.invoiceNumber_inj (hnumber.symm.trans heq)
  omega

/-- An invoice is there after a write as one that was there before, or as the
one that was inserted under a number nobody had. -/
theorem invoice_cases (h : Db.apply u s = some s') {inv : Invoice} (hinv : inv ∈ s'.invoices) :
    (∃ a ∈ s.invoices, a.id = inv.id ∧ a.number = inv.number) ∨
      u = .insertInvoice inv ∧ ∀ a ∈ s.invoices, a.number ≠ inv.number := by
  rcases Db.has_cases (y := .invoice inv) h hinv with ⟨x, hx, htouch⟩ | hadds
  · have hbecomes : x.Becomes (.invoice inv) := htouch ▸ .self_touch u x
    cases hbecomes with
    | invoice a => exact Or.inl ⟨a, hx, rfl, rfl⟩
  · have hinsert : u = .insertInvoice inv := by
      cases u <;> cases hadds
      rfl
    subst hinsert
    exact Or.inr ⟨rfl, (Option.ite_none_right_eq_some.mp h).1.2⟩

/-- The terms of numbering: a number is written when as many invoices are
there as were counted. -/
def numbering : Contract machine Unit where
  le := fun s t ↦ s.invoices.rows.length ≤ t.invoices.rows.length
  inv := fun _ s ↦ Numbered s
  due := fun u s ↦ ∀ inv, u = .insertInvoice inv → NumberBelow (s.invoices.rows.length + 1) inv
  next := fun _ d ↦ d
  refl := fun _ ↦ le_rfl
  trans := le_trans
  up := by
    intro u s s' happ
    rw [length_invoices happ]
    omega
  mono := by
    intro u s s' t t' hst hs ht
    rw [length_invoices hs, length_invoices ht]
    omega
  due_mono := by
    intro u s t hst hdue inv hinv
    exact (hdue inv hinv).mono (by omega)
  keep := by
    intro u d s s' hI hdue happ
    have hlength := length_invoices happ
    constructor
    · intro inv hinv
      rcases invoice_cases happ hinv with ⟨a, ha, _, hnumber⟩ | ⟨rfl, _⟩
      · obtain ⟨now, k, hk, hlt⟩ := hI.below a ha
        exact ⟨now, k, hnumber.symm.trans hk, by omega⟩
      · rw [hlength]
        exact hdue inv rfl
    · intro inv hinv inv' hinv' hsame
      rcases invoice_cases happ hinv with ⟨a, ha, hid, hnumber⟩ | ⟨hnew, hfree⟩ <;>
        rcases invoice_cases happ hinv' with ⟨b, hb, hid', hnumber'⟩ | ⟨hnew', hfree'⟩
      · rw [← hid, ← hid']
        exact hI.once a ha b hb (hnumber.trans (hsame.trans hnumber'.symm))
      · exact absurd (hnumber.trans hsame) (hfree' a ha)
      · exact absurd (hnumber'.trans hsame.symm) (hfree b hb)
      · rw [hnew] at hnew'
        cases hnew'
        rfl

/-- Programs that insert no invoice. -/
theorem honours_of_within {cs : List Change} {α : Type} {p : Tx α} (hp : Within cs p)
    (hcs : .insert .invoices ∉ cs) : numbering.Honours p (fun _ _ _ ↦ True) () s := by
  refine Contract.Honours.of_writesIn hp ?_ (fun _ _ ↦ rfl) fun _ _ _ ↦ trivial
  rintro _ hu t inv rfl
  exact absurd hu hcs

theorem honours_generateInvoice {firm : Firm} {periodStart periodEnd : Time} {issuedBy : String} :
    numbering.Honours (Billing.generateInvoice env firm periodStart periodEnd issuedBy)
      (fun _ _ _ ↦ True) () s := by
  unfold Billing.generateInvoice Billing.nextInvoiceNumber
  rw [Contract.honours_select_bind]
  intro t₁ _ _
  rw [Contract.honours_ensure_bind]
  intro _
  rw [Contract.honours_bind]
  refine Contract.Honours.of_writeless (writeless_describeAll _ _) fun lines t₂ _ ↦ ?_
  rw [Contract.honours_ask_bind]
  intro now
  rw [Prog.bind_assoc, Contract.honours_select_bind]
  intro t₃ _ _ id createdAt
  -- The count is that of `t₃`, where the invoice is written or later.
  refine ⟨?_, fun t t' _ _ _ ↦ ?_⟩
  · rintro _ ⟨⟩
    exact ⟨now, t₃.invoices.rows.length, rfl, Nat.lt_succ_self _⟩
  · refine honours_of_within (?_ : Within issuing _) (by decide)
    refine (Within.emitAll _ fun _ ↦ rfl).bind fun _ ↦ (within_issue _ _).bind fun _ ↦ ?_
    exact (Within.emit rfl).bind fun _ ↦ Within.recording rfl _ _ _ _ _ _

/-- Only invoicing inserts invoices. -/
theorem eq_generateInvoice {request : Api.Request}
    (h : .insert .invoices ∈ footprint request) :
    ∃ firmId periodStart periodEnd, request = .generateInvoice firmId periodStart periodEnd := by
  cases request <;> simp [footprint, judging, marking, settling] at h
  exact ⟨_, _, _, rfl⟩

theorem honours_numbering {http : Api.Http} :
    numbering.Honours (Api.serve env http) (fun _ _ _ ↦ True) () s := by
  by_cases hrequest : .insert .invoices ∈ footprint http.request
  · obtain ⟨firmId, periodStart, periodEnd, hrequest⟩ := eq_generateInvoice hrequest
    unfold Api.serve
    rw [hrequest]
    simp only [Api.rolesOf, Api.handle, Api.generateInvoice]
    rw [Contract.honours_bind]
    refine Contract.Honours.of_writeless (Auth.writeless_currentActor env _ _ _) ?_
    intro actor t _
    rw [Contract.honours_bind]
    refine Contract.Honours.of_writeless ?_ fun firm t' _ ↦ ?_
    · exact (Prog.Writeless.select _ _).bind fun _ ↦ Prog.Writeless.getSome _ _
    · rw [Contract.honours_bind, Contract.honours_mapErr]
      exact honours_generateInvoice.imp fun _ _ _ _ _ ↦ trivial
  · exact honours_of_within (within_serve http) hrequest

theorem Reached.numbered (h : Reached env s) : Numbered s :=
  h.inv_of_honours (C := numbering) numbered_empty fun _ _ ↦ honours_numbering

/-- In every state the API reaches, whatever ran at the same time, each number
is used once and counts fewer invoices than there are, and the next number is
free in every month. -/
theorem numbers_are_free (h : Reached env s) :
    (∀ inv ∈ s.invoices, ∃ now k, inv.number = Billing.invoiceNumber now k ∧
      k < s.invoices.rows.length) ∧
    (∀ inv ∈ s.invoices, ∀ inv' ∈ s.invoices, inv.number = inv'.number → inv = inv') ∧
    ∀ now, ∀ inv ∈ s.invoices,
      inv.number ≠ Billing.invoiceNumber now s.invoices.rows.length := by
  refine ⟨h.numbered.below, fun inv hinv inv' hinv' hsame ↦ ?_, h.numbered.free⟩
  exact Table.eq_of_key hinv hinv' (h.numbered.once inv hinv inv' hinv' hsame)

/-- Two invoices for one event, and still the third number is free. -/
theorem numbers_are_free_staleUsage :
    ∃ S, machine.play Development.answers Invoicing.staleUsage 100 Invoicing.invoicing = some S ∧
      S.store.invoices.rows.length = 2 ∧
        ∀ now, ∀ inv ∈ S.store.invoices, inv.number ≠ Billing.invoiceNumber now 2 := by
  have hplay : (machine.play Development.answers Invoicing.staleUsage 100
      Invoicing.invoicing).map (fun S ↦ S.store.invoices.rows.length) = some 2 := by
    decide +kernel
  obtain ⟨S, hS, hlength⟩ := Option.map_eq_some_iff.mp hplay
  have hreached : Reached Development.env S.store :=
    .mk (Development.run_spec Development.firstApproval) (Machine.interleaves_of_play hS)
  refine ⟨S, hS, hlength, ?_⟩
  rw [← hlength]
  exact (numbers_are_free hreached).2.2

section Steps

variable {α : Type} {w : ℕ} {Q : α → Db → ℕ → Prop}

/-- Lines whose projects are found are described, at the same amounts. -/
theorem exists_describeAll (env : Env) (firm : Firm) {rows : List LineItem}
    (hrows : ∀ row ∈ rows, ∃ p, s.projects.find? row.projectId = some p) :
    ∃ lines, (Billing.describeAll env firm rows).answer s = some (.ok lines) ∧
      lines.map LineItem.amountCents = rows.map LineItem.amountCents := by
  induction rows with
  | nil => exact ⟨[], rfl, rfl⟩
  | cons row rows ih =>
      rw [List.forall_mem_cons] at hrows
      obtain ⟨p, hp⟩ := hrows.1
      obtain ⟨lines, hlines, hamounts⟩ := ih hrows.2
      refine ⟨{ row with description := Billing.lineDescription env firm p row } :: lines, ?_, ?_⟩
      · unfold Billing.describeAll
        rw [Prog.answer_select_bind, hp, Prog.answer_getSome_bind]
        exact Prog.answer_bind_ok hlines
      · rw [List.map_cons, List.map_cons, hamounts]

theorem can_ensureCustomer (firm : Firm) :
    machine.Can (StripeGateway.ensureCustomer env firm) s w fun _ s' _ ↦ s' = s := by
  unfold StripeGateway.ensureCustomer
  split
  · rfl
  · split
    · exact ⟨some "", w, rfl, rfl⟩
    · rfl

theorem can_createItems (customer : Option String) (inv : Invoice) (items : List LineItem) :
    machine.Can (StripeGateway.createItems customer inv items) s w fun _ s' _ ↦ s' = s := by
  induction items with
  | nil => rfl
  | cons item items ih => exact ⟨some (), w, rfl, ih⟩

theorem can_pushInvoice (firm : Firm) (inv : Invoice) :
    machine.Can (StripeGateway.pushInvoice env firm inv) s w fun _ s' _ ↦ s' = s := by
  unfold StripeGateway.pushInvoice
  split
  · refine Machine.can_bind_of_forall (can_createItems _ _ _) ?_
    rintro _ _ w₁ rfl
    exact ⟨some "", w₁, rfl, some ("", none), w₁, rfl, some (), w₁, rfl, rfl⟩
  · exact ⟨"", w, rfl, rfl⟩

/-- Stripe can answer every call. -/
theorem can_issue (firm : Firm) (inv : Invoice) :
    machine.Can (Billing.issue env firm inv) s w fun _ _ _ ↦ True := by
  unfold Billing.issue
  split
  · refine Machine.can_bind_of_forall (can_ensureCustomer firm) fun customer s₁ w₁ _ ↦ ?_
    rw [Machine.can_emit_bind_of_apply rfl]
    refine Machine.can_bind_of_forall (can_pushInvoice _ _) fun pushed s₂ w₂ _ ↦ ?_
    rw [Machine.can_emit_bind_of_apply rfl, Machine.can_emit_bind_of_apply rfl]
    trivial
  · rw [Machine.can_emit_bind_of_apply rfl]
    trivial

end Steps

theorem exists_event {events : List UsageEvent} {row : LineItem}
    (h : row ∈ Billing.grouped events) : ∃ ev ∈ events, ev.projectId = row.projectId := by
  rw [Billing.grouped_eq] at h
  obtain ⟨ev, hev, hgroup⟩ := Billing.lineRollup.exists_item h
  exact ⟨ev, hev, congrArg Prod.fst hgroup⟩

/-- The number a write stores as a subtotal. -/
def subtotalOf : Write → Option ℤ
  | .insertInvoice inv => some inv.subtotalCents
  | _ => none

/-- A write that the database has room for, where its column for subtotals holds
the numbers that meet `fits`. -/
def Storable (fits : ℤ → Prop) (u : Write) : Prop :=
  ∀ cents ∈ subtotalOf u, fits cents

instance (fits : ℤ → Prop) [DecidablePred fits] : DecidablePred (Storable fits) :=
  fun u ↦ inferInstanceAs (Decidable (∀ cents ∈ subtotalOf u, fits cents))

/-- The machine of a database whose subtotals meet `fits`. -/
def storing (fits : ℤ → Prop) [DecidablePred fits] : Machine Db Write Call Reply ℕ :=
  machine.taking (Storable fits)

theorem storable_of_mem {fits : ℤ → Prop} {cs : List Change} (hcs : .insert .invoices ∉ cs)
    (hu : u.change ∈ cs) : Storable fits u := by
  cases u with
  | insertInvoice inv => exact absurd hu hcs
  | _ => exact fun _ h ↦ nomatch h

section Invoicing

variable {fits : ℤ → Prop} [DecidablePred fits]

/-- Usage can be invoiced whenever there is any and its amounts add up to a number
that the column holds: its projects are found, and the number is free. -/
theorem Reached.servable_generateInvoice_iff (h : Reached env s) {w : ℕ} (firm : Firm)
    (periodStart periodEnd : Time) (issuedBy : String) :
    (storing fits).Servable (Billing.generateInvoice env firm periodStart periodEnd issuedBy) s w ↔
      Billing.uninvoiced env s firm.id periodStart periodEnd ≠ [] ∧
        fits (Billing.amounts (Billing.uninvoiced env s firm.id periodStart periodEnd)) := by
  set events := Billing.uninvoiced env s firm.id periodStart periodEnd with hevents
  have hprojects : ∀ row ∈ Billing.grouped events, ∃ p,
      s.projects.find? row.projectId = some p := by
    intro row hrow
    obtain ⟨ev, hev, hproject⟩ := exists_event hrow
    have hgrounds : UsageGrounds env s ev :=
      h.grounded (x := .usageEvent ev) (Ledger.mem_uninvoiced.mp hev).1
    obtain ⟨p, hp, hpid, _⟩ := hgrounds.project
    exact find?_of_key ⟨p, hp, hpid.trans hproject⟩
  obtain ⟨lines, hlines, hamounts⟩ := exists_describeAll env firm hprojects
  have hsubtotal : (lines.map LineItem.amountCents).sum = Billing.amounts events := by
    rw [hamounts]
    exact (Billing.tallies_grouped events).total
  unfold Machine.Servable Billing.generateInvoice Billing.nextInvoiceNumber
  rw [Machine.can_select_bind, Machine.can_ensure_bind, Machine.can_bind_of_answer hlines]
  simp only [Except.ok.injEq, exists_eq_left', Session.now, Session.uuid4, Machine.can_ask_bind,
    Prog.bind_assoc, Machine.can_select_bind]
  refine and_congr_right fun _ ↦ ⟨?_, fun hfits ↦ ?_⟩
  · -- The subtotal is written in every course that returns.
    rintro ⟨now, w₁, _, id, w₂, _, createdAt, w₃, _, hcan⟩
    obtain ⟨hstored, _⟩ := Machine.can_taking_emit_bind.mp hcan
    rw [← hsubtotal]
    exact hstored _ rfl
  · obtain ⟨id, hid⟩ := s.invoices.exists_vacant
    refine ⟨0, w, rfl, id, w, rfl, 0, w, rfl, ?_⟩
    refine Machine.can_taking_emit_bind.mpr ⟨?_, _, if_pos ⟨hid, h.numbered.free 0⟩, ?_⟩
    · rintro _ ⟨⟩
      rw [← hsubtotal] at hfits
      exact hfits
    · refine (Machine.can_taking_iff ?_).mpr ?_
      · -- What is left writes no subtotal.
        refine Prog.WritesIn.mono ?_ (?_ : Within issuing _)
        · exact fun _ hu ↦ storable_of_mem (by decide) hu
        · refine (Within.emitAll events fun _ ↦ rfl).bind fun _ ↦ (within_issue _ _).bind fun _ ↦ ?_
          exact (Within.emit rfl).bind fun _ ↦ Within.recording rfl _ _ _ _ _ _
      · refine Machine.can_bind_of_forall (Machine.can_emitAll ?_) fun _ s₁ w₁ _ ↦ ?_
        · intro u hu t
          obtain ⟨ev, _, rfl⟩ := List.mem_map.mp hu
          exact ⟨_, rfl⟩
        · refine Machine.can_bind_of_forall (can_issue _ _) fun _ s₂ w₂ _ ↦ ?_
          rw [Machine.can_emit_bind_of_apply rfl]
          exact Audit.can_record_bind fun _ _ _ ↦ trivial

/-- On every database that requests lead to, an invoice is served exactly when
its sender is internal, the firm has uninvoiced usage in the period, and its
amounts add up to a number that the column for subtotals holds. -/
theorem invoice_served_iff (h : Reached env s) {w : ℕ} {authorization xActorId : Option String}
    {firmId : String} {periodStart periodEnd : Time} :
    (storing fits).Servable (Api.serve env
        ⟨authorization, xActorId, .generateInvoice firmId periodStart periodEnd⟩) s w ↔
      ∃ actor firm, Api.Authenticates env s authorization xActorId actor ∧
        actor.role ∈ Api.internal ∧ s.firms.find? firmId = some firm ∧
          (∃ ev ∈ s.usageEvents, Ledger.Due firm.id periodStart periodEnd ev) ∧
            fits (Billing.amounts
              (Billing.uninvoiced env s firm.id periodStart periodEnd)) := by
  have husage (firm : Firm) : Billing.uninvoiced env s firm.id periodStart periodEnd ≠ [] ↔
      ∃ ev ∈ s.usageEvents, Ledger.Due firm.id periodStart periodEnd ev := by
    constructor
    · intro hne
      obtain ⟨ev, hev⟩ := List.exists_mem_of_ne_nil _ hne
      exact ⟨ev, Ledger.mem_uninvoiced.mp hev⟩
    · rintro ⟨ev, hev⟩
      exact List.ne_nil_of_mem (Ledger.mem_uninvoiced.mpr hev)
  unfold Machine.Servable Api.serve
  simp only [Api.rolesOf, Api.handle, Api.generateInvoice, Api.getFirm]
  rw [Auth.can_currentActor_bind]
  simp only [Api.can_getOr404_bind, ← husage]
  refine exists_congr fun actor ↦ ⟨?_, ?_⟩
  · rintro ⟨hactor, hrole, firm, hfirm, hcan⟩
    rw [Machine.can_bind, Machine.can_mapErr] at hcan
    exact ⟨firm, hactor, hrole, hfirm, (h.servable_generateInvoice_iff _ _ _ _).mp hcan⟩
  · rintro ⟨firm, hactor, hrole, hfirm, hdue⟩
    refine ⟨hactor, hrole, firm, hfirm, ?_⟩
    rw [Machine.can_bind, Machine.can_mapErr]
    exact (h.servable_generateInvoice_iff _ _ _ _).mpr hdue

end Invoicing

/-- The range of a 32-bit column. -/
def Integer32 (z : ℤ) : Prop :=
  -2147483648 ≤ z ∧ z ≤ 2147483647

instance : DecidablePred Integer32 :=
  fun _ ↦ inferInstanceAs (Decidable (_ ∧ _))

/-- After the first approval an invoice is served. -/
theorem invoice_served_iff_firstApproval :
    (storing Integer32).Servable (Api.serve Development.env
      (Development.http (.generateInvoice Development.firmId 0 1000)))
      (Development.run Development.firstApproval).2.1 0 := by
  have hfirm : ((Development.run Development.firstApproval).2.1.firms.find?
      Development.firmId).isSome = true := by decide +kernel
  have hdue : ∃ ev ∈ (Development.run Development.firstApproval).2.1.usageEvents.rows,
      Ledger.Due Development.firmId 0 1000 ev := by
    unfold Ledger.Due
    decide +kernel
  have hfits : Integer32 (Billing.amounts (Billing.uninvoiced Development.env
      (Development.run Development.firstApproval).2.1 Development.firmId 0 1000)) := by
    decide +kernel
  obtain ⟨firm, hfirm⟩ := Option.isSome_iff_exists.mp hfirm
  have hid : firm.id = Development.firmId := Table.key_of_find? hfirm
  refine (invoice_served_iff (.of_run (Development.run_spec _))).mpr
    ⟨_, firm, rfl, by decide, hfirm, ?_⟩
  rw [hid]
  exact ⟨hdue, hfits⟩

end Provenance

end HumanDataFactory
