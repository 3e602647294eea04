import HumanDataFactory.Ledger

/-!
# Invoices under interleaving

`generate_invoice` reads the uninvoiced usage, sums it into lines and attaches
it to a new invoice.  When all that it read is still uninvoiced at its commit,
the ledger stays balanced and no event is billed twice.  Otherwise only a clash
of invoice numbers stands between two invoices for the same usage, and the
invoices are counted after the usage was read.
-/

namespace HumanDataFactory

open Transact

namespace Invoicing

variable {env : Env} {s₀ s s' : Db}

/-- A call of `generate_invoice`. -/
structure InvoiceCall where
  authorization : Option String
  xActorId : Option String
  firmId : String
  periodStart : Time
  periodEnd : Time

def InvoiceCall.http (call : InvoiceCall) : Api.Http :=
  ⟨call.authorization, call.xActorId,
    .generateInvoice call.firmId call.periodStart call.periodEnd⟩

def ledgerOf (s : Db) : List Ledger.Account × Table String UsageEvent UsageEvent.id :=
  (Ledger.accounts s, s.usageEvents)

/-- A write that neither changes the ledger nor attaches an event. -/
structure Inert (u : Write) : Prop where
  keeps : machine.Keeps ledgerOf u
  attaches : ∀ id invoiceId, u ≠ .setInvoiceId id (some invoiceId)

/-- Columns of an invoice that are not in its account. -/
theorem keeps_of_modify {u : Write} {k : String} {f : Invoice → Invoice}
    {hf : ∀ a, (f a).id = a.id}
    (hu : ∀ s, Db.apply u s = some { s with invoices := s.invoices.modify k f hf })
    (haccount : ∀ a, Ledger.accountOf (f a) = Ledger.accountOf a) : machine.Keeps ledgerOf u := by
  intro s s' hs
  obtain rfl := Option.some.inj ((hu s).symm.trans hs)
  have haccounts : (s.invoices.modify k f hf).rows.map Ledger.accountOf = Ledger.accounts s :=
    Table.map_modify Ledger.accountOf fun a _ _ ↦ haccount a
  exact congrArg (fun x ↦ (x, s.usageEvents)) haccounts

theorem inert_setInvoiceStatus (id : String) (v : InvoiceStatus) :
    Inert (.setInvoiceStatus id v) :=
  ⟨keeps_of_modify (fun _ ↦ rfl) fun _ ↦ rfl, by simp⟩

theorem inert_setStripeInvoice (id : String) (stripeId url : Option String) :
    Inert (.setStripeInvoice id stripeId url) :=
  ⟨keeps_of_modify (fun _ ↦ rfl) fun _ ↦ rfl, by simp⟩

theorem inert_setIssuedAt (id : String) (v : Option Time) : Inert (.setIssuedAt id v) :=
  ⟨keeps_of_modify (fun _ ↦ rfl) fun _ ↦ rfl, by simp⟩

theorem inert_setStripeCustomerId (id : String) (v : Option String) :
    Inert (.setStripeCustomerId id v) := by
  refine ⟨?_, by simp⟩
  intro s s' h
  obtain rfl := Option.some.inj h
  rfl

theorem inert_insertAuditEvent (ev : AuditEvent) : Inert (.insertAuditEvent ev) := by
  refine ⟨?_, by simp⟩
  intro s s' h
  obtain rfl := Option.some.inj h
  rfl

theorem writesIn_issue (firm : Firm) (inv : Invoice) :
    (Billing.issue env firm inv).WritesIn Inert := by
  unfold Billing.issue
  split
  · refine (StripeGateway.writeless_ensureCustomer env firm).writesIn.bind fun _ ↦ ?_
    refine (Prog.WritesIn.emit (inert_setStripeCustomerId _ _)).bind fun _ ↦ ?_
    refine (StripeGateway.writeless_pushInvoice env _ _).writesIn.bind fun _ ↦ ?_
    exact (Prog.WritesIn.emit (inert_setStripeInvoice _ _ _)).bind fun _ ↦
      (Prog.WritesIn.emit (inert_setInvoiceStatus _ _)).bind fun _ ↦ .pure _
  · exact (Prog.WritesIn.emit (inert_setInvoiceStatus _ _)).bind fun _ ↦ .pure _

/-- The writes of a call: an invoice, and the events that its lines sum up. -/
structure Bills (ws : List Write) (inv : Invoice) (events : List UsageEvent) : Prop where
  lines : inv.lineItems.map Billing.undescribed = Billing.grouped events
  subtotal : inv.subtotalCents = (inv.lineItems.map LineItem.amountCents).sum
  writes : ∃ us : List Write, (∀ u ∈ us, Inert u) ∧ ws = .insertInvoice inv ::
    (events.map fun ev ↦ .setInvoiceId ev.id (some inv.id)) ++ us

section Runs

variable {ws₀ ws : List Write} {seen : List (Query × Db)}

theorem runs_describeAll {firm : Firm} {rows lines : List LineItem}
    (h : machine.Runs (Billing.describeAll env firm rows) ws₀ seen ws lines) :
    lines.map Billing.undescribed = rows.map Billing.undescribed ∧ ws = ws₀ := by
  induction rows generalizing lines seen with
  | nil =>
      obtain ⟨_, rfl, rfl⟩ := h
      exact ⟨rfl, rfl⟩
  | cons row rows ih =>
      unfold Billing.describeAll at h
      rw [Machine.runs_select_bind] at h
      obtain ⟨s, v, seen₁, rfl, _, h⟩ := h
      rw [Machine.runs_getSome_bind] at h
      obtain ⟨project, _, h⟩ := h
      rw [Machine.runs_bind] at h
      obtain ⟨rest, ws₁, seen₂, seen₃, rfl, hrest, rfl, rfl, rfl⟩ := h
      obtain ⟨hmap, rfl⟩ := ih hrest
      refine ⟨?_, rfl⟩
      rw [List.map_cons, List.map_cons, hmap]
      rfl

theorem runs_generateInvoice {firm : Firm} {periodStart periodEnd : Time} {issuedBy : String}
    {r : Invoice}
    (h : machine.Runs (Billing.generateInvoice env firm periodStart periodEnd issuedBy)
      [] seen ws r) :
    ∃ s inv, (.rows .usageEvents, s) ∈ seen ∧ inv.firmId = firm.id ∧
      Bills ws inv (Billing.uninvoiced env s firm.id periodStart periodEnd) := by
  unfold Billing.generateInvoice at h
  rw [Machine.runs_select_bind_nil] at h
  obtain ⟨s, seen₁, rfl, h⟩ := h
  rw [Machine.runs_ensure_bind, Machine.runs_bind] at h
  obtain ⟨_, lines, ws₁, seen₂, seen₃, rfl, hlines, h⟩ := h
  obtain ⟨hmap, rfl⟩ := runs_describeAll hlines
  rw [Billing.map_undescribed_grouped] at hmap
  rw [Machine.runs_ask_bind] at h
  obtain ⟨now, h⟩ := h
  unfold Billing.nextInvoiceNumber at h
  rw [Prog.bind_assoc, Machine.runs_select_bind_nil] at h
  obtain ⟨s₁, seen₄, rfl, h⟩ := h
  rw [Prog.monad_pure, Prog.pure_bind, Machine.runs_ask_bind] at h
  obtain ⟨id, h⟩ := h
  rw [Machine.runs_ask_bind] at h
  obtain ⟨createdAt, h⟩ := h
  rw [Machine.runs_emit_bind, Machine.runs_emitAll_bind, Machine.runs_bind] at h
  obtain ⟨issued, ws₂, seen₅, seen₆, rfl, hissue, h⟩ := h
  obtain ⟨us, rfl, hus⟩ := hissue.writesIn (writesIn_issue _ _)
  rw [Machine.runs_emit_bind, Machine.runs_bind] at h
  obtain ⟨aud, ws₃, seen₇, seen₈, rfl, hrecord, _, rfl, _⟩ := h
  obtain ⟨vs, rfl, hvs⟩ := hrecord.writesIn
    (Audit.record_writesIn env inert_insertAuditEvent _ _ _ _ _)
  refine ⟨s, Billing.newInvoice firm periodStart periodEnd issuedBy lines
    (Billing.invoiceNumber now s₁.invoices.rows.length) id createdAt, by simp, rfl, hmap, rfl,
    us ++ .setIssuedAt id (some now) :: vs, ?_, ?_⟩
  · intro u hu
    simp only [List.mem_append, List.mem_cons] at hu
    rcases hu with hu | rfl | hu
    · exact hus u hu
    · exact inert_setIssuedAt _ _
    · exact hvs u hu
  · simp [Billing.newInvoice]

/-- A call is let in, finds its firm and generates the invoice. -/
theorem runs_of_call {call : InvoiceCall} {r : Json}
    (h : machine.Runs (Api.serve env call.http) [] seen ws r) :
    ∃ firm issuedBy inv, firm.id = call.firmId ∧ ∃ seen', (∀ x ∈ seen', x ∈ seen) ∧
      machine.Runs (Billing.generateInvoice env firm call.periodStart call.periodEnd issuedBy)
        [] seen' ws inv := by
  change machine.Runs (Auth.currentActor env Api.internal call.authorization call.xActorId >>=
    fun actor ↦ Api.generateInvoice env actor call.firmId call.periodStart call.periodEnd)
    [] seen ws r at h
  rw [Machine.runs_bind] at h
  obtain ⟨actor, ws₁, seen₁, seen₂, rfl, hactor, h⟩ := h
  obtain rfl := hactor.of_writeless (Auth.writeless_currentActor env _ _ _)
  unfold Api.generateInvoice Api.getFirm Api.getOr404 at h
  rw [Prog.bind_assoc, Machine.runs_select_bind_nil] at h
  obtain ⟨s, seen₃, rfl, h⟩ := h
  rw [Machine.runs_getSome_bind] at h
  obtain ⟨firm, hfirm, h⟩ := h
  rw [Machine.runs_bind] at h
  obtain ⟨inv, ws₂, seen₄, seen₅, rfl, hgenerate, rfl, rfl, _⟩ := h
  rw [Machine.runs_mapErr] at hgenerate
  exact ⟨firm, _, inv, Table.key_of_find? hfirm, seen₄, fun x hx ↦ by simp [hx], hgenerate⟩

/-- A call bills what it saw uninvoiced in one committed state. -/
theorem runs_invoiceCall {call : InvoiceCall} {r : Json}
    (h : machine.Runs (Api.serve env call.http) [] seen ws r) :
    ∃ s inv, (.rows .usageEvents, s) ∈ seen ∧ inv.firmId = call.firmId ∧
      Bills ws inv
        (Billing.uninvoiced env s call.firmId call.periodStart call.periodEnd) := by
  obtain ⟨firm, issuedBy, _, hkey, seen', hseen, hgenerate⟩ := runs_of_call h
  obtain ⟨s, inv, hs, hof, hbills⟩ := runs_generateInvoice hgenerate
  rw [hkey] at hof hbills
  exact ⟨s, inv, hseen _ hs, hof, hbills⟩

end Runs

/-- An event without the invoice it is attached to. -/
def unbilled (ev : UsageEvent) : UsageEvent :=
  { ev with invoiceId := none }

theorem eq_of_unbilled {ev ev' : UsageEvent} (h : unbilled ev = unbilled ev')
    (hfree : ev.invoiceId = none) (hfree' : ev'.invoiceId = none) : ev = ev' := by
  have hself : ∀ e : UsageEvent, e.invoiceId = none → unbilled e = e := by
    intro e he
    simp [unbilled, ← he]
  rwa [hself ev hfree, hself ev' hfree'] at h

/-- The ledger while only invoices are issued; `s₀` is where it started. -/
structure Sound (s₀ s : Db) : Prop where
  balanced : Ledger.Balanced s
  events : s.usageEvents.rows.map unbilled = s₀.usageEvents.rows.map unbilled

/-- What was seen uninvoiced can still be swept, if it is still uninvoiced. -/
theorem Sound.sweepable {s₁ : Db} (hs : Sound s₀ s) (hs₁ : Sound s₀ s₁) {firmId : String}
    {periodStart periodEnd : Time}
    (hfree : ∀ ev ∈ Billing.uninvoiced env s₁ firmId periodStart periodEnd,
      ∀ r ∈ s.usageEvents, r.id = ev.id → r.invoiceId = none) :
    Ledger.Sweepable s (Billing.uninvoiced env s₁ firmId periodStart periodEnd) := by
  have hseen : Ledger.Sweepable s₁ (Billing.uninvoiced env s₁ firmId periodStart periodEnd) :=
    Ledger.sweepable_uninvoiced _ _ _
  refine ⟨?_, hseen.free, hseen.nodup⟩
  intro ev hev
  have hmem : unbilled ev ∈ s.usageEvents.rows.map unbilled := by
    rw [hs.events, ← hs₁.events]
    exact List.mem_map_of_mem (hseen.recorded ev hev)
  obtain ⟨r, hr, hsame⟩ := List.mem_map.mp hmem
  have hid : (unbilled r).id = (unbilled ev).id := congrArg UsageEvent.id hsame
  rwa [← eq_of_unbilled hsame (hfree ev hev r hr hid) (hseen.free ev hev)]

theorem issue_of_view {ws : List Write} {inv : Invoice} {events : List UsageEvent}
    (h : Bills ws inv events) (hsweep : Ledger.Sweepable s events)
    (hfirm : ∀ ev ∈ events, ev.firmId = inv.firmId) (hv : machine.view ws s = some s') :
    Ledger.Issue s s' inv events := by
  obtain ⟨us, hus, rfl⟩ := h.writes
  rw [List.cons_append, Machine.view_cons, machine_apply] at hv
  obtain ⟨s₁, hs₁, hv⟩ := Option.bind_eq_some_iff.mp hv
  obtain ⟨⟨hvac, hfresh⟩, hs₁⟩ := Option.ite_none_right_eq_some.mp hs₁
  obtain rfl := Option.some.inj hs₁
  rw [Machine.view_append, Billing.view_setInvoiceId, Option.bind_some] at hv
  have hledger := Machine.Keeps.view (fun u hu ↦ (hus u hu).keeps) hv
  exact ⟨hsweep, hvac, hfresh, h.lines, h.subtotal, hfirm, congrArg Prod.snd hledger,
    (congrArg Prod.fst hledger).trans (Ledger.accounts_push hvac rfl)⟩

theorem Sound.issue {inv : Invoice} {events : List UsageEvent} (hs : Sound s₀ s)
    (h : Ledger.Issue s s' inv events) : Sound s₀ s' := by
  refine ⟨h.balanced hs.balanced, ?_⟩
  rw [Ledger.rows_sweep h.sweepable h.events, List.map_map, ← hs.events]
  apply List.map_congr_left
  intro ev _
  change unbilled (if ev ∈ events then Ledger.billedTo inv.id ev else ev) = unbilled ev
  split <;> rfl

/-- The invoice of a committed call is on record, and the events it billed are
attached to it. -/
structure Settled (ws : List Write) (s : Db) : Prop where
  bills : ∃ inv events, Bills ws inv events ∧ Ledger.accountOf inv ∈ Ledger.accounts s
  attached : ∀ id invoiceId, .setInvoiceId id (some invoiceId) ∈ ws →
    ∃ ev ∈ s.usageEvents, ev.id = id ∧ ev.invoiceId = some invoiceId

theorem Settled.of_issue {ws : List Write} {inv : Invoice} {events : List UsageEvent}
    (hb : Bills ws inv events) (h : Ledger.Issue s s' inv events) : Settled ws s' := by
  refine ⟨⟨inv, events, hb, by rw [h.accounts]; simp⟩, ?_⟩
  intro id invoiceId hmem
  obtain ⟨us, hus, rfl⟩ := hb.writes
  simp only [List.cons_append, List.mem_cons, List.mem_append, List.mem_map, reduceCtorEq,
    false_or] at hmem
  rcases hmem with ⟨ev, hev, hset⟩ | hmem
  · simp only [Write.setInvoiceId.injEq, Option.some.injEq] at hset
    obtain ⟨rfl, rfl⟩ := hset
    refine ⟨Ledger.billedTo inv.id ev, (Ledger.mem_sweep h.sweepable h.events).mpr
      ⟨ev, h.sweepable.recorded ev hev, if_pos hev⟩, rfl, rfl⟩
  · exact absurd rfl ((hus _ hmem).attaches id invoiceId)

/-- A later invoice takes nothing that is attached already. -/
theorem Settled.later {ws : List Write} {inv : Invoice} {events : List UsageEvent}
    (hw : Settled ws s) (h : Ledger.Issue s s' inv events) : Settled ws s' := by
  obtain ⟨⟨inv', events', hb, haccount⟩, hattached⟩ := hw
  refine ⟨⟨inv', events', hb, by rw [h.accounts]; exact List.mem_append_left _ haccount⟩, ?_⟩
  intro id invoiceId hmem
  obtain ⟨ev, hev, hid, hset⟩ := hattached id invoiceId hmem
  exact ⟨ev, Ledger.mem_sweep_of_billed h.sweepable h.events hev (by simp [hset]), hid, hset⟩

/-- Two calls that billed the same event billed it to the same invoice. -/
theorem Settled.once {ws ws' : List Write} (h : Settled ws s) (h' : Settled ws' s)
    {inv inv' : Invoice} {events events' : List UsageEvent} (hb : Bills ws inv events)
    (hb' : Bills ws' inv' events') {ev ev' : UsageEvent} (hev : ev ∈ events)
    (hev' : ev' ∈ events') (hid : ev.id = ev'.id) : inv.id = inv'.id := by
  have hwrite : ∀ {ws inv events}, Bills ws inv events → ∀ ev ∈ events,
      Write.setInvoiceId ev.id (some inv.id) ∈ ws := by
    rintro ws inv events ⟨_, _, us, _, rfl⟩ ev hev
    simp only [List.cons_append, List.mem_cons, List.mem_append, List.mem_map]
    exact Or.inr (Or.inl ⟨ev, hev, rfl⟩)
  obtain ⟨r, hr, hrid, hset⟩ := h.attached _ _ (hwrite hb ev hev)
  obtain ⟨r', hr', hrid', hset'⟩ := h'.attached _ _ (hwrite hb' ev' hev')
  obtain rfl := Table.eq_of_key hr hr' (hrid.trans (hid.trans hrid'.symm))
  exact Option.some.inj (hset.symm.trans hset')

theorem unitCharges_of_events (hs : Sound s₀ s) (h : Ledger.UnitCharges s₀) :
    Ledger.UnitCharges s := by
  intro ev hev
  have hmem : unbilled ev ∈ s₀.usageEvents.rows.map unbilled := by
    rw [← hs.events]
    exact List.mem_map_of_mem hev
  obtain ⟨ev₀, hev₀, hsame⟩ := List.mem_map.mp hmem
  obtain ⟨hquantity, hamount⟩ := h ev₀ hev₀
  have hq : (unbilled ev₀).quantity = (unbilled ev).quantity := congrArg _ hsame
  have ha : (unbilled ev₀).amountCents = (unbilled ev).amountCents := congrArg _ hsame
  have hp : (unbilled ev₀).unitPriceCents = (unbilled ev).unitPriceCents := congrArg _ hsame
  exact ⟨hq.symm.trans hquantity, ha.symm.trans (hamount.trans hp)⟩

section Interleaving

variable {ι : Type}

/-- Every invoice accounts for the events attached to it, every committed call
billed some events on an invoice that is on record, and no event was billed
on two invoices. -/
structure Consistent (S : Sys ι Db Write Query Call Reply ℕ PyError Json) : Prop where
  accounted : ∀ inv ∈ S.store.invoices, Ledger.InvoiceAccounts S.store inv
  bills : ∀ i r ws seen, S.txn i = .committed r ws seen → ∃ inv events, Bills ws inv events ∧
    Ledger.accountOf inv ∈ Ledger.accounts S.store
  once : ∀ i r ws seen i' r' ws' seen', S.txn i = .committed r ws seen →
    S.txn i' = .committed r' ws' seen' → ∀ inv events inv' events', Bills ws inv events →
      Bills ws' inv' events' → ∀ ev ∈ events, ∀ ev' ∈ events', ev.id = ev'.id → inv.id = inv'.id

variable [DecidableEq ι]

variable (env) in
/-- The commit condition under which no event is billed twice: all that the
call saw uninvoiced still is. -/
def stillUninvoiced (calls : ι → InvoiceCall) : Machine.CommitCond ι Db Write Query :=
  fun i seen _ s ↦ ∀ s₁, (.rows .usageEvents, s₁) ∈ seen →
    ∀ ev ∈ Billing.uninvoiced env s₁ (calls i).firmId (calls i).periodStart (calls i).periodEnd,
      ∀ r ∈ s.usageEvents, r.id = ev.id → r.invoiceId = none

theorem consistent_of_stillUninvoiced {w₀ w₁ : ℕ} {tr : List (Served Api.Http Db Json)}
    (hstart : machine.Run (Api.serve env) Db.empty w₁ tr s₀ w₀) {calls : ι → InvoiceCall}
    {S : Sys ι Db Write Query Call Reply ℕ PyError Json}
    (h : machine.Steps (stillUninvoiced env calls)
      (.init s₀ w₀ fun i ↦ Api.serve env (calls i).http) S) : Consistent S := by
  have hkept := Ledger.kept_of_run hstart
  obtain ⟨hsound, hsettled⟩ := Machine.Steps.invariant_committed (J := fun s _ ↦ Sound s₀ s)
    (K := Settled) (fun _ _ _ h _ ↦ h) ⟨hkept.balanced, rfl⟩ (by
      intro i r ws seen s s' w hs hh hfree hv
      obtain ⟨s₁, inv, hs₁, hof, hbills⟩ := runs_invoiceCall hh.runs
      obtain ⟨_, hsound₁⟩ := hh.of_mem_seen hs₁
      have hissue := issue_of_view hbills (hs.sweepable hsound₁ (hfree s₁ hs₁))
        (fun ev hev ↦ (Ledger.mem_uninvoiced.mp hev).2.1.trans hof.symm) hv
      exact ⟨hs.issue hissue, .of_issue hbills hissue, fun us hus ↦ hus.later hissue⟩) h
  have hunit := unitCharges_of_events hsound
    (Ledger.unitCharges_of_balanced hkept.sound.balanced)
  refine ⟨?_, fun i r ws seen ht ↦ (hsettled i r ws seen ht).bills, ?_⟩
  · intro inv hinv
    exact Ledger.invoiceAccounts_of_accounted
      (hsound.balanced.accounted _ (List.mem_map_of_mem hinv)) hunit
  · intro i r ws seen i' r' ws' seen' ht ht' inv events inv' events' hb hb' ev hev ev' hev' hid
    exact (hsettled i r ws seen ht).once (hsettled i' r' ws' seen' ht') hb hb' hev hev' hid

end Interleaving

/-- Another task is approved, at 58. -/
def twoApprovals : List Api.Request :=
  Development.firstApproval ++
    [.createTask Development.projectId ⟨"Explain the exception", [], false, none⟩,
      .createSubmission (Development.identifier 41) Development.authorId
        [("response", .str "It is deductible, too.")],
      .postHumanReview (Development.identifier 45) ⟨Development.reviewerId, .pass, none, ""⟩]

/-- A call for the first approval, at 36, and one for the second. -/
def twoWindows : Bool → InvoiceCall
  | false => ⟨none, none, Development.firmId, 0, 40⟩
  | true => ⟨none, none, Development.firmId, 40, 1000⟩

def invoicingBoth : Sys Bool Db Write Query Call Reply ℕ PyError Json :=
  .init (Development.run twoApprovals).2.1 (Development.run twoApprovals).2.2 fun i ↦
    Api.serve Development.env (twoWindows i).http

/-- The second call reads its usage, then the first runs and commits, then the
second goes on and commits. -/
def numberAfterCommit : List (Move Bool) :=
  List.replicate 3 (.advance true) ++ List.replicate 40 (.advance false) ++ [.commit false] ++
    List.replicate 40 (.advance true) ++ [.commit true]

theorem consistent_of_stillUninvoiced_twoWindows :
    ∃ S, machine.Steps (stillUninvoiced Development.env twoWindows) invoicingBoth S ∧
      S.Done ∧ S.store.invoices.rows.map Invoice.subtotalCents = [1500, 1500] ∧
      Consistent S := by
  have hplay : (machine.play Development.answers numberAfterCommit 200 invoicingBoth).map
      (fun S ↦ (decide S.Done, S.store.invoices.rows.map Invoice.subtotalCents)) =
      some (true, [1500, 1500]) := by decide +kernel
  have hfree : ∀ c ∈ machine.commits Development.answers numberAfterCommit 200 invoicingBoth,
      ∀ x ∈ c.2.1, x.1 = .rows .usageEvents →
        ∀ ev ∈ Billing.uninvoiced Development.env x.2 (twoWindows c.1).firmId
          (twoWindows c.1).periodStart (twoWindows c.1).periodEnd,
          ∀ r ∈ c.2.2.2.usageEvents.rows, r.id = ev.id → r.invoiceId = none := by
    decide +kernel
  obtain ⟨S, hS, hfinal⟩ := Option.map_eq_some_iff.mp hplay
  simp only [Prod.mk.injEq, decide_eq_true_eq] at hfinal
  have hsteps : machine.Steps (stillUninvoiced Development.env twoWindows) invoicingBoth S :=
    Machine.steps_of_play hS fun c hc s₁ hs₁ ↦ hfree c hc _ hs₁ rfl
  exact ⟨S, hsteps, hfinal.1, hfinal.2,
    consistent_of_stillUninvoiced (Development.run_spec twoApprovals) hsteps⟩

def approvedStore : Db := (Development.run Development.firstApproval).2.1

def sameWindow : Bool → InvoiceCall :=
  fun _ ↦ ⟨none, none, Development.firmId, 0, 1000⟩

def invoicing : Sys Bool Db Write Query Call Reply ℕ PyError Json :=
  .init approvedStore (Development.run Development.firstApproval).2.2 fun i ↦
    Api.serve Development.env (sameWindow i).http

/-- The first call reads the usage, then the second runs and commits, then the
first goes on: it counts one invoice more, so the numbers do not clash. -/
def staleUsage : List (Move Bool) :=
  List.replicate 2 (.advance false) ++ List.replicate 40 (.advance true) ++ [.commit true] ++
    List.replicate 40 (.advance false) ++ [.commit false]

/-- Both invoices bill the one event, which is attached to the later one. -/
theorem billed_twice :
    ¬∀ S, machine.Interleaves invoicing S → S.Done → Consistent S := by
  intro hclaim
  have hplay : (machine.play Development.answers staleUsage 100 invoicing).map (fun S ↦
      (decide S.Done, S.store.invoices.rows.map fun inv ↦
        (inv.subtotalCents,
          ((Ledger.attachedTo S.store inv.id).map UsageEvent.amountCents).sum))) =
      some (true, [(1500, 0), (1500, 1500)]) := by decide +kernel
  obtain ⟨S, hS, hfinal⟩ := Option.map_eq_some_iff.mp hplay
  simp only [Prod.mk.injEq, decide_eq_true_eq] at hfinal
  obtain ⟨hdone, hinvoices⟩ := hfinal
  obtain ⟨inv, hinv, hsums⟩ := List.mem_map.mp (hinvoices ▸ List.mem_cons_self)
  simp only [Prod.mk.injEq] at hsums
  have haccounts := (hclaim S (Machine.interleaves_of_play hS) hdone).accounted inv hinv
  have hequal := haccounts.subtotalEvents
  omega

end Invoicing

end HumanDataFactory
