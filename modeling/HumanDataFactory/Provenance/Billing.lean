import HumanDataFactory.Provenance.Workflow

/-!
# Billing keeps to the terms

Invoices are issued and paid under the caller's name; what a webhook settles
is recorded as an event of the engine.
-/

namespace HumanDataFactory

open Transact

namespace Provenance

variable {env : Env} {A : Authority env} {s : Db} {actor : Auth.Actor}

theorem writeless_describeAll (firm : Firm) (rows : List LineItem) :
    (Billing.describeAll env firm rows).Writeless := by
  induction rows with
  | nil => exact .pure _
  | cons row rows ih =>
      exact (Prog.Writeless.select _ _).bind fun _ ↦ (Prog.Writeless.getSome _ _).bind fun _ ↦
        ih.bind fun _ ↦ .pure _

theorem settles_issue {firm : Firm} {inv : Invoice} (hinv : InvoiceIs s inv.id firm.billingMode) :
    Settles A ∅ (Billing.issue env firm inv) (fun _ _ ↦ True) s := by
  unfold Billing.issue
  cases hmode : firm.billingMode with
  | stripe =>
      rw [hmode] at hinv
      refine (Settles.of_writeless (StripeGateway.writeless_ensureCustomer env firm)).bind
        fun customer t₁ h₁ _ ↦ ?_
      refine (Settles.emit (by exact trivial) (by simp [owes, Write.adds])).bind fun _ t₂ h₂ _ ↦ ?_
      refine (Settles.of_writeless (StripeGateway.writeless_pushInvoice env _ _)).bind
        fun pushed t₃ h₃ _ ↦ ?_
      have hinv₃ := hinv.mono (h₁.trans (h₂.trans h₃))
      obtain ⟨stripeId, url⟩ := pushed
      refine (Settles.emit (by exact hinv₃) (by simp [owes, Write.adds])).bind fun _ t₄ h₄ _ ↦ ?_
      refine (Settles.emit ?_ (by simp [owes])).bind fun _ _ _ _ ↦ .pure trivial
      exact And.intro (fun h ↦ absurd h (by decide)) fun _ ↦ hinv₃.mono h₄
  | external =>
      rw [hmode] at hinv
      refine (Settles.emit ?_ (by simp [owes])).bind fun _ _ _ _ ↦ .pure trivial
      exact And.intro (fun _ ↦ hinv) fun h ↦ absurd h (by decide)

theorem settles_generateInvoice {firm : Firm} {periodStart periodEnd : Time}
    (hfirm : firm ∈ s.firms) (hactor : A.holds actor s) (hrole : actor.role ∈ Api.internal) :
    Settles A ∅ (Billing.generateInvoice env firm periodStart periodEnd actor.id)
      (fun _ _ ↦ True) s := by
  refine Settles.select_bind fun t₁ h₁ _ ↦ Settles.ensure_bind fun _ ↦ ?_
  refine (Settles.of_writeless (writeless_describeAll _ _)).bind fun lines t₂ h₂ _ ↦ ?_
  refine Settles.ask_bind fun now ↦ Settles.select_bind fun t₃ h₃ _ ↦ ?_
  refine Settles.ask_bind fun id ↦ Settles.ask_bind fun createdAt ↦ ?_
  have h₁₃ : t₁.Grows t₃ := h₂.trans h₃
  have hst : s.Grows t₃ := h₁.trans h₁₃
  obtain ⟨_, hfirm₃⟩ := hst.firm hfirm
  refine Settles.emit_bind ?_ fun t₄ h₄ hadds ↦ ?_
  · exact ⟨{
      firm := ⟨_, hfirm₃, rfl, rfl, rfl⟩
      subtotal := rfl
      issuer := by_known (A.mono hst hactor) hrole
      reference := fun h ↦ absurd rfl h
      stripe := fun h ↦ absurd rfl h
      issuedExternal := fun h ↦ absurd h (by simp [Billing.newInvoice])
      payOnline := fun h ↦ absurd h (by simp [Billing.newInvoice]) }, rfl⟩
  · have hinv := hadds _ rfl
    refine (Settles.emitAll ?_ (by simp [owes, Write.adds])).bind fun _ t₅ h₅ _ ↦ ?_
    · intro u hu
      obtain ⟨ev, hev, rfl⟩ := List.mem_map.mp hu
      have hmem := (env.orderBy_perm _ _).mem_iff.mp hev
      obtain ⟨hev, hof⟩ := List.mem_filter.mp hmem
      obtain ⟨_, hev₄⟩ := (h₁₃.trans h₄).usageEvent hev
      rintro i ⟨⟩
      exact ⟨_, hev₄, rfl, _, hinv, rfl, (of_decide_eq_true hof).1.symm⟩
    · have hinv₅ : InvoiceIs t₅ id firm.billingMode := InvoiceIs.mono h₅ ⟨_, hinv, rfl, rfl⟩
      refine (settles_issue hinv₅).bind fun issued t₆ h₆ _ ↦ ?_
      refine (Settles.emit (by exact trivial) (by simp [owes, Write.adds])).bind fun _ t₇ h₇ _ ↦ ?_
      have h₄₇ : t₄.Grows t₇ := h₅.trans (h₆.trans h₇)
      have hactor₇ := A.mono (hst.trans (h₄.trans h₄₇)) hactor
      refine (settles_sign hactor₇ ?_ (by decide) ?_).bind_paid fun _ _ _ _ ↦ .pure trivial
      · rintro roles ⟨⟩
        exact hrole
      · refine shows_created ?_ (by decide)
        simp [owes, Write.adds, deedsOf, Billing.newInvoice]

/-- The event that records a payment pays for it. -/
theorem shows_paid {invoiceId actorId action entityType : String} {payload : Json}
    (haction : action ∈ ["invoice.paid", "invoice.external_payment_recorded"]) (ev : AuditEvent)
    (hev : ev.entry = ⟨actorId, action, entityType, invoiceId, payload⟩) :
    ∀ d ∈ ∅ ∪ owes (.setInvoiceStatus invoiceId .paid), Shows ev d := by
  rintro d (hd | ⟨_, rfl⟩)
  · exact hd.elim
  · have hact : ev.action = action := congrArg Audit.Entry.action hev
    exact ⟨by rwa [hact], congrArg Audit.Entry.entityId hev⟩

theorem due_paid {holds : Auth.Actor → Db → Prop} (id : String) :
    Due env holds s (.setInvoiceStatus id .paid) :=
  And.intro (fun h ↦ absurd h (by decide)) fun h ↦ absurd h (by decide)

theorem settles_recordExternalPayment {inv : Invoice} {reference : String}
    (hinv : InvoiceIs s inv.id inv.mode) (hactor : A.holds actor s)
    (hrole : actor.role ∈ Api.internal) :
    Settles A ∅ (Billing.recordExternalPayment env inv reference actor.id) (fun _ _ ↦ True) s := by
  refine Settles.ensure_bind fun hmode ↦ Settles.ensure_bind fun _ ↦ ?_
  rw [hmode] at hinv
  refine Settles.emit_bind (due_paid _) fun t₁ h₁ _ ↦ ?_
  refine (Settles.emit (by exact hinv.mono h₁) (by simp [owes, Write.adds])).bind
    fun _ t₂ h₂ _ ↦ Settles.ask_bind fun now ↦ ?_
  refine (Settles.emit (by exact trivial) (by simp [owes, Write.adds])).bind fun _ t₃ h₃ _ ↦ ?_
  have hactor₃ := A.mono (h₁.trans (h₂.trans h₃)) hactor
  refine (settles_sign hactor₃ ?_ (by decide) (shows_paid (by decide))).bind_paid
    fun _ _ _ _ ↦ .pure trivial
  rintro roles ⟨⟩
  exact hrole

theorem settles_createCheckout {inv : Invoice} {firm : Firm} {successUrl cancelUrl : String}
    (hinv : ∃ b ∈ s.invoices, b.id = inv.id ∧ b.firmId = inv.firmId) (hactor : A.holds actor s)
    (hrole : actor.role ∈ Api.anyAuthenticated) (haccess : Auth.firmAccess actor inv.firmId) :
    Settles A ∅ (Billing.createCheckout env inv firm successUrl cancelUrl actor.id)
      (fun _ _ ↦ True) s := by
  refine Settles.ensure_bind fun _ ↦ Settles.ensure_bind fun _ ↦ ?_
  refine (Settles.of_writeless (StripeGateway.writeless_createCheckoutSession env _ _ _ _)).bind
    fun session t₁ h₁ _ ↦ ?_
  obtain ⟨sessionId, url⟩ := session
  refine (Settles.emit (by exact trivial) (by simp [owes, Write.adds])).bind fun _ t₂ h₂ _ ↦ ?_
  refine (Settles.record ?_ (by simp)).bind fun _ _ _ _ ↦ .pure trivial
  intro ev t₃ h₃ hev roles hroles
  have hst : s.Grows t₃ := h₁.trans (h₂.trans h₃)
  have haction : ev.action = "invoice.checkout_created" := congrArg Audit.Entry.action hev
  have hid : ev.actor = actor.id := congrArg Audit.Entry.actor hev
  have hentity : ev.entityId = inv.id := congrArg Audit.Entry.entityId hev
  rw [haction] at hroles
  cases hroles
  refine ⟨actor, A.mono hst hactor, hid.symm, hrole, fun _ ↦ ?_⟩
  obtain ⟨b, hb, hbid, hbfirm⟩ := hinv
  obtain ⟨c, hc, hcid, hcfirm, _⟩ := hst.invoice hb
  exact ⟨c, hc, (hcid.trans hbid).trans hentity.symm, by rwa [hcfirm, hbfirm]⟩

theorem settles_findCheckoutInvoice {obj : Json} :
    Settles A ∅ (Billing.findCheckoutInvoice obj)
      (fun found t ↦ ∀ inv, found = some inv → InvoiceIs t inv.id inv.mode) s := by
  have hget (key : Json) (s : Db) : Settles A ∅ (Billing.getInvoiceOf key)
      (fun found t ↦ ∀ inv, found = some inv → InvoiceIs t inv.id inv.mode) s := by
    unfold Billing.getInvoiceOf
    split
    · refine Settles.ofExcept_bind fun id _ ↦ ?_
      refine fun d d₀ hd t hst _ ↦ ⟨by simpa using hd, hst, ?_⟩
      exact fun inv hinv ↦ ⟨inv, Table.mem_of_find? hinv, rfl, rfl⟩
    · exact .pure (by simp)
  have hsession (key : Json) (s : Db) : Settles A ∅ (Billing.findBySession key)
      (fun found t ↦ ∀ inv, found = some inv → InvoiceIs t inv.id inv.mode) s := by
    unfold Billing.findBySession
    split
    · refine Settles.ofExcept_bind fun id _ ↦ Settles.select_bind fun t _ _ ↦ ?_
      refine Settles.imp (P := fun found u ↦ ∀ inv, found = some inv → InvoiceIs u inv.id inv.mode)
        ?_ fun _ _ _ h ↦ h
      cases hrows : Billing.bySession t id with
      | nil => exact .pure (by simp)
      | cons inv rest =>
          cases rest with
          | cons inv' rest => exact .raise _
          | nil =>
              have hmem : inv ∈ Billing.bySession t id := by simp [hrows]
              refine .pure ?_
              rintro _ ⟨⟩
              exact ⟨inv, (List.mem_filter.mp hmem).1, rfl, rfl⟩
    · exact .pure (by simp)
  refine Settles.ofExcept_bind fun id _ ↦ (hget id s).bind fun found t _ hfound ↦ ?_
  cases found with
  | some inv => exact .pure hfound
  | none => exact Settles.ofExcept_bind fun key _ ↦ hsession key t

theorem settles_completeCheckout {obj : Json} :
    Settles A ∅ (Billing.completeCheckout env obj) (fun _ _ ↦ True) s := by
  refine settles_findCheckoutInvoice.bind fun found t₁ _ hfound ↦ ?_
  cases found with
  | none => exact .pure trivial
  | some inv =>
      dsimp only
      split
      · exact .pure trivial
      · refine Settles.emit_bind (due_paid _) fun t₂ h₂ _ ↦ Settles.ask_bind fun now ↦ ?_
        refine (Settles.emit (by exact trivial) (by simp [owes, Write.adds])).bind
          fun _ t₃ h₃ _ ↦ ?_
        refine (Settles.writeIf ?_ (by simp [owes, Write.adds])).bind fun _ _ _ _ ↦ ?_
        · intro hmode
          have hinv := hfound inv rfl
          rw [hmode] at hinv
          exact hinv.mono (h₂.trans h₃)
        · exact (Settles.note_for rfl (shows_paid (by decide))).bind_paid
            fun _ _ _ _ ↦ .pure trivial

theorem settledStatus_cases {etype : String} {status : InvoiceStatus}
    (h : Billing.settledStatus etype = some status) : status = .paid ∨ status = .void := by
  unfold Billing.settledStatus at h
  split at h
  · exact Or.inl (Option.some.inj h).symm
  · split at h
    · exact Or.inr (Option.some.inj h).symm
    · cases h

theorem settles_settle {inv : Invoice} {etype stripeId : String} {status : InvoiceStatus}
    (hstatus : status = .paid ∨ status = .void) :
    Settles A ∅ (Billing.settle env inv etype stripeId status) (fun _ _ ↦ True) s := by
  rcases hstatus with rfl | rfl
  · refine Settles.emit_bind (due_paid _) fun t₁ _ _ ↦ ?_
    refine Settles.bind (P := fun _ _ ↦ True) ?_ fun _ t₂ _ _ ↦ ?_
    · exact Settles.ask_bind fun now ↦
        (Settles.emit (by exact trivial) (by simp [owes, Write.adds])).imp fun _ _ _ _ ↦ trivial
    · exact (Settles.note_for rfl (shows_paid (by decide))).bind_paid fun _ _ _ _ ↦ .pure trivial
  · refine (Settles.emit ?_ (by simp [owes])).bind fun _ t₁ _ _ ↦ ?_
    · exact And.intro (fun h ↦ absurd h (by decide)) fun h ↦ absurd h (by decide)
    · refine Settles.bind (P := fun _ _ ↦ True) (.pure trivial) fun _ t₂ _ _ ↦ ?_
      exact (Settles.note rfl).bind fun _ _ _ _ ↦ .pure trivial

theorem settles_handleStripeEvent {event : Json} :
    Settles A ∅ (Billing.handleStripeEvent env event) (fun _ _ ↦ True) s := by
  have happly (etype : String) (key : Json) :
      Settles A ∅ (Billing.applyInvoiceEvent env etype key) (fun _ _ ↦ True) s := by
    refine Settles.ofExcept_bind fun id _ ↦ Settles.select_bind fun t _ _ ↦ ?_
    refine Settles.scalarOneOrNone_bind fun found _ ↦ ?_
    cases found with
    | none => exact .pure trivial
    | some inv =>
        dsimp only
        split
        · rename_i status hstatus
          exact settles_settle (settledStatus_cases hstatus)
        · exact .pure trivial
  have hinvoice (etype obj : Json) :
      Settles A ∅ (Billing.invoiceEvent env etype obj) (fun _ _ ↦ True) s := by
    refine Settles.ofExcept_bind fun key _ ↦ ?_
    split
    · split
      · split
        · exact happly _ _
        · exact .pure trivial
      · exact .raise _
    · exact .pure trivial
  refine Settles.ofExcept_bind fun etype _ ↦ Settles.ofExcept_bind fun obj _ ↦ ?_
  split
  · exact settles_completeCheckout
  · exact hinvoice _ _

end Provenance

end HumanDataFactory
