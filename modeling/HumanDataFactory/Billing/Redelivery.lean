import HumanDataFactory.Billing.Webhooks
import HumanDataFactory.Development

/-!
# Events delivered twice

A second delivery of a completed checkout finds the invoice paid and leaves it
alone.  The branch for invoice events has no such guard: it stamps the payment
and records the event again.
-/

namespace HumanDataFactory

open Transact

namespace Billing

variable {env : Env} {event : Json} {inv : Invoice} {s s' : Db} {w w' : ℕ}

variable (env event) in
/-- A second delivery, at any later time, adds nothing to the first one. -/
def Idempotent (s : Db) (w : ℕ) : Prop :=
  ∀ r₁ s₁ w₁ w₁' r₂ s₂ w₂, machine.Exec (handleStripeEvent env event) s w r₁ s₁ w₁ →
    machine.Moves w₁ w₁' → machine.Exec (handleStripeEvent env event) s₁ w₁' r₂ s₂ w₂ →
      s₂.invoices = s₁.invoices ∧ s₂.auditEvents = s₁.auditEvents

/-- A checkout of a paid invoice changes nothing. -/
theorem exec_handle_paid {reference r : Json}
    (h : machine.Exec (handleStripeEvent env event) s w r s' w')
    (hseq : Audit.SeqBelow s.auditEvents w) (hcompletes : CompletesCheckout s event inv reference)
    (hpaid : inv.status = .paid) : s' = s := by
  obtain ⟨⟨act, hact, hperf⟩, _⟩ := exec_handleStripeEvent h hseq
  obtain rfl : act = .checkout inv reference :=
    Except.ok.inj (hact.symm.trans hcompletes.action)
  cases hperf with
  | alreadyPaid => rfl
  | completed hnot => exact absurd hpaid hnot

theorem idempotent_of_not_settles (hseq : Audit.SeqBelow s.auditEvents w)
    (hnot : ∀ inv etype stripeId status, ¬SettlesInvoice s event inv etype stripeId status) :
    Idempotent env event s w := by
  intro r₁ s₁ w₁ w₁' r₂ s₂ w₂ h₁ hw h₂
  obtain ⟨⟨act, hact, hperf⟩, hseq₁⟩ := exec_handleStripeEvent h₁ hseq
  have hseq₁' := hseq₁.mono (moves_le hw)
  rcases webhookAction_cases hact with rfl | ⟨inv, reference, hcompletes, rfl⟩ |
      ⟨inv, etype, stripeId, status, hsettles, rfl⟩
  · cases hperf
    obtain ⟨⟨act', hact', hperf'⟩, _⟩ := exec_handleStripeEvent h₂ hseq₁'
    obtain rfl : act' = .ignore := Except.ok.inj (hact'.symm.trans hact)
    cases hperf'
    exact ⟨rfl, rfl⟩
  · cases hperf with
    | alreadyPaid hpaid =>
        obtain rfl := exec_handle_paid h₂ hseq₁' hcompletes hpaid
        exact ⟨rfl, rfl⟩
    | completed hunpaid _ haud =>
        obtain rfl := exec_handle_paid h₂ hseq₁' (hcompletes.replace rfl (by rfl) (by rfl)) rfl
        exact ⟨rfl, rfl⟩
  · exact absurd hsettles (hnot inv etype stripeId status)

theorem exec_record_exists (env : Env) (actor action entityType entityId : String)
    (payload : Json) (s : Db) (w : ℕ) :
    ∃ ev s' w', machine.Exec (Audit.record env actor action entityType entityId payload)
      s w ev s' w' := by
  unfold Audit.record
  simp only [Machine.exec_select_bind, Machine.exec_ask_bind, Machine.exec_emit_bind,
    machine_accept, accept, machine_apply, Db.apply, Prog.monad_pure, Machine.exec_pure]
  exact ⟨_, _, _, w, w + 1, if_pos rfl, 0, w + 1, rfl, _, rfl, rfl, rfl, rfl⟩

theorem exec_markPaidAt_exists (inv : Invoice) (status : InvoiceStatus) (s : Db) (w : ℕ) :
    ∃ u s' w', machine.Exec (markPaidAt inv status) s w u s' w' := by
  cases status with
  | paid =>
      unfold markPaidAt
      simp only [Session.exec_now_bind, Machine.exec_emit, machine_apply, Db.apply]
      exact ⟨(), _, w, 0, rfl, rfl⟩
  | _ => exact ⟨(), s, w, Machine.exec_pure.mpr ⟨rfl, rfl, rfl⟩⟩

theorem exec_settle_exists (env : Env) (inv : Invoice) (etype stripeId : String)
    (status : InvoiceStatus) (s : Db) (w : ℕ) :
    ∃ r s' w', machine.Exec (settle env inv etype stripeId status) s w r s' w' := by
  obtain ⟨u, s₁, w₁, hmark⟩ := exec_markPaidAt_exists inv status { s with
    invoices := s.invoices.modify inv.id (fun i ↦ { i with status := status }) fun _ ↦ rfl } w
  obtain ⟨ev, s₂, w₂, hrecord⟩ := exec_record_exists env "stripe-webhook"
    s!"invoice.{status.value}" "invoice" inv.id
    (.obj [("stripe_event", .str etype), ("stripe_invoice_id", .str stripeId)]) s₁ w₁
  refine ⟨handled inv status, s₂, w₂, ?_⟩
  unfold settle
  rw [Machine.exec_emit_bind]
  refine ⟨_, rfl, Machine.exec_bind.mpr ⟨u, s₁, w₁, hmark, ?_⟩⟩
  exact Machine.exec_bind.mpr ⟨ev, s₂, w₂, hrecord, rfl, rfl, rfl⟩

theorem exec_handle_exists {etype stripeId : String} {status : InvoiceStatus}
    (h : SettlesInvoice s event inv etype stripeId status) (env : Env) (w : ℕ) :
    ∃ r s' w', machine.Exec (handleStripeEvent env event) s w r s' w' := by
  obtain ⟨r, s', w', hsettle⟩ := exec_settle_exists env inv etype stripeId status s w
  obtain ⟨obj, hobj, hkey⟩ := h.object
  have htruthy : (Json.str stripeId).truthy = true := by simpa [Json.truthy] using h.nonempty
  refine ⟨r, s', w', ?_⟩
  unfold handleStripeEvent
  rw [Machine.exec_ofExcept_bind]
  refine ⟨_, h.type, ?_⟩
  rw [Machine.exec_ofExcept_bind]
  refine ⟨obj, hobj, ?_⟩
  rw [if_neg h.not_checkout]
  unfold invoiceEvent
  rw [Machine.exec_ofExcept_bind]
  refine ⟨_, hkey, ?_⟩
  rw [if_pos htruthy]
  simp only [startsWith_of_settledStatus h.settles, if_true]
  unfold applyInvoiceEvent
  rw [Machine.exec_ofExcept_bind]
  refine ⟨stripeId, rfl, ?_⟩
  rw [Machine.exec_select_bind, Machine.exec_bind]
  refine ⟨some inv, s, w, Session.exec_scalarOneOrNone.mpr ⟨h.known, rfl, rfl⟩, ?_⟩
  simp only [h.settles]
  exact hsettle

/-- Every delivery that settles an invoice is recorded. -/
theorem exec_handle_settles {etype stripeId : String} {status : InvoiceStatus} {r : Json}
    (h : machine.Exec (handleStripeEvent env event) s w r s' w')
    (hseq : Audit.SeqBelow s.auditEvents w)
    (hsettles : SettlesInvoice s event inv etype stripeId status) :
    (∃ inv', SettlesInvoice s' event inv' etype stripeId status) ∧
      s'.auditEvents.length = s.auditEvents.length + 1 ∧ Audit.SeqBelow s'.auditEvents w' := by
  obtain ⟨⟨act, hact, hperf⟩, hseq'⟩ := exec_handleStripeEvent h hseq
  obtain rfl : act = .settle inv etype stripeId status :=
    Except.ok.inj (hact.symm.trans hsettles.action)
  cases hperf with
  | settled haud =>
      exact ⟨⟨_, hsettles.replace rfl (by rfl) (by rfl)⟩, by simp, hseq'⟩

/-- Deliveries are idempotent exactly for the events that settle no invoice by
its Stripe identifier. -/
theorem idempotent_iff (hseq : Audit.SeqBelow s.auditEvents w) :
    Idempotent env event s w ↔
      ∀ inv etype stripeId status, ¬SettlesInvoice s event inv etype stripeId status := by
  refine ⟨?_, idempotent_of_not_settles hseq⟩
  intro hidem inv etype stripeId status hsettles
  obtain ⟨r₁, s₁, w₁, h₁⟩ := exec_handle_exists hsettles env w
  obtain ⟨⟨inv', hsettles'⟩, _, hseq₁⟩ := exec_handle_settles h₁ hseq hsettles
  obtain ⟨r₂, s₂, w₂, h₂⟩ := exec_handle_exists hsettles' env w₁
  obtain ⟨_, hlength, _⟩ := exec_handle_settles h₂ hseq₁ hsettles'
  have hsame := (hidem r₁ s₁ w₁ w₁ r₂ s₂ w₂ h₁ .refl h₂).2
  rw [hsame] at hlength
  omega

/-- The completed checkout of the first invoice may come twice. -/
theorem idempotent_iff_checkoutCompleted :
    Idempotent Development.env (Development.checkoutCompleted "pi_1")
        (Development.run Development.firstInvoice).2.1
        (Development.run Development.firstInvoice).2.2 := by
  have hbelow : ∀ e ∈ (Development.run Development.firstInvoice).2.1.auditEvents,
      e.seq < (Development.run Development.firstInvoice).2.2 := by
    decide +kernel
  refine (idempotent_iff hbelow).mpr fun inv etype stripeId status hsettles ↦ ?_
  have htype : (Development.checkoutCompleted "pi_1").getD "type" (.str "") =
      .ok (.str "checkout.session.completed") := rfl
  obtain rfl := Json.str.inj (Except.ok.inj (htype.symm.trans hsettles.type))
  exact hsettles.not_checkout (by decide)

/-- A payment of the Stripe invoice that is delivered twice is recorded twice. -/
theorem not_idempotent_paid :
    ¬∀ (s : Db) (w : ℕ) (event : Json), Audit.SeqBelow s.auditEvents w →
      Idempotent Development.env event s w := by
  intro hclaim
  have hbelow : ∀ e ∈ (Development.run Development.stripeInvoice).2.1.auditEvents,
      e.seq < (Development.run Development.stripeInvoice).2.2 := by
    decide +kernel
  have hsim : ((machine.simulate Development.answers
      (handleStripeEvent Development.env (Development.invoiceEvent "invoice.paid")) 0
      (Development.run Development.stripeInvoice).2.1
      (Development.run Development.stripeInvoice).2.2).bind fun x ↦
        (machine.simulate Development.answers
          (handleStripeEvent Development.env (Development.invoiceEvent "invoice.paid")) x.2.1
          x.2.2.1 x.2.2.2).map fun y ↦
            (x.2.2.1.auditEvents.length, y.2.2.1.auditEvents.length)) = some (13, 14) := by
    decide +kernel
  obtain ⟨⟨r₁, n₁, s₁, w₁⟩, hfirst, hrest⟩ := Option.bind_eq_some_iff.mp hsim
  obtain ⟨⟨r₂, n₂, s₂, w₂⟩, hsecond, hlengths⟩ := Option.map_eq_some_iff.mp hrest
  simp only [Prod.mk.injEq] at hlengths
  have hsame := (hclaim _ _ _ hbelow r₁ s₁ w₁ w₁ r₂ s₂ w₂ (Machine.exec_of_simulate hfirst) .refl
    (Machine.exec_of_simulate hsecond)).2
  rw [← hsame] at hlengths
  omega

end Billing

end HumanDataFactory
