import HumanDataFactory.Api.Effects
import HumanDataFactory.Billing.Webhooks
import HumanDataFactory.Development

/-!
# Settled invoices

A client's reference and a completed checkout both look at the status before
they settle an invoice, the invoice events of Stripe do not.  What is settled
stays settled as long as no delivered event asks for the other outcome.
-/

namespace HumanDataFactory

open Transact

namespace Settlement

variable {env : Env} {s s' : Db}

def Settled (status : InvoiceStatus) : Prop :=
  status = .paid ∨ status = .void

/-- Settled invoices keep their status. -/
def Stays (s s' : Db) : Prop :=
  ∀ inv ∈ s.invoices, Settled inv.status →
    ∃ inv' ∈ s'.invoices, inv'.id = inv.id ∧ inv'.status = inv.status

theorem Stays.refl (s : Db) : Stays s s :=
  fun inv hinv _ ↦ ⟨inv, hinv, rfl, rfl⟩

theorem Stays.trans {s₁ s₂ s₃ : Db} (h : Stays s₁ s₂) (h' : Stays s₂ s₃) : Stays s₁ s₃ := by
  intro inv hinv hsettled
  obtain ⟨inv₂, hinv₂, hid₂, hstatus₂⟩ := h inv hinv hsettled
  obtain ⟨inv₃, hinv₃, hid₃, hstatus₃⟩ := h' inv₂ hinv₂ (by rwa [hstatus₂])
  exact ⟨inv₃, hinv₃, hid₃.trans hid₂, hstatus₃.trans hstatus₂⟩

theorem Stays.of_eq (h : s'.invoices = s.invoices) : Stays s s' := by
  intro inv hinv _
  exact ⟨inv, by rwa [h], rfl, rfl⟩

theorem Stays.push {inv : Invoice} (hvac : s.invoices.Vacant inv.id)
    (h : s'.invoices = s.invoices.push inv) : Stays s s' := by
  intro inv' hinv' _
  refine ⟨inv', ?_, rfl, rfl⟩
  rw [h, Table.mem_push hvac]
  exact Or.inl hinv'

/-- A new version of one invoice keeps the others. -/
theorem stays_replace {inv inv' : Invoice} (hinv : s.invoices.find? inv.id = some inv)
    (h : s'.invoices = s.invoices.replace inv') (hid : inv'.id = inv.id) :
    Stays s s' ↔ (Settled inv.status → inv'.status = inv.status) := by
  have hmem := Table.mem_of_find? hinv
  have hin : inv' ∈ s'.invoices := by
    rw [h]
    exact Table.mem_replace_self hmem hid.symm
  constructor
  · intro hstays hsettled
    obtain ⟨inv'', hinv'', hid'', hstatus⟩ := hstays inv hmem hsettled
    obtain rfl := Table.eq_of_key hinv'' hin (hid''.trans hid.symm)
    exact hstatus
  · intro hkeep other hother hsettled
    by_cases hsame : other.id = inv.id
    · obtain rfl := Table.eq_of_key hother hmem hsame
      exact ⟨inv', hin, hid, hkeep hsettled⟩
    · refine ⟨other, ?_, rfl, rfl⟩
      rw [h]
      exact Table.mem_replace_of_ne hother (by rwa [hid])

/-- The event does not settle an invoice that was settled the other way. -/
structure Respects (s : Db) (event : Json) : Prop where
  checkout : ∀ inv reference, Billing.CompletesCheckout s event inv reference →
    inv.status ≠ .void
  invoiceEvent : ∀ inv etype stripeId status,
    Billing.SettlesInvoice s event inv etype stripeId status →
      Settled inv.status → status = inv.status

/-- An event that was applied respects the settled invoices exactly when it
leaves them settled. -/
theorem stays_of_performed {event : Json} {act : Billing.WebhookAction}
    (hact : Billing.webhookAction s event = .ok act) (h : Billing.Performed env s act s') :
    Stays s s' ↔ Respects s event := by
  have hchosen : ∀ act', Billing.webhookAction s event = .ok act' → act' = act :=
    fun act' hact' ↦ Except.ok.inj (hact'.symm.trans hact)
  rcases Billing.webhookAction_cases hact with rfl | ⟨inv, reference, hcompletes, rfl⟩ |
      ⟨inv, etype, stripeId, status, hsettles, rfl⟩
  · cases h
    refine iff_of_true (.refl s) ⟨?_, ?_⟩
    · intro inv reference hcompletes
      cases hchosen _ hcompletes.action
    · intro inv etype stripeId status hsettles
      cases hchosen _ hsettles.action
  · have honly : Respects s event ↔ inv.status ≠ .void := by
      refine ⟨fun hr ↦ hr.checkout inv reference hcompletes, fun hne ↦ ⟨?_, ?_⟩⟩
      · intro inv' reference' hcompletes'
        cases hchosen _ hcompletes'.action
        exact hne
      · intro inv' etype stripeId status hsettles
        cases hchosen _ hsettles.action
    rw [honly]
    cases h with
    | alreadyPaid hstatus =>
        refine iff_of_true (.refl s) ?_
        rw [hstatus]
        simp
    | completed hstatus _ haud =>
        refine (stays_replace hcompletes.find? rfl (by rfl)).trans ?_
        constructor
        · intro hkeep hvoid
          have hpaid := hkeep (Or.inr hvoid)
          simp [hvoid] at hpaid
        · rintro hne (hpaid | hvoid)
          · exact absurd hpaid hstatus
          · exact absurd hvoid hne
  · have honly : Respects s event ↔ (Settled inv.status → status = inv.status) := by
      refine ⟨fun hr ↦ hr.invoiceEvent inv etype stripeId status hsettles, fun hkeep ↦ ⟨?_, ?_⟩⟩
      · intro inv' reference hcompletes
        cases hchosen _ hcompletes.action
      · intro inv' etype' stripeId' status' hsettles'
        cases hchosen _ hsettles'.action
        exact hkeep
    rw [honly]
    cases h with
    | settled haud => exact (stays_replace hsettles.find? rfl (by rfl)).trans .rfl

variable (env) in
/-- The condition on a run: every webhook event respects what is settled. -/
def respectful (_ : List (Served Api.Http Db Json)) (e : Served Api.Http Db Json) : Prop :=
  ∀ payload signature event, e.request.request = .stripeWebhook payload signature →
    StripeGateway.parseWebhook env payload signature = .ok event → Respects e.before event

theorem stays_of_effect {actor : Auth.Actor} {request : Api.Request}
    (h : Api.Effect env actor s request s')
    (hrespects : ∀ payload signature event, request = .stripeWebhook payload signature →
      StripeGateway.parseWebhook env payload signature = .ok event → Respects s event) :
    Stays s s' := by
  cases h with
  | generateInvoice hfirm h =>
      cases h with
      | mk hinv hfirms haud => exact .push hinv.vacant rfl
  | createInvoiceCheckout hinv haccess h =>
      cases h with
      | mk hstatus haud =>
          refine (stays_replace (Table.find?_key hinv) rfl (by rfl)).mpr ?_
          exact fun _ ↦ rfl
  | recordExternalPayment hinv h =>
      cases h with
      | mk hmode hstatus haud =>
          -- an invoice that is still to be paid is not settled
          refine (stays_replace (Table.find?_key hinv) rfl (by rfl)).mpr ?_
          rintro (hpaid | hvoid)
          · simp [hpaid] at hstatus
          · simp [hvoid] at hstatus
  | stripeWebhook hevent hact h =>
      exact (stays_of_performed hact h).mpr (hrespects _ _ _ rfl hevent)
  | createSubmission htask hexpert h => exact .of_eq (Engine.apart_of_submitted h).invoices
  | postHumanReview hsub hreviewer h => exact .of_eq (Engine.apart_of_reviewed h).invoices
  | _ => exact .of_eq rfl

/-- What a run keeps: the invoices that were settled stay so. -/
structure Kept (tr : List (Served Api.Http Db Json)) (s : Db) (w : ℕ) : Prop where
  below : Audit.SeqBelow s.auditEvents w
  stays : ∀ e ∈ tr, Stays e.before s

theorem Kept.serves {tr : List (Served Api.Http Db Json)} {e : Served Api.Http Db Json}
    {w w' : ℕ} (h : Kept tr e.before w) (hrespects : respectful env tr e)
    (he : machine.Serves (Api.serve env) e w w') : Kept (tr ++ [e]) e.after w' := by
  have hstep : Audit.SeqBelow e.after.auditEvents w' ∧ Stays e.before e.after := by
    cases he with
    | ok hexec =>
        obtain ⟨⟨actor, heffect⟩, hbelow⟩ := Api.exec_serve hexec h.below
        exact ⟨hbelow, stays_of_effect heffect hrespects⟩
    | failed hmoves => exact ⟨h.below.mono (moves_le hmoves), .refl _⟩
  obtain ⟨hbelow, hstays⟩ := hstep
  refine ⟨hbelow, ?_⟩
  intro e' he'
  rcases List.mem_append.mp he' with he' | he'
  · exact (h.stays e' he').trans hstays
  · obtain rfl : e' = e := by simpa using he'
    exact hstays

/-- Once paid or void, an invoice stays so in every run that respects it. -/
theorem settled_of_respectful {s₀ : Db} {w₀ w : ℕ} {tr : List (Served Api.Http Db Json)}
    (hseq : Audit.SeqBelow s₀.auditEvents w₀)
    (h : machine.Run (Api.serve env) s₀ w₀ tr s w) (hC : Throughout (respectful env) tr) :
    ∀ e ∈ tr, ∀ inv ∈ e.before.invoices, inv.status = .paid ∨ inv.status = .void →
      ∃ inv' ∈ s.invoices, inv'.id = inv.id ∧ inv'.status = inv.status := by
  have hkept : Kept tr s w := Machine.Run.invariant_trace (I := Kept) ⟨hseq, by simp⟩
    (fun _ _ _ _ hk hC he ↦ hk.serves hC he) h hC
  exact hkept.stays

def paidTwice : List Api.Request :=
  Development.stripeInvoice ++ [Development.webhook (Development.invoiceEvent "invoice.paid"),
    Development.webhook (Development.invoiceEvent "invoice.paid")]

def paidThenVoided : List Api.Request :=
  Development.stripeInvoice ++ [Development.webhook (Development.invoiceEvent "invoice.paid"),
    Development.webhook (Development.invoiceEvent "invoice.voided")]

/-- A payment respects every invoice while none is void. -/
theorem respects_payment {event : Json} (hnone : ∀ inv ∈ s.invoices, inv.status ≠ .void)
    (htype : event.getD "type" (.str "") = .ok (.str "invoice.paid")) : Respects s event := by
  constructor
  · intro inv reference hcompletes
    exact hnone inv (Table.mem_of_find? hcompletes.find?)
  · intro inv etype stripeId status hsettles hsettled
    have hsame : etype = "invoice.paid" := by
      have heq := hsettles.type.symm.trans htype
      cases heq
      rfl
    subst hsame
    have hpaid : status = .paid := by
      have hset := hsettles.settles
      cases hset
      rfl
    rcases hsettled with hstatus | hstatus
    · rw [hpaid, hstatus]
    · exact absurd hstatus (hnone inv (Table.mem_of_find? hsettles.find?))

theorem settled_of_respectful_paidTwice :
    (Development.run paidTwice).1.getLast?.map
        (fun e ↦ e.before.invoices.rows.map Invoice.status) = some [.paid] ∧
      ∀ e ∈ (Development.run paidTwice).1, ∀ inv ∈ e.before.invoices,
        inv.status = .paid ∨ inv.status = .void →
          ∃ inv' ∈ (Development.run paidTwice).2.1.invoices,
            inv'.id = inv.id ∧ inv'.status = inv.status := by
  refine ⟨by decide +kernel, settled_of_respectful (Audit.seqBelow_empty _)
    (Development.run_spec paidTwice) ?_⟩
  have hcheck : ∀ e ∈ (Development.run paidTwice).1,
      (∀ inv ∈ e.before.invoices.rows, inv.status ≠ .void) ∧
        ∀ body ∈ Development.bodyOf? e.request.request,
          body = Development.bodyOf (Development.invoiceEvent "invoice.paid") := by
    decide +kernel
  intro pre e post htr payload signature event hrequest hparse
  obtain ⟨hnone, hbody⟩ := hcheck e (by simp [htr])
  refine respects_payment hnone ?_
  have hsame := hbody payload (by rw [hrequest]; rfl)
  rw [hsame, Development.parseWebhook_bodyOf List.mem_cons_self] at hparse
  cases hparse
  rfl

/-- An invoice that was paid is void after the next event. -/
theorem settled_voided :
    ¬∀ tr s w, machine.Run (Api.serve Development.env) Db.empty 1 tr s w →
      ∀ e ∈ tr, ∀ inv ∈ e.before.invoices, inv.status = .paid ∨ inv.status = .void →
        ∃ inv' ∈ s.invoices, inv'.id = inv.id ∧ inv'.status = inv.status := by
  intro hclaim
  have hlast : (Development.run paidThenVoided).1.getLast?.map
      (fun e ↦ e.before.invoices.rows.map Invoice.status) = some [.paid] := by
    decide +kernel
  have hfinal : ∀ inv ∈ (Development.run paidThenVoided).2.1.invoices.rows,
      inv.status = .void := by
    decide +kernel
  obtain ⟨e, he, hstatuses⟩ := Option.map_eq_some_iff.mp hlast
  obtain ⟨inv, hinv, hpaid⟩ : ∃ inv ∈ e.before.invoices.rows, inv.status = .paid := by
    rw [← List.mem_map, hstatuses]
    exact List.mem_singleton.mpr rfl
  obtain ⟨inv', hinv', _, hstatus⟩ := hclaim _ _ _ (Development.run_spec paidThenVoided) e
    (List.mem_of_getLast? he) inv hinv (Or.inl hpaid)
  rw [hfinal inv' hinv', hpaid] at hstatus
  cases hstatus

end Settlement

end HumanDataFactory
