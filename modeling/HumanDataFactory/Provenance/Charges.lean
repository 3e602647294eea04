import HumanDataFactory.Concurrency.Invoicing
import HumanDataFactory.Provenance.Runs

/-!
# What is charged was earned

Concurrent invoicing can bill an event twice, and concurrent reviews can leave
a rejected submission charged.  What no interleaving can do is to charge for a
record that nobody passed, at a price from nowhere, or across firms.
-/

namespace HumanDataFactory

open Transact

namespace Provenance

variable {env : Env} {s : Db}

/-- A usage event is for one submission of an ordinary task in a project of the
firm, which Gate 1 and then the model or a human passed; its price is that of
a rate card for the firm and the kind of work, or the default. -/
theorem usage_is_earned (h : Reached env s) {ev : UsageEvent} (hev : ev ∈ s.usageEvents) :
    UsageGrounds env s ev :=
  h.grounded (x := .usageEvent ev) hev

theorem usage_is_earned_staleVerdict :
    ∃ S, machine.play Development.answers HumanReview.staleVerdict 100 HumanReview.reviewing =
      some S ∧ ∃ ev ∈ S.store.usageEvents, ev.amountCents = 1500 ∧
        UsageGrounds Development.env S.store ev := by
  have hplay : (machine.play Development.answers HumanReview.staleVerdict 100
      HumanReview.reviewing).map (fun S ↦ decide (∃ ev ∈ S.store.usageEvents.rows,
        ev.amountCents = 1500)) = some true := by decide +kernel
  obtain ⟨S, hS, husage⟩ := Option.map_eq_some_iff.mp hplay
  obtain ⟨ev, hev, hcents⟩ := of_decide_eq_true husage
  exact ⟨S, hS, ev, hev, hcents, usage_is_earned (reached_of_play hS) hev⟩

/-- What is on an invoice is the firm's own, and in the firm's currency. -/
theorem Reached.attached (h : Reached env s) {inv : Invoice} (hinv : inv ∈ s.invoices)
    {ev : UsageEvent} (hev : ev ∈ s.usageEvents) (hid : ev.invoiceId = some inv.id) :
    ev.firmId = inv.firmId ∧ ev.currency = inv.currency := by
  have hgrounds : UsageGrounds env s ev := h.grounded (x := .usageEvent ev) hev
  have hissued : InvoiceGrounds env s inv := h.grounded (x := .invoice inv) hinv
  obtain ⟨inv', hinv', hsame, hfirm⟩ := hgrounds.invoice _ hid
  obtain rfl := Table.eq_of_key hinv' hinv hsame
  obtain ⟨f, hf, hfid, hcurrency⟩ := hgrounds.firm
  obtain ⟨f', hf', hfid', _, hcurrency'⟩ := hissued.firm
  obtain rfl := Table.eq_of_key hf hf' (hfid.trans (hfirm.symm.trans hfid'.symm))
  exact ⟨hfirm.symm, hcurrency.symm.trans hcurrency'⟩

/-- An invoice is issued to a firm in its mode and currency by an internal
user, for the sum of its lines.  Only an external invoice is marked as issued
externally or carries an external reference, and only a Stripe invoice is open
or carries a Stripe identifier.  Every event on it is of its firm and currency. -/
theorem invoices_follow_their_firm (h : Reached env s) {inv : Invoice} (hinv : inv ∈ s.invoices) :
    InvoiceGrounds env s inv ∧ ∀ ev ∈ s.usageEvents, ev.invoiceId = some inv.id →
      ev.firmId = inv.firmId ∧ ev.currency = inv.currency :=
  ⟨h.grounded (x := .invoice inv) hinv, fun _ hev hid ↦ h.attached hinv hev hid⟩

/-- The event that two invoices bill is still the firm's own. -/
theorem invoices_follow_their_firm_staleUsage :
    ∃ S, machine.play Development.answers Invoicing.staleUsage 100 Invoicing.invoicing = some S ∧
      S.store.invoices.rows.length = 2 ∧ ∃ inv ∈ S.store.invoices,
        (∃ ev ∈ S.store.usageEvents, ev.invoiceId = some inv.id) ∧
          InvoiceGrounds Development.env S.store inv ∧ ∀ ev ∈ S.store.usageEvents,
            ev.invoiceId = some inv.id → ev.firmId = inv.firmId ∧ ev.currency = inv.currency := by
  have hplay : (machine.play Development.answers Invoicing.staleUsage 100
      Invoicing.invoicing).map (fun S ↦ (S.store.invoices.rows.length,
        decide (∃ inv ∈ S.store.invoices.rows, ∃ ev ∈ S.store.usageEvents.rows,
          ev.invoiceId = some inv.id))) = some (2, true) := by decide +kernel
  obtain ⟨S, hS, hfinal⟩ := Option.map_eq_some_iff.mp hplay
  obtain ⟨hlength, hattached⟩ := Prod.mk.inj hfinal
  obtain ⟨inv, hinv, hev⟩ := of_decide_eq_true hattached
  have hreached : Reached Development.env S.store :=
    .mk (Development.run_spec Development.firstApproval) (Machine.interleaves_of_play hS)
  exact ⟨S, hS, hlength, inv, hinv, hev, invoices_follow_their_firm hreached hinv⟩

end Provenance

end HumanDataFactory
