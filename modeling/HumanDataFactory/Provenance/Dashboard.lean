import HumanDataFactory.Api.Metrics
import HumanDataFactory.Provenance.Runs
import HumanDataFactory.TieOut

/-!
# The dashboard ties out

The metrics, the billing summaries, the global reconciliation and the review
queue are computed by queries of their own.  Since every usage event belongs to
a firm that is there, they agree, also while requests are in progress.
-/

namespace HumanDataFactory

open Transact

namespace Provenance

variable {env : Env} {s : Db}

/-- Each event is one firm's. -/
theorem Reached.amounts_by_firm (h : Reached env s) (p : UsageEvent → Prop) [DecidablePred p] :
    (s.firms.rows.map fun f ↦
      Billing.amounts (s.usageEvents.rows.filter fun ev ↦ ev.firmId = f.id ∧ p ev)).sum =
      Billing.amounts (s.usageEvents.rows.filter fun ev ↦ p ev) := by
  have hfibers := sum_fibers s.firms.nodup UsageEvent.firmId UsageEvent.amountCents
    (s.usageEvents.rows.filter fun ev ↦ p ev)
  have hall : (s.usageEvents.rows.filter fun ev ↦ p ev).filter (fun ev ↦
      ev.firmId ∈ s.firms.rows.map Firm.id) = s.usageEvents.rows.filter fun ev ↦ p ev := by
    refine List.filter_eq_self.mpr fun ev hev ↦ decide_eq_true ?_
    have hgrounds : UsageGrounds env s ev :=
      h.grounded (x := .usageEvent ev) (List.mem_filter.mp hev).1
    obtain ⟨f, hf, hid, _⟩ := hgrounds.firm
    exact List.mem_map.mpr ⟨f, hf, hid⟩
  rw [hall, List.map_map] at hfibers
  refine Eq.trans (congrArg List.sum (List.map_congr_left fun f _ ↦ ?_)) hfibers
  simp [Billing.amounts, List.filter_filter]

/-- An attached event counts as invoiced. -/
theorem Reached.invoiced_iff (h : Reached env s) (hids : ∀ inv ∈ s.invoices, inv.id ≠ "")
    {ev : UsageEvent} (hev : ev ∈ s.usageEvents) :
    Billing.invoiced ev = true ↔ ev.invoiceId ≠ none := by
  have hgrounds : UsageGrounds env s ev := h.grounded (x := .usageEvent ev) hev
  cases hid : ev.invoiceId with
  | none => simp [Billing.invoiced, StripeGateway.truthyId, hid]
  | some id =>
      obtain ⟨inv, hinv, rfl, _⟩ := hgrounds.invoice id hid
      simp [Billing.invoiced, StripeGateway.truthyId, hid, hids inv hinv]

/-- What a report counts as metered and not invoiced is what is unattached. -/
theorem Reached.meteredUninvoiced_eq (h : Reached env s)
    (hids : ∀ inv ∈ s.invoices, inv.id ≠ "") (firm : Firm) :
    (Billing.reconciliationOf s firm none none).meteredUninvoicedCents =
      (Billing.billingSummaryOf s firm).uninvoicedCents := by
  have hsplit := TieOut.amounts_invoiced_add (Billing.firmEvents s firm.id none none)
  have hrest : ((Billing.firmEvents s firm.id none none).filter fun ev ↦ !Billing.invoiced ev) =
      Billing.unattached s firm.id := by
    unfold Billing.firmEvents Billing.unattached
    rw [List.filter_filter]
    apply List.filter_congr
    intro ev hev
    have hiff := h.invoiced_iff hids hev
    by_cases hnone : ev.invoiceId = none
    · have hnot : Billing.invoiced ev = false := by simpa [hnone] using hiff
      simp [hnone, hnot]
    · have hinvoiced : Billing.invoiced ev = true := hiff.mpr hnone
      simp [hnone, hinvoiced]
  rw [hrest] at hsplit
  exact sub_eq_of_eq_add' hsplit

/-- What the pages for operations and billing have to agree on. -/
structure Agrees (env : Env) (s : Db) (m : Api.Metrics) (reports : List Billing.Reconciliation) :
    Prop where
  total : m.totalSubmissions = s.submissions.rows.length
  statuses : (m.submissionsByStatus.map Prod.snd).sum = m.totalSubmissions
  experts : (m.expertsByStatus.map Prod.snd).sum = s.experts.rows.length
  backlog : m.humanReviewBacklog = (Api.awaitingReview env s).length
  approved : m.approvalRate = Calibration.rate
    (s.submissions.rows.countP fun sub ↦ sub.status = .approved) s.submissions.rows.length
  summaries : m.uninvoicedUsageCents =
    (s.firms.rows.map fun f ↦ (Billing.billingSummaryOf s f).uninvoicedCents).sum
  reconciled : m.uninvoicedUsageCents =
    (reports.map Billing.Reconciliation.meteredUninvoicedCents).sum
  metered : (reports.map Billing.Reconciliation.meteredCents).sum =
    Billing.amounts s.usageEvents.rows

theorem Reached.summaries_eq (h : Reached env s) :
    (s.firms.rows.map fun f ↦ (Billing.billingSummaryOf s f).uninvoicedCents).sum =
      (Api.metricsOf env s).uninvoicedUsageCents :=
  h.amounts_by_firm fun ev ↦ ev.invoiceId = none

theorem Reached.agrees (h : Reached env s) (hids : ∀ inv ∈ s.invoices, inv.id ≠ "") :
    Agrees env s (Api.metricsOf env s)
      (s.firms.rows.map fun f ↦ Billing.reconciliationOf s f none none) where
  total := Api.sum_countBy _ _
  statuses := rfl
  experts := Api.sum_countBy _ _
  backlog := by
    have hperm := env.orderBy_perm Submission.createdAt
      (s.submissions.rows.filter fun sub ↦ sub.status = .humanReview)
    refine (Api.countOf_countBy _ _ _).trans ?_
    rw [List.countP_eq_length_filter]
    exact hperm.length_eq.symm
  approved := by
    have hcount := Api.countOf_countBy Submission.status s.submissions.rows .approved
    have htotal := Api.sum_countBy Submission.status s.submissions.rows
    simp only [Api.metricsOf, hcount, htotal]
  summaries := h.summaries_eq.symm
  reconciled := by
    rw [← h.summaries_eq, List.map_map]
    refine congrArg List.sum (List.map_congr_left fun f _ ↦ ?_)
    exact (h.meteredUninvoiced_eq hids f).symm
  metered := by
    have hfirms := h.amounts_by_firm fun _ ↦ True
    simp only [and_true, decide_true, List.filter_true] at hfirms
    rw [List.map_map, ← hfirms]
    refine congrArg List.sum (List.map_congr_left fun f _ ↦ ?_)
    simp [Billing.reconciliationOf, Billing.reconcile, Billing.firmEvents]

/-- On every database that requests lead to, in whatever order their steps come,
the metrics count each submission and expert once, their backlog is the review
queue, and their unbilled usage is what the billing summaries of all firms and
the global reconciliation come to. -/
theorem dashboard_agrees (h : Reached env s) (hids : ∀ inv ∈ s.invoices, inv.id ≠ "") :
    ∃ m reports, (Api.gatherMetrics env).answer s = some (.ok m) ∧
      (Api.reportAll none none s.firms.rows).answer s = some (.ok reports) ∧
        Agrees env s m reports :=
  ⟨_, _, Api.answer_gatherMetrics env s, Api.answer_reportAll none none s.firms.rows,
    h.agrees hids⟩

/-- The charge of the rejected submission is still to be invoiced. -/
theorem dashboard_agrees_staleVerdict :
    ∃ S, machine.play Development.answers HumanReview.staleVerdict 100 HumanReview.reviewing =
      some S ∧ Billing.amounts S.store.usageEvents.rows = 1500 ∧
        ∃ m reports, (Api.gatherMetrics Development.env).answer S.store = some (.ok m) ∧
          (Api.reportAll none none S.store.firms.rows).answer S.store = some (.ok reports) ∧
            Agrees Development.env S.store m reports := by
  have hplay : (machine.play Development.answers HumanReview.staleVerdict 100
      HumanReview.reviewing).map (fun S ↦ (Billing.amounts S.store.usageEvents.rows,
        decide (∀ inv ∈ S.store.invoices.rows, inv.id ≠ ""))) = some (1500, true) := by
    decide +kernel
  obtain ⟨S, hS, hfinal⟩ := Option.map_eq_some_iff.mp hplay
  obtain ⟨hcents, hids⟩ := Prod.mk.inj hfinal
  exact ⟨S, hS, hcents, dashboard_agrees (reached_of_play hS) (of_decide_eq_true hids)⟩

end Provenance

end HumanDataFactory
