import HumanDataFactory.Api.Reads
import HumanDataFactory.Qc.Calibration

/-!
# Operations

The two endpoints that watch over the factory: the metrics, and the calibration
report of the autonomous reviewer.
-/

namespace HumanDataFactory

open Transact

namespace Api

variable (env : Env)

/-- `GROUP BY` a column, with how many rows each of its values has. -/
def countBy {α κ : Type} [DecidableEq κ] (key : α → κ) (rows : List α) : List (κ × ℕ) :=
  (rows.map key).dedup.map fun k ↦ (k, rows.countP fun a ↦ key a = k)

/-- `counts.get(k, 0)`. -/
def countOf {κ : Type} [DecidableEq κ] (counts : List (κ × ℕ)) (k : κ) : ℕ :=
  ((counts.find? fun row ↦ row.1 = k).map Prod.snd).getD 0

structure Metrics where
  totalSubmissions : ℕ
  submissionsByStatus : List (SubmissionStatus × ℕ)
  approvalRate : Option PyFloat
  humanReviewBacklog : ℕ
  expertsByStatus : List (ExpertStatus × ℕ)
  uninvoicedUsageCents : ℤ
  qcModel : String

def Metrics.asJson (m : Metrics) : Json :=
  .obj [("total_submissions", .int m.totalSubmissions),
    ("submissions_by_status",
      .obj (m.submissionsByStatus.map fun row ↦ (row.1.value, .int row.2))),
    ("approval_rate", Json.ofOption .float m.approvalRate),
    ("human_review_backlog", .int m.humanReviewBacklog),
    ("experts_by_status", .obj (m.expertsByStatus.map fun row ↦ (row.1.value, .int row.2))),
    ("uninvoiced_usage_cents", .int m.uninvoicedUsageCents),
    ("qc_model", .str m.qcModel)]

/-- The queries of `metrics` and what it makes of them. -/
def gatherMetrics : Tx Metrics := do
  let byStatus ← Session.select (.rows .submissions) fun s ↦
    countBy Submission.status s.submissions.rows
  let total := (byStatus.map Prod.snd).sum
  let expertsByStatus ← Session.select (.rows .experts) fun s ↦
    countBy Expert.status s.experts.rows
  let uninvoiced ← Session.select (.rows .usageEvents) fun s ↦
    Billing.amounts (s.usageEvents.rows.filter fun ev ↦ ev.invoiceId = none)
  return {
    totalSubmissions := total
    submissionsByStatus := byStatus
    approvalRate := Calibration.rate (countOf byStatus .approved) total
    humanReviewBacklog := countOf byStatus .humanReview
    expertsByStatus := expertsByStatus
    uninvoicedUsageCents := uninvoiced
    qcModel := env.qcModel }

def metrics : Tx Json := do
  let m ← gatherMetrics env
  return m.asJson

def qcCalibration (track : Option DomainTrack) : Tx Calibration.Report :=
  Calibration.calibrationReport env (track.map DomainTrack.value)

def metricsOf (s : Db) : Metrics :=
  let byStatus := countBy Submission.status s.submissions.rows
  let total := (byStatus.map Prod.snd).sum
  { totalSubmissions := total
    submissionsByStatus := byStatus
    approvalRate := Calibration.rate (countOf byStatus .approved) total
    humanReviewBacklog := countOf byStatus .humanReview
    expertsByStatus := countBy Expert.status s.experts.rows
    uninvoicedUsageCents :=
      Billing.amounts (s.usageEvents.rows.filter fun ev ↦ ev.invoiceId = none)
    qcModel := env.qcModel }

theorem answer_gatherMetrics (s : Db) :
    (gatherMetrics env).answer s = some (.ok (metricsOf env s)) :=
  rfl

section Counts

variable {α κ : Type} [DecidableEq κ] (key : α → κ) (rows : List α)

/-- The groups are a partition of the rows. -/
theorem sum_countBy : ((countBy key rows).map Prod.snd).sum = rows.length := by
  have hfibers := sum_fibers (rows.map key).nodup_dedup key (fun _ ↦ 1) rows
  have hall : rows.filter (fun a ↦ key a ∈ (rows.map key).dedup) = rows := by
    refine List.filter_eq_self.mpr fun a ha ↦ decide_eq_true ?_
    exact List.mem_dedup.mpr (List.mem_map_of_mem ha)
  rw [hall] at hfibers
  simpa [countBy, List.countP_eq_length_filter, Function.comp_def] using hfibers

theorem countOf_countBy (k : κ) :
    countOf (countBy key rows) k = rows.countP fun a ↦ key a = k := by
  unfold countOf
  cases hfind : (countBy key rows).find? (fun row ↦ row.1 = k) with
  | none =>
      symm
      refine List.countP_eq_zero.mpr fun a ha hk ↦ ?_
      obtain rfl := of_decide_eq_true hk
      have hmem : (key a, rows.countP fun b ↦ key b = key a) ∈ countBy key rows :=
        List.mem_map_of_mem (List.mem_dedup.mpr (List.mem_map_of_mem ha))
      exact List.find?_eq_none.mp hfind _ hmem (decide_eq_true rfl)
  | some row =>
      obtain ⟨k', _, rfl⟩ := List.mem_map.mp (List.mem_of_find?_eq_some hfind)
      have hk := List.find?_some hfind
      obtain rfl : k' = k := of_decide_eq_true hk
      rfl

end Counts

end Api

end HumanDataFactory
