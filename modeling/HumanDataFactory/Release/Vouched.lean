import HumanDataFactory.Development
import HumanDataFactory.Release.Versions

/-!
# What a clean report vouches for

The report asks for a review of the right kind, not for its verdict.  In the
states of a run a passing one is there all the same; on any other database a
submission that every reviewer turned down ships with a clean report.
-/

namespace HumanDataFactory

open Transact

namespace Export

variable {env : Env} {s : Db} {project : Project}

/-- An automatic or human review that passes the submission. -/
def Vouched (s : Db) (submissionId : String) : Prop :=
  ∃ r ∈ s.reviews, r.submissionId = submissionId ∧ (r.kind = .autoLlm ∨ r.kind = .human) ∧
    r.verdict = .pass

/-- There are such reviews, and none of them passes. -/
def TurnedDown (s : Db) (submissionId : String) : Prop :=
  hasReviewEvidence s submissionId = true ∧ ¬Vouched s submissionId

/-- What a release with a clean report should come with. -/
structure Vouches (env : Env) (s : Db) (project : Project) : Prop where
  ships : 0 < (approvedRows env s project).length
  chain : (Audit.verifyChain env s).1 = true
  passed : ∀ row ∈ approvedRows env s project, Vouched s row.2.id

theorem hasReviewEvidence_iff {submissionId : String} :
    hasReviewEvidence s submissionId = true ↔
      ∃ r ∈ s.reviews, r.submissionId = submissionId ∧ (r.kind = .autoLlm ∨ r.kind = .human) := by
  simp [hasReviewEvidence, List.any_eq_true, Table.mem_def]

theorem Vouched.evidence {submissionId : String} (h : Vouched s submissionId) :
    hasReviewEvidence s submissionId = true := by
  obtain ⟨r, hr, hof, hkind, _⟩ := h
  exact hasReviewEvidence_iff.mpr ⟨r, hr, hof, hkind⟩

theorem clean_reportOf_iff : (reportOf env s project).clean = true ↔
    (Audit.verifyChain env s).1 = true ∧
      (∀ row ∈ approvedRows env s project, hasReviewEvidence s row.2.id = true) ∧
      0 < (approvedRows env s project).length := by
  simp [reportOf, and_assoc]

theorem vouches_iff_of_clean (h : (reportOf env s project).clean = true) :
    Vouches env s project ↔ ∀ row ∈ approvedRows env s project, ¬TurnedDown s row.2.id := by
  obtain ⟨hchain, hevidence, hships⟩ := clean_reportOf_iff.mp h
  constructor
  · rintro hv row hrow ⟨_, hnot⟩
    exact hnot (hv.passed row hrow)
  · intro hnone
    refine ⟨hships, hchain, fun row hrow ↦ ?_⟩
    by_contra hnot
    exact hnone row hrow ⟨hevidence row hrow, hnot⟩

theorem clean_sound_iff (env : Env) (s : Db) (project : Project) :
    (∃ report, (controlReport env project).answer s = some (.ok report) ∧
      (report.clean = true → Vouches env s project)) ↔
      (∀ row ∈ approvedRows env s project, ¬TurnedDown s row.2.id) ∨
        (∃ row ∈ approvedRows env s project, hasReviewEvidence s row.2.id = false) ∨
        (Audit.verifyChain env s).1 = false := by
  rw [answer_controlReport]
  constructor
  · rintro ⟨report, hreport, hsound⟩
    obtain rfl := Except.ok.inj (Option.some.inj hreport)
    by_cases hclean : (reportOf env s project).clean = true
    · exact Or.inl ((vouches_iff_of_clean hclean).mp (hsound hclean))
    · refine or_iff_not_imp_left.mpr fun hdown ↦ ?_
      -- the report is not clean, and not because nothing ships
      obtain ⟨row, hrow, _⟩ := not_forall₂.mp hdown
      have hships := List.length_pos_of_mem hrow
      rw [clean_reportOf_iff] at hclean
      by_contra hnone
      simp only [not_or, not_exists, not_and, Bool.not_eq_false] at hnone
      exact hclean ⟨hnone.2, hnone.1, hships⟩
  · intro hcond
    refine ⟨_, rfl, fun hclean ↦ (vouches_iff_of_clean hclean).mpr ?_⟩
    obtain ⟨hchain, hevidence, _⟩ := clean_reportOf_iff.mp hclean
    rcases hcond with hnone | ⟨row, hrow, hbare⟩ | hbroken
    · exact hnone
    · rw [hevidence row hrow] at hbare
      cases hbare
    · rw [hchain] at hbroken
      cases hbroken

/-- What the pipeline approves, a review passed. -/
theorem vouched_of_run {tr : List (Served Api.Http Db Json)} {w₀ w : ℕ}
    (h : machine.Run (Api.serve env) Db.empty w₀ tr s w) {row : Task × Submission}
    (hrow : row ∈ approvedRows env s project) : Vouched s row.2.id := by
  have happroved := approved_of_mem hrow
  have htask : (row.2.taskId, false) ∈ Evidence.taskFacts s :=
    ⟨row.1, happroved.task, by simp [happroved.of, happroved.gold]⟩
  obtain ⟨_, hhuman | hauto⟩ := (Evidence.kept_of_run h).sound.evidence row.2
    happroved.submission happroved.status htask
  · obtain ⟨r, hreviews, hverdict, _⟩ := hhuman
    have hr : r ∈ Evidence.humanReviews s row.2.id := by
      rw [hreviews]
      exact List.mem_singleton_self r
    obtain ⟨hmem, hkind⟩ := List.mem_filter.mp hr
    obtain ⟨hof, hkind⟩ := of_decide_eq_true hkind
    exact ⟨r, hmem, hof, Or.inr hkind, hverdict⟩
  · obtain ⟨_, _, r, hr, hof, hgrounded⟩ := hauto
    exact ⟨r, hr, hof, Or.inl hgrounded.kind, hgrounded.verdict⟩

def rejection : Review :=
  ⟨"review", "submission", .human, "rae", .fail, none, .obj [], 0⟩

/-- The status of a submission was changed by hand. -/
def editedDesk : Db :=
  { Development.desk with
    submissions := .push .empty { Development.deskSubmission with status := .approved }
    reviews := .push .empty rejection }

theorem clean_report_of_rejection :
    ¬∀ (env : Env) (s : Db) (project : Project) (report : ControlReport),
      (controlReport env project).answer s = some (.ok report) → report.clean = true →
        0 < (approvedRows env s project).length ∧ (Audit.verifyChain env s).1 = true ∧
          ∀ row ∈ approvedRows env s project, ∃ r ∈ s.reviews, r.submissionId = row.2.id ∧
            (r.kind = .autoLlm ∨ r.kind = .human) ∧ r.verdict = .pass := by
  intro hclaim
  have hclean : (reportOf Development.env editedDesk Development.deskProject).clean = true := by
    decide +kernel
  obtain ⟨_, _, hpassed⟩ := hclaim _ _ _ _ (answer_controlReport _) hclean
  have hrow : ∃ row ∈ approvedRows Development.env editedDesk Development.deskProject,
      ∀ r ∈ editedDesk.reviews.rows, r.verdict ≠ .pass := by
    decide +kernel
  obtain ⟨row, hrow, hnone⟩ := hrow
  obtain ⟨r, hr, _, _, hverdict⟩ := hpassed row hrow
  exact hnone r hr hverdict

end Export

end HumanDataFactory
