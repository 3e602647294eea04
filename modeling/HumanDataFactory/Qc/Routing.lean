import HumanDataFactory.Qc.AutoPass
import HumanDataFactory.Qc.Effects

/-!
# Routing at gate 3

Which status a submission leaves the gates with, by what the model API
answered, and when that is the routing of the quality manual.
-/

namespace HumanDataFactory

open Transact

deriving instance DecidableEq for ModelReply

/-- The machine with a model API that only gives answers in `ok`. -/
def answering (ok : ModelReply → Prop) [DecidablePred ok] : Machine Db Write Call Reply ℕ where
  apply := Db.apply
  accept
    | .messagesCreate .., r, w => if ok r then some w else none
    | c, r, w => accept c r w

theorem answering_refines (ok : ModelReply → Prop) [DecidablePred ok] :
    (answering ok).Refines machine id where
  apply := rfl
  accept := by
    intro c r w w' h
    cases c with
    | messagesCreate model taskPrompt context content rubric =>
        have hw : ok r ∧ w = w' := by simpa [answering] using h
        exact congrArg some hw.2
    | _ => exact h

def Write.touchesSubmissions : Write → Bool
  | .insertSubmission _ => true
  | .setSubmissionStatus _ _ => true
  | .setSampledForHumanReview _ _ => true
  | _ => false

abbrev Elsewhere (u : Write) : Prop := u.touchesSubmissions = false

theorem Elsewhere.keeps {u : Write} (h : Elsewhere u) :
    machine.Keeps (fun s ↦ s.submissions) u := by
  intro s s' hs
  cases u <;> simp only [machine_apply, Db.apply, Option.ite_none_right_eq_some,
    Option.some.injEq, Elsewhere, Write.touchesSubmissions, reduceCtorEq] at hs h <;> grind

namespace AutoReviewer

variable (env : Env)

/-- What the live path comes to when the model API gives this answer. -/
def outcome (taskType : TaskType) (content : Json) (rubric : Rubric)
    (validation : ValidationResult) (reply : ModelReply) : AutoReview :=
  match reviewWithClaude env rubric reply with
  | .ok r => r
  | .error _ => reviewHeuristic env taskType content rubric validation

variable {env}

/-- Where a review comes from when the model API answers in `ok`. -/
structure Answered (env : Env) (ok : ModelReply → Prop) (taskType : TaskType) (content : Json)
    (rubric : Rubric) (validation : ValidationResult) (r : AutoReview) : Prop where
  live : env.anthropicAvailable = true →
    ∃ reply, ok reply ∧ r = outcome env taskType content rubric validation reply
  offline : env.anthropicAvailable = false →
    r = reviewHeuristic env taskType content rubric validation

theorem exec_review_answering {ok : ModelReply → Prop} [DecidablePred ok] {taskPrompt : String}
    {taskContext : Json} {taskType : TaskType} {content : Json} {rubric : Rubric}
    {validation : ValidationResult} {r : AutoReview} {s s' : Db} {w w' : ℕ}
    (h : (answering ok).Exec
      (review env taskPrompt taskContext taskType content rubric validation) s w r s' w') :
    s' = s ∧ Answered env ok taskType content rubric validation r := by
  unfold review at h
  cases hlive : env.anthropicAvailable with
  | true =>
      rw [if_pos hlive, Machine.exec_ask_bind] at h
      obtain ⟨reply, w₁, hw, h⟩ := h
      have hreply : ok reply ∧ w = w₁ := by simpa [answering] using hw
      have hresult : s' = s ∧ r = outcome env taskType content rubric validation reply := by
        unfold outcome
        cases hr : reviewWithClaude env rubric reply with
        | ok _ =>
            simp only [hr] at h ⊢
            exact ⟨h.2.1, h.1⟩
        | error _ =>
            simp only [hr] at h ⊢
            exact ⟨h.2.1, h.1⟩
      exact ⟨hresult.1, fun _ ↦ ⟨reply, hreply.1, hresult.2⟩, fun hoff ↦ by simp [hlive] at hoff⟩
  | false =>
      rw [if_neg (by simp [hlive])] at h
      exact ⟨h.2.1, fun hon ↦ by simp [hlive] at hon, fun _ ↦ h.1⟩

end AutoReviewer

namespace Engine

variable {env : Env} {ok : ModelReply → Prop} [DecidablePred ok] {sub : Submission} {task : Task}
  {project : Project} {expert : Expert} {s s' : Db} {w w' : ℕ} {status : SubmissionStatus}

theorem exec_elsewhere {α : Type} {p : Tx α} (hp : p.WritesIn Elsewhere) {a : α}
    (h : (answering ok).Exec p s w a s' w') : s'.submissions = s.submissions :=
  Machine.Exec.keeps (f := fun s ↦ s.submissions) (hp.mono fun _ hu ↦ hu.keeps)
    ((answering_refines ok).exec h)

theorem elsewhere_record (actor action entityType entityId : String) (payload : Json) :
    (Audit.record env actor action entityType entityId payload).WritesIn Elsewhere :=
  Audit.record_writesIn env (fun _ ↦ rfl) _ _ _ _ _

theorem elsewhere_addReview (submissionId : String) (kind : ReviewKind) (reviewerId : String)
    (verdict : Verdict) (overall : Option PyFloat) (detail : Json) :
    (addReview submissionId kind reviewerId verdict overall detail).WritesIn Elsewhere :=
  (Prog.Writeless.ask _).writesIn.bind fun _ ↦ (Prog.Writeless.ask _).writesIn.bind fun _ ↦
    (Prog.WritesIn.emit (I := Elsewhere) rfl).bind fun _ ↦ .pure _

/-- A status write, and a rest that does not touch submissions. -/
theorem exec_setSubmissionStatus_bind {α : Type} {k : Unit → Tx α} {b : α} {a : Submission}
    (h : (answering ok).Exec (Session.write (.setSubmissionStatus sub.id status) >>= k)
      s w b s' w') (ha : s.submissions.find? sub.id = some a) :
    ∃ s₁, (answering ok).Exec (k ()) s₁ w b s' w' ∧
      s₁.submissions.find? sub.id = some { a with status := status } ∧
      s₁.experts = s.experts := by
  rw [Machine.exec_emit_bind] at h
  obtain ⟨s₁, hs₁, h⟩ := h
  obtain rfl := Option.some.inj hs₁
  refine ⟨_, h, ?_, rfl⟩
  have hkey : a.id = sub.id := Table.key_of_find? ha
  rw [Table.find?_modify, ha]
  simp [hkey]

theorem exec_holdBack_row {result : AutoReviewer.AutoReview} {sampled : Bool} {a : Submission}
    {status' : SubmissionStatus}
    (h : (answering ok).Exec (holdBack env sub result sampled status) s w status' s' w')
    (ha : s.submissions.find? sub.id = some a) :
    status' = status ∧ s'.submissions.find? sub.id = some { a with status := status } := by
  unfold holdBack at h
  obtain ⟨s₁, h, hrow, _⟩ := exec_setSubmissionStatus_bind h ha
  rw [Machine.exec_bind] at h
  obtain ⟨aud, s₂, w₂, haud, rfl, rfl, rfl⟩ := h
  have hsame := exec_elsewhere (elsewhere_record _ _ _ _ _) haud
  exact ⟨rfl, by rw [hsame, hrow]⟩

theorem exec_autoApprove_row {result : AutoReviewer.AutoReview} {sampled : Bool} {a : Submission}
    (h : (answering ok).Exec (autoApprove env sub task project expert result sampled)
      s w status s' w') (ha : s.submissions.find? sub.id = some a) :
    status = .approved ∧ s'.submissions.find? sub.id = some { a with status := .approved } := by
  unfold autoApprove at h
  obtain ⟨s₁, h, hrow, _⟩ := exec_setSubmissionStatus_bind h ha
  -- what follows the first write
  have hrest : (do
      Session.write (.setTaskStatus task.id .completed)
      Session.write (.setApprovedCount expert.id (expert.approvedCount + 1))
      let _ ← Controls.updateQualityScore
        { expert with approvedCount := expert.approvedCount + 1 } result.overallScore
      let _ ← Billing.recordApprovedRecord env project task sub
      let _ ← Audit.record env result.reviewerId "submission.auto_approved" "submission" sub.id
        (autoOutcomeEntry result sampled)
      return .approved : Tx SubmissionStatus).WritesIn Elsewhere := by
    refine (Prog.WritesIn.emit (I := Elsewhere) rfl).bind fun _ ↦ ?_
    refine (Prog.WritesIn.emit (I := Elsewhere) rfl).bind fun _ ↦ ?_
    refine (Controls.updateQualityScore_writesIn (fun _ _ ↦ rfl) (fun _ _ ↦ rfl) _ _).bind
      fun _ ↦ ?_
    refine (Billing.recordApprovedRecord_writesIn env (fun _ ↦ rfl) (fun _ ↦ rfl) _ _ _).bind
      fun _ ↦ ?_
    exact (elsewhere_record _ _ _ _ _).bind fun _ ↦ .pure _
  have hsame := exec_elsewhere hrest h
  refine ⟨?_, by rw [hsame, hrow]⟩
  simp only [Machine.exec_bind, Prog.monad_pure, Machine.exec_pure] at h
  grind

/-- Gate 3: the review, the sampling decision, and the row with the status
they lead to. -/
theorem exec_autoReview_row {rubric : Rubric} {validation : ValidationResult} {a : Submission}
    (h : (answering ok).Exec (autoReview env sub task project expert rubric validation)
      s w status s' w') (ha : s.submissions.find? sub.id = some a) :
    ∃ result sampled critical,
      AutoReviewer.Answered env ok project.taskType sub.content rubric validation result ∧
      Controls.isSampledForHumanReview env sub.id expert = .ok sampled ∧
      AutoReviewer.criticalFlags result.flags = .ok critical ∧
      status = route critical result sampled ∧
      s'.submissions.find? sub.id =
        some { a with status := status, sampledForHumanReview := sampled } := by
  unfold autoReview at h
  obtain ⟨s₁, h, hrow₁, _⟩ := exec_setSubmissionStatus_bind h ha
  rw [Machine.exec_bind] at h
  obtain ⟨result, s₂, w₂, hreview, h⟩ := h
  obtain ⟨rfl, hanswered⟩ := AutoReviewer.exec_review_answering hreview
  rw [Machine.exec_bind] at h
  obtain ⟨rev, s₃, w₃, hrev, h⟩ := h
  have hsame₃ := exec_elsewhere (elsewhere_addReview _ _ _ _ _ _) hrev
  rw [Machine.exec_ofExcept_bind] at h
  obtain ⟨critical, hcritical, h⟩ := h
  rw [Machine.exec_ofExcept_bind] at h
  obtain ⟨sampled, hsampled, h⟩ := h
  rw [Machine.exec_emit_bind] at h
  obtain ⟨s₄, hs₄, h⟩ := h
  obtain rfl := Option.some.inj hs₄
  have hkey : a.id = sub.id := Table.key_of_find? ha
  have hrow₄ : (s₃.submissions.modify sub.id
      (fun b ↦ { b with sampledForHumanReview := sampled }) fun _ ↦ rfl).find? sub.id =
      some { a with status := .autoQcPending, sampledForHumanReview := sampled } := by
    rw [Table.find?_modify, hsame₃, hrow₁]
    simp [hkey]
  refine ⟨result, sampled, critical, hanswered, hsampled, hcritical, ?_⟩
  unfold route
  split at h
  · rename_i hlow
    obtain ⟨rfl, hrow⟩ := exec_holdBack_row h hrow₄
    exact ⟨(if_pos hlow).symm, hrow⟩
  · rename_i hlow
    rw [if_neg hlow]
    split at h
    · rename_i hhold
      obtain ⟨rfl, hrow⟩ := exec_holdBack_row h hrow₄
      exact ⟨(if_pos hhold).symm, hrow⟩
    · rename_i hhold
      obtain ⟨rfl, hrow⟩ := exec_autoApprove_row h hrow₄
      exact ⟨(if_neg hhold).symm, hrow⟩

/-- A submission outside the gold check that passed gate 1. -/
theorem exec_process_row {rubric : Rubric} {validation : ValidationResult} {a : Submission}
    (h : (answering ok).Exec (process env sub task project expert) s w status s' w')
    (ha : s.submissions.find? sub.id = some a)
    (hrubric : getRubric project.rubricId = .ok rubric) (hgold : task.isGold = false)
    (hvalidation : env.runAll sub.content project.taskType
      (projectFingerprints env s project.id project.taskType sub.id) = .ok validation)
    (hpassed : validation.passed = true) :
    ∃ result sampled critical,
      AutoReviewer.Answered env ok project.taskType sub.content rubric validation result ∧
      Controls.isSampledForHumanReview env sub.id expert = .ok sampled ∧
      AutoReviewer.criticalFlags result.flags = .ok critical ∧
      status = route critical result sampled ∧
      s'.submissions.find? sub.id =
        some { a with status := status, sampledForHumanReview := sampled } := by
  unfold process at h
  rw [hrubric, Machine.exec_ofExcept_bind] at h
  obtain ⟨rubric', hrubric', h⟩ := h
  obtain rfl := Except.ok.inj hrubric'
  rw [Machine.exec_select_bind, Machine.exec_ofExcept_bind] at h
  obtain ⟨validation', hvalidation', h⟩ := h
  obtain rfl := Except.ok.inj (hvalidation.symm.trans hvalidation')
  rw [Machine.exec_bind] at h
  obtain ⟨rev, s₁, w₁, hrev, h⟩ := h
  have hsame₁ := exec_elsewhere (elsewhere_addReview _ _ _ _ _ _) hrev
  have hanswer : goldAnswerOf task = none := by simp [goldAnswerOf, hgold]
  rw [if_neg (by simp [hpassed]), hanswer] at h
  exact exec_autoReview_row h (by rwa [hsame₁])

end Engine

namespace AutoReviewer

namespace Response

variable (rubric : Rubric) (r : Response)

/-- Gate 3 of the manual, with the gate criteria of its rubrics. -/
def manualStatus (sampled : Bool) : SubmissionStatus :=
  if (r.overall rubric).lt Settings.qcGrayThreshold = true ∨ r.raised ≠ [] ∨
      r.criticalBelow rubric then .needsRevision
  else if (r.overall rubric).lt Settings.qcPassThreshold = true ∨ r.insufficient = true ∨
      sampled = true then .humanReview
  else .approved

/-- A gate criterion failed, and nothing else asks for a revision. -/
def GateOnly : Prop :=
  r.criticalBelow rubric ∧ r.raised = [] ∧
    (r.overall rubric).lt Settings.qcGrayThreshold = false

variable {rubric r}

theorem le_overall_eq_false : Settings.qcPassThreshold.le (r.overall rubric) = false ↔
    (r.overall rubric).lt Settings.qcPassThreshold = true := by
  simp [overall, PyFloat.round, Settings.qcPassThreshold]

/-- The engine follows the manual unless a gate criterion failed alone. -/
theorem route_eq_manualStatus_iff {result : AutoReview} (h : Judges rubric r result)
    (sampled : Bool) :
    Engine.route r.raised result sampled = r.manualStatus rubric sampled ↔
      ¬r.GateOnly rubric := by
  have hlive : FALLBACK_REVIEWER_ID ≠ result.reviewerId := by
    rw [h.live]
    decide
  have hfailed : result.passed = false ↔ r.heldBack rubric := by
    rw [← Bool.not_eq_true, h.passed, not_not]
  unfold Engine.route manualStatus
  rw [h.score]
  by_cases hrevise : r.raised ≠ [] ∨ (r.overall rubric).lt Settings.qcGrayThreshold = true
  · have hmanual : (r.overall rubric).lt Settings.qcGrayThreshold = true ∨ r.raised ≠ [] ∨
        r.criticalBelow rubric := by tauto
    have hnot : ¬r.GateOnly rubric := by
      rintro ⟨_, hflags, hgray⟩
      rcases hrevise with hraised | hlow
      · exact hraised hflags
      · simp [hgray] at hlow
    rw [if_pos hrevise, if_pos hmanual]
    exact iff_of_true rfl hnot
  · simp only [not_or, not_not, Bool.not_eq_true] at hrevise
    obtain ⟨hflags, hgray⟩ := hrevise
    by_cases hgate : r.criticalBelow rubric
    · have hstopped : result.passed = false :=
        hfailed.mpr (Or.inr (Or.inr (Or.inr hgate)))
      simp [hflags, hgray, hgate, hstopped, GateOnly]
    · have hheld : r.heldBack rubric ↔
          (r.overall rubric).lt Settings.qcPassThreshold = true ∨ r.insufficient = true := by
        simp [heldBack, hflags, hgate, le_overall_eq_false]
      have hsame : (FALLBACK_REVIEWER_ID = result.reviewerId ∨ sampled = true ∨
          result.passed = false) ↔ ((r.overall rubric).lt Settings.qcPassThreshold = true ∨
          r.insufficient = true ∨ sampled = true) := by
        rw [hfailed, hheld]
        tauto
      have hnot : ¬r.GateOnly rubric := fun hgateOnly ↦ hgate hgateOnly.1
      simp only [hflags, hgray, hgate, ne_eq, not_true_eq_false, Bool.false_eq_true, or_self,
        if_false, hsame]
      exact iff_of_true trivial hnot

end Response

end AutoReviewer

open AutoReviewer

namespace Development

/-- All but one gate criterion in full. -/
def gateScores : List (String × ℤ) :=
  [("technical_accuracy", 2), ("standards_grounding", 5), ("completeness", 5),
    ("reasoning_quality", 5), ("clarity_style", 5)]

end Development

end HumanDataFactory
