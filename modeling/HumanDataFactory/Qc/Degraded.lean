import HumanDataFactory.Python.Rounding
import HumanDataFactory.Qc.Routing
import HumanDataFactory.Validators.Findings

/-!
# Degraded mode

When the model API does not answer, the heuristic scores a submission that
passed gate 1 by its length, its citations and the warnings it got.  That score
sits right at the threshold below which gate 3 asks for a revision.
-/

namespace HumanDataFactory

open Transact

namespace AutoReviewer

open Validators

variable {u : Unicode} {env : Env} {content : List (String × Json)} {taskType : TaskType}

/-- The heuristic's score in quarters, before it is clamped. -/
def quarters (long cited : Prop) [Decidable long] [Decidable cited] (findings : ℕ) : ℤ :=
  12 + (if long then 2 else 0) + (if cited then 2 else 0) - findings

/-- The main text has the length that the heuristic rewards. -/
def Long (env : Env) (content : List (String × Json)) (taskType : TaskType) : Prop :=
  800 ≤ (mainText env content taskType).length

instance : Decidable (Long env content taskType) :=
  inferInstanceAs (Decidable (800 ≤ _))

/-- The field `citations` is there and not empty, zero or false. -/
def Cited (content : List (String × Json)) : Prop :=
  (fieldOf content "citations").truthy = true

instance : Decidable (Cited content) :=
  inferInstanceAs (Decidable (_ = true))

theorem heuristicScore_eq (validation : ValidationResult) :
    heuristicScore env taskType (.obj content) validation =
      max 0 (min 5 ((quarters (Long env content taskType) (Cited content)
        validation.findings.length : ℚ) / 4)) := by
  have hbase : (3 + (if Long env content taskType then 1 / 2 else 0) +
      (if Cited content then 1 / 2 else 0) - 1 / 4 * (validation.findings.length : ℚ)) * 100 =
      ((25 * quarters (Long env content taskType) (Cited content)
        validation.findings.length : ℤ) : ℚ) := by
    unfold quarters
    push_cast
    split <;> split <;> ring
  have hscore : heuristicScore env taskType (.obj content) validation =
      max 0 (min 5 ((PyFloat.roundHalfEven ((3 + (if Long env content taskType then 1 / 2 else 0) +
        (if Cited content then 1 / 2 else 0) -
          1 / 4 * (validation.findings.length : ℚ)) * 100) : ℚ) / 100)) := rfl
  have hcents : ((25 * quarters (Long env content taskType) (Cited content)
      validation.findings.length : ℤ) : ℚ) / 100 =
      (quarters (Long env content taskType) (Cited content)
        validation.findings.length : ℚ) / 4 := by
    push_cast
    ring
  rw [hscore, hbase, PyFloat.roundHalfEven_intCast, hcents]

/-- The score is below the threshold if it lost a quarter too many. -/
theorem lt_grayThreshold_iff (validation : ValidationResult) :
    (PyFloat.finite (heuristicScore env taskType (.obj content) validation)).lt
        Settings.qcGrayThreshold = true ↔
      quarters (Long env content taskType) (Cited content) validation.findings.length < 12 := by
  rw [heuristicScore_eq, Settings.qcGrayThreshold, PyFloat.lt_finite, decide_eq_true_eq]
  generalize quarters (Long env content taskType) (Cited content) validation.findings.length = k
  rw [max_lt_iff, min_lt_iff]
  have hthree : ((k : ℚ) / 4 < 3) ↔ k < 12 := by
    rw [div_lt_iff₀ (by norm_num)]
    constructor
    · intro h
      have hcast : (k : ℚ) < (12 : ℤ) := by
        push_cast
        linarith
      exact_mod_cast hcast
    · intro h
      have hcast : (k : ℚ) < (12 : ℤ) := by exact_mod_cast h
      push_cast at hcast
      linarith
  rw [hthree]
  norm_num

theorem route_reviewHeuristic (content : Json) (rubric : Rubric) (validation : ValidationResult)
    (sampled : Bool) :
    Engine.route [] (reviewHeuristic env taskType content rubric validation) sampled =
        .humanReview ↔
      ¬(PyFloat.finite (heuristicScore env taskType content validation)).lt
        Settings.qcGrayThreshold = true := by
  have hscore : (reviewHeuristic env taskType content rubric validation).overallScore =
      .finite (heuristicScore env taskType content validation) := rfl
  have hoffline : FALLBACK_REVIEWER_ID =
      (reviewHeuristic env taskType content rubric validation).reviewerId := rfl
  unfold Engine.route
  rw [hscore]
  by_cases hlow : (PyFloat.finite (heuristicScore env taskType content validation)).lt
      Settings.qcGrayThreshold = true
  · rw [if_pos (Or.inr hlow)]
    simp [hlow]
  · rw [if_neg (by simpa using hlow), if_pos (Or.inl hoffline)]
    simp [hlow]

/-- Gate 1 warned about an EIN and about a phone number. -/
def Suspicious (u : Unicode) (content : List (String × Json)) : Prop :=
  (u.search (EIN u) (textBlob content)).isSome = true ∧
    (u.search (PHONE u) (textBlob content)).isSome = true

theorem length_reportMatch (r : Regex) (text : String) (f : Finding) :
    (reportMatch u r text f).length = if (u.search r text).isSome then 1 else 0 := by
  unfold reportMatch
  split <;> rfl

theorem length_uncited : (uncited content).length = if Cited content then 0 else 1 := by
  have hsame : isUncited content = true ↔ ¬Cited content := by
    rw [isUncited_eq]
    simp [Cited]
  unfold uncited
  by_cases hcited : Cited content <;> simp [hsame, hcited]

/-- A cited submission keeps its three points whatever the warnings, another one
only if it is long and got no other two. -/
theorem quarters_warnings : quarters (Long env content taskType) (Cited content)
      (warnings u content).length < 12 ↔
    ¬(Cited content ∨ (Long env content taskType ∧ ¬Suspicious u content)) := by
  have hlength : (warnings u content).length =
      (if (u.search (EIN u) (textBlob content)).isSome then 1 else 0) +
        (if (u.search (PHONE u) (textBlob content)).isSome then 1 else 0) +
        if Cited content then 0 else 1 := by
    simp only [warnings, List.length_append, length_reportMatch, length_uncited]
  unfold quarters Suspicious
  rw [hlength]
  by_cases hcited : Cited content <;> by_cases hlong : Long env content taskType <;>
    cases (u.search (EIN u) (textBlob content)).isSome <;>
    cases (u.search (PHONE u) (textBlob content)).isSome <;> simp [hcited, hlong]

end AutoReviewer

open AutoReviewer

/-- A submission outside the gold check that passed gate 1 and was scored by the
heuristic waits for a human exactly if it has citations, or is long and was not
warned about both an EIN and a phone number. -/
theorem Engine.humanReview_iff {u : Unicode} {env : Env} {rubric : Rubric}
    {ok : ModelReply → Prop} [DecidablePred ok]
    (hoffline : env.anthropicAvailable = true → ∀ reply, ok reply →
      ∃ e, reviewWithClaude (env.validated u) rubric reply = .error e)
    {sub a : Submission} {task : Task} {project : Project} {expert : Expert} {s s' : Db}
    {w w' : ℕ} {status : SubmissionStatus} {content : List (String × Json)}
    (h : (answering ok).Exec (process (env.validated u) sub task project expert) s w status s' w')
    (ha : s.submissions.find? sub.id = some a) (hcontent : sub.content = .obj content)
    (hrubric : getRubric project.rubricId = .ok rubric) (hgold : task.isGold = false)
    {validation : ValidationResult}
    (hvalidation : Validators.runAll u env sub.content project.taskType
      (projectFingerprints (env.validated u) s project.id project.taskType sub.id) =
        .ok validation)
    (hpassed : validation.passed = true) :
    (s'.submissions.find? sub.id).map Submission.status = some .humanReview ↔
      (Cited content ∨ (Long env content project.taskType ∧ ¬Suspicious u content)) := by
  obtain ⟨result, sampled, critical, hanswered, hsampled, hcritical, hstatus, hrow⟩ :=
    exec_process_row h ha hrubric hgold hvalidation hpassed
  have hresult : result = reviewHeuristic (env.validated u) project.taskType sub.content rubric
      validation := by
    cases hlive : env.anthropicAvailable with
    | false => exact hanswered.offline hlive
    | true =>
        obtain ⟨reply, hreply, rfl⟩ := hanswered.live hlive
        obtain ⟨e, he⟩ := hoffline hlive reply hreply
        simp only [outcome, he]
  rw [hcontent] at hvalidation hresult
  obtain ⟨_, _, rfl⟩ := Validators.runAll_passed_iff.mp ⟨hvalidation, hpassed⟩
  subst hresult
  have hflags : critical = [] := by
    have hnone : criticalFlags (Json.strs ["OFFLINE_FALLBACK"]) = .ok [] := by decide +kernel
    exact (Except.ok.inj (hnone.symm.trans hcritical)).symm
  have hroute : status = .humanReview ↔ ¬quarters (Long env content project.taskType)
      (Cited content) (Validators.warnings u content).length < 12 := by
    rw [← lt_grayThreshold_iff ⟨Validators.warnings u content⟩, hstatus, hflags]
    exact route_reviewHeuristic _ _ _ _
  rw [hrow, Option.map_some, Option.some.injEq, hroute, quarters_warnings, not_not]

namespace Development

def offlineEnv : Env := env.validated .ascii

/-- A response that is an object, with these citations. -/
def contentCiting (citations : Json) : List (String × Json) :=
  [("response", .obj [("text", .str "Deductible.")]), ("citations", citations)]

def deskSubmissionCiting (citations : Json) : Submission :=
  { deskSubmission with content := .obj (contentCiting citations) }

def deskCiting (citations : Json) : Db :=
  { desk with submissions := .push .empty (deskSubmissionCiting citations) }

/-- The first submission of a project, offline. -/
def offlineRun (content : List (String × Json)) : List (Served Api.Http Db Json) × Db × ℕ :=
  machine.simulateRun answers (Api.serve offlineEnv) ((submissionOf content).map http) 1 Db.empty 1

end Development

open Development

theorem Engine.humanReview_iff_cited :
    ∃ status s' w', (answering fun _ ↦ True).Exec (process offlineEnv
        (deskSubmissionCiting (.arr [.str "IRC 162"])) deskTask deskProject deskExpert)
        (deskCiting (.arr [.str "IRC 162"])) 1 status s' w' ∧
      (s'.submissions.find? (deskSubmissionCiting (.arr [.str "IRC 162"])).id).map
        Submission.status = some .humanReview := by
  have hsome : ((answering fun _ ↦ True).simulate answers (process offlineEnv
      (deskSubmissionCiting (.arr [.str "IRC 162"])) deskTask deskProject deskExpert) 1
      (deskCiting (.arr [.str "IRC 162"])) 1).isSome = true := by decide +kernel
  obtain ⟨⟨status, n, s', w'⟩, hrun⟩ := Option.isSome_iff_exists.mp hsome
  have hexec := Machine.exec_of_simulate hrun
  refine ⟨status, s', w', hexec, ?_⟩
  have hvalid : Validators.runAll .ascii env (.obj (contentCiting (.arr [.str "IRC 162"]))) .sft
      [] = .ok ⟨[]⟩ := by decide +kernel
  have hcited : Cited (contentCiting (.arr [.str "IRC 162"])) := by decide +kernel
  exact (humanReview_iff (by simp [env]) hexec
    (a := deskSubmissionCiting (.arr [.str "IRC 162"])) rfl rfl rfl rfl hvalid rfl).mpr
      (Or.inl hcited)

/-- A submission whose citations are the number zero passes gate 1 and is sent
back by the heuristic. -/
theorem Engine.uncited_needsRevision :
    machine.Run (Api.serve offlineEnv) Db.empty 1 (offlineRun (contentCiting (.int 0))).1
        (offlineRun (contentCiting (.int 0))).2.1 (offlineRun (contentCiting (.int 0))).2.2 ∧
      (offlineRun (contentCiting (.int 0))).2.1.tasks.rows.map Task.isGold = [false] ∧
      (offlineRun (contentCiting (.int 0))).2.1.reviews.rows.map
          (fun r ↦ (r.kind, r.reviewerId, r.verdict)) =
        [(.deterministic, "validators-v1", .pass),
          (.autoLlm, AutoReviewer.FALLBACK_REVIEWER_ID, .revise)] ∧
      (offlineRun (contentCiting (.int 0))).2.1.submissions.rows.map Submission.status =
        [.needsRevision] :=
  ⟨Machine.run_of_simulateRun _ _ _ _ _, by decide +kernel, by decide +kernel, by decide +kernel⟩

end HumanDataFactory
