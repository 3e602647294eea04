import HumanDataFactory.Billing.Service
import HumanDataFactory.Qc.AutoReviewer

/-!
# The workflow engine

`qc/engine.py`: a submission runs through the automated gates, and the human
gate decides what they leave to it.  Rows the session already holds are passed
on rather than read again, as the session's identity map does.
-/

namespace HumanDataFactory

open Transact

namespace Engine

variable (env : Env)

def ENGINE_ACTOR : String := "qc-engine"

def projectFingerprints (s : Db) (projectId : String) (taskType : TaskType)
    (excludeSubmission : String) : List String :=
  let inProject (sub : Submission) : Bool :=
    s.tasks.rows.any fun t ↦ decide (t.id = sub.taskId ∧ t.projectId = projectId)
  (s.submissions.rows.filter fun sub ↦ sub.id ≠ excludeSubmission ∧ inProject sub = true).map
    fun sub ↦ env.contentFingerprint sub.content taskType

def newReview (submissionId : String) (kind : ReviewKind) (reviewerId : String)
    (verdict : Verdict) (overallScore : Option PyFloat) (detail : Json) (id : String)
    (now : Time) : Review where
  id := id
  submissionId := submissionId
  kind := kind
  reviewerId := reviewerId
  verdict := verdict
  overallScore := overallScore
  detail := detail
  createdAt := now

/-- `db.add(Review(...))`. -/
def addReview (submissionId : String) (kind : ReviewKind) (reviewerId : String)
    (verdict : Verdict) (overallScore : Option PyFloat) (detail : Json) : Tx Review := do
  let id ← Session.uuid4
  let now ← Session.now
  let rev := newReview submissionId kind reviewerId verdict overallScore detail id now
  Session.write (.insertReview rev)
  return rev

def failAutoCheck (sub : Submission) (validation : ValidationResult) : Tx SubmissionStatus := do
  Session.write (.setSubmissionStatus sub.id .autoCheckFailed)
  let _ ← Audit.record env ENGINE_ACTOR "submission.auto_check_failed" "submission" sub.id
    (.obj [("errors", Json.strs (validation.errors.map Finding.code))])
  return .autoCheckFailed

def goldCheck (sub : Submission) (task : Task) (goldAnswer : Json) (project : Project)
    (expert : Expert) : Tx SubmissionStatus := do
  let passed ← Prog.ofExcept
    (Controls.goldAnswerMatches env sub.content goldAnswer project.taskType)
  let expert ← Controls.registerGoldResult expert passed
  let _ ← addReview sub.id .goldCheck ENGINE_ACTOR (if passed then .pass else .fail) none
    (.obj [("gold", .bool true)])
  let status : SubmissionStatus := if passed then .approved else .rejected
  Session.write (.setSubmissionStatus sub.id status)
  Session.write (.setTaskStatus task.id .completed)
  let _ ← Audit.record env ENGINE_ACTOR "submission.gold_checked" "submission" sub.id
    (.obj [("passed", .bool passed), ("expert_score", .float expert.qualityScore),
      ("expert_status", .str expert.status.value)])
  return status

def autoOutcomeEntry (result : AutoReviewer.AutoReview) (sampled : Bool) : Json :=
  .obj [("score", .float result.overallScore), ("flags", result.flags),
    ("sampled", .bool sampled)]

/-- Needs revision, or a human decides. -/
def holdBack (sub : Submission) (result : AutoReviewer.AutoReview) (sampled : Bool)
    (status : SubmissionStatus) : Tx SubmissionStatus := do
  Session.write (.setSubmissionStatus sub.id status)
  let _ ← Audit.record env result.reviewerId s!"submission.{status.value}" "submission" sub.id
    (autoOutcomeEntry result sampled)
  return status

def autoApprove (sub : Submission) (task : Task) (project : Project) (expert : Expert)
    (result : AutoReviewer.AutoReview) (sampled : Bool) : Tx SubmissionStatus := do
  Session.write (.setSubmissionStatus sub.id .approved)
  Session.write (.setTaskStatus task.id .completed)
  Session.write (.setApprovedCount expert.id (expert.approvedCount + 1))
  let _ ← Controls.updateQualityScore
    { expert with approvedCount := expert.approvedCount + 1 } result.overallScore
  let _ ← Billing.recordApprovedRecord env project task sub
  let _ ← Audit.record env result.reviewerId "submission.auto_approved" "submission" sub.id
    (autoOutcomeEntry result sampled)
  return .approved

def autoReview (sub : Submission) (task : Task) (project : Project) (expert : Expert)
    (rubric : Rubric) (validation : ValidationResult) : Tx SubmissionStatus := do
  Session.write (.setSubmissionStatus sub.id .autoQcPending)
  let result ← AutoReviewer.review env task.prompt task.context project.taskType sub.content
    rubric validation
  let _ ← addReview sub.id .autoLlm result.reviewerId (if result.passed then .pass else .revise)
    (some result.overallScore) (result.asDetail env)
  let critical ← Prog.ofExcept (AutoReviewer.criticalFlags result.flags)
  let offline := AutoReviewer.FALLBACK_REVIEWER_ID = result.reviewerId
  let sampled ← Prog.ofExcept (Controls.isSampledForHumanReview env sub.id expert)
  Session.write (.setSampledForHumanReview sub.id sampled)
  if critical ≠ [] ∨ result.overallScore.lt Settings.qcGrayThreshold = true then
    holdBack env sub result sampled .needsRevision
  else if offline ∨ sampled = true ∨ result.passed = false then
    holdBack env sub result sampled .humanReview
  else
    autoApprove env sub task project expert result sampled

/-- Gate 2 applies to gold tasks with an answer to compare with. -/
def goldAnswerOf (task : Task) : Option Json :=
  if task.isGold then task.goldAnswer.filter Json.truthy else none

def process (sub : Submission) (task : Task) (project : Project) (expert : Expert) :
    Tx SubmissionStatus := do
  let rubric ← Prog.ofExcept (getRubric project.rubricId)
  let fingerprints ← Session.select (.rows .submissions) fun s ↦
    projectFingerprints env s project.id project.taskType sub.id
  let validation ← Prog.ofExcept (env.runAll sub.content project.taskType fingerprints)
  let _ ← addReview sub.id .deterministic "validators-v1"
    (if validation.passed then .pass else .fail) none validation.asDict
  if validation.passed = false then failAutoCheck env sub validation
  else
    match goldAnswerOf task with
    | some goldAnswer => goldCheck env sub task goldAnswer project expert
    | none => autoReview env sub task project expert rubric validation

def priorSubmissions (s : Db) (taskId expertId : String) : List Submission :=
  env.orderBy (fun sub ↦ -(sub.version : ℤ))
    (s.submissions.rows.filter fun sub ↦ sub.taskId = taskId ∧ sub.expertId = expertId)

def nextVersion : Option Submission → ℕ
  | some prior => prior.version + 1
  | none => 1

/-- `task.assigned_to and task.assigned_to != expert.id`. -/
def assignedElsewhere (task : Task) (expert : Expert) : Prop :=
  ∃ other ∈ task.assignedTo, other ≠ "" ∧ other ≠ expert.id

instance (task : Task) (expert : Expert) : Decidable (assignedElsewhere task expert) :=
  match h : task.assignedTo with
  | none => isFalse (by simp [assignedElsewhere, h])
  | some other =>
      decidable_of_iff (other ≠ "" ∧ other ≠ expert.id) (by simp [assignedElsewhere, h])

def newSubmission (task : Task) (expert : Expert) (content : Json) (version : ℕ) (id : String)
    (now : Time) : Submission where
  id := id
  taskId := task.id
  expertId := expert.id
  version := version
  content := content
  status := .submitted
  sampledForHumanReview := false
  createdAt := now

def submit (task : Task) (expert : Expert) (content : Json) : Tx Submission := do
  let found ← Session.select (.row .projects) fun s ↦ s.projects.find? task.projectId
  let project ← Prog.getSome .attributeError found
  Controls.assertQualified expert project.track
  Prog.ensure (¬assignedElsewhere task expert)
    (.pipelineError "task is assigned to a different expert")
  let prior ← Session.select (.rows .submissions) fun s ↦
    (priorSubmissions env s task.id expert.id).head?
  let version := nextVersion prior
  let id ← Session.uuid4
  let now ← Session.now
  let sub := newSubmission task expert content version id now
  Session.write (.insertSubmission sub)
  let _ ← Audit.record env expert.id "submission.created" "submission" sub.id
    (.obj [("task_id", .str task.id), ("version", .int version)])
  let status ← process env sub task project expert
  return { sub with status := status }

def passVerdict (submission : Submission) (task : Task) (project : Project)
    (found : Option Expert) (overall : Option PyFloat) : Tx SubmissionStatus := do
  Session.write (.setSubmissionStatus submission.id .approved)
  Session.write (.setTaskStatus task.id .completed)
  let author ← Prog.getSome .attributeError found
  Session.write (.setApprovedCount author.id (author.approvedCount + 1))
  let _ ← Controls.updateQualityScore
    { author with approvedCount := author.approvedCount + 1 } (overall.getD (.finite 4))
  let _ ← Billing.recordApprovedRecord env project task submission
  return .approved

def reviseVerdict (submission : Submission) : Tx SubmissionStatus := do
  Session.write (.setSubmissionStatus submission.id .needsRevision)
  return .needsRevision

def failVerdict (submission : Submission) (found : Option Expert) (overall : Option PyFloat) :
    Tx SubmissionStatus := do
  Session.write (.setSubmissionStatus submission.id .rejected)
  let author ← Prog.getSome .attributeError found
  let _ ← Controls.updateQualityScore author (overall.getD (.finite 1))
  return .rejected

/-- The three branches on the verdict; only two of them look at the author. -/
def applyVerdict (submission : Submission) (task : Task) (project : Project)
    (author : Option Expert) (overall : Option PyFloat) : Verdict → Tx SubmissionStatus
  | .pass => passVerdict env submission task project author overall
  | .revise => reviseVerdict submission
  | .fail => failVerdict submission author overall

/-- `_weighted_overall` when there are scores. -/
def overallOf (rubric : Rubric) : List Json → Except PyError (Option PyFloat)
  | [] => .ok none
  | scores => do
      let overall ← AutoReviewer.weightedOverall env rubric scores
      return some overall

def optionalScore : Option PyFloat → Json
  | some x => .float x
  | none => .null

def humanReview (submission : Submission) (reviewer : Expert) (verdict : Verdict)
    (criterionScores : List Json) (comments : String) : Tx (Review × SubmissionStatus) := do
  Prog.ensure (submission.status = .humanReview)
    (.pipelineError s!"submission is in status '{submission.status.value}', not human_review")
  Controls.assertReviewerIndependent submission reviewer
  let foundTask ← Session.select (.row .tasks) fun s ↦ s.tasks.find? submission.taskId
  let task ← Prog.getSome .attributeError foundTask
  let foundProject ← Session.select (.row .projects) fun s ↦ s.projects.find? task.projectId
  let project ← Prog.getSome .attributeError foundProject
  let rubric ← Prog.ofExcept (getRubric project.rubricId)
  let author ← Session.select (.row .experts) fun s ↦ s.experts.find? submission.expertId
  let overall ← Prog.ofExcept (overallOf env rubric criterionScores)
  let rev ← addReview submission.id .human reviewer.id verdict overall
    (.obj [("criterion_scores", .arr criterionScores), ("comments", .str comments)])
  let status ← applyVerdict env submission task project author overall verdict
  let _ ← Audit.record env reviewer.id s!"submission.human_{verdict.value}" "submission"
    submission.id
    (.obj [("overall_score", optionalScore overall),
      ("comments", .str (StripeGateway.take 500 comments))])
  return (rev, status)

end Engine

end HumanDataFactory
