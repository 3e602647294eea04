import HumanDataFactory.Audit
import HumanDataFactory.Controls
import HumanDataFactory.Transact.Answers

/-!
# Dataset export

`export.py` and `storage.py`: which rows ship, the control report, and the
dual-control release with its files and uploads.
-/

namespace HumanDataFactory

open Transact

namespace Export

variable (env : Env)

/-- The join of non-gold tasks of a project with their approved submissions. -/
def approvedJoin (s : Db) (project : Project) : List (Task × Submission) :=
  (s.tasks.rows.filter fun t ↦ t.projectId = project.id ∧ t.isGold = false).flatMap fun t ↦
    (s.submissions.rows.filter fun sub ↦ sub.taskId = t.id ∧ sub.status = .approved).map
      fun sub ↦ (t, sub)

/-- One round of the loop that keeps the latest approved version of a task. -/
def keepLatest (latest : List (Task × Submission)) (row : Task × Submission) :
    List (Task × Submission) :=
  if ∃ r ∈ latest, r.1.id = row.1.id then
    latest.map fun r ↦
      if r.1.id = row.1.id ∧ r.2.version < row.2.version then row else r
  else latest ++ [row]

def latestVersions (rows : List (Task × Submission)) : List (Task × Submission) :=
  rows.foldl keepLatest []

def approvedRows (s : Db) (project : Project) : List (Task × Submission) :=
  latestVersions (env.orderBy (fun row ↦ row.1.createdAt) (approvedJoin s project))

structure ControlReport where
  projectId : String
  totalTasks : ℕ
  approvedRecords : ℕ
  tasksWithoutApprovedSubmission : List String
  approvedWithoutReviewEvidence : List String
  auditChainIntact : Bool
  auditChainLength : ℕ
  clean : Bool

def ControlReport.asJson (r : ControlReport) : Json :=
  .obj [("project_id", .str r.projectId), ("total_tasks", .int r.totalTasks),
    ("approved_records", .int r.approvedRecords),
    ("tasks_without_approved_submission", Json.strs r.tasksWithoutApprovedSubmission),
    ("approved_without_review_evidence", Json.strs r.approvedWithoutReviewEvidence),
    ("audit_chain_intact", .bool r.auditChainIntact),
    ("audit_chain_length", .int r.auditChainLength), ("clean", .bool r.clean)]

def hasReviewEvidence (s : Db) (submissionId : String) : Bool :=
  s.reviews.rows.any fun r ↦
    decide (r.submissionId = submissionId ∧ (r.kind = .autoLlm ∨ r.kind = .human))

/-- The loop over the records to ship, with one query of reviews for each. -/
def unreviewed : List (Task × Submission) → Tx (List String)
  | [] => return []
  | row :: rows => do
      let evidence ← Session.select (.rows .reviews) fun s ↦ hasReviewEvidence s row.2.id
      let rest ← unreviewed rows
      return if evidence then rest else row.2.id :: rest

def controlReport (project : Project) : Tx ControlReport := do
  let tasks ← Session.select (.rows .tasks) fun s ↦
    s.tasks.rows.filter fun t ↦ t.projectId = project.id ∧ t.isGold = false
  let approved ← Session.select (.rows .submissions) fun s ↦ approvedRows env s project
  let pending := (tasks.map Task.id).filter fun id ↦ id ∉ approved.map fun row ↦ row.1.id
  let missing ← unreviewed approved
  let (chainOk, chainLen) ← Session.select (.rows .auditEvents) fun s ↦ Audit.verifyChain env s
  return {
    projectId := project.id
    totalTasks := tasks.length
    approvedRecords := approved.length
    tasksWithoutApprovedSubmission := pending
    approvedWithoutReviewEvidence := missing
    auditChainIntact := chainOk
    auditChainLength := chainLen
    clean := chainOk && missing.isEmpty && decide (0 < approved.length) }

def newBatch (project : Project) (requestedBy : String) (report : ControlReport) (id : String) :
    ExportBatch where
  id := id
  projectId := project.id
  requestedBy := requestedBy
  approvedBy := none
  path := none
  manifest := .obj [("control_report", report.asJson)]
  status := .pendingApproval

def requestExport (project : Project) (requestedBy : String) : Tx ExportBatch := do
  let report ← controlReport env project
  Prog.ensure (report.clean = true)
    (.exportError s!"control report is not clean: {env.str report.asJson}")
  let id ← Session.uuid4
  let batch := newBatch project requestedBy report id
  Session.write (.insertExportBatch batch)
  let _ ← Audit.record env requestedBy "export.requested" "export_batch" batch.id
    (.obj [("project_id", .str project.id), ("records", .int report.approvedRecords)])
  return batch

def recordMeta (task : Task) (sub : Submission) : Json :=
  .obj [("task_id", .str task.id), ("submission_id", .str sub.id), ("version", .int sub.version),
    ("sampled_human_review", .bool sub.sampledForHumanReview)]

def formatRecord (taskType : TaskType) (task : Task) (sub : Submission) :
    Except PyError Json := do
  let c := sub.content
  match taskType with
  | .sft =>
      let completion ← c.index "response"
      let citations ← c.getD "citations" (.arr [])
      return .obj [("prompt", .str task.prompt), ("completion", completion),
        ("citations", citations), ("metadata", recordMeta task sub)]
  | .preference =>
      let chosen ← c.index "chosen"
      let rejected ← c.index "rejected"
      let rationale ← c.getD "rejection_rationale" (.str "")
      let citations ← c.getD "citations" (.arr [])
      return .obj [("prompt", .str task.prompt), ("chosen", chosen), ("rejected", rejected),
        ("rejection_rationale", rationale), ("citations", citations),
        ("metadata", recordMeta task sub)]
  | .eval =>
      let answer ← c.index "answer"
      let notes ← c.getD "grading_notes" (.str "")
      let citations ← c.getD "citations" (.arr [])
      return .obj [("question", .str task.prompt), ("reference_answer", answer),
        ("grading_notes", notes), ("citations", citations), ("metadata", recordMeta task sub)]

def formatRecords (taskType : TaskType) : List (Task × Submission) → Except PyError (List Json)
  | [] => .ok []
  | (task, sub) :: rows => do
      let r ← formatRecord taskType task sub
      let rest ← formatRecords taskType rows
      return r :: rest

def toChat (r : Json) : Json :=
  .obj [("messages", .arr [.obj [("role", .str "user"), ("content", r.field "prompt")],
      .obj [("role", .str "assistant"), ("content", r.field "completion")]]),
    ("metadata", r.field "metadata")]

def jsonl (rows : List Json) : String :=
  String.join (rows.map fun row ↦ Json.dumps env.floatRepr Json.readable row ++ "\n")

/-- `_write_jsonl` and then `_sha256` of the same path. -/
def writeJsonl (path : String) (rows : List Json) : Tx String := do
  let written ← Prog.ask (.writeText path (jsonl env rows) : Call)
  Session.returned written
  let read ← Prog.ask (.readFile path : Call)
  let text ← Session.returned read
  return env.sha256 text

def writeFiles (base : String) (taskType : TaskType) (records : List Json) :
    Tx (List (String × Json)) := do
  let mainName := taskType.value ++ ".jsonl"
  let digest ← writeJsonl env (base ++ "/" ++ mainName) records
  if taskType = .sft then do
    let chatDigest ← writeJsonl env (base ++ "/chat.jsonl") (records.map toChat)
    return [(mainName, .str digest), ("chat.jsonl", .str chatDigest)]
  else return [(mainName, .str digest)]

/-- `get_storage()` is not `None`. -/
def stored : Prop := env.exportS3Bucket ≠ ""

instance : Decidable (stored env) :=
  inferInstanceAs (Decidable (_ ≠ _))

/-- The upload loop: a file that is not wanted is skipped. -/
def uploadFiles (base batchId : String) (only : Option (List String)) :
    List (String × Bool) → Tx (List (String × Json))
  | [] => return []
  | (name, isFile) :: entries =>
      if isFile = false ∨ (∃ names ∈ only, name ∉ names) then uploadFiles base batchId only entries
      else do
        let key := s!"{env.exportS3Prefix}/{batchId}/{name}"
        let done ← Prog.ask (.uploadFile (base ++ "/" ++ name) env.exportS3Bucket key : Call)
        Session.returned done
        let rest ← uploadFiles base batchId only entries
        return (name, .str key) :: rest

def uploadBatch (base batchId : String) (only : Option (List String)) :
    Tx (List (String × Json)) := do
  let listed ← Prog.ask (.iterdir base : Call)
  let entries ← Session.returned listed
  uploadFiles env base batchId only (entries.insertionSort fun a b ↦ a.1 ≤ b.1)

def storageBlock (keys : List (String × Json)) : Json :=
  .obj [("backend", .str "s3"), ("bucket", .str env.exportS3Bucket),
    ("endpoint", if env.exportS3Endpoint = "" then .null else .str env.exportS3Endpoint),
    ("keys", .obj keys)]

/-- `{**d, **e}`. -/
def merge (d e : List (String × Json)) : List (String × Json) :=
  e.foldl (fun acc kv ↦ Json.insert acc kv.1 kv.2) d

def manifestEntries (batch : ExportBatch) (project : Project) (firm : Firm) (recordCount : ℕ)
    (files : List (String × Json)) (chainHead generatedAt approvedBy : String) :
    List (String × Json) :=
  [("project", .obj [("id", .str project.id), ("name", .str project.name),
      ("firm", .obj [("id", .str firm.id), ("name", .str firm.name)]),
      ("track", .str project.track.value), ("task_type", .str project.taskType.value)]),
    ("record_count", .int recordCount), ("files", .obj files),
    ("audit_chain_head", .str chainHead), ("generated_at", .str generatedAt),
    ("requested_by", .str batch.requestedBy), ("approved_by", .str approvedBy)]

def manifestBase : Json → Except PyError (List (String × Json))
  | .obj kvs => .ok kvs
  | _ => .error .typeError

def writeManifest (base : String) (manifest : List (String × Json)) : Tx Unit := do
  let written ← Prog.ask (.writeText (base ++ "/manifest.json")
    (Json.dumpsIndent env.floatRepr 0 (.obj manifest)) : Call)
  Session.returned written

/-- Data files first, then the manifest that references their keys. -/
def storeFiles (base batchId : String) (manifest : List (String × Json)) :
    Tx (List (String × Json)) :=
  if stored env then do
    let keys ← uploadBatch env base batchId none
    writeManifest env base (Json.insert manifest "storage" (storageBlock env keys))
    let manifestKeys ← uploadBatch env base batchId (some ["manifest.json"])
    return Json.insert manifest "storage" (storageBlock env (merge keys manifestKeys))
  else do
    writeManifest env base manifest
    return manifest

def approveAndMaterialize (batch : ExportBatch) (approvedBy : String) : Tx ExportBatch := do
  Prog.ensure (batch.status = .pendingApproval)
    (.exportError s!"batch is in status '{batch.status.value}'")
  Controls.assertExportDualControl batch.requestedBy approvedBy
  let foundProject ← Session.select (.row .projects) fun s ↦ s.projects.find? batch.projectId
  let project ← Prog.getSome .attributeError foundProject
  let rows ← Session.select (.rows .submissions) fun s ↦ approvedRows env s project
  let records ← Prog.ofExcept (formatRecords project.taskType rows)
  let base := env.exportsDir ++ "/" ++ batch.id
  let made ← Prog.ask (.mkdir base : Call)
  Session.returned made
  let files ← writeFiles env base project.taskType records
  let foundFirm ← Session.select (.row .firms) fun s ↦ s.firms.find? project.firmId
  let firm ← Prog.getSome .attributeError foundFirm
  let chainHead ← Session.select (.rows .auditEvents) Audit.chainHead
  let now ← Session.now
  let old ← Prog.ofExcept (manifestBase batch.manifest)
  let manifest ← storeFiles env base batch.id
    (merge old (manifestEntries batch project firm records.length files chainHead
      (env.isoformat now) approvedBy))
  let storage := (Json.lookup manifest "storage").getD (.obj [])
  let backend ← Prog.ofExcept (storage.getD "backend" (.str "local"))
  Session.write (.releaseBatch batch.id (some approvedBy) (some base) (.obj manifest))
  let _ ← Audit.record env approvedBy "export.released" "export_batch" batch.id
    (.obj [("record_count", .int records.length), ("files", .obj files),
      ("storage", backend)])
  return { batch with
    approvedBy := some approvedBy
    path := some base
    manifest := .obj manifest
    status := .released }

/-! ## What the exports leave alone

The control report only reads, and everything between the approval's checks
and its last write happens outside the database. -/

/-- The control report on one state. -/
def reportOf (s : Db) (project : Project) : ControlReport :=
  let tasks := s.tasks.rows.filter fun t ↦ t.projectId = project.id ∧ t.isGold = false
  let approved := approvedRows env s project
  let missing := (approved.filter fun row ↦ !hasReviewEvidence s row.2.id).map fun row ↦ row.2.id
  let chain := Audit.verifyChain env s
  { projectId := project.id
    totalTasks := tasks.length
    approvedRecords := approved.length
    tasksWithoutApprovedSubmission :=
      (tasks.map Task.id).filter fun id ↦ id ∉ approved.map fun row ↦ row.1.id
    approvedWithoutReviewEvidence := missing
    auditChainIntact := chain.1
    auditChainLength := chain.2
    clean := chain.1 && missing.isEmpty && decide (0 < approved.length) }

section Exec

variable {env}
variable {s s' : Db} {w w' : ℕ}

theorem answer_unreviewed (rows : List (Task × Submission)) :
    (unreviewed rows).answer s =
      some (.ok ((rows.filter fun row ↦ !hasReviewEvidence s row.2.id).map
        fun row ↦ row.2.id)) := by
  induction rows with
  | nil => rfl
  | cons row rows ih =>
      unfold unreviewed
      rw [Prog.answer_select_bind, Prog.answer_bind_ok ih]
      cases he : hasReviewEvidence s row.2.id <;> simp [he]

theorem answer_controlReport (project : Project) :
    (controlReport env project).answer s = some (.ok (reportOf env s project)) := by
  unfold controlReport
  rw [Prog.answer_select_bind, Prog.answer_select_bind, Prog.answer_bind_ok (answer_unreviewed _)]
  rfl

theorem exec_controlReport {project : Project} {report : ControlReport}
    (h : machine.Exec (controlReport env project) s w report s' w') :
    report = reportOf env s project ∧ s' = s ∧ w' = w :=
  (Machine.exec_iff_of_answer (answer_controlReport project)).mp h

theorem writeless_writeJsonl (path : String) (rows : List Json) :
    Prog.Writeless (writeJsonl env path rows) :=
  (Prog.Writeless.ask _).bind fun _ ↦ (Prog.Writeless.getSome _ _).bind fun _ ↦
    (Prog.Writeless.ask _).bind fun _ ↦ (Prog.Writeless.getSome _ _).bind fun _ ↦ .pure _

theorem writeless_writeFiles (base : String) (taskType : TaskType) (records : List Json) :
    Prog.Writeless (writeFiles env base taskType records) := by
  unfold writeFiles
  refine (writeless_writeJsonl _ _).bind fun digest ↦ ?_
  split
  · exact (writeless_writeJsonl _ _).bind fun _ ↦ .pure _
  · exact .pure _

theorem writeless_uploadFiles (base batchId : String) (only : Option (List String))
    (entries : List (String × Bool)) :
    Prog.Writeless (uploadFiles env base batchId only entries) := by
  induction entries with
  | nil => exact .pure _
  | cons entry entries ih =>
      unfold uploadFiles
      split
      · exact ih
      · exact (Prog.Writeless.ask _).bind fun _ ↦ (Prog.Writeless.getSome _ _).bind fun _ ↦
          ih.bind fun _ ↦ .pure _

theorem writeless_uploadBatch (base batchId : String) (only : Option (List String)) :
    Prog.Writeless (uploadBatch env base batchId only) :=
  (Prog.Writeless.ask _).bind fun _ ↦ (Prog.Writeless.getSome _ _).bind fun _ ↦
    writeless_uploadFiles _ _ _ _

theorem writeless_writeManifest (base : String) (manifest : List (String × Json)) :
    Prog.Writeless (writeManifest env base manifest) :=
  (Prog.Writeless.ask _).bind fun _ ↦ Prog.Writeless.getSome _ _

theorem writeless_storeFiles (base batchId : String) (manifest : List (String × Json)) :
    Prog.Writeless (storeFiles env base batchId manifest) := by
  unfold storeFiles
  split
  · exact (writeless_uploadBatch _ _ _).bind fun _ ↦ (writeless_writeManifest _ _).bind fun _ ↦
      (writeless_uploadBatch _ _ _).bind fun _ ↦ .pure _
  · exact (writeless_writeManifest _ _).bind fun _ ↦ .pure _

end Exec

end Export

end HumanDataFactory
