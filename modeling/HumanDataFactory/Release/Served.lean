import HumanDataFactory.Provenance.Computed
import HumanDataFactory.Provenance.Progress
import HumanDataFactory.Release.Screened
import HumanDataFactory.Release.Vouched
import HumanDataFactory.Validators.Shapes

/-!
# Approved work can be delivered

On every database that requests lead to, an export can be requested exactly
when the audit chain verifies and there is approved work, and a waiting batch
can be released exactly when a second person approves it and the file system can
encode its records: none of them fails to be formatted, and nothing that the
manifest names is missing.
-/

namespace HumanDataFactory

open Transact

namespace Export

variable {env : Env} {s : Db} {w : ℕ}

/-! ## Records that can be formatted -/

/-- A required field is found. -/
theorem index_of_required {content : List (String × Json)} {taskType : TaskType}
    (h : Validators.checkSchema content taskType = []) {f : String}
    (hf : f ∈ REQUIRED_FIELDS taskType) : ∃ x, (Json.obj content).index f = .ok x := by
  have hpresent : Validators.isMissing (Validators.fieldOf content f) ≠ true := fun hmissing ↦
    (Validators.checkSchema_eq_nil_iff.mp h).1 ⟨f, hf, hmissing⟩
  cases hlookup : Json.lookup content f with
  | none =>
      rw [Validators.fieldOf, hlookup] at hpresent
      exact absurd rfl hpresent
  | some x => exact ⟨x, by simp [Json.index, hlookup]⟩

theorem exists_formatRecord {taskType : TaskType} {task : Task} {sub : Submission}
    {content : List (String × Json)} (hcontent : sub.content = .obj content)
    (hschema : Validators.checkSchema content taskType = []) :
    ∃ record, formatRecord taskType task sub = .ok record := by
  unfold formatRecord
  rw [hcontent]
  cases taskType with
  | sft =>
      obtain ⟨x, hx⟩ := index_of_required hschema (f := "response") (by decide)
      simp only [hx, Json.getD]
      exact ⟨_, rfl⟩
  | preference =>
      obtain ⟨x, hx⟩ := index_of_required hschema (f := "chosen") (by decide)
      obtain ⟨y, hy⟩ := index_of_required hschema (f := "rejected") (by decide)
      simp only [hx, hy, Json.getD]
      exact ⟨_, rfl⟩
  | eval =>
      obtain ⟨x, hx⟩ := index_of_required hschema (f := "answer") (by decide)
      simp only [hx, Json.getD]
      exact ⟨_, rfl⟩

theorem exists_formatRecords {taskType : TaskType} {rows : List (Task × Submission)}
    (h : ∀ row ∈ rows, ∃ record, formatRecord taskType row.1 row.2 = .ok record) :
    ∃ records, formatRecords taskType rows = .ok records := by
  induction rows with
  | nil => exact ⟨[], rfl⟩
  | cons row rows ih =>
      rw [List.forall_mem_cons] at h
      obtain ⟨record, hrecord⟩ := h.1
      obtain ⟨records, hrecords⟩ := ih h.2
      refine ⟨record :: records, ?_⟩
      unfold formatRecords
      rw [hrecord, hrecords]
      rfl

/-! ## The outside can answer -/

/-- A file system that writes the texts it can encode.  Python's strings may hold
lone surrogates, which no encoding has. -/
def takes (encodes : String → Bool) : (c : Call) → Reply c → Bool
  | .writeText _ text, written => written.isNone || encodes text
  | _, _ => true

/-- The machine with this file system. -/
def encoding (encodes : String → Bool) : Machine Db Write Call Reply ℕ :=
  machine.giving (takes encodes)

variable {encodes : String → Bool}

theorem can_mkdir_bind {α : Type} {path : String} {k : Tx α} {Q : α → Db → ℕ → Prop} :
    (encoding encodes).Can
        (Prog.ask (.mkdir path : Call) >>= fun made ↦ Session.returned made >>= fun _ ↦ k) s w Q ↔
      (encoding encodes).Can k s w Q := by
  rw [encoding, Machine.can_giving_ask_bind]
  constructor
  · rintro ⟨made, w₁, _, hw₁, hcan⟩
    obtain rfl := Option.some.inj hw₁
    cases made with
    | none => exact hcan.elim
    | some _ => exact hcan
  · intro hcan
    exact ⟨some (), w, rfl, rfl, hcan⟩

theorem can_writeJsonl_bind {α : Type} {path : String} {rows : List Json} {k : String → Tx α}
    {Q : α → Db → ℕ → Prop} {P : Prop} (h : ∀ digest, (encoding encodes).Can (k digest) s w Q ↔ P) :
    (encoding encodes).Can (writeJsonl env path rows >>= k) s w Q ↔
      encodes (jsonl env rows) = true ∧ P := by
  unfold writeJsonl
  simp only [Prog.bind_assoc]
  rw [encoding, Machine.can_giving_ask_bind]
  constructor
  · rintro ⟨written, w₁, htakes, hw₁, hcan⟩
    obtain rfl := Option.some.inj hw₁
    cases written with
    | none => exact hcan.elim
    | some _ =>
        change (machine.giving _).Can (Prog.ask (.readFile path : Call) >>= _) s _ Q at hcan
        rw [Machine.can_giving_ask_bind] at hcan
        obtain ⟨read, w₂, _, hw₂, hcan⟩ := hcan
        obtain rfl := Option.some.inj hw₂
        cases read with
        | none => exact hcan.elim
        | some text => exact ⟨by simpa [takes] using htakes, (h _).mp hcan⟩
  · rintro ⟨hencodes, hP⟩
    exact ⟨some (), w, by simp [takes, hencodes], rfl, some "", w, rfl, (h _).mpr hP⟩

theorem can_writeFiles_bind {α : Type} {base : String} {taskType : TaskType} {records : List Json}
    {k : List (String × Json) → Tx α} {Q : α → Db → ℕ → Prop} {P : Prop}
    (h : ∀ files, (encoding encodes).Can (k files) s w Q ↔ P) :
    (encoding encodes).Can (writeFiles env base taskType records >>= k) s w Q ↔
      (∀ f ∈ dataFiles env taskType records, encodes f.2 = true) ∧ P := by
  unfold writeFiles dataFiles
  simp only [Prog.bind_assoc]
  by_cases hsft : taskType = .sft
  · simp only [hsft, if_true, List.forall_mem_cons, List.not_mem_nil, false_imp_iff, implies_true,
      and_true, and_assoc]
    refine can_writeJsonl_bind fun digest ↦ ?_
    rw [Prog.bind_assoc]
    exact can_writeJsonl_bind fun chatDigest ↦ h _
  · simp only [hsft, if_false, List.forall_mem_cons, List.not_mem_nil, false_imp_iff, implies_true,
      and_true]
    exact can_writeJsonl_bind fun digest ↦ h _

theorem can_uploadBatch (base batchId : String) (only : Option (List String)) :
    (encoding encodes).Can (uploadBatch env base batchId only) s w fun _ s' _ ↦ s' = s :=
  ⟨some [], w, rfl, rfl⟩

theorem can_record (actor action entityType entityId : String) (payload : Json) :
    (encoding encodes).Can (Audit.record env actor action entityType entityId payload) s w
      fun _ _ _ ↦ True := by
  have hasks : Machine.AsksIn (fun c ↦ ∀ r, takes encodes c r)
      (Audit.record env actor action entityType entityId payload) :=
    (Machine.AsksIn.select _ _).bind fun _ ↦ (Machine.AsksIn.ask fun _ ↦ rfl).bind fun _ ↦
      (Machine.AsksIn.ask fun _ ↦ rfl).bind fun _ ↦ (Machine.AsksIn.emit _).bind fun _ ↦ .pure _
  have hcan : machine.Can (Audit.record env actor action entityType entityId payload >>= .pure)
      s w fun _ _ _ ↦ True := Audit.can_record_bind fun _ _ _ ↦ trivial
  exact (Machine.can_giving_iff hasks).mpr (Machine.can_bind.mp hcan)

/-- The manifest is written in ASCII, which every file system can encode. -/
def EncodesManifests (env : Env) (encodes : String → Bool) : Prop :=
  ∀ manifest, encodes (Json.dumpsIndent env.floatRepr 0 (.obj manifest)) = true

theorem can_writeManifest (hmanifest : EncodesManifests env encodes) (base : String)
    (manifest : List (String × Json)) :
    (encoding encodes).Can (writeManifest env base manifest) s w fun _ s' _ ↦ s' = s := by
  unfold writeManifest
  rw [encoding, Machine.can_giving_ask_bind]
  exact ⟨some (), w, by simp [takes, hmanifest manifest], rfl, rfl⟩

/-- What the release reads off the manifest for its event. -/
def Backed (manifest : List (String × Json)) : Prop :=
  ∃ backend, ((Json.lookup manifest "storage").getD (.obj [])).getD "backend" (.str "local") =
    .ok backend

theorem can_storeFiles (hmanifest : EncodesManifests env encodes) (base batchId : String)
    {manifest : List (String × Json)} (h : Json.lookup manifest "storage" = none) :
    (encoding encodes).Can (storeFiles env base batchId manifest) s w fun m s' _ ↦
      s' = s ∧ Backed m := by
  unfold storeFiles
  split
  · refine Machine.can_bind_of_forall (can_uploadBatch _ _ _) ?_
    rintro keys _ w₁ rfl
    refine Machine.can_bind_of_forall (can_writeManifest hmanifest _ _) ?_
    rintro _ _ w₂ rfl
    refine Machine.can_bind_of_forall (can_uploadBatch _ _ _) ?_
    rintro manifestKeys _ w₃ rfl
    refine ⟨rfl, ?_⟩
    rw [Backed, Json.lookup_insert, if_pos rfl]
    exact ⟨_, rfl⟩
  · refine Machine.can_bind_of_forall (can_writeManifest hmanifest _ _) ?_
    rintro _ _ w₁ rfl
    refine ⟨rfl, ?_⟩
    rw [Backed, h]
    exact ⟨_, rfl⟩

theorem lookup_merge_of_notMem {old entries : List (String × Json)} {k : String}
    (h : ∀ kv ∈ entries, kv.1 ≠ k) : Json.lookup (merge old entries) k = Json.lookup old k := by
  induction entries generalizing old with
  | nil => rfl
  | cons kv entries ih =>
      rw [List.forall_mem_cons] at h
      change Json.lookup (merge (Json.insert old kv.1 kv.2) entries) k = _
      rw [ih h.2, Json.lookup_insert, if_neg (Ne.symm h.1)]

/-- What is in the way of a release once its records are formatted: its status,
an approver who requested it, and a file that cannot be encoded. -/
theorem servable_approveAndMaterialize_iff (hmanifest : EncodesManifests env encodes)
    {batch : ExportBatch} {approvedBy : String} {project : Project} {records : List Json}
    {firm : Firm} (hproject : s.projects.find? batch.projectId = some project)
    (hrecords : formatRecords project.taskType (approvedRows env s project) = .ok records)
    (hfirm : s.firms.find? project.firmId = some firm)
    (hreport : batch.status = .pendingApproval →
      ∃ report, batch.manifest = .obj [("control_report", report)]) :
    (encoding encodes).Servable (approveAndMaterialize env batch approvedBy) s w ↔
      batch.status = .pendingApproval ∧ batch.requestedBy ≠ approvedBy ∧
        ∀ f ∈ dataFiles env project.taskType records, encodes f.2 = true := by
  unfold Machine.Servable approveAndMaterialize Controls.assertExportDualControl
  rw [Machine.can_ensure_bind, Machine.can_ensure_bind]
  refine and_congr_right fun hpending ↦ and_congr_right fun _ ↦ ?_
  obtain ⟨report, hreport⟩ := hreport hpending
  rw [Machine.can_select_bind, Machine.can_getSome_bind]
  simp only [hproject, Option.some.injEq, exists_eq_left']
  rw [Machine.can_select_bind, Machine.can_ofExcept_bind]
  simp only [hrecords, Except.ok.injEq, exists_eq_left']
  rw [can_mkdir_bind, ← and_true (∀ f ∈ dataFiles env project.taskType records, _)]
  refine can_writeFiles_bind fun files ↦ iff_true_intro ?_
  rw [Machine.can_select_bind, Machine.can_getSome_bind]
  refine ⟨firm, hfirm, ?_⟩
  rw [Machine.can_select_bind, Session.now, encoding, Machine.can_giving_ask_bind]
  refine ⟨0, w, rfl, rfl, ?_⟩
  rw [Machine.can_ofExcept_bind]
  refine ⟨_, by rw [hreport]; rfl, ?_⟩
  refine Machine.can_bind_of_forall (can_storeFiles hmanifest _ _ ?_) ?_
  · rw [lookup_merge_of_notMem]
    · rfl
    · simp [manifestEntries]
  · rintro manifest _ w₂ ⟨rfl, backend, hbackend⟩
    rw [Machine.can_ofExcept_bind]
    refine ⟨backend, hbackend, ?_⟩
    rw [Machine.can_emit_bind_of_apply rfl]
    exact Machine.can_bind_of_forall (can_record _ _ _ _ _) fun _ _ _ _ ↦ trivial

theorem servable_requestExport_iff {project : Project} {requestedBy : String} :
    machine.Servable (requestExport env project requestedBy) s w ↔
      (reportOf env s project).clean = true := by
  unfold Machine.Servable requestExport
  rw [Machine.can_bind_of_answer (answer_controlReport project)]
  simp only [Except.ok.injEq, exists_eq_left', Machine.can_ensure_bind]
  refine and_iff_left_of_imp fun _ ↦ ?_
  obtain ⟨id, hid⟩ := s.exportBatches.exists_vacant
  rw [Session.can_uuid4_bind]
  refine ⟨id, ?_⟩
  rw [Machine.can_emit_bind]
  exact ⟨_, if_pos hid, Audit.can_record_bind fun _ _ _ ↦ trivial⟩

end Export

namespace Provenance

variable {env : Env} {u : Unicode} {s s' : Db} {w : ℕ}

/-! ## Batches that wait -/

/-- The manifest a batch is requested with. -/
def Requested (b : ExportBatch) : Prop :=
  ∃ report, b.manifest = .obj [("control_report", report)]

/-- A batch that waits holds the manifest it was requested with. -/
def Unopened (s : Db) : Prop :=
  ∀ b ∈ s.exportBatches, b.status = .pendingApproval → Requested b

/-- A batch is inserted with the manifest of its request. -/
def Orderly (u : Write) : Prop :=
  ∀ b, u = .insertExportBatch b → Requested b

theorem touch_exportBatch {u : Write} {a b : ExportBatch}
    (h : u.touch (.exportBatch a) = .exportBatch b) : b = a ∨ b.status = .released := by
  cases u with
  | releaseBatch id approvedBy path manifest =>
      simp only [Write.touch, Row.exportBatch.injEq] at h
      split at h
      · subst h
        exact Or.inr rfl
      · exact Or.inl h.symm
  | _ =>
      simp only [Write.touch, Row.exportBatch.injEq] at h
      exact Or.inl h.symm

theorem unopened_apply {u : Write} (hu : Orderly u) (hs : Unopened s)
    (h : Db.apply u s = some s') : Unopened s' := by
  intro b hb hpending
  rcases Db.has_cases (y := .exportBatch b) h hb with ⟨x, hx, htouch⟩ | hadds
  · have hbecomes : x.Becomes (.exportBatch b) := htouch ▸ .self_touch u x
    cases x with
    | exportBatch a =>
        rcases touch_exportBatch htouch with rfl | hreleased
        · exact hs b hx hpending
        · rw [hreleased] at hpending
          cases hpending
    | _ => cases hbecomes
  · have hinsert : u = .insertExportBatch b := by
      cases u <;> cases hadds
      rfl
    exact hu b hinsert

theorem orderly_requestExport (project : Project) (requestedBy : String) :
    (Export.requestExport env project requestedBy).WritesIn Orderly := by
  have hrecord (batch : ExportBatch) (report : Export.ControlReport) :
      (Audit.record env requestedBy "export.requested" "export_batch" batch.id
        (.obj [("project_id", .str project.id), ("records", .int report.approvedRecords)])).WritesIn
          Orderly := by
    apply Audit.record_writesIn
    rintro _ _ ⟨⟩
  refine (writeless_controlReport _).writesIn.bind fun report ↦ ?_
  refine (Prog.Writeless.ensure _ _).writesIn.bind fun _ ↦ ?_
  refine (Prog.Writeless.ask _).writesIn.bind fun id ↦ ?_
  refine (Prog.WritesIn.emit ?_).bind fun _ ↦ (hrecord _ _).bind fun _ ↦ .pure _
  rintro _ ⟨⟩
  exact ⟨_, rfl⟩

theorem orderly_serve (http : Api.Http) : (Api.serve env http).WritesIn Orderly := by
  by_cases hrequest : .insert .exportBatches ∈ footprint http.request
  · obtain ⟨projectId, hrequest⟩ : ∃ projectId, http.request = .requestExport projectId := by
      cases hof : http.request <;> rw [hof] at hrequest <;>
        simp [footprint, judging, marking, settling, issuing] at hrequest
      exact ⟨_, rfl⟩
    unfold Api.serve
    rw [hrequest]
    refine (Auth.writeless_currentActor env _ _ _).writesIn.bind fun actor ↦ ?_
    refine Prog.WritesIn.bind ?_ fun project ↦ ?_
    · exact ((Prog.Writeless.select _ _).bind fun _ ↦ Prog.Writeless.getSome _ _).writesIn
    · exact (orderly_requestExport _ _).mapErr.bind fun _ ↦ .pure _
  · refine Prog.WritesIn.mono ?_ (within_serve http)
    rintro _ hu b rfl
    exact absurd hu hrequest

theorem Reached.unopened (h : Reached env s) : Unopened s := by
  have hkeep (u : Write) (s s' : Db) (hu : Orderly u) (hs : Unopened s)
      (happ : machine.apply u s = some s') : Unopened s' := unopened_apply hu hs happ
  refine h.inv_of_honours (C := Contract.ofWrites hkeep) ?_ fun http t ↦ ?_
  · exact fun _ hb ↦ absurd hb List.not_mem_nil
  · exact Contract.Honours.of_writesIn (orderly_serve http) (fun _ hu _ ↦ hu) (fun _ _ ↦ rfl)
      fun _ _ _ ↦ trivial

/-! ## Deliveries -/

/-- Whatever ran at the same time, approved work has a review behind it. -/
theorem Reached.evidence (h : Reached env s) {project : Project} {row : Task × Submission}
    (hrow : Export.Approved s project row) : Export.hasReviewEvidence s row.2.id = true := by
  have hgrounds : SubmissionGrounds s row.2 := h.grounded (x := .submission row.2) hrow.submission
  have hcleared := hgrounds.cleared
  rw [hrow.status] at hcleared
  rcases hcleared with ⟨_, ⟨⟨task, htask, hid, hgold⟩, _⟩ | ⟨_, ⟨_, r, hr, hof, hkind, _⟩, _⟩⟩
  · obtain rfl := Table.eq_of_key htask hrow.task (hid.trans hrow.of)
    rw [hrow.gold] at hgold
    cases hgold
  · exact Export.hasReviewEvidence_iff.mpr ⟨r, hr, hof, Or.inl hkind⟩

/-- Whatever ran at the same time, approved work can be formatted. -/
theorem Reached.formatted (h : Reached (env.validated u) s) {project : Project}
    (hproject : project ∈ s.projects) :
    ∃ records, Export.formatRecords project.taskType
      (Export.approvedRows (env.validated u) s project) = .ok records := by
  refine Export.exists_formatRecords fun row hrow ↦ ?_
  have happroved := Export.approved_of_mem hrow
  obtain ⟨task, project', hmerits⟩ := h.merits happroved.submission happroved.status
  obtain ⟨htask, htid⟩ := hmerits.ofTask
  obtain ⟨hproject', hpid⟩ := hmerits.ofProject
  obtain rfl := Table.eq_of_key htask happroved.task (htid.trans happroved.of)
  obtain rfl := Table.eq_of_key hproject' hproject (hpid.trans happroved.project)
  obtain ⟨content, hcontent, hsound⟩ := hmerits.sound
  exact Export.exists_formatRecord hcontent hsound.schema

/-- On every database that requests lead to, an export is granted exactly to
internal users, when the audit chain verifies and some work is approved; that
reviews are missing is never in the way. -/
theorem export_served_iff (h : Reached env s) {authorization xActorId : Option String}
    {projectId : String} :
    machine.Servable (Api.serve env ⟨authorization, xActorId, .requestExport projectId⟩) s w ↔
      ∃ actor project, Api.Authenticates env s authorization xActorId actor ∧
        actor.role ∈ Api.internal ∧ s.projects.find? projectId = some project ∧
          (Audit.verifyChain env s).1 = true ∧ ∃ row, Export.Approved s project row := by
  have hclean (project : Project) : (Export.reportOf env s project).clean = true ↔
      (Audit.verifyChain env s).1 = true ∧ ∃ row, Export.Approved s project row := by
    rw [Export.clean_iff]
    refine and_congr_right fun _ ↦ ⟨?_, ?_⟩
    · rintro ⟨_, hne⟩
      obtain ⟨row, hrow⟩ := List.exists_mem_of_ne_nil _ hne
      exact ⟨row, Export.approved_of_mem hrow⟩
    · rintro ⟨row, hrow⟩
      obtain ⟨r, hr, _⟩ := Export.exists_row env hrow
      exact ⟨fun r hr ↦ h.evidence (Export.approved_of_mem hr), List.ne_nil_of_mem hr⟩
  unfold Machine.Servable Api.serve
  simp only [Api.rolesOf, Api.handle, Api.requestExport, Api.getProject]
  rw [Auth.can_currentActor_bind]
  simp only [Api.can_getOr404_bind, ← hclean]
  refine exists_congr fun actor ↦ ⟨?_, ?_⟩
  · rintro ⟨hactor, hrole, project, hproject, hcan⟩
    rw [Machine.can_bind, Machine.can_mapErr] at hcan
    exact ⟨project, hactor, hrole, hproject, Export.servable_requestExport_iff.mp hcan⟩
  · rintro ⟨project, hactor, hrole, hproject, hcan⟩
    refine ⟨hactor, hrole, project, hproject, ?_⟩
    rw [Machine.can_bind, Machine.can_mapErr]
    exact Export.servable_requestExport_iff.mpr hcan

/-- The data files of the batch are texts that can be encoded. -/
def Encodable (env : Env) (encodes : String → Bool) (s : Db) (batch : ExportBatch) : Prop :=
  ∀ project records, s.projects.find? batch.projectId = some project →
    Export.formatRecords project.taskType (Export.approvedRows env s project) = .ok records →
      ∀ f ∈ Export.dataFiles env project.taskType records, encodes f.2 = true

/-- On every database that requests lead to, with the checks of `validators.py`,
a batch can be released exactly when it waits, an internal user other than its
requester approves it, and the file system can encode its records. -/
theorem release_served_iff {encodes : String → Bool}
    (hmanifest : Export.EncodesManifests (env.validated u) encodes)
    (h : Reached (env.validated u) s)
    {authorization xActorId : Option String} {batchId approvedBy : String} :
    (Export.encoding encodes).Servable
        (Api.serve (env.validated u) ⟨authorization, xActorId, .approveExport batchId approvedBy⟩)
        s w ↔
      ∃ actor batch, Api.Authenticates (env.validated u) s authorization xActorId actor ∧
        actor.role ∈ Api.internal ∧ s.exportBatches.find? batchId = some batch ∧
          batch.status = .pendingApproval ∧
            batch.requestedBy ≠ Api.approver (env.validated u) actor approvedBy ∧
              Encodable (env.validated u) encodes s batch := by
  have hserved (batch : ExportBatch) (hbatch : batch ∈ s.exportBatches) (approver : String) :
      (Export.encoding encodes).Servable
          (Export.approveAndMaterialize (env.validated u) batch approver) s w ↔
        batch.status = .pendingApproval ∧ batch.requestedBy ≠ approver ∧
          Encodable (env.validated u) encodes s batch := by
    have hgrounds : BatchGrounds (env.validated u) s batch :=
      h.grounded (x := .exportBatch batch) hbatch
    obtain ⟨project, hproject⟩ := find?_of_key hgrounds.project
    have hprojectGrounds : ProjectGrounds (env.validated u) s project :=
      h.grounded (x := .project project) (Table.mem_of_find? hproject)
    obtain ⟨firm, hfirm⟩ := find?_of_key hprojectGrounds.firm
    obtain ⟨records, hrecords⟩ := h.formatted (Table.mem_of_find? hproject)
    have hencodable : Encodable (env.validated u) encodes s batch ↔
        ∀ f ∈ Export.dataFiles (env.validated u) project.taskType records, encodes f.2 = true := by
      simp only [Encodable, hproject, Option.some.injEq]
      constructor
      · exact fun hall ↦ hall project records rfl hrecords
      · rintro hall _ records' rfl hrecords'
        obtain rfl := Except.ok.inj (hrecords.symm.trans hrecords')
        exact hall
    rw [hencodable]
    exact Export.servable_approveAndMaterialize_iff hmanifest hproject hrecords hfirm
      (h.unopened batch hbatch)
  unfold Machine.Servable Api.serve
  simp only [Api.rolesOf, Api.handle, Api.approveExport, Api.getExportBatch]
  rw [Auth.can_currentActor_bind]
  simp only [Api.can_getOr404_bind]
  refine exists_congr fun actor ↦ ⟨?_, ?_⟩
  · rintro ⟨hactor, hrole, batch, hbatch, hcan⟩
    rw [Machine.can_bind, Machine.can_mapErr] at hcan
    have hserves := (hserved batch (Table.mem_of_find? hbatch) _).mp
      (hcan.mono fun _ _ _ _ ↦ trivial)
    exact ⟨batch, hactor, hrole, hbatch, hserves⟩
  · rintro ⟨batch, hactor, hrole, hbatch, hcan⟩
    refine ⟨hactor, hrole, batch, hbatch, ?_⟩
    rw [Machine.can_bind, Machine.can_mapErr]
    exact ((hserved batch (Table.mem_of_find? hbatch) _).mpr hcan).mono fun _ _ _ _ ↦ trivial

/-- The first approved work can be exported. -/
theorem export_served_iff_firstApproval :
    machine.Servable (Api.serve Development.env
      (Development.http (.requestExport Development.projectId)))
      (Development.run Development.firstApproval).2.1 0 := by
  have hproject : ((Development.run Development.firstApproval).2.1.projects.find?
      Development.projectId).isSome = true := by decide +kernel
  have hchain : (Audit.verifyChain Development.env
      (Development.run Development.firstApproval).2.1).1 = true :=
    congrArg Prod.fst ((Audit.verifyChain_eq _).mpr
      (Replay.sound_of_run (Development.run_spec _)).intact.linked)
  have hrows : ∀ project ∈ (Development.run Development.firstApproval).2.1.projects.rows,
      Export.approvedJoin (Development.run Development.firstApproval).2.1 project ≠ [] := by
    decide +kernel
  obtain ⟨project, hproject⟩ := Option.isSome_iff_exists.mp hproject
  obtain ⟨row, hrow⟩ := List.exists_mem_of_ne_nil _ (hrows project (Table.mem_of_find? hproject))
  exact (export_served_iff (.of_run (Development.run_spec _))).mpr
    ⟨_, project, rfl, by decide, hproject, hchain, row, Export.mem_approvedJoin.mp hrow⟩

end Provenance

namespace Development

/-- Approved work that was requested for export. -/
def requestedRun : List (Served Api.Http Db Json) × Db × ℕ :=
  machine.simulateRun answers (Api.serve screeningEnv)
    ((submissionOf (objectContent "Deductible.") ++
      [review .pass, .requestExport projectId]).map http) 1 Db.empty 1

theorem requestedRun_spec :
    machine.Run (Api.serve screeningEnv) Db.empty 1 requestedRun.1
      requestedRun.2.1 requestedRun.2.2 :=
  Machine.run_of_simulateRun _ _ _ _ _

end Development

namespace Provenance

/-- The second person can release what the first one requested, where every text
can be encoded. -/
theorem release_served_iff_requestedRun :
    ∃ batch ∈ Development.requestedRun.2.1.exportBatches,
      (Export.encoding fun _ ↦ true).Servable (Api.serve Development.screeningEnv
        (Development.http (.approveExport batch.id "lead"))) Development.requestedRun.2.1 0 := by
  have hwaiting : ∃ batch ∈ Development.requestedRun.2.1.exportBatches.rows,
      batch.status = .pendingApproval ∧ batch.requestedBy ≠ "lead" := by decide +kernel
  obtain ⟨batch, hbatch, hpending, hother⟩ := hwaiting
  refine ⟨batch, hbatch, ?_⟩
  exact (release_served_iff (fun _ ↦ rfl) (.of_run Development.requestedRun_spec)).mpr
    ⟨_, batch, rfl, by decide, Table.find?_eq_some.mpr ⟨hbatch, rfl⟩, hpending, hother,
      fun _ _ _ _ _ _ ↦ rfl⟩

end Provenance

end HumanDataFactory
