import HumanDataFactory.Release.Disk
import HumanDataFactory.Release.Versions

/-!
# What a control report certifies

The report in a manifest is taken when the export is requested, the rows are
queried again when it is approved.  A run is followed from the request of a
batch to its release, on a disk that shows what the files hold.
-/

namespace HumanDataFactory

open Transact

namespace Export

variable {env : Env}

/-! ## The report at the moment of release -/

theorem clean_iff {s : Db} {project : Project} :
    (reportOf env s project).clean = true ↔ (Audit.verifyChain env s).1 = true ∧
      (∀ row ∈ approvedRows env s project, hasReviewEvidence s row.2.id = true) ∧
      approvedRows env s project ≠ [] := by
  simp only [reportOf, Bool.and_eq_true, decide_eq_true_eq, List.length_pos_iff, and_assoc,
    List.isEmpty_iff, List.map_eq_nil_iff, List.filter_eq_nil_iff, Bool.not_eq_true']
  simp

theorem hasReviewEvidence_of_approved {s : Db} {sub : Submission} (h : Evidence.Approved s sub) :
    hasReviewEvidence s sub.id = true := by
  have hmem : ∃ r ∈ s.reviews, r.submissionId = sub.id ∧ (r.kind = .autoLlm ∨ r.kind = .human) := by
    rcases h.2 with ⟨r, hlist, _⟩ | ⟨_, _, r, hr, hof, hground⟩
    · have hr : r ∈ Evidence.humanReviews s sub.id := by simp [hlist]
      obtain ⟨hr, hof⟩ := List.mem_filter.mp hr
      simp only [decide_eq_true_eq] at hof
      exact ⟨r, hr, hof.1, Or.inr hof.2⟩
    · exact ⟨r, hr, hof, Or.inl hground.kind⟩
  obtain ⟨r, hr, hof⟩ := hmem
  exact List.any_eq_true.mpr ⟨r, hr, decide_eq_true hof⟩

/-- A report that was clean stays clean. -/
theorem clean_of_run {pre post : List (Served Api.Http Db Json)} {q : Served Api.Http Db Json}
    {s : Db} {w₀ w : ℕ} (h : machine.Run (Api.serve env) Db.empty w₀ (pre ++ q :: post) s w)
    {project : Project} (hclean : (reportOf env q.before project).clean = true) :
    (reportOf env s project).clean = true := by
  obtain ⟨_, _, hrows⟩ := clean_iff.mp hclean
  refine clean_iff.mpr ⟨?_, ?_, ?_⟩
  · exact (Audit.verifyFrom_fst env _ _ _).mpr (Replay.sound_of_run h).intact.linked
  · intro row hrow
    have happroved := approved_of_mem hrow
    exact hasReviewEvidence_of_approved ((Evidence.evidence_of_run h).evidence row.2
      happroved.submission happroved.status row.1 happroved.task happroved.of.symm happroved.gold)
  · obtain ⟨row, hrow⟩ := List.exists_mem_of_ne_nil _ hrows
    obtain ⟨task, _, hnow⟩ := approved_later (later_of_run h) (approved_of_mem hrow)
    obtain ⟨r, hr, _⟩ := exists_row env hnow
    exact List.ne_nil_of_mem hr

theorem reportOf_congr {s : Db} {project project' : Project} (h : project.id = project'.id) :
    reportOf env s project = reportOf env s project' ∧
      approvedRows env s project = approvedRows env s project' := by
  have hjoin : approvedJoin s project = approvedJoin s project' := by
    unfold approvedJoin
    rw [h]
  have hrows : approvedRows env s project = approvedRows env s project' := by
    unfold approvedRows
    rw [hjoin]
  refine ⟨?_, hrows⟩
  unfold reportOf
  rw [h, hrows]

/-! ## A release on the disk -/

/-- The files of a batch hold these rows. -/
def FilesHold (env : Env) (batchId : String) (taskType : TaskType)
    (rows : List (Task × Submission)) (w : Disk) : Prop :=
  ∃ records, formatRecords taskType rows = .ok records ∧
    ∀ f ∈ dataFiles env taskType records,
      w.file (directory env batchId ++ "/" ++ f.1) = some f.2

/-- A batch as its release leaves it. -/
structure Materialized (env : Env) (s : Db) (batch : ExportBatch) (approvedBy : String)
    (released : ExportBatch) (w : Disk) : Prop where
  id : released.id = batch.id
  projectId : released.projectId = batch.projectId
  requestedBy : released.requestedBy = batch.requestedBy
  approvedBy : released.approvedBy = some approvedBy
  status : released.status = .released
  report : released.manifest.field "control_report" = batch.manifest.field "control_report"
  content : ∃ project, s.projects.find? batch.projectId = some project ∧
    FilesHold env batch.id project.taskType (approvedRows env s project) w ∧
    released.manifest.field "record_count" = .int (approvedRows env s project).length

theorem length_formatRecords {taskType : TaskType} {rows : List (Task × Submission)}
    {records : List Json} (h : formatRecords taskType rows = .ok records) :
    records.length = rows.length := by
  induction rows generalizing records with
  | nil =>
      obtain rfl := Except.ok.inj h
      rfl
  | cons row rows ih =>
      obtain ⟨task, sub⟩ := row
      unfold formatRecords at h
      obtain ⟨r, _, hrest⟩ := bind_eq_ok.mp h
      obtain ⟨rest, hrecords, heq⟩ := bind_eq_ok.mp hrest
      obtain rfl := Except.ok.inj heq
      rw [List.length_cons, List.length_cons, ih hrecords]

/-- The entries a release writes, and those it keeps. -/
theorem field_merge {old manifest entries : List (String × Json)}
    (h : manifest = merge old entries ∨ ∃ storage, manifest =
      Json.insert (merge old entries) "storage" storage) {k : String} (hk : k ≠ "storage") :
    Json.field (.obj manifest) k = Json.field (.obj (merge old entries)) k := by
  rcases h with rfl | ⟨storage, rfl⟩
  · rfl
  · simp [Json.field, Json.lookup_insert, hk]

section Release

variable {s s' : Db} {w w' : Disk}

theorem exportBatches_of_release {batch : ExportBatch} {approvedBy path : Option String}
    {manifest : Json} (hbatch : s.exportBatches.find? batch.id = some batch)
    (h : Db.apply (.releaseBatch batch.id approvedBy path manifest) s = some s') :
    s'.exportBatches = s.exportBatches.replace { batch with
      approvedBy := approvedBy
      path := path
      manifest := manifest
      status := .released } := by
  obtain rfl := Option.some.inj h
  rw [Table.modify_eq_replace hbatch]

theorem along_approveAndMaterialize {batch : ExportBatch} {approvedBy : String}
    (hbatch : s.exportBatches.find? batch.id = some batch) :
    diskMachine.Along (fun _ ↦ True) (approveAndMaterialize env batch approvedBy) s w
      fun _ s' w' ↦ batch.status = .pendingApproval ∧ batch.requestedBy ≠ approvedBy ∧
        ∃ released, Materialized env s batch approvedBy released w' ∧
          s'.exportBatches = s.exportBatches.replace released := by
  unfold approveAndMaterialize
  refine Machine.along_ensure_bind trivial fun hpending ↦ ?_
  refine Machine.along_ensure_bind trivial fun hdual ↦ ?_
  rw [Machine.along_select_bind]
  refine Machine.along_getSome_bind trivial fun project hproject ↦ ?_
  rw [Machine.along_select_bind]
  refine Machine.along_ofExcept_bind trivial fun records hrecords ↦ ?_
  refine ⟨trivial, fun made w₁ hw₁ ↦ ?_⟩
  obtain rfl := Option.some.inj hw₁
  refine along_returned_bind trivial fun _ _ ↦ ?_
  rw [Machine.along_bind]
  refine along_writeFiles (fun _ _ ↦ trivial) ?_
  rw [Machine.along_select_bind]
  refine Machine.along_getSome_bind trivial fun firm _ ↦ ?_
  rw [Machine.along_select_bind]
  refine ⟨trivial, fun now w₁ hw₁ ↦ ?_⟩
  obtain rfl := Option.some.inj hw₁
  refine Machine.along_ofExcept_bind trivial fun old hold ↦ ?_
  rw [Machine.along_bind]
  refine along_storeFiles fun manifest w₁ hfiles hmanifest ↦ ?_
  refine Machine.along_ofExcept_bind trivial fun backend _ ↦ ?_
  rw [Machine.along_emit_bind]
  refine ⟨trivial, fun s₁ hs₁ ↦ ?_⟩
  rw [Machine.along_bind]
  refine along_record (fun _ ↦ trivial) fun _ _ n ↦ ⟨trivial, hpending, hdual, ?_⟩
  have hreleased := exportBatches_of_release hbatch hs₁
  have hdata := named_dataFiles env project.taskType records
  have hcount : (records.length : ℤ) = (approvedRows env s project).length := by
    rw [length_formatRecords hrecords]
  refine ⟨{ batch with
      approvedBy := some approvedBy
      path := some (env.exportsDir ++ "/" ++ batch.id)
      manifest := .obj manifest
      status := .released },
    ⟨rfl, rfl, rfl, rfl, rfl, ?_, project, hproject, ⟨records, hrecords, ?_⟩, ?_⟩,
    hreleased⟩
  · have hold : batch.manifest = .obj old := by
      unfold manifestBase at hold
      split at hold
      · rename_i kvs hkvs
        rw [hkvs, Except.ok.inj hold]
      · cases hold
    rw [field_merge hmanifest (by decide), hold]
    simp [merge, manifestEntries, Json.field, Json.lookup_insert]
  · intro f hf
    have hname : directory env batch.id ++ "/" ++ f.1 ≠
        directory env batch.id ++ "/" ++ "manifest.json" :=
      fun heq ↦ hdata.ne_manifest f hf (Disk.path_inj heq)
    exact (hfiles _ hname).trans (hdata.file_writeAll hf)
  · rw [field_merge hmanifest (by decide), ← hcount]
    simp [merge, manifestEntries, Json.field, Json.lookup_insert]

theorem released_of_exec {http : Api.Http} {batchId approvedBy : String} {r : Json}
    (h : diskMachine.Exec (Api.serve env http) s w r s' w')
    (hrequest : http.request = .approveExport batchId approvedBy) :
    ∃ batch approver released, s.exportBatches.find? batchId = some batch ∧
      batch.status = .pendingApproval ∧ batch.requestedBy ≠ approver ∧
      Materialized env s batch approver released w' ∧
      s'.exportBatches = s.exportBatches.replace released := by
  obtain ⟨authorization, xActorId, request⟩ := http
  subst hrequest
  have hserve : Api.serve env ⟨authorization, xActorId, .approveExport batchId approvedBy⟩ =
      Auth.currentActor env Api.internal authorization xActorId >>= fun actor ↦
        Api.approveExport env actor batchId approvedBy := rfl
  rw [hserve, Machine.exec_bind] at h
  obtain ⟨actor, s₁, w₁, hactor, h⟩ := h
  obtain rfl := hactor.of_writeless (Auth.writeless_currentActor env _ _ _)
  unfold Api.approveExport at h
  rw [Machine.exec_bind] at h
  obtain ⟨batch, s₂, w₂, hfound, h⟩ := h
  unfold Api.getExportBatch Api.getOr404 at hfound
  rw [Machine.exec_select_bind, Machine.exec_getSome] at hfound
  obtain ⟨hbatch, rfl, rfl⟩ := hfound
  rw [Machine.exec_bind] at h
  obtain ⟨_, s₃, w₃, happrove, _, rfl, rfl⟩ := h
  have hrelease := (along_approveAndMaterialize (w := w₂) (Table.find?_key hbatch)).exec
    (Machine.exec_mapErr.mp happrove)
  obtain ⟨_, hpending, hdual, released, hreleased, hafter⟩ := hrelease
  exact ⟨batch, _, released, hbatch, hpending, hdual, hreleased, hafter⟩

end Release

/-! ## The batches of a run -/

theorem exportBatches_of_submitted {task : Task} {expert : Expert} {content : Json} {s s' : Db}
    (h : Engine.Submitted env task expert content s s') : s'.exportBatches = s.exportBatches := by
  obtain ⟨hproject, hqualified, hheld, hassigned, hsub, hid, haud, hprocess⟩ := h
  cases hprocess with
  | autoApproved hpassed hgold hroute hid hid' hmeter haud => cases hmeter <;> rfl
  | _ => rfl

theorem exportBatches_of_reviewed {sub : Submission} {reviewer : Expert} {verdict : Verdict}
    {s s' : Db} (h : Engine.Reviewed env sub reviewer verdict s s') :
    s'.exportBatches = s.exportBatches := by
  obtain ⟨hstatus, hother, hreviewer, hqualified, hid, hdecided, haud⟩ := h
  cases hdecided with
  | pass htask hproject hauthor hmeter => cases hmeter <;> rfl
  | _ => rfl

theorem exportBatches_of_effect {actor : Auth.Actor} {request : Api.Request} {s s' : Db}
    (h : Api.Effect env actor s request s')
    (hrequest : ∀ batchId approvedBy, request ≠ .approveExport batchId approvedBy) :
    s'.exportBatches = s.exportBatches ∨ ∃ project id, project ∈ s.projects ∧
      (reportOf env s project).clean = true ∧ s.exportBatches.Vacant id ∧
      s'.exportBatches =
        s.exportBatches.push (newBatch project actor.id (reportOf env s project) id) := by
  cases h with
  | requestExport hproject hclean hid haud =>
      exact Or.inr ⟨_, _, Table.mem_of_find? hproject, hclean, hid, rfl⟩
  | approveExport => exact absurd rfl (hrequest _ _)
  | createSubmission htask hexpert h => exact Or.inl (exportBatches_of_submitted h)
  | postHumanReview hsub hreviewer h => exact Or.inl (exportBatches_of_reviewed h)
  | generateInvoice hfirm h =>
      cases h
      exact Or.inl rfl
  | createInvoiceCheckout hinv haccess h =>
      cases h
      exact Or.inl rfl
  | recordExternalPayment hinv h =>
      cases h
      exact Or.inl rfl
  | stripeWebhook hevent hact h => cases h <;> exact Or.inl rfl
  | _ => exact Or.inl rfl

/-- The entry `q` of a run is the request for batch `b`. -/
structure RequestedBy (env : Env) (q : Served Api.Http Db Json) (project : Project)
    (b : ExportBatch) : Prop where
  new : q.before.exportBatches.Vacant b.id
  created : newBatch project b.requestedBy (reportOf env q.before project) b.id ∈
    q.after.exportBatches
  projectId : project.id = b.projectId
  clean : (reportOf env q.before project).clean = true
  report : b.manifest.field "control_report" = (reportOf env q.before project).asJson

theorem RequestedBy.congr {q : Served Api.Http Db Json} {project : Project} {b b' : ExportBatch}
    (h : RequestedBy env q project b) (hid : b'.id = b.id) (hproject : b'.projectId = b.projectId)
    (hrequested : b'.requestedBy = b.requestedBy)
    (hreport : b'.manifest.field "control_report" = b.manifest.field "control_report") :
    RequestedBy env q project b' :=
  ⟨hid ▸ h.new, hrequested ▸ hid ▸ h.created, h.projectId.trans hproject.symm, h.clean,
    hreport.trans h.report⟩

def Requested (env : Env) (tr : List (Served Api.Http Db Json)) (b : ExportBatch) : Prop :=
  ∃ pre q post project, tr = pre ++ q :: post ∧ RequestedBy env q project b

/-- The entry `e` of a run released batch `b` and left the disk `w`. -/
structure ReleasedBy (env : Env) (e : Served Api.Http Db Json) (b : ExportBatch) (w : Disk) :
    Prop where
  request : ∃ approvedBy, e.request.request = .approveExport b.id approvedBy
  served : e.outcome.isSome = true
  release : ∃ batch approver, e.before.exportBatches.find? b.id = some batch ∧
    batch.status = .pendingApproval ∧ batch.requestedBy ≠ approver ∧
    Materialized env e.before batch approver b w

/-- Somewhere in a run a batch that was requested before is released. -/
def Released (env : Env) (w₀ : Disk) (tr : List (Served Api.Http Db Json)) (b : ExportBatch) :
    Prop :=
  ∃ pre e post w₁ w₂, tr = pre ++ e :: post ∧
    diskMachine.Run (Api.serve env) Db.empty w₀ pre e.before w₁ ∧
    diskMachine.Serves (Api.serve env) e w₁ w₂ ∧ Requested env pre b ∧ ReleasedBy env e b w₂

section Batches

variable {tr : List (Served Api.Http Db Json)} {s : Db} {w₀ w : Disk}

theorem Requested.concat {b : ExportBatch} (h : Requested env tr b)
    (e : Served Api.Http Db Json) : Requested env (tr ++ [e]) b := by
  obtain ⟨pre, q, post, project, rfl, hq⟩ := h
  exact ⟨pre, q, post ++ [e], project, by simp, hq⟩

theorem Released.concat {b : ExportBatch} (h : Released env w₀ tr b)
    (e : Served Api.Http Db Json) : Released env w₀ (tr ++ [e]) b := by
  obtain ⟨pre, e', post, w₁, w₂, rfl, hrest⟩ := h
  exact ⟨pre, e', post ++ [e], w₁, w₂, by simp, hrest⟩

theorem batches_of_run (h : diskMachine.Run (Api.serve env) Db.empty w₀ tr s w) :
    ∀ b ∈ s.exportBatches, Requested env tr b ∧
      (b.status = .released → Released env w₀ tr b) := by
  induction h with
  | nil =>
      intro b hb
      simp [Db.empty] at hb
  | @snoc tr s w e w' h hb he ih =>
      subst hb
      have hkept : ∀ b ∈ e.before.exportBatches, Requested env (tr ++ [e]) b ∧
          (b.status = .released → Released env w₀ (tr ++ [e]) b) := fun b hb ↦
        ⟨(ih b hb).1.concat e, fun hstatus ↦ ((ih b hb).2 hstatus).concat e⟩
      have hserves := he
      cases he with
      | failed _ => exact hkept
      | @ok http s r s' _ _ hexec =>
          by_cases hrequest : ∃ batchId approvedBy, http.request = .approveExport batchId approvedBy
          · obtain ⟨batchId, approvedBy, hrequest⟩ := hrequest
            obtain ⟨batch, approver, released, hbatch, hpending, hdual, hreleased, hafter⟩ :=
              released_of_exec hexec hrequest
            change ∀ b ∈ s'.exportBatches, _
            rw [hafter]
            intro b hb
            rcases Table.mem_replace hb with rfl | ⟨hb, _⟩
            · obtain ⟨hmem, hkey⟩ := Table.find?_eq_some.mp hbatch
              obtain ⟨pre, q, post, project, rfl, hq⟩ := (ih batch hmem).1
              have hid : b.id = batchId := hreleased.id.trans hkey
              have hq' := hq.congr hreleased.id hreleased.projectId hreleased.requestedBy
                hreleased.report
              have hrequested : Requested env (pre ++ q :: post) b :=
                ⟨pre, q, post, project, rfl, hq'⟩
              refine ⟨hrequested.concat _, fun _ ↦ ⟨_, _, [], w, w', rfl, h, hserves, hrequested,
                ⟨approvedBy, ?_⟩, rfl, batch, approver, ?_, hpending, hdual, hreleased⟩⟩
              · rw [hid]
                exact hrequest
              · rw [hid]
                exact hbatch
            · exact hkept b hb
          · have hbelow := (Evidence.kept_of_run (diskMachine_refines.run h)).below
            obtain ⟨⟨actor, heffect⟩, _⟩ := Api.exec_serve (diskMachine_refines.exec hexec) hbelow
            rcases exportBatches_of_effect heffect fun batchId approvedBy heq ↦
                hrequest ⟨batchId, approvedBy, heq⟩ with
              hafter | ⟨project, id, _, hclean, hvac, hafter⟩
            · change ∀ b ∈ s'.exportBatches, _
              rw [hafter]
              exact hkept
            · change ∀ b ∈ s'.exportBatches, _
              rw [hafter]
              intro b hb
              rcases (Table.mem_push hvac).mp hb with hb | rfl
              · exact hkept b hb
              · refine ⟨⟨tr, _, [], project, rfl, hvac, ?_, rfl, hclean, ?_⟩, fun hstatus ↦ ?_⟩
                · rw [hafter]
                  exact (Table.mem_push hvac).mpr (Or.inr rfl)
                · simp [newBatch, Json.field]
                · cases hstatus

end Batches

/-! ## What was certified ships -/

/-- When the release of a batch is served, nothing has overtaken what was
approved for its project when the batch was requested. -/
def Timely (pre : List (Served Api.Http Db Json)) (e : Served Api.Http Db Json) : Prop :=
  e.outcome.isSome = true →
    ∀ batchId approvedBy, e.request.request = .approveExport batchId approvedBy →
    ∀ batch ∈ e.before.exportBatches, batch.id = batchId → batch.status = .pendingApproval →
    ∀ q ∈ pre, q.before.exportBatches.Vacant batchId →
      (∃ b ∈ q.after.exportBatches, b.id = batchId) →
      ∀ project : Project, project.id = batch.projectId → Uncontested q.before e.before project

/-- The release `e` of a batch ships what its request `q` certified. -/
structure Certifies (env : Env) (q e : Served Api.Http Db Json) (project : Project)
    (b : ExportBatch) (w : Disk) : Prop where
  requested : RequestedBy env q project b
  dual : ∃ approver, b.approvedBy = some approver ∧ approver ≠ b.requestedBy
  files : ∃ rows, FilesHold env b.id project.taskType rows w ∧
    (rows.map rowIds).Perm ((approvedRows env q.before project).map rowIds) ∧
    b.manifest.field "record_count" = .int rows.length
  count : b.manifest.field "record_count" =
    (b.manifest.field "control_report").field "approved_records"
  clean : (reportOf env e.before project).clean = true

theorem RequestedBy.of_project {q : Served Api.Http Db Json} {project project' : Project}
    {b : ExportBatch} (h : RequestedBy env q project b) (hid : project'.id = project.id) :
    RequestedBy env q project' b := by
  have hreport : reportOf env q.before project' = reportOf env q.before project :=
    (reportOf_congr hid).1
  refine ⟨h.new, ?_, hid.trans h.projectId, hreport ▸ h.clean, hreport ▸ h.report⟩
  have hsame : newBatch project' b.requestedBy (reportOf env q.before project') b.id =
      newBatch project b.requestedBy (reportOf env q.before project) b.id := by
    simp only [newBatch, hid, hreport]
  exact hsame ▸ h.created

end Export

/-- In a run whose releases come before anything overtakes their reports, every
released batch ships what was certified. -/
theorem Export.certified_of_run {env : Env} {tr : List (Served Api.Http Db Json)} {s : Db}
    {w₀ w : Disk} (h : diskMachine.Run (Api.serve env) Db.empty w₀ tr s w)
    (htimely : Throughout Timely tr) : ∀ b ∈ s.exportBatches, b.status = .released →
      ∃ pre q mid e post w₁ w₂ project, tr = pre ++ q :: mid ++ e :: post ∧
        diskMachine.Run (Api.serve env) Db.empty w₀ (pre ++ q :: mid) e.before w₁ ∧
        diskMachine.Serves (Api.serve env) e w₁ w₂ ∧ Certifies env q e project b w₂ := by
  intro b hb hstatus
  obtain ⟨before, e, post, w₁, w₂, rfl, hbefore, hserves, hrequested, hreleased⟩ :=
    (batches_of_run h b hb).2 hstatus
  obtain ⟨pre, q, mid, project₀, rfl, hq⟩ := hrequested
  obtain ⟨⟨approvedBy, hrequest⟩, hserved, batch, approver, hbatch, hpending, hdual, hmade⟩ :=
    hreleased
  obtain ⟨project, hproject, hfiles, hcount⟩ := hmade.content
  refine ⟨pre, q, mid, e, post, w₁, w₂, project, rfl, hbefore, hserves, ?_⟩
  have hmachine := diskMachine_refines.run hbefore
  have hid : project.id = project₀.id :=
    (Table.key_of_find? hproject).trans (hmade.projectId.symm.trans hq.projectId.symm)
  have hq' := hq.of_project hid
  have hid₀ : batch.id = b.id := Table.key_of_find? hbatch
  have huncontested : Uncontested q.before e.before project :=
    htimely (pre ++ q :: mid) e post rfl hserved b.id approvedBy hrequest batch
      (Table.mem_of_find? hbatch) hid₀ hpending q (by simp) hq'.new ⟨_, hq'.created, rfl⟩ project
      (hq'.projectId.trans hmade.projectId)
  have hold : (Metering.bookOf q.before).Balanced := by
    obtain ⟨w₃, _, hpre, _⟩ := hmachine.split
    exact (Metering.sound_of_run hpre).balanced
  have hperm : ((approvedRows env e.before project).map rowIds).Perm
      ((approvedRows env q.before project).map rowIds) :=
    perm_of_uncontested hold (Metering.sound_of_run hmachine).balanced (later_of_run hmachine)
      huncontested
  have hlength : (approvedRows env e.before project).length =
      (approvedRows env q.before project).length := by
    simpa using hperm.length_eq
  refine ⟨hq', ⟨approver, hmade.approvedBy, ?_⟩, ⟨_, hid₀ ▸ hfiles, hperm, hcount⟩, ?_,
    clean_of_run hmachine hq'.clean⟩
  · rw [hmade.requestedBy]
    exact fun heq ↦ hdual heq.symm
  · rw [hcount, hq'.report, hlength]
    simp [ControlReport.asJson, Json.field, reportOf]

namespace Development

/-- A digest of 64 hex digits, always the same. -/
def exportEnv : Env :=
  { env with sha256 := fun _ ↦ String.ofList (List.replicate 64 'f') }

def exportRun (requests : List Api.Request) : List (Served Api.Http Db Json) × Db × Disk :=
  diskMachine.simulateRun (diskAnswers none) (Api.serve exportEnv) (requests.map http) 1 Db.empty
    blank

theorem exportRun_spec (requests : List Api.Request) :
    diskMachine.Run (Api.serve exportEnv) Db.empty blank (exportRun requests).1
      (exportRun requests).2.1 (exportRun requests).2.2 :=
  Machine.run_of_simulateRun _ _ _ _ _

def batchId : String := identifier 41

/-- A delivery that is exported as it was certified. -/
def firstExport : List Api.Request :=
  firstApproval ++ [.requestExport projectId, .approveExport batchId "lead"]

/-- The second of two submissions is approved between request and release. -/
def overtakenExport : List Api.Request :=
  setUp .external ++ [.createTask projectId ⟨"Explain the exception", [], false, none⟩,
    .createSubmission (identifier 33) authorId [("response", .str "It is deductible, too.")],
    review .pass, .requestExport projectId,
    .postHumanReview (identifier 37) ⟨reviewerId, .pass, none, ""⟩,
    .approveExport (identifier 55) "lead"]

def countOf : Json → Option ℤ
  | .int z => some z
  | _ => none

def approvalOf : Api.Request → Option String
  | .approveExport batchId _ => some batchId
  | _ => none

theorem timely_firstExport : Throughout Export.Timely (exportRun firstExport).1 := by
  have hbatch : ∀ e ∈ (exportRun firstExport).1, approvalOf e.request.request = none ∨
      approvalOf e.request.request = some batchId := by
    decide +kernel
  have honly : ∀ e ∈ (exportRun firstExport).1, ∀ sub ∈ e.before.submissions.rows,
      sub.id = submissionId ∧ sub.taskId = taskId := by
    decide +kernel
  have htop : ∀ q ∈ (exportRun firstExport).1, (∀ b ∈ q.before.exportBatches.rows, b.id ≠ batchId) →
      (∃ b ∈ q.after.exportBatches.rows, b.id = batchId) →
      ∃ top ∈ q.before.submissions.rows, top.id = submissionId ∧ top.taskId = taskId ∧
        top.status = .approved := by
    decide +kernel
  intro pre e post htr _ id approvedBy hrequest batch _ _ _ q hq hnew hcreated project _ task _ _ _
    ⟨sub, hsub, hof, _⟩
  have he : e ∈ (exportRun firstExport).1 := by simp [htr]
  have hsome : approvalOf e.request.request = some id := by rw [hrequest]; rfl
  have hid : id = batchId := by
    rcases hbatch e he with hnone | hthis
    · rw [hnone] at hsome
      cases hsome
    · exact Option.some.inj (hsome.symm.trans hthis)
  subst hid
  obtain ⟨top, htop, hthis, htask, hstatus⟩ := htop q (by simp [htr, hq]) hnew hcreated
  refine ⟨top, htop, htask.trans ((honly e he sub hsub).2.symm.trans hof), hstatus, ?_⟩
  intro sub' hsub' _ _ hne
  exact absurd ((honly e he sub' hsub').1.trans hthis.symm) hne

end Development

open Development

theorem Export.certified_of_run_firstExport :
    (exportRun firstExport).2.1.exportBatches.rows.map ExportBatch.status = [.released] ∧
      ∀ b ∈ (exportRun firstExport).2.1.exportBatches, b.status = .released →
        ∃ pre q mid e post w₁ w₂ project, (exportRun firstExport).1 = pre ++ q :: mid ++ e :: post ∧
          diskMachine.Run (Api.serve exportEnv) Db.empty blank (pre ++ q :: mid) e.before w₁ ∧
          diskMachine.Serves (Api.serve exportEnv) e w₁ w₂ ∧
          Certifies exportEnv q e project b w₂ :=
  ⟨by decide +kernel, certified_of_run (exportRun_spec firstExport) timely_firstExport⟩

/-- Two records ship under a report about one. -/
theorem Export.report_overtaken : ∃ tr s w,
    diskMachine.Run (Api.serve exportEnv) Db.empty blank tr s w ∧
      ∃ b ∈ s.exportBatches, b.status = .released ∧ b.manifest.field "record_count" ≠
        (b.manifest.field "control_report").field "approved_records" := by
  have hcounts : ∃ b ∈ (exportRun overtakenExport).2.1.exportBatches.rows, b.status = .released ∧
      countOf (b.manifest.field "record_count") = some 2 ∧
      countOf ((b.manifest.field "control_report").field "approved_records") = some 1 := by
    decide +kernel
  obtain ⟨b, hb, hstatus, htwo, hone⟩ := hcounts
  refine ⟨_, _, _, exportRun_spec overtakenExport, b, hb, hstatus, fun heq ↦ ?_⟩
  rw [heq, hone] at htwo
  cases htwo

end HumanDataFactory
