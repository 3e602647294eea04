import HumanDataFactory.Python.Layouts
import HumanDataFactory.Qc.Gate1
import HumanDataFactory.Release.Certified

/-!
# A released batch can be read

What a consumer gets who reads the directory of a batch with `json.loads`: the
records of the data files line by line, and the manifest with their number and
digests.  The contents of submissions came in as JSON texts themselves, so that
no dictionary on the way has a key twice.
-/

namespace HumanDataFactory

open Transact

namespace Export

variable {env : Env} {readFloat : String → Option PyFloat}

/-! ## Data files -/

theorem spaced_readable : Json.readable.Spaced where
  item := ⟨[' '], by simp [Json.Blank, Json.isBlank], rfl⟩
  key := ⟨[' '], by simp [Json.Blank, Json.isBlank], rfl⟩

theorem inline_readable : Json.readable.Inline where
  sort := rfl
  item := by simp [Json.Printable, Json.readable]
  key := by simp [Json.Printable, Json.readable]

theorem loadLines_jsonl (h : Json.FloatsRead readFloat env.floatRepr) {rows : List Json}
    (hrows : ∀ row ∈ rows, Json.keyed row = true) :
    Json.loadLines readFloat (jsonl env rows) = some rows :=
  Json.loadLines_dumps h spaced_readable inline_readable hrows

theorem keyed_of_index {x y : Json} {k : String} (hx : Json.keyed x = true)
    (h : x.index k = .ok y) : Json.keyed y = true := by
  cases x with
  | obj kvs =>
      unfold Json.index at h
      dsimp only at h
      split at h
      · rename_i v hv
        obtain rfl := Except.ok.inj h
        exact Json.keyed_lookup hx hv
      · cases h
  | _ => cases h

theorem keyed_of_getD {x y d : Json} {k : String} (hx : Json.keyed x = true)
    (hd : Json.keyed d = true) (h : x.getD k d = .ok y) : Json.keyed y = true := by
  cases x with
  | obj kvs =>
      obtain rfl := Except.ok.inj h
      cases hv : Json.lookup kvs k with
      | none => exact hd
      | some v => exact Json.keyed_lookup hx hv
  | _ => cases h

theorem keyed_recordMeta (task : Task) (sub : Submission) :
    Json.keyed (recordMeta task sub) = true := by
  simp [recordMeta, Json.keyed, Json.keyedPairs]

theorem keyed_of_formatRecord {taskType : TaskType} {task : Task} {sub : Submission}
    {record : Json} (hcontent : Json.keyed sub.content = true)
    (h : formatRecord taskType task sub = .ok record) : Json.keyed record = true := by
  have hmeta := keyed_recordMeta task sub
  cases taskType with
  | sft =>
      obtain ⟨completion, hcompletion, h⟩ := bind_eq_ok.mp h
      obtain ⟨citations, hcitations, h⟩ := bind_eq_ok.mp h
      obtain rfl := Except.ok.inj h
      have hx := keyed_of_index hcontent hcompletion
      have hy := keyed_of_getD hcontent rfl hcitations
      simp [Json.keyed, Json.keyedPairs, hx, hy, hmeta]
  | preference =>
      obtain ⟨chosen, hchosen, h⟩ := bind_eq_ok.mp h
      obtain ⟨rejected, hrejected, h⟩ := bind_eq_ok.mp h
      obtain ⟨rationale, hrationale, h⟩ := bind_eq_ok.mp h
      obtain ⟨citations, hcitations, h⟩ := bind_eq_ok.mp h
      obtain rfl := Except.ok.inj h
      have hx := keyed_of_index hcontent hchosen
      have hy := keyed_of_index hcontent hrejected
      have hz := keyed_of_getD hcontent rfl hrationale
      have hc := keyed_of_getD hcontent rfl hcitations
      simp [Json.keyed, Json.keyedPairs, hx, hy, hz, hc, hmeta]
  | eval =>
      obtain ⟨answer, hanswer, h⟩ := bind_eq_ok.mp h
      obtain ⟨notes, hnotes, h⟩ := bind_eq_ok.mp h
      obtain ⟨citations, hcitations, h⟩ := bind_eq_ok.mp h
      obtain rfl := Except.ok.inj h
      have hx := keyed_of_index hcontent hanswer
      have hy := keyed_of_getD hcontent rfl hnotes
      have hz := keyed_of_getD hcontent rfl hcitations
      simp [Json.keyed, Json.keyedPairs, hx, hy, hz, hmeta]

theorem keyed_of_formatRecords {taskType : TaskType} {rows : List (Task × Submission)}
    {records : List Json} (hcontent : ∀ row ∈ rows, Json.keyed row.2.content = true)
    (h : formatRecords taskType rows = .ok records) :
    ∀ record ∈ records, Json.keyed record = true := by
  induction rows generalizing records with
  | nil =>
      obtain rfl := Except.ok.inj h
      simp
  | cons row rows ih =>
      obtain ⟨task, sub⟩ := row
      unfold formatRecords at h
      obtain ⟨record, hrecord, h⟩ := bind_eq_ok.mp h
      obtain ⟨rest, hrest, h⟩ := bind_eq_ok.mp h
      obtain rfl := Except.ok.inj h
      obtain ⟨hsub, hrows⟩ := List.forall_mem_cons.mp hcontent
      exact List.forall_mem_cons.mpr ⟨keyed_of_formatRecord hsub hrecord, ih hrows hrest⟩

theorem keyed_toChat {record : Json} (h : Json.keyed record = true) :
    Json.keyed (toChat record) = true := by
  have hfield := Json.keyed_field h
  simp [toChat, Json.keyed, Json.keyedItems, Json.keyedPairs, hfield]

/-! ## The manifest -/

theorem keyed_merge {old entries : List (String × Json)} (hold : Json.keyed (.obj old) = true)
    (hentries : ∀ e ∈ entries, Json.keyed e.2 = true) :
    Json.keyed (.obj (merge old entries)) = true := by
  unfold merge
  induction entries generalizing old with
  | nil => exact hold
  | cons e entries ih =>
      obtain ⟨he, hrest⟩ := List.forall_mem_cons.mp hentries
      exact ih (Json.keyed_insert hold e.1 he) hrest

/-- A dictionary of strings. -/
theorem keyed_of_strings {kvs : List (String × Json)} (hnodup : (kvs.map Prod.fst).Nodup)
    (hstr : ∀ kv ∈ kvs, ∃ s, kv.2 = .str s) : Json.keyed (.obj kvs) = true := by
  refine Json.keyed_obj.mpr ⟨hnodup, fun kv hkv ↦ ?_⟩
  obtain ⟨s, hs⟩ := hstr kv hkv
  rw [hs]
  rfl

theorem keyed_digests {data : List (String × String)} (h : Named data) :
    Json.keyed (.obj (digests env data)) = true := by
  refine keyed_of_strings ?_ fun kv hkv ↦ ?_
  · have hnames : (digests env data).map Prod.fst = data.map Prod.fst := by simp [digests]
    rw [hnames]
    exact h.nodup
  · obtain ⟨f, _, rfl⟩ := List.mem_map.mp hkv
    exact ⟨_, rfl⟩

theorem keyed_manifestEntries (batch : ExportBatch) (project : Project) (firm : Firm)
    (recordCount : ℕ) {files : List (String × Json)} (hfiles : Json.keyed (.obj files) = true)
    (chainHead generatedAt approvedBy : String) :
    ∀ e ∈ manifestEntries batch project firm recordCount files chainHead generatedAt approvedBy,
      Json.keyed e.2 = true := by
  rw [Json.keyed, Bool.and_eq_true, decide_eq_true_eq] at hfiles
  simp [manifestEntries, Json.keyed, Json.keyedPairs, hfiles]

theorem keyed_asJson (report : ControlReport) : Json.keyed report.asJson = true := by
  have hstrs := Json.keyed_strs
  simp [ControlReport.asJson, Json.keyed, Json.keyedPairs, hstrs]

theorem keyed_storageBlock {keys : List (String × Json)} (h : Json.keyed (.obj keys) = true) :
    Json.keyed (storageBlock env keys) = true := by
  have hendpoint : Json.keyed (if env.exportS3Endpoint = "" then .null
      else .str env.exportS3Endpoint) = true := by
    split <;> rfl
  rw [Json.keyed, Bool.and_eq_true, decide_eq_true_eq] at h
  simp [storageBlock, Json.keyed, Json.keyedPairs, hendpoint, h]

/-! ## The files of a release -/

section Files

variable {s s' : Db} {w w' : Disk}

theorem nodup_names (w : Disk) (base : String) : (w.names base).Nodup := by
  refine (List.nodup_dedup _).filterMap fun path path' name hpath hpath' ↦ ?_
  rw [Option.mem_def, Disk.nameIn_eq_some] at hpath hpath'
  exact hpath.1.trans hpath'.1.symm

/-- The keys an upload returns are those of the files it was asked for. -/
theorem along_uploadedKeys {base batchId : String} {only : Option (List String)}
    {entries : List (String × Bool)} {Q : List (String × Json) → Db → Disk → Prop}
    (hQ : ∀ keys w', w'.files = w.files → keys.map Prod.fst = wanted only entries →
      (∀ kv ∈ keys, ∃ key, kv.2 = .str key) → Q keys s w') :
    diskMachine.Along (fun _ ↦ True) (uploadFiles env base batchId only entries) s w Q := by
  induction entries generalizing w Q with
  | nil => exact ⟨trivial, hQ [] w rfl rfl (by simp)⟩
  | cons e entries ih =>
      obtain ⟨name, isFile⟩ := e
      unfold uploadFiles
      split
      · rename_i hskip
        have hout : (isFile && !decide (∃ names ∈ only, name ∉ names)) = false := by
          rcases hskip with rfl | hout <;> simp_all
        have hsame : wanted only ((name, isFile) :: entries) = wanted only entries := by
          simp only [wanted, List.filter_cons, hout, Bool.false_eq_true, if_false]
        rw [hsame] at hQ
        exact ih hQ
      · rename_i hwant
        have hin : (isFile && !decide (∃ names ∈ only, name ∉ names)) = true := by
          simpa [not_or] using hwant
        have hmore : wanted only ((name, isFile) :: entries) = name :: wanted only entries := by
          simp only [wanted, List.filter_cons, hin, if_true, List.map_cons]
        refine ⟨trivial, fun reply w₁ hw₁ ↦ ?_⟩
        cases reply with
        | none => exact trivial
        | some uploaded =>
            obtain ⟨text, _, rfl⟩ := Option.map_eq_some_iff.mp hw₁
            refine along_returned_bind trivial fun _ _ ↦ ?_
            rw [Machine.along_bind]
            refine ih fun keys w' hfiles hkeys hstr ↦ ⟨trivial, hQ _ w' hfiles ?_ ?_⟩
            · rw [List.map_cons, hkeys, hmore]
            · exact List.forall_mem_cons.mpr ⟨⟨_, rfl⟩, hstr⟩

/-- An upload of a directory returns a dictionary and leaves the files alone. -/
theorem along_uploadedBatch {base batchId : String} {only : Option (List String)}
    {Q : List (String × Json) → Db → Disk → Prop}
    (hQ : ∀ keys w', w'.files = w.files → Json.keyed (.obj keys) = true → Q keys s w') :
    diskMachine.Along (fun _ ↦ True) (uploadBatch env base batchId only) s w Q := by
  unfold uploadBatch
  refine ⟨trivial, fun reply w₁ hw₁ ↦ ?_⟩
  cases reply with
  | none => exact trivial
  | some entries =>
      obtain ⟨hlisted, hw⟩ := Option.ite_none_right_eq_some.mp hw₁
      obtain rfl := Option.some.inj hw
      refine along_returned_bind trivial fun found hfound ↦ ?_
      obtain rfl := Option.some.inj hfound
      refine along_uploadedKeys fun keys w' hfiles hkeys hstr ↦ hQ keys w' hfiles ?_
      refine keyed_of_strings ?_ hstr
      have hsorted := List.perm_insertionSort (fun a b : String × Bool ↦ a.1 ≤ b.1) entries
      have hall :
          (((entries.insertionSort fun a b ↦ a.1 ≤ b.1).filter Prod.snd).map Prod.fst).Nodup :=
        ((hsorted.filter _).map _).nodup_iff.mpr (hlisted.nodup_iff.mpr (nodup_names _ _))
      rw [hkeys]
      refine hall.sublist (List.Sublist.map _ ?_)
      refine List.monotone_filter_right _ fun e he ↦ ?_
      exact (Bool.and_eq_true _ _ ▸ he).1

/-- The manifest a release leaves on the disk differs from the one in the
database in the `storage` block at most. -/
theorem along_storedManifest {base batchId : String} {manifest : List (String × Json)}
    (hkeyed : Json.keyed (.obj manifest) = true) {Q : List (String × Json) → Db → Disk → Prop}
    (hQ : ∀ manifest' shown w',
      (∀ path, path ≠ base ++ "/" ++ "manifest.json" → w'.file path = w.file path) →
      w'.file (base ++ "/" ++ "manifest.json") =
        some (Json.dumpsIndent env.floatRepr 0 (.obj shown)) →
      Json.keyed (.obj shown) = true →
      (∀ k, k ≠ "storage" → Json.lookup shown k = Json.lookup manifest k ∧
        Json.lookup manifest' k = Json.lookup manifest k) → Q manifest' s w') :
    diskMachine.Along (fun _ ↦ True) (storeFiles env base batchId manifest) s w Q := by
  have hother (w₁ w₂ : Disk) (text : String) (hw₁ : w₁.files = w.files)
      (hw₂ : w₂.files = (w₁.write (base ++ "/" ++ "manifest.json") text).files) (path : String)
      (hpath : path ≠ base ++ "/" ++ "manifest.json") : w₂.file path = w.file path := by
    have hstep : w₂.file path = (w₁.write (base ++ "/" ++ "manifest.json") text).file path := by
      rw [Disk.file, hw₂]
      rfl
    rw [hstep, Disk.file_write_ne _ hpath, Disk.file, hw₁]
    rfl
  have hwritten (w₁ w₂ : Disk) (text : String)
      (hw₂ : w₂.files = (w₁.write (base ++ "/" ++ "manifest.json") text).files) :
      w₂.file (base ++ "/" ++ "manifest.json") = some text := by
    have hstep : w₂.file (base ++ "/" ++ "manifest.json") =
        (w₁.write (base ++ "/" ++ "manifest.json") text).file (base ++ "/" ++ "manifest.json") := by
      rw [Disk.file, hw₂]
      rfl
    rw [hstep, Disk.file_write_self]
  unfold storeFiles
  by_cases hstored : stored env
  · rw [if_pos hstored, Machine.along_bind]
    refine along_uploadedBatch fun keys w₁ hw₁ hkeys ↦ ?_
    rw [Machine.along_bind]
    refine along_writeManifest trivial trivial ?_
    rw [Machine.along_bind]
    refine along_uploadedBatch fun keys' w₂ hw₂ _ ↦ ⟨trivial, ?_⟩
    refine hQ _ _ _ (hother w₁ w₂ _ hw₁ hw₂) (hwritten w₁ w₂ _ hw₂)
      (Json.keyed_insert hkeyed _ (keyed_storageBlock hkeys)) fun k hk ↦ ?_
    simp [Json.lookup_insert, hk]
  · rw [if_neg hstored, Machine.along_bind]
    refine along_writeManifest trivial trivial ⟨trivial, ?_⟩
    exact hQ _ _ _ (hother w _ _ rfl rfl) (hwritten w _ _ rfl) hkeyed fun k _ ↦ ⟨rfl, rfl⟩

end Files

/-- The data files of a release and the records in them. -/
def dataRecords (taskType : TaskType) (records : List Json) : List (String × List Json) :=
  if taskType = .sft then
    [(taskType.value ++ ".jsonl", records), ("chat.jsonl", records.map toChat)]
  else [(taskType.value ++ ".jsonl", records)]

theorem dataFiles_eq (taskType : TaskType) (records : List Json) :
    dataFiles env taskType records =
      (dataRecords taskType records).map fun f ↦ (f.1, jsonl env f.2) := by
  unfold dataFiles dataRecords
  split <;> rfl

theorem keyed_dataRecords {taskType : TaskType} {records : List Json}
    (h : ∀ record ∈ records, Json.keyed record = true) :
    ∀ f ∈ dataRecords taskType records, ∀ record ∈ f.2, Json.keyed record = true := by
  have hchat : ∀ record ∈ records.map toChat, Json.keyed record = true := by
    intro record hrecord
    obtain ⟨plain, hplain, rfl⟩ := List.mem_map.mp hrecord
    exact keyed_toChat (h plain hplain)
  unfold dataRecords
  split
  · simpa using And.intro h (by simpa using hchat)
  · simpa using h

/-- What is read from the directory of a batch: its records, file by file, each
file with its digest in the manifest, and the manifest itself. -/
structure Readable (env : Env) (readFloat : String → Option PyFloat) (b : ExportBatch)
    (taskType : TaskType) (records : List Json) (w : Disk) : Prop where
  data : ∀ f ∈ dataRecords taskType records, ∃ text,
    w.file (directory env b.id ++ "/" ++ f.1) = some text ∧
      Json.loadLines readFloat text = some f.2 ∧
      (b.manifest.field "files").field f.1 = .str (env.sha256 text)
  manifest : ∃ text shown, w.file (directory env b.id ++ "/" ++ "manifest.json") = some text ∧
    Json.loads readFloat text = some shown ∧
    ∀ k, k ≠ "storage" → shown.field k = b.manifest.field k
  count : b.manifest.field "record_count" = .int records.length

section Release

variable {s s' : Db} {w w' : Disk}

theorem field_digests {data : List (String × String)} (hdata : Named data)
    {f : String × String} (hf : f ∈ data) :
    Json.field (.obj (digests env data)) f.1 = .str (env.sha256 f.2) := by
  have hnodup := hdata.nodup
  clear hdata
  induction data with
  | nil => cases hf
  | cons g data ih =>
      obtain ⟨hg, hrest⟩ := List.nodup_cons.mp hnodup
      rcases List.mem_cons.mp hf with rfl | hf
      · simp [digests, Json.field]
      · have hne : g.1 ≠ f.1 := fun heq ↦ hg (heq ▸ List.mem_map_of_mem hf)
        have htail := ih hf hrest
        simp only [digests, Json.field, List.map_cons, Json.lookup_cons, if_neg hne] at htail ⊢
        exact htail

theorem along_readable {batch : ExportBatch} {approvedBy : String}
    (hbatch : s.exportBatches.find? batch.id = some batch)
    (hfloat : Json.FloatsRead readFloat env.floatRepr)
    (hcontent : ∀ sub ∈ s.submissions, Json.keyed sub.content = true)
    (hold : batch.status = .pendingApproval → Json.keyed batch.manifest = true) :
    diskMachine.Along (fun _ ↦ True) (approveAndMaterialize env batch approvedBy) s w
      fun _ s' w' ↦ ∃ project records released,
        s.projects.find? batch.projectId = some project ∧
        formatRecords project.taskType (approvedRows env s project) = .ok records ∧
        released.id = batch.id ∧ released.projectId = batch.projectId ∧
        released.status = .released ∧
        Readable env readFloat released project.taskType records w' ∧
        s'.exportBatches = s.exportBatches.replace released := by
  unfold approveAndMaterialize
  refine Machine.along_ensure_bind trivial fun hpending ↦ ?_
  refine Machine.along_ensure_bind trivial fun _ ↦ ?_
  rw [Machine.along_select_bind]
  refine Machine.along_getSome_bind trivial fun project hproject ↦ ?_
  rw [Machine.along_select_bind]
  refine Machine.along_ofExcept_bind trivial fun records hrecords ↦ ?_
  refine ⟨trivial, fun made w₁ hw₁ ↦ ?_⟩
  obtain rfl := Option.some.inj hw₁
  refine along_returned_bind trivial fun _ _ ↦ ?_
  rw [Machine.along_bind]
  refine along_writeFiles (fun _ _ ↦ trivial) ?_
  rw [Machine.along_select_bind]
  refine Machine.along_getSome_bind trivial fun firm _ ↦ ?_
  rw [Machine.along_select_bind]
  refine ⟨trivial, fun now w₁ hw₁ ↦ ?_⟩
  obtain rfl := Option.some.inj hw₁
  refine Machine.along_ofExcept_bind trivial fun old hmanifest ↦ ?_
  rw [Machine.along_bind]
  have hdata := named_dataFiles env project.taskType records
  have hbase : Json.keyed (.obj old) = true := by
    have hkeyed := hold hpending
    unfold manifestBase at hmanifest
    split at hmanifest
    · rename_i kvs hkvs
      rw [← Except.ok.inj hmanifest, ← hkvs]
      exact hkeyed
    · cases hmanifest
  refine along_storedManifest (keyed_merge hbase (keyed_manifestEntries batch project firm
    records.length (keyed_digests hdata) _ _ _))
    fun manifest shown w₁ hother htext hshown hsame ↦ ?_
  refine Machine.along_ofExcept_bind trivial fun backend _ ↦ ?_
  rw [Machine.along_emit_bind]
  refine ⟨trivial, fun s₁ hs₁ ↦ ?_⟩
  rw [Machine.along_bind]
  refine along_record (fun _ ↦ trivial) fun _ _ n ↦ ⟨trivial, ?_⟩
  have hreleased := exportBatches_of_release hbatch hs₁
  have hfield (k : String) (hk : k ≠ "storage") : Json.field (.obj manifest) k =
      Json.field (.obj (merge old (manifestEntries batch project firm records.length
        (digests env (dataFiles env project.taskType records)) (Audit.chainHead s)
        (env.isoformat now) approvedBy))) k := by
    simp only [Json.field, (hsame k hk).2]
  have hrecord := keyed_of_formatRecords (fun row hrow ↦
    hcontent row.2 (approved_of_mem hrow).submission) hrecords
  refine ⟨project, records, { batch with
      approvedBy := some approvedBy
      path := some (env.exportsDir ++ "/" ++ batch.id)
      manifest := .obj manifest
      status := .released }, hproject, hrecords, rfl, rfl, rfl, ⟨?_, ?_, ?_⟩,
    hreleased⟩
  · intro f hf
    have hmem : (f.1, jsonl env f.2) ∈ dataFiles env project.taskType records := by
      rw [dataFiles_eq]
      exact List.mem_map_of_mem hf
    refine ⟨jsonl env f.2, ?_, loadLines_jsonl hfloat (keyed_dataRecords hrecord f hf), ?_⟩
    · have hname : directory env batch.id ++ "/" ++ f.1 ≠
          directory env batch.id ++ "/" ++ "manifest.json" :=
        fun heq ↦ hdata.ne_manifest _ hmem (Disk.path_inj heq)
      exact (hother _ hname).trans (hdata.file_writeAll hmem)
    · have hfiles : Json.field (.obj manifest) "files" =
          .obj (digests env (dataFiles env project.taskType records)) := by
        rw [hfield _ (by decide)]
        simp [merge, manifestEntries, Json.field, Json.lookup_insert]
      rw [hfiles]
      exact field_digests hdata hmem
  · refine ⟨_, .obj shown, htext, Json.loads_dumpsIndent hfloat hshown, fun k hk ↦ ?_⟩
    simp only [Json.field, (hsame k hk).1, (hsame k hk).2]
  · rw [hfield _ (by decide)]
    simp [merge, manifestEntries, Json.field, Json.lookup_insert]

theorem readable_of_exec {http : Api.Http} {batchId approvedBy : String} {r : Json}
    (h : diskMachine.Exec (Api.serve env http) s w r s' w')
    (hrequest : http.request = .approveExport batchId approvedBy)
    (hfloat : Json.FloatsRead readFloat env.floatRepr)
    (hcontent : ∀ sub ∈ s.submissions, Json.keyed sub.content = true)
    (hold : ∀ batch ∈ s.exportBatches, batch.status = .pendingApproval →
      Json.keyed batch.manifest = true) :
    ∃ project records released, released.id = batchId ∧ released.status = .released ∧
      s.projects.find? released.projectId = some project ∧
      formatRecords project.taskType (approvedRows env s project) = .ok records ∧
      Readable env readFloat released project.taskType records w' ∧
      s'.exportBatches = s.exportBatches.replace released := by
  obtain ⟨authorization, xActorId, request⟩ := http
  subst hrequest
  have hserve : Api.serve env ⟨authorization, xActorId, .approveExport batchId approvedBy⟩ =
      Auth.currentActor env Api.internal authorization xActorId >>= fun actor ↦
        Api.approveExport env actor batchId approvedBy := rfl
  rw [hserve, Machine.exec_bind] at h
  obtain ⟨actor, s₁, w₁, hactor, h⟩ := h
  obtain rfl := hactor.of_writeless (Auth.writeless_currentActor env _ _ _)
  unfold Api.approveExport at h
  rw [Machine.exec_bind] at h
  obtain ⟨batch, s₂, w₂, hfound, h⟩ := h
  unfold Api.getExportBatch Api.getOr404 at hfound
  rw [Machine.exec_select_bind, Machine.exec_getSome] at hfound
  obtain ⟨hbatch, rfl, rfl⟩ := hfound
  rw [Machine.exec_bind] at h
  obtain ⟨_, s₃, w₃, happrove, _, rfl, rfl⟩ := h
  have hread := (along_readable (w := w₂) (Table.find?_key hbatch) hfloat hcontent
    (hold batch (Table.mem_of_find? hbatch))).exec (Machine.exec_mapErr.mp happrove)
  obtain ⟨_, project, records, released, hproject, hrecords, hid, hprojectId, hstatus, hreadable,
    hafter⟩ := hread
  exact ⟨project, records, released, hid.trans (Table.key_of_find? hbatch), hstatus,
    hprojectId ▸ hproject, hrecords, hreadable, hafter⟩

end Release

/-! ## Every release of a run -/

variable (readFloat) in
/-- The content of a submission came in as a JSON text. -/
def Parsed (request : Api.Request) : Prop :=
  ∀ taskId expertId content, request = .createSubmission taskId expertId content →
    ∃ body, Json.loads readFloat body = some (.obj content)

section Run

variable {tr : List (Served Api.Http Db Json)} {s : Db} {w₀ w : Disk}

/-- A submission holds the content of the request that created it. -/
theorem content_of_run {v₀ v : ℕ} (h : machine.Run (Api.serve env) Db.empty v₀ tr s v)
    {sub : Submission} (hsub : sub ∈ s.submissions) :
    ∃ e ∈ tr, ∃ taskId expertId content,
      e.request.request = .createSubmission taskId expertId content ∧
      sub.content = .obj content := by
  obtain ⟨pre, e, post, row, rfl, hentered⟩ := Engine.entered_of_run h sub hsub
  obtain ⟨w₁, w₂, hpre, hserves, _⟩ := h.split
  cases hserves with
  | failed _ => exact absurd rfl (hentered.new row hentered.mem)
  | ok hexec =>
      have hseq := (Evidence.kept_of_run hpre).below
      obtain ⟨⟨actor, heffect⟩, _⟩ := Api.exec_serve hexec hseq
      obtain ⟨taskId, expertId, content, hrequest⟩ :=
        Newcomers.createSubmission_of_new heffect hentered.new hentered.mem
      obtain ⟨task, expert, r, htask, hexpert, hsubmit⟩ :=
        Api.exec_serve_submission hexec hrequest
      obtain ⟨project, fresh, validation, row', hfresh, hvalidated⟩ :=
        Engine.validated_of_submit hsubmit (Table.find?_key htask) (Table.find?_key hexpert) hseq
      have hmem := hentered.mem
      rw [hvalidated.entered] at hmem
      obtain ⟨status, sampled, rfl⟩ := hvalidated.kept
      obtain ⟨status', rfl⟩ := hentered.same
      refine ⟨_, List.mem_append_right _ List.mem_cons_self, taskId, expertId, content,
        hrequest, ?_⟩
      rcases (Table.mem_push (by exact hfresh.vacant)).mp hmem with hold | rfl
      · exact absurd rfl (hentered.new row hold)
      · exact hfresh.content

theorem keyed_of_run {v₀ v : ℕ} (h : machine.Run (Api.serve env) Db.empty v₀ tr s v)
    (hparsed : ∀ e ∈ tr, Parsed readFloat e.request.request) :
    ∀ sub ∈ s.submissions, Json.keyed sub.content = true := by
  intro sub hsub
  obtain ⟨e, he, taskId, expertId, content, hrequest, hcontent⟩ := content_of_run h hsub
  obtain ⟨body, hbody⟩ := hparsed e he taskId expertId content hrequest
  rw [hcontent]
  exact Json.keyed_of_loads hbody

/-- The entry `e` of a run released batch `b` and left a disk from which these
records are read. -/
structure ReadableBy (env : Env) (readFloat : String → Option PyFloat)
    (e : Served Api.Http Db Json) (b : ExportBatch) (project : Project) (records : List Json)
    (w : Disk) : Prop where
  request : ∃ approvedBy, e.request.request = .approveExport b.id approvedBy
  found : e.before.projects.find? b.projectId = some project
  formatted : formatRecords project.taskType (approvedRows env e.before project) = .ok records
  readable : Readable env readFloat b project.taskType records w

/-- Somewhere in a run the batch is released so that it can be read. -/
def Opened (env : Env) (readFloat : String → Option PyFloat) (w₀ : Disk)
    (tr : List (Served Api.Http Db Json)) (b : ExportBatch) : Prop :=
  ∃ pre e post w₁ w₂ project records, tr = pre ++ e :: post ∧
    diskMachine.Run (Api.serve env) Db.empty w₀ pre e.before w₁ ∧
    diskMachine.Serves (Api.serve env) e w₁ w₂ ∧
    ReadableBy env readFloat e b project records w₂

theorem Opened.concat {b : ExportBatch} (h : Opened env readFloat w₀ tr b)
    (e : Served Api.Http Db Json) : Opened env readFloat w₀ (tr ++ [e]) b := by
  obtain ⟨pre, e', post, w₁, w₂, project, records, rfl, hrest⟩ := h
  exact ⟨pre, e', post ++ [e], w₁, w₂, project, records, by simp, hrest⟩

/-- What is known of a batch: before its release its manifest is a dictionary,
after it the batch can be read. -/
def Known (env : Env) (readFloat : String → Option PyFloat) (w₀ : Disk)
    (tr : List (Served Api.Http Db Json)) (b : ExportBatch) : Prop :=
  (b.status = .pendingApproval → Json.keyed b.manifest = true) ∧
    (b.status = .released → Opened env readFloat w₀ tr b)

theorem known_of_run (h : diskMachine.Run (Api.serve env) Db.empty w₀ tr s w)
    (hfloat : Json.FloatsRead readFloat env.floatRepr)
    (hparsed : ∀ e ∈ tr, Parsed readFloat e.request.request) :
    ∀ b ∈ s.exportBatches, Known env readFloat w₀ tr b := by
  induction h with
  | nil =>
      intro b hb
      simp [Db.empty] at hb
  | @snoc tr s w e w' h hb he ih =>
      subst hb
      have hbefore := ih fun e' he' ↦ hparsed e' (List.mem_append_left _ he')
      have hkept : ∀ b ∈ e.before.exportBatches, Known env readFloat w₀ (tr ++ [e]) b :=
        fun b hb ↦ ⟨(hbefore b hb).1, fun hstatus ↦ ((hbefore b hb).2 hstatus).concat e⟩
      have hmachine := diskMachine_refines.run h
      have hserves := he
      cases he with
      | failed _ => exact hkept
      | @ok http s r s' _ _ hexec =>
          by_cases hrequest : ∃ batchId approvedBy, http.request = .approveExport batchId approvedBy
          · obtain ⟨batchId, approvedBy, hrequest⟩ := hrequest
            have hcontent := keyed_of_run hmachine
              fun e' he' ↦ hparsed e' (List.mem_append_left _ he')
            obtain ⟨project, records, released, rfl, hstatus, hproject, hrecords, hreadable,
              hafter⟩ := readable_of_exec hexec hrequest hfloat hcontent fun b hb ↦ (hbefore b hb).1
            change ∀ b ∈ s'.exportBatches, _
            rw [hafter]
            intro b hb
            rcases Table.mem_replace hb with rfl | ⟨hb, _⟩
            · refine ⟨fun hpending ↦ ?_, fun _ ↦ ⟨_, _, [], w, w', project, records, rfl, h,
                hserves, ⟨approvedBy, hrequest⟩, hproject, hrecords, hreadable⟩⟩
              rw [hstatus] at hpending
              cases hpending
            · exact hkept b hb
          · have hbelow := (Evidence.kept_of_run hmachine).below
            obtain ⟨⟨actor, heffect⟩, _⟩ := Api.exec_serve (diskMachine_refines.exec hexec) hbelow
            rcases exportBatches_of_effect heffect fun batchId approvedBy heq ↦
              hrequest ⟨batchId, approvedBy, heq⟩ with hafter | ⟨project, id, _, _, hvac, hafter⟩
            · change ∀ b ∈ s'.exportBatches, _
              rw [hafter]
              exact hkept
            · change ∀ b ∈ s'.exportBatches, _
              rw [hafter]
              intro b hb
              rcases (Table.mem_push hvac).mp hb with hb | rfl
              · exact hkept b hb
              · refine ⟨fun _ ↦ ?_, fun hstatus ↦ by cases hstatus⟩
                have hreport := keyed_asJson (reportOf env s project)
                simpa [newBatch, Json.keyed, Json.keyedPairs] using hreport

end Run

end Export

/-- In every run whose contents came in as JSON, each released batch is read
back from its directory: the records it was made of, line by line, with their
number and digests in a manifest that says what the database says. -/
theorem Export.readable_of_run {env : Env} {readFloat : String → Option PyFloat}
    (hfloat : Json.FloatsRead readFloat env.floatRepr) {tr : List (Served Api.Http Db Json)}
    {s : Db} {w₀ w : Disk} (h : diskMachine.Run (Api.serve env) Db.empty w₀ tr s w)
    (hparsed : ∀ e ∈ tr, Parsed readFloat e.request.request) :
    ∀ b ∈ s.exportBatches, b.status = .released → Opened env readFloat w₀ tr b :=
  fun b hb ↦ (known_of_run h hfloat hparsed b hb).2

namespace Development

/-- `float` on what `reprFloat` writes. -/
def readRatio (text : String) : Option PyFloat :=
  match Json.readWhole (Json.readSign false text.toList).2 with
  | some (whole, '.' :: rest) =>
      some (.finite (mkRat (Json.intOf (Json.readSign false text.toList).1 whole)
        (Json.natOf rest + 1)))
  | _ => none

theorem split_repr (z : ℤ) (u : List Char) : ∃ sign whole, (sign = [] ∨ sign = ['-']) ∧
    Json.Whole whole ∧ (Int.repr z).toList ++ u = sign ++ (whole ++ u) ∧
      Json.intOf sign whole = z := by
  have hwhole (n : ℕ) : Json.Whole (Nat.repr n).toList := Nat.toList_repr ▸ Json.whole_toDigits n
  cases z with
  | ofNat n =>
      refine ⟨[], (Nat.repr n).toList, Or.inl rfl, hwhole n, rfl, ?_⟩
      rw [Json.intOf, if_neg (by decide), Json.natOf_repr]
      rfl
  | negSucc n =>
      refine ⟨['-'], (Nat.repr (n + 1)).toList, Or.inr rfl, hwhole (n + 1), ?_, ?_⟩
      · rw [Json.toList_repr_negSucc]
        rfl
      · rw [Json.intOf, if_pos rfl, Json.natOf_repr]
        rfl

theorem floatsRead : Json.FloatsRead readRatio reprFloat where
  literal q := by
    obtain ⟨sign, whole, hsign, hwhole, htext, _⟩ :=
      split_repr q.num ('.' :: (Nat.repr (q.den - 1)).toList)
    refine ⟨sign, whole, '.' :: (Nat.repr (q.den - 1)).toList, [], ?_, hsign, hwhole,
      Or.inr ⟨_, rfl, ?_, ?_⟩, Or.inl rfl, by simp⟩
    · rw [toList_reprFloat, htext, List.append_nil]
    · rw [Nat.toList_repr]
      exact Nat.toDigits_ne_nil
    · intro c hc
      rw [Nat.toList_repr] at hc
      exact Nat.isDigit_of_mem_toDigits (by norm_num) (by norm_num) hc
  back q := by
    obtain ⟨sign, whole, hsign, hwhole, htext, hint⟩ :=
      split_repr q.num ('.' :: (Nat.repr (q.den - 1)).toList)
    have hreadSign := Json.readSign_append false (hsign.imp_right Or.inl)
      (Json.not_sign_of_whole (u := '.' :: (Nat.repr (q.den - 1)).toList) hwhole)
    have hreadWhole := Json.readWhole_append hwhole
      (Json.noDigit_cons (by decide : '.'.isDigit = false) (Nat.repr (q.den - 1)).toList)
    have hden : q.den - 1 + 1 = q.den := Nat.sub_add_cancel q.pos
    unfold readRatio
    simp only [toList_reprFloat, htext, hreadSign, hreadWhole, hint, Json.natOf_repr, hden,
      Rat.mkRat_self]
  nan := rfl
  posInf := rfl
  negInf := rfl

def readableEnv : Env :=
  { exportEnv with floatRepr := reprFloat }

def readableRun (requests : List Api.Request) : List (Served Api.Http Db Json) × Db × Disk :=
  diskMachine.simulateRun (diskAnswers none) (Api.serve readableEnv) (requests.map http) 1 Db.empty
    blank

theorem readableRun_spec (requests : List Api.Request) :
    diskMachine.Run (Api.serve readableEnv) Db.empty blank (readableRun requests).1
      (readableRun requests).2.1 (readableRun requests).2.2 :=
  Machine.run_of_simulateRun _ _ _ _ _

def contentOf : Api.Request → Option (List (String × Json))
  | .createSubmission _ _ content => some content
  | _ => none

/-- A dictionary is the reading of a text. -/
theorem parsed_of_keyed {request : Api.Request}
    (h : ∀ content ∈ contentOf request, Json.keyed (.obj content) = true) :
    Export.Parsed readRatio request := by
  rintro taskId expertId content rfl
  exact ⟨_, Json.loads_dumpsIndent floatsRead (h content rfl)⟩

theorem parsed_firstExport :
    ∀ e ∈ (readableRun firstExport).1, Export.Parsed readRatio e.request.request := by
  have hkeyed : ∀ e ∈ (readableRun firstExport).1, ∀ content ∈ contentOf e.request.request,
      Json.keyed (.obj content) = true := by
    decide +kernel
  exact fun e he ↦ parsed_of_keyed (hkeyed e he)

end Development

open Development

theorem Export.readable_of_run_firstExport :
    (readableRun firstExport).2.1.exportBatches.rows.map ExportBatch.status = [.released] ∧
      ∀ b ∈ (readableRun firstExport).2.1.exportBatches, b.status = .released →
        Opened readableEnv readRatio blank (readableRun firstExport).1 b :=
  ⟨by decide +kernel, readable_of_run floatsRead (readableRun_spec firstExport) parsed_firstExport⟩

end HumanDataFactory
