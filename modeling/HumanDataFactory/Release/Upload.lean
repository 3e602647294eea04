import HumanDataFactory.Release.Disk

/-!
# Releases that fail half way

What the object store holds under the prefix of a batch while its release is
tried again and again.  The local directory keeps what failed attempts left
there, and the first upload of the next attempt takes an old manifest along.
-/

namespace HumanDataFactory

open Transact

namespace Export

variable (env : Env) (batchId : String)

/-- One attempt to release a batch. -/
def attempt (approvedBy : String) : Tx ExportBatch := do
  let batch ← Api.getExportBatch batchId
  approveAndMaterialize env batch approvedBy

def localFile (w : Disk) (name : String) : Option String :=
  w.file (directory env batchId ++ "/" ++ name)

def remoteFile (w : Disk) (name : String) : Option String :=
  w.object env.exportS3Bucket s!"{env.exportS3Prefix}/{batchId}/{name}"

/-- `text` is a manifest with this `files` map. -/
def Lists (text : String) (files : List (String × Json)) : Prop :=
  ∃ manifest, text = Json.dumpsIndent env.floatRepr 0 (.obj manifest) ∧
    Json.lookup manifest "files" = some (.obj files)

/-- A file with the listed digest. -/
def Holds (content : Option String) (digest : Json) : Prop :=
  ∃ text, content = some text ∧ digest = .str (env.sha256 text)

/-- If the store has a manifest for the batch, then it has every file the
manifest lists, with the listed digest. -/
def Complete (w : Disk) : Prop :=
  ∀ text, remoteFile env batchId w "manifest.json" = some text →
    ∃ files, Lists env text files ∧
      ∀ f ∈ files, Holds env (remoteFile env batchId w f.1) f.2

/-- What may happen between two attempts: anything in the database, and
anything outside but in the directory and under the prefix of the batch. -/
def Elsewhere (_ : Db) (w : Disk) (_ : Db) (w' : Disk) : Prop :=
  ∀ name, localFile env batchId w' name = localFile env batchId w name ∧
    remoteFile env batchId w' name = remoteFile env batchId w name

/-- An attempt that gets past its checks is about to write these data files, of
the rows that are approved now. -/
def Ships (approvedBy : String) (s : Db) (data : List (String × String)) : Prop :=
  ∃ batch project records, s.exportBatches.find? batchId = some batch ∧
    batch.status = .pendingApproval ∧ batch.requestedBy ≠ approvedBy ∧
    s.projects.find? batch.projectId = some project ∧
    formatRecords project.taskType (approvedRows env s project) = .ok records ∧
    data = dataFiles env project.taskType records

/-- Whatever the local manifest lists is `data`. -/
def Expected (data : List (String × String)) (w : Disk) : Prop :=
  ∀ text files, localFile env batchId w "manifest.json" = some text → Lists env text files →
    files = digests env data

/-- A manifest left behind by an earlier attempt lists the files that are about
to be written. -/
def Unsurprising (approvedBy : String) (s : Db) (w : Disk) : Prop :=
  ∀ data, Ships env batchId approvedBy s data → Expected env batchId data w

/-! ## The invariant -/

/-- The local manifest lists files that are there and uploaded, and the
uploaded manifest lists the same. -/
structure Consistent (w : Disk) : Prop where
  listed : ∀ text, localFile env batchId w "manifest.json" = some text →
    ∃ files, Lists env text files ∧
      (∀ f ∈ files, Holds env (localFile env batchId w f.1) f.2 ∧
        Holds env (remoteFile env batchId w f.1) f.2) ∧
      ∀ text', remoteFile env batchId w "manifest.json" = some text' → Lists env text' files
  kept : ∀ text', remoteFile env batchId w "manifest.json" = some text' →
    ∃ text, localFile env batchId w "manifest.json" = some text

variable {env batchId} {w w' : Disk}

theorem Consistent.complete (h : Consistent env batchId w) : Complete env batchId w := by
  intro text' hremote
  obtain ⟨text, hlocal⟩ := h.kept text' hremote
  obtain ⟨files, _, hfiles, hsame⟩ := h.listed text hlocal
  exact ⟨files, hsame text' hremote, fun f hf ↦ (hfiles f hf).2⟩

theorem Consistent.congr (h : Consistent env batchId w)
    (hlocal : ∀ name, localFile env batchId w' name = localFile env batchId w name)
    (hremote : ∀ name, remoteFile env batchId w' name = remoteFile env batchId w name) :
    Consistent env batchId w' := by
  constructor
  · simpa only [hlocal, hremote] using h.listed
  · simpa only [hlocal, hremote] using h.kept

theorem consistent_of_new (hlocal : localFile env batchId w "manifest.json" = none)
    (hremote : remoteFile env batchId w "manifest.json" = none) : Consistent env batchId w := by
  constructor
  · intro text htext
    rw [hlocal] at htext
    cases htext
  · intro text htext
    rw [hremote] at htext
    cases htext

theorem key_inj {name other : String}
    (h : s!"{env.exportS3Prefix}/{batchId}/{name}" = s!"{env.exportS3Prefix}/{batchId}/{other}") :
    name = other := by
  have hpath : env.exportS3Prefix ++ "/" ++ batchId ++ "/" ++ name =
      env.exportS3Prefix ++ "/" ++ batchId ++ "/" ++ other := h
  exact Disk.path_inj hpath

@[simp] theorem localFile_write_self (name text : String) :
    localFile env batchId (w.write (directory env batchId ++ "/" ++ name) text) name = some text :=
  Disk.file_write_self _ _ _

theorem localFile_write_ne {name name' : String} (h : name' ≠ name) (text : String) :
    localFile env batchId (w.write (directory env batchId ++ "/" ++ name) text) name' =
      localFile env batchId w name' :=
  Disk.file_write_ne _ (fun heq ↦ h (Disk.path_inj heq)) _

@[simp] theorem remoteFile_write (path text name : String) :
    remoteFile env batchId (w.write path text) name = remoteFile env batchId w name := rfl

@[simp] theorem localFile_upload (bucket key text name : String) :
    localFile env batchId (w.upload bucket key text) name = localFile env batchId w name := rfl

@[simp] theorem remoteFile_upload_self (name text : String) :
    remoteFile env batchId
      (w.upload env.exportS3Bucket s!"{env.exportS3Prefix}/{batchId}/{name}" text) name =
        some text :=
  Disk.object_upload_self _ _ _ _

theorem remoteFile_upload_ne {name name' : String} (h : name' ≠ name) (text : String) :
    remoteFile env batchId
      (w.upload env.exportS3Bucket s!"{env.exportS3Prefix}/{batchId}/{name}" text) name' =
        remoteFile env batchId w name' :=
  Disk.object_upload_ne _ (fun heq ↦ h (key_inj heq)) _ _

section Steps

variable {data : List (String × String)}

theorem Named.holds_digest (hdata : Named data) {f : String × Json} {text : String}
    (hf : f ∈ digests env data) (htext : (f.1, text) ∈ data) : Holds env (some text) f.2 := by
  obtain ⟨g, hg, rfl⟩ := List.mem_map.mp hf
  have hsame : g = (g.1, text) := List.inj_on_of_nodup_map hdata.nodup hg htext rfl
  have hcontent : g.2 = text := congrArg Prod.snd hsame
  exact ⟨g.2, by rw [hcontent], rfl⟩

/-- Writing a data file over one with the digest it has. -/
theorem Consistent.write (h : Consistent env batchId w) (hnew : Expected env batchId data w)
    (hdata : Named data) {f : String × String} (hf : f ∈ data) :
    Consistent env batchId (w.write (directory env batchId ++ "/" ++ f.1) f.2) ∧
      Expected env batchId data (w.write (directory env batchId ++ "/" ++ f.1) f.2) := by
  have hname : "manifest.json" ≠ f.1 := (hdata.ne_manifest f hf).symm
  have hlocal : localFile env batchId (w.write (directory env batchId ++ "/" ++ f.1) f.2)
      "manifest.json" = localFile env batchId w "manifest.json" := localFile_write_ne hname f.2
  refine ⟨⟨fun text htext ↦ ?_, fun text' htext' ↦ ?_⟩, fun text files htext ↦ ?_⟩
  · rw [hlocal] at htext
    obtain ⟨files, hlists, hfiles, hsame⟩ := h.listed text htext
    refine ⟨files, hlists, fun g hg ↦ ⟨?_, (hfiles g hg).2⟩, hsame⟩
    by_cases hgf : g.1 = f.1
    · rw [hgf, localFile_write_self]
      rw [hnew text files htext hlists] at hg
      exact hdata.holds_digest hg (hgf ▸ hf)
    · rw [localFile_write_ne hgf]
      exact (hfiles g hg).1
  · rw [hlocal]
    exact h.kept text' htext'
  · rw [hlocal] at htext
    exact hnew text files htext

/-- Uploading any file of the directory. -/
theorem Consistent.upload (h : Consistent env batchId w) {name text : String}
    (htext : localFile env batchId w name = some text) :
    Consistent env batchId
      (w.upload env.exportS3Bucket s!"{env.exportS3Prefix}/{batchId}/{name}" text) := by
  constructor
  · intro text₁ htext₁
    obtain ⟨files, hlists, hfiles, hsame⟩ := h.listed text₁ htext₁
    refine ⟨files, hlists, fun f hf ↦ ⟨(hfiles f hf).1, ?_⟩, fun text' htext' ↦ ?_⟩
    · by_cases hfn : f.1 = name
      · rw [hfn, remoteFile_upload_self, ← htext, ← hfn]
        exact (hfiles f hf).1
      · rw [remoteFile_upload_ne hfn]
        exact (hfiles f hf).2
    · by_cases hname : "manifest.json" = name
      · subst hname
        rw [remoteFile_upload_self] at htext'
        have hsametext : text₁ = text := Option.some.inj (htext₁.symm.trans htext)
        rw [← Option.some.inj htext', ← hsametext]
        exact hlists
      · rw [remoteFile_upload_ne hname] at htext'
        exact hsame text' htext'
  · intro text' htext'
    by_cases hname : "manifest.json" = name
    · subst hname
      exact ⟨text, htext⟩
    · rw [remoteFile_upload_ne hname] at htext'
      exact h.kept text' htext'

/-- Writing the manifest of data files that are all uploaded. -/
theorem Consistent.writeManifest (h : Consistent env batchId w)
    (hnew : Expected env batchId data w) (hdata : Named data)
    (hlocal : ∀ f ∈ data, localFile env batchId w f.1 = some f.2)
    (hremote : ∀ f ∈ data, remoteFile env batchId w f.1 = some f.2)
    {text : String} (htext : Lists env text (digests env data)) :
    Consistent env batchId (w.write (directory env batchId ++ "/" ++ "manifest.json") text) := by
  constructor
  · intro text₁ htext₁
    rw [localFile_write_self] at htext₁
    obtain rfl := Option.some.inj htext₁
    refine ⟨digests env data, htext, fun f hf ↦ ?_, fun text' htext' ↦ ?_⟩
    · obtain ⟨g, hg, rfl⟩ := List.mem_map.mp hf
      have hname : g.1 ≠ "manifest.json" := hdata.ne_manifest g hg
      refine ⟨?_, ⟨g.2, hremote g hg, rfl⟩⟩
      rw [localFile_write_ne hname]
      exact ⟨g.2, hlocal g hg, rfl⟩
    · obtain ⟨old, hold⟩ := h.kept text' htext'
      obtain ⟨files, hlists, _, hsame⟩ := h.listed old hold
      rw [← hnew old files hold hlists]
      exact hsame text' htext'
  · intro text' _
    exact ⟨text, localFile_write_self _ _⟩

theorem Consistent.writeAll (hdata : Named data) {files : List (String × String)}
    (hfiles : files ⊆ data) (h : Consistent env batchId w) (hnew : Expected env batchId data w) :
    Consistent env batchId (writeAll (directory env batchId) files w) ∧
      Expected env batchId data (Export.writeAll (directory env batchId) files w) := by
  induction files generalizing w with
  | nil => exact ⟨h, hnew⟩
  | cons f files ih =>
      have hone := h.write hnew hdata (hfiles List.mem_cons_self)
      exact ih (fun g hg ↦ hfiles (List.mem_cons_of_mem _ hg)) hone.1 hone.2

/-- The local files, each uploaded as it is. -/
theorem Consistent.uploadAll (h : Consistent env batchId w) {only : Option (List String)}
    {s : Db} {Q : List (String × Json) → Db → Disk → Prop}
    (hQ : ∀ w' keys, Consistent env batchId w' → w'.files = w.files →
      (∀ name text, localFile env batchId w name = some text → '/' ∉ name.toList →
        (∀ names ∈ only, name ∈ names) → remoteFile env batchId w' name = some text) →
      Q keys s w') :
    diskMachine.Along (Consistent env batchId)
      (uploadBatch env (directory env batchId) batchId only) s w Q := by
  refine along_uploadBatch (J := fun done w' ↦ Consistent env batchId w' ∧ w'.files = w.files ∧
    ∀ name ∈ done, ∀ text, localFile env batchId w name = some text →
      remoteFile env batchId w' name = some text) (fun _ _ hJ ↦ hJ.1) ?_ ⟨h, rfl, by simp⟩ ?_
  · rintro done w' name text ⟨hw', hfiles, hdone⟩ _ _ htext
    refine ⟨hw'.upload htext, hfiles, fun name' hname' text' htext' ↦ ?_⟩
    by_cases heq : name' = name
    · subst heq
      have hsame : localFile env batchId w name' = some text := by
        rw [← htext, localFile, Disk.file, ← hfiles]
        rfl
      rw [remoteFile_upload_self, ← hsame, htext']
    · rw [remoteFile_upload_ne heq]
      exact hdone name' ((List.mem_cons.mp hname').resolve_left heq) text' htext'
  · rintro done w' keys hnames ⟨hw', hfiles, hdone⟩
    refine hQ w' keys hw' hfiles fun name text htext hslash honly ↦ ?_
    exact hdone name ((hnames name).mpr ⟨Disk.mem_names.mpr ⟨⟨text, htext⟩, hslash⟩, honly⟩) text
      htext

theorem Consistent.storeFiles (h : Consistent env batchId w) (hstored : stored env)
    (hnew : Expected env batchId data w) (hdata : Named data)
    (hlocal : ∀ f ∈ data, localFile env batchId w f.1 = some f.2)
    {manifest : List (String × Json)}
    (hmanifest : Json.lookup manifest "files" = some (.obj (digests env data))) {s : Db}
    {Q : List (String × Json) → Db → Disk → Prop}
    (hQ : ∀ manifest' w', Consistent env batchId w' → Q manifest' s w') :
    diskMachine.Along (Consistent env batchId)
      (Export.storeFiles env (directory env batchId) batchId manifest) s w Q := by
  unfold Export.storeFiles
  rw [if_pos hstored, Machine.along_bind]
  refine h.uploadAll fun w₁ keys hw₁ hfiles hremote ↦ ?_
  have hsame (name : String) : localFile env batchId w₁ name = localFile env batchId w name := by
    rw [localFile, Disk.file, hfiles]
    rfl
  have hlists : Lists env (Json.dumpsIndent env.floatRepr 0
      (.obj (Json.insert manifest "storage" (storageBlock env keys)))) (digests env data) := by
    refine ⟨_, rfl, ?_⟩
    rw [Json.lookup_insert, if_neg (by decide), hmanifest]
  have hnew₁ : Expected env batchId data w₁ :=
    fun text files htext ↦ hnew text files (hsame _ ▸ htext)
  have hw₂ := hw₁.writeManifest hnew₁ hdata
    (fun f hf ↦ (hsame f.1).trans (hlocal f hf))
    (fun f hf ↦ hremote f.1 f.2 (hlocal f hf) (hdata.no_slash f hf) (by simp)) hlists
  rw [Machine.along_bind]
  refine along_writeManifest hw₁ hw₂ ?_
  rw [Machine.along_bind]
  exact hw₂.uploadAll fun w' _ hw' _ _ ↦ ⟨hw', hQ _ w' hw'⟩

end Steps

theorem lookup_files_merge (old : List (String × Json)) (batch : ExportBatch) (project : Project)
    (firm : Firm) (recordCount : ℕ) (files : List (String × Json))
    (chainHead generatedAt approvedBy : String) :
    Json.lookup (merge old (manifestEntries batch project firm recordCount files chainHead
      generatedAt approvedBy)) "files" = some (.obj files) := by
  simp [merge, manifestEntries, Json.lookup_insert]

/-- Every moment of an attempt that finds nothing unexpected. -/
theorem Consistent.attempt (hstored : stored env) {s : Db} (h : Consistent env batchId w)
    {approvedBy : String} (hexpected : Unsurprising env batchId approvedBy s w) :
    diskMachine.Along (Consistent env batchId) (attempt env batchId approvedBy) s w
      fun _ _ _ ↦ True := by
  unfold Export.attempt
  refine Machine.along_getSome_bind h fun batch hbatch ↦ ?_
  obtain rfl : batch.id = batchId := (Table.find?_eq_some.mp hbatch).2
  unfold approveAndMaterialize
  refine Machine.along_ensure_bind h fun hpending ↦ ?_
  refine Machine.along_ensure_bind h fun hdual ↦ ?_
  rw [Machine.along_select_bind]
  refine Machine.along_getSome_bind h fun project hproject ↦ ?_
  rw [Machine.along_select_bind]
  refine Machine.along_ofExcept_bind h fun records hrecords ↦ ?_
  have hdata := named_dataFiles env project.taskType records
  have hnew : Expected env batch.id (dataFiles env project.taskType records) w :=
    hexpected _ ⟨batch, project, records, hbatch, hpending, hdual, hproject, hrecords, rfl⟩
  refine ⟨h, fun made w₁ hw₁ ↦ ?_⟩
  obtain rfl := Option.some.inj hw₁
  refine along_returned_bind h fun _ _ ↦ ?_
  rw [Machine.along_bind]
  refine along_writeFiles (fun files hfiles ↦ (Consistent.writeAll hdata hfiles.subset h hnew).1) ?_
  obtain ⟨hw, hexp⟩ := Consistent.writeAll hdata (List.Subset.refl _) h hnew
  rw [Machine.along_select_bind]
  refine Machine.along_getSome_bind hw fun firm _ ↦ ?_
  rw [Machine.along_select_bind]
  refine ⟨hw, fun now w₁ hw₁ ↦ ?_⟩
  obtain rfl := Option.some.inj hw₁
  refine Machine.along_ofExcept_bind hw fun old _ ↦ ?_
  rw [Machine.along_bind]
  refine hw.storeFiles hstored hexp hdata (fun f hf ↦ hdata.file_writeAll hf)
    (lookup_files_merge _ _ _ _ _ _ _ _ _) fun manifest w₁ hw₁ ↦ ?_
  refine Machine.along_ofExcept_bind hw₁ fun backend _ ↦ ?_
  rw [Machine.along_emit_bind]
  refine ⟨hw₁, fun s₁ _ ↦ ?_⟩
  rw [Machine.along_bind]
  have hseq (n : ℕ) : Consistent env batch.id { w₁ with seq := n } :=
    hw₁.congr (fun _ ↦ rfl) fun _ ↦ rfl
  exact along_record hseq fun _ _ n ↦ ⟨hseq n, trivial⟩

end Export

/-- While no attempt meets a manifest that lists other files than the ones it
is about to write, a manifest in the store always finds its files there. -/
theorem Export.complete_of_attempts {env : Env} (hstored : stored env) {batchId : String} {s : Db}
    {w : Disk} (hlocal : localFile env batchId w "manifest.json" = none)
    (hremote : remoteFile env batchId w "manifest.json" = none) {v : Disk}
    (h : diskMachine.Occurs (attempt env batchId) (Elsewhere env batchId)
      (Unsurprising env batchId) s w v) : Complete env batchId v := by
  refine Consistent.complete (h.invariant (consistent_of_new hlocal hremote) ?_ ?_)
  · intro s w s' w' hw hbetween
    exact hw.congr (fun name ↦ (hbetween name).1) fun name ↦ (hbetween name).2
  · intro approvedBy s w hw hexpected
    exact hw.attempt hstored hexpected

namespace Development

/-- The digests SHA-256 gives the two data files below, told apart by their
lengths. -/
def uploadEnv : Env :=
  { env with
    sha256 := fun text ↦ if text.utf8ByteSize = 195
      then "dbcd8e047ffa75daf238bd82bc93e142abc61d9c75b0367c73916372a79d11ec"
      else "6abbc8d4cded39672f6d6e015168b16dd07d8d0b0a753ebd5656c85eab7807cf"
    floatRepr := reprFloat
    exportS3Bucket := "releases"
    exportS3Prefix := "exports" }

def dockProject : Project :=
  { deskProject with taskType := .eval }

def firstTask : Task :=
  { deskTask with prompt := "2 + 2?" }

def secondTask : Task :=
  { deskTask with id := "task-2", prompt := "2 + 3?", createdAt := 1 }

def firstSubmitted : Submission :=
  { deskSubmission with content := .obj [("answer", .str "4")], status := .approved }

def secondSubmitted (status : SubmissionStatus) : Submission :=
  { deskSubmission with
    id := "submission-2"
    taskId := "task-2"
    content := .obj [("answer", .str "5")]
    status := status }

def dockBatch : ExportBatch :=
  ⟨"batch", "project", "ops", none, none, .obj [], .pendingApproval⟩

/-- A batch in front of its release, with one approved submission and another
of this status. -/
def dock (second : SubmissionStatus) : Db :=
  { desk with
    projects := .push .empty dockProject
    tasks := .push (.push .empty firstTask) secondTask
    submissions := .push (.push .empty firstSubmitted) (secondSubmitted second)
    exportBatches := .push .empty dockBatch }

def releaseAttempt : Tx ExportBatch :=
  Export.attempt uploadEnv "batch" "lead"

/-- The data file with this row only, or with the other one too. -/
def dataFile (second : SubmissionStatus) : String :=
  match Export.formatRecords .eval (Export.approvedRows uploadEnv (dock second) dockProject) with
  | .ok records => Export.jsonl uploadEnv records
  | .error _ => ""

/-- The manifest of the first attempt. -/
def leftManifest : List (String × Json) :=
  Json.insert
    (Export.merge [] (Export.manifestEntries dockBatch dockProject
      ⟨"firm", "Alder", "ap@alder.example.com", .external, "usd", "", none⟩ 1
      (Export.digests uploadEnv [("eval.jsonl", dataFile .humanReview)]) Audit.GENESIS "3" "lead"))
    "storage" (Export.storageBlock uploadEnv [("eval.jsonl", .str "exports/batch/eval.jsonl")])

def leftText : String :=
  Json.dumpsIndent reprFloat 0 (.obj leftManifest)

/-- What is left when the upload of the manifest failed. -/
def firstFailure : Disk :=
  ((blank.write "exports/batch/eval.jsonl" (dataFile .humanReview)).upload
    "releases" "exports/batch/eval.jsonl" (dataFile .humanReview)).write
    "exports/batch/manifest.json" leftText

set_option maxRecDepth 20000 in
theorem raises_first :
    diskMachine.Raises releaseAttempt (dock .humanReview) blank firstFailure := by
  have hsim : diskMachine.simulateFailure (diskAnswers (some 8)) releaseAttempt 0
      (dock .humanReview) blank = some (9, firstFailure) := by
    rfl
  exact Machine.raises_of_simulateFailure hsim

set_option maxRecDepth 20000 in
/-- With the second submission approved, another attempt fails where the first
one did. -/
theorem raises_second : ∃ w, diskMachine.Raises releaseAttempt (dock .approved) firstFailure w ∧
    Export.remoteFile uploadEnv "batch" w "manifest.json" = some leftText ∧
    Export.remoteFile uploadEnv "batch" w "eval.jsonl" = some (dataFile .approved) := by
  have hsim : (diskMachine.simulateFailure (diskAnswers (some 9)) releaseAttempt 0
      (dock .approved) firstFailure).isSome = true := by
    rfl
  obtain ⟨⟨n, w⟩, hw⟩ := Option.isSome_iff_exists.mp hsim
  refine ⟨w, Machine.raises_of_simulateFailure hw, ?_⟩
  have hmanifest : ((diskMachine.simulateFailure (diskAnswers (some 9)) releaseAttempt 0
      (dock .approved) firstFailure).bind fun r ↦
        Export.remoteFile uploadEnv "batch" r.2 "manifest.json") = some leftText := by
    rfl
  have heval : ((diskMachine.simulateFailure (diskAnswers (some 9)) releaseAttempt 0
      (dock .approved) firstFailure).bind fun r ↦
        Export.remoteFile uploadEnv "batch" r.2 "eval.jsonl") = some (dataFile .approved) := by
    rfl
  rw [hw] at hmanifest heval
  exact ⟨hmanifest, heval⟩

set_option maxRecDepth 20000 in
/-- With nothing new approved, the next attempt gets through. -/
theorem exec_retry : ∃ batch s w,
    diskMachine.Exec releaseAttempt (dock .humanReview) firstFailure batch s w ∧
      (Export.remoteFile uploadEnv "batch" w "manifest.json").isSome = true := by
  have hsim : (diskMachine.simulate (diskAnswers none) releaseAttempt 0 (dock .humanReview)
      firstFailure).isSome = true := by
    rfl
  obtain ⟨⟨batch, n, s, w⟩, hw⟩ := Option.isSome_iff_exists.mp hsim
  refine ⟨batch, s, w, Machine.exec_of_simulate hw, ?_⟩
  have hmanifest : ((diskMachine.simulate (diskAnswers none) releaseAttempt 0 (dock .humanReview)
      firstFailure).bind fun r ↦
        Export.remoteFile uploadEnv "batch" r.2.2.2 "manifest.json").isSome = true := by
    rfl
  rw [hw] at hmanifest
  exact hmanifest

theorem lists_leftText {files : List (String × Json)}
    (h : Export.Lists uploadEnv leftText files) :
    files = Export.digests uploadEnv [("eval.jsonl", dataFile .humanReview)] := by
  obtain ⟨manifest, htext, hfiles⟩ := h
  have hsame : Json.obj leftManifest = .obj manifest :=
    Json.dumpsIndent_injective reprFloat reprFloat_notation 0 htext
  have hleft : Json.lookup leftManifest "files" =
      some (.obj (Export.digests uploadEnv [("eval.jsonl", dataFile .humanReview)])) := by
    rw [leftManifest, Json.lookup_insert, if_neg (by decide), Export.lookup_files_merge]
  rw [← Json.obj.inj hsame, hleft] at hfiles
  exact (Json.obj.inj (Option.some.inj hfiles)).symm

theorem ships_dock {approvedBy : String} {second : SubmissionStatus}
    {data : List (String × String)}
    (h : Export.Ships uploadEnv "batch" approvedBy (dock second) data) :
    data = [("eval.jsonl", dataFile second)] := by
  obtain ⟨batch, project, records, hbatch, _, _, hproject, hrecords, rfl⟩ := h
  obtain rfl : dockBatch = batch := Option.some.inj hbatch
  obtain rfl : dockProject = project := Option.some.inj hproject
  have hfile : dataFile second = Export.jsonl uploadEnv records := by
    have hrecords : Export.formatRecords .eval
        (Export.approvedRows uploadEnv (dock second) dockProject) = .ok records := hrecords
    simp only [dataFile, hrecords]
  rw [hfile]
  rfl

end Development

open Development

theorem Export.complete_of_attempts_retried :
    ∃ w, (remoteFile uploadEnv "batch" w "manifest.json").isSome = true ∧
      Complete uploadEnv "batch" w := by
  obtain ⟨batch, s, w, hw, hmanifest⟩ := exec_retry
  have hfirst : Unsurprising uploadEnv "batch" "lead" (dock .humanReview) blank := by
    intro data _ text files htext
    cases htext
  have hagain : Unsurprising uploadEnv "batch" "lead" (dock .humanReview) firstFailure := by
    intro data hdata text files htext hlists
    obtain rfl : leftText = text := Option.some.inj htext
    rw [ships_dock hdata]
    exact lists_leftText hlists
  have hattempts : diskMachine.Attempts (attempt uploadEnv "batch") (Elsewhere uploadEnv "batch")
      (Unsurprising uploadEnv "batch") (dock .humanReview) blank (dock .humanReview)
      blank := .start
  exact ⟨w, hmanifest, complete_of_attempts (by decide) rfl rfl
    (.before (.ok (r := "lead") (.failed (r := "lead") hattempts hfirst raises_first) hagain hw))⟩

/-- After two failed attempts the store has the manifest of the first and the
data file of the second. -/
theorem Export.stale_manifest :
    stored uploadEnv ∧ localFile uploadEnv "batch" blank "manifest.json" = none ∧
      remoteFile uploadEnv "batch" blank "manifest.json" = none ∧
      ∃ w, diskMachine.Occurs (attempt uploadEnv "batch") (Elsewhere uploadEnv "batch")
        (fun _ _ _ ↦ True) (dock .humanReview) blank w ∧ ¬Complete uploadEnv "batch" w := by
  refine ⟨by decide, rfl, rfl, ?_⟩
  obtain ⟨w, hw, hmanifest, heval⟩ := raises_second
  refine ⟨w, .before (.failed (r := "lead") (.between (.failed (r := "lead") .start trivial
    raises_first) fun _ ↦ ⟨rfl, rfl⟩) trivial hw), fun hcomplete ↦ ?_⟩
  obtain ⟨files, hlists, hfiles⟩ := hcomplete leftText hmanifest
  rw [lists_leftText hlists] at hfiles
  obtain ⟨text, htext, hdigest⟩ := hfiles _ List.mem_cons_self
  rw [heval] at htext
  obtain rfl := Option.some.inj htext
  have hne : uploadEnv.sha256 (dataFile .humanReview) ≠ uploadEnv.sha256 (dataFile .approved) := by
    decide +kernel
  exact hne (Json.str.inj hdigest)

end HumanDataFactory
