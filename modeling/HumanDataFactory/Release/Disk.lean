import HumanDataFactory.Development
import HumanDataFactory.Transact.Moments
import Mathlib.Data.List.Dedup

/-!
# The file system and the object store

A world that knows more than the sequence of the audit table: what the local
files and the uploaded objects hold.  A call that raised left both as they
were.  The lemmas say what each step of an export does to this world, for any
condition on the world that is to hold at every moment.
-/

namespace HumanDataFactory

open Transact

/-- What was written and uploaded, the latest first. -/
structure Disk where
  seq : ℕ
  /-- Texts by path. -/
  files : List (String × String)
  /-- Texts by bucket and key. -/
  objects : List ((String × String) × String)
  deriving DecidableEq

namespace Disk

def write (w : Disk) (path text : String) : Disk :=
  { w with files := (path, text) :: w.files }

def upload (w : Disk) (bucket key text : String) : Disk :=
  { w with objects := ((bucket, key), text) :: w.objects }

def file (w : Disk) (path : String) : Option String :=
  w.files.lookup path

def object (w : Disk) (bucket key : String) : Option String :=
  w.objects.lookup (bucket, key)

@[simp] theorem file_write_self (w : Disk) (path text : String) :
    (w.write path text).file path = some text := by
  simp [file, write]

theorem file_write_ne (w : Disk) {path path' : String} (h : path' ≠ path) (text : String) :
    (w.write path text).file path' = w.file path' := by
  have hne : (path' == path) = false := beq_false_of_ne h
  simp [file, write, List.lookup_cons, hne]

@[simp] theorem object_write (w : Disk) (path text bucket key : String) :
    (w.write path text).object bucket key = w.object bucket key := rfl

@[simp] theorem file_upload (w : Disk) (bucket key text path : String) :
    (w.upload bucket key text).file path = w.file path := rfl

@[simp] theorem object_upload_self (w : Disk) (bucket key text : String) :
    (w.upload bucket key text).object bucket key = some text := by
  simp [object, upload]

theorem object_upload_ne (w : Disk) {key key' : String} (h : key' ≠ key) (bucket text : String) :
    (w.upload bucket key text).object bucket key' = w.object bucket key' := by
  have hne : ((bucket, key') == (bucket, key)) = false := beq_false_of_ne (by simpa using h)
  simp [object, upload, List.lookup_cons, hne]

/-! ## Directories -/

theorem path_inj {base name name' : String} (h : base ++ "/" ++ name = base ++ "/" ++ name') :
    name = name' := by
  have htext := congrArg String.toList h
  simp only [String.toList_append, List.append_cancel_left_eq] at htext
  exact String.toList_inj.mp htext

/-- The name of a file that lies directly in `base`. -/
def nameIn (base path : String) : Option String :=
  let rest := path.toList.drop (base.toList.length + 1)
  if path = base ++ "/" ++ String.ofList rest ∧ '/' ∉ rest then some (String.ofList rest)
  else none

theorem nameIn_eq_some {base path name : String} :
    nameIn base path = some name ↔ path = base ++ "/" ++ name ∧ '/' ∉ name.toList := by
  unfold nameIn
  constructor
  · intro h
    obtain ⟨hpath, hname⟩ := Option.ite_none_right_eq_some.mp h
    obtain rfl := Option.some.inj hname
    exact ⟨hpath.1, by simpa using hpath.2⟩
  · rintro ⟨rfl, hslash⟩
    have hrest : (base ++ "/" ++ name).toList.drop (base.toList.length + 1) = name.toList := by
      simp [String.toList_append]
    simp only [hrest, String.ofList_toList]
    exact if_pos ⟨trivial, hslash⟩

/-- The files of a directory. -/
def names (w : Disk) (base : String) : List String :=
  (w.files.map Prod.fst).dedup.filterMap (nameIn base)

theorem file_eq_some_iff {w : Disk} {path : String} :
    (∃ text, w.file path = some text) ↔ path ∈ w.files.map Prod.fst := by
  rw [← Option.ne_none_iff_exists', file, ne_eq, List.lookup_eq_none_iff]
  constructor
  · intro h
    push Not at h
    obtain ⟨f, hf, heq⟩ := h
    have hpath : path = f.1 := by simpa using heq
    exact List.mem_map.mpr ⟨f, hf, hpath.symm⟩
  · intro h hnone
    obtain ⟨f, hf, rfl⟩ := List.mem_map.mp h
    simpa using hnone f hf

theorem mem_names {w : Disk} {base name : String} :
    name ∈ w.names base ↔ (∃ text, w.file (base ++ "/" ++ name) = some text) ∧
      '/' ∉ name.toList := by
  rw [file_eq_some_iff]
  simp only [names, List.mem_filterMap, List.mem_dedup, nameIn_eq_some]
  constructor
  · rintro ⟨path, hpath, rfl, hslash⟩
    exact ⟨hpath, hslash⟩
  · rintro ⟨hpath, hslash⟩
    exact ⟨_, hpath, rfl, hslash⟩

end Disk

/-! ## Calls on the disk -/

/-- The outside world as far as it is known with a disk: what is read is what
was written, a directory lists its files in any order and anything else as no
file, an upload stores the whole file, and a call that raised did nothing. -/
def acceptOnDisk : (c : Call) → Reply c → Disk → Option Disk
  | .nextSeq, r, w => if r = w.seq then some { w with seq := w.seq + 1 } else none
  | .writeText path text, some _, w => some (w.write path text)
  | .readFile path, some text, w => if w.file path = some text then some w else none
  | .iterdir base, some entries, w =>
      if ((entries.filter Prod.snd).map Prod.fst).Perm (w.names base) then some w else none
  | .uploadFile path bucket key, some _, w => (w.file path).map (w.upload bucket key)
  | _, _, w => some w

def diskMachine : Machine Db Write Call Reply Disk where
  apply := Db.apply
  accept := acceptOnDisk

@[simp] theorem diskMachine_apply : diskMachine.apply = Db.apply := rfl

@[simp] theorem diskMachine_accept : diskMachine.accept = acceptOnDisk := rfl

/-- Knowing the disk only rules answers out. -/
theorem diskMachine_refines : diskMachine.Refines machine Disk.seq where
  apply := rfl
  accept := by
    intro c r w w' h
    simp only [diskMachine_accept, machine_accept] at h ⊢
    unfold acceptOnDisk at h
    split at h
    · obtain ⟨rfl, hw⟩ := Option.ite_none_right_eq_some.mp h
      obtain rfl := Option.some.inj hw
      simp [accept]
    · obtain rfl := Option.some.inj h
      rfl
    · obtain ⟨_, hw⟩ := Option.ite_none_right_eq_some.mp h
      obtain rfl := Option.some.inj hw
      rfl
    · obtain ⟨_, hw⟩ := Option.ite_none_right_eq_some.mp h
      obtain rfl := Option.some.inj hw
      rfl
    · obtain ⟨text, _, rfl⟩ := Option.map_eq_some_iff.mp h
      rfl
    · rename_i hseq _ _ _ _
      obtain rfl := Option.some.inj h
      cases c with
      | nextSeq => exact (hseq r rfl HEq.rfl).elim
      | _ => rfl

/-! ## The files of a release -/

namespace Export

variable (env : Env)

/-- The data files by name. -/
def dataFiles (taskType : TaskType) (records : List Json) : List (String × String) :=
  if taskType = .sft then
    [(taskType.value ++ ".jsonl", jsonl env records),
      ("chat.jsonl", jsonl env (records.map toChat))]
  else [(taskType.value ++ ".jsonl", jsonl env records)]

/-- The `files` map of a manifest. -/
def digests (files : List (String × String)) : List (String × Json) :=
  files.map fun f ↦ (f.1, .str (env.sha256 f.2))

/-- Files written into a directory, one after the other. -/
def writeAll (base : String) (files : List (String × String)) (w : Disk) : Disk :=
  files.foldl (fun w f ↦ w.write (base ++ "/" ++ f.1) f.2) w

/-- `Path(settings.exports_dir) / batch.id`. -/
def directory (batchId : String) : String := env.exportsDir ++ "/" ++ batchId

/-- Data files have names of their own. -/
structure Named (data : List (String × String)) : Prop where
  nodup : (data.map Prod.fst).Nodup
  ne_manifest : ∀ f ∈ data, f.1 ≠ "manifest.json"
  no_slash : ∀ f ∈ data, '/' ∉ f.1.toList

theorem named_dataFiles (taskType : TaskType) (records : List Json) :
    Named (dataFiles env taskType records) := by
  constructor
  · cases taskType <;> simp [dataFiles, TaskType.value]
  · cases taskType <;> simp [dataFiles, TaskType.value]
  · cases taskType <;> simp [dataFiles, TaskType.value]

variable {env} {I : Disk → Prop} {s : Db} {w : Disk}

section WriteAll

variable {data : List (String × String)} {base : String}

theorem file_writeAll_of_ne {name : String} (h : ∀ f ∈ data, f.1 ≠ name) :
    (writeAll base data w).file (base ++ "/" ++ name) = w.file (base ++ "/" ++ name) := by
  induction data generalizing w with
  | nil => rfl
  | cons g data ih =>
      have hne : name ≠ g.1 := (h g List.mem_cons_self).symm
      have hrest : ∀ f ∈ data, f.1 ≠ name := fun f hf ↦ h f (List.mem_cons_of_mem _ hf)
      exact (ih hrest).trans (Disk.file_write_ne _ (fun heq ↦ hne (Disk.path_inj heq)) _)

theorem Named.file_writeAll (hdata : Named data) {f : String × String} (hf : f ∈ data) :
    (writeAll base data w).file (base ++ "/" ++ f.1) = some f.2 := by
  have hnodup := hdata.nodup
  clear hdata
  induction data generalizing w with
  | nil => cases hf
  | cons g data ih =>
      obtain ⟨hg, hrest⟩ := List.nodup_cons.mp hnodup
      rcases List.mem_cons.mp hf with rfl | hf
      · have hne : ∀ f' ∈ data, f'.1 ≠ f.1 := fun f' hf' heq ↦
          hg (heq ▸ List.mem_map_of_mem hf')
        exact (file_writeAll_of_ne hne).trans (Disk.file_write_self _ _ _)
      · exact ih hf hrest

end WriteAll

theorem along_returned_bind {α β : Type} {o : Option α} {f : α → Tx β}
    {Q : β → Db → Disk → Prop} (hI : I w) (h : ∀ a, o = some a → diskMachine.Along I (f a) s w Q) :
    diskMachine.Along I (Session.returned o >>= f) s w Q :=
  Machine.along_getSome_bind hI h

theorem along_writeJsonl {path : String} {rows : List Json} {Q : String → Db → Disk → Prop}
    (hI : I w) (hwritten : I (w.write path (jsonl env rows)))
    (hQ : Q (env.sha256 (jsonl env rows)) s (w.write path (jsonl env rows))) :
    diskMachine.Along I (writeJsonl env path rows) s w Q := by
  unfold writeJsonl
  refine ⟨hI, fun written w₁ hw₁ ↦ ?_⟩
  cases written with
  | none =>
      obtain rfl := Option.some.inj hw₁
      exact hI
  | some done =>
      obtain rfl := Option.some.inj hw₁
      refine ⟨hwritten, fun read w₂ hw₂ ↦ ?_⟩
      cases read with
      | none =>
          obtain rfl := Option.some.inj hw₂
          exact hwritten
      | some text =>
          obtain ⟨htext, hw⟩ := Option.ite_none_right_eq_some.mp hw₂
          obtain rfl := Option.some.inj hw
          rw [Disk.file_write_self] at htext
          obtain rfl := Option.some.inj htext
          exact ⟨hwritten, hQ⟩

theorem along_writeFiles {base : String} {taskType : TaskType} {records : List Json}
    {Q : List (String × Json) → Db → Disk → Prop}
    (hI : ∀ files, files <+: dataFiles env taskType records → I (writeAll base files w))
    (hQ : Q (digests env (dataFiles env taskType records)) s
      (writeAll base (dataFiles env taskType records) w)) :
    diskMachine.Along I (writeFiles env base taskType records) s w Q := by
  have hstart : I w := hI [] List.nil_prefix
  unfold writeFiles
  by_cases hsft : taskType = .sft
  · have hfiles : dataFiles env taskType records =
        [(taskType.value ++ ".jsonl", jsonl env records),
          ("chat.jsonl", jsonl env (records.map toChat))] := if_pos hsft
    rw [hfiles] at hI hQ
    have hchat : base ++ "/chat.jsonl" = base ++ "/" ++ "chat.jsonl" := by
      rw [String.append_assoc]
      rfl
    have hmain : I (w.write (base ++ "/" ++ (taskType.value ++ ".jsonl")) (jsonl env records)) :=
      hI [_] ⟨_, rfl⟩
    rw [Machine.along_bind]
    refine along_writeJsonl hstart hmain ?_
    rw [if_pos hsft, Machine.along_bind, hchat]
    exact along_writeJsonl hmain (hI _ List.prefix_rfl) ⟨hI _ List.prefix_rfl, hQ⟩
  · have hfiles : dataFiles env taskType records =
        [(taskType.value ++ ".jsonl", jsonl env records)] := if_neg hsft
    rw [hfiles] at hI hQ
    rw [Machine.along_bind]
    refine along_writeJsonl hstart (hI _ List.prefix_rfl) ?_
    rw [if_neg hsft]
    exact ⟨hI _ List.prefix_rfl, hQ⟩

/-- The files an upload asks for, among the entries of a directory. -/
def wanted (only : Option (List String)) (entries : List (String × Bool)) : List String :=
  (entries.filter fun e ↦ e.2 && !decide (∃ names ∈ only, e.1 ∉ names)).map Prod.fst

theorem mem_wanted {only : Option (List String)} {entries : List (String × Bool)} {name : String} :
    name ∈ wanted only entries ↔ (name, true) ∈ entries ∧ ∀ names ∈ only, name ∈ names := by
  simp [wanted]

/-- The upload loop, with an invariant `J` of the names uploaded so far. -/
theorem along_uploadFiles {base batchId : String} {only : Option (List String)}
    {J : List String → Disk → Prop} (hJ : ∀ done w, J done w → I w)
    {entries : List (String × Bool)}
    (hstep : ∀ done w name text, J done w → name ∈ wanted only entries →
      w.file (base ++ "/" ++ name) = some text →
      J (name :: done) (w.upload env.exportS3Bucket s!"{env.exportS3Prefix}/{batchId}/{name}" text))
    {done : List String} (hdone : J done w) {Q : List (String × Json) → Db → Disk → Prop}
    (hQ : ∀ done' w' keys, (∀ name, name ∈ done' ↔ name ∈ done ∨ name ∈ wanted only entries) →
      J done' w' → Q keys s w') :
    diskMachine.Along I (uploadFiles env base batchId only entries) s w Q := by
  induction entries generalizing w done Q with
  | nil => exact ⟨hJ _ _ hdone, hQ done w [] (by simp [wanted]) hdone⟩
  | cons e entries ih =>
      obtain ⟨name, isFile⟩ := e
      have hrest : ∀ done w other text, J done w → other ∈ wanted only entries →
          w.file (base ++ "/" ++ other) = some text →
          J (other :: done)
            (w.upload env.exportS3Bucket s!"{env.exportS3Prefix}/{batchId}/{other}" text) := by
        intro done w other text hd hother
        refine hstep done w other text hd ?_
        rw [mem_wanted] at hother ⊢
        exact ⟨List.mem_cons_of_mem _ hother.1, hother.2⟩
      unfold uploadFiles
      split
      · rename_i hskip
        have hsame : wanted only ((name, isFile) :: entries) = wanted only entries := by
          have hout : (isFile && !decide (∃ names ∈ only, name ∉ names)) = false := by
            rcases hskip with rfl | hout <;> simp_all
          simp only [wanted, List.filter_cons, hout, Bool.false_eq_true, if_false]
        rw [hsame] at hQ
        exact ih hrest hdone hQ
      · rename_i hwant
        have hmore : wanted only ((name, isFile) :: entries) = name :: wanted only entries := by
          have hin : (isFile && !decide (∃ names ∈ only, name ∉ names)) = true := by
            simpa [not_or] using hwant
          simp only [wanted, List.filter_cons, hin, if_true, List.map_cons]
        refine ⟨hJ _ _ hdone, fun reply w₁ hw₁ ↦ ?_⟩
        cases reply with
        | none =>
            obtain rfl := Option.some.inj hw₁
            exact hJ _ _ hdone
        | some uploaded =>
            obtain ⟨text, htext, rfl⟩ := Option.map_eq_some_iff.mp hw₁
            have hd := hstep done w name text hdone (by simp [hmore]) htext
            refine along_returned_bind (hJ _ _ hd) fun _ _ ↦ ?_
            rw [Machine.along_bind]
            refine ih hrest hd fun done' w' keys hdone' hd' ↦ ⟨hJ _ _ hd', ?_⟩
            refine hQ done' w' _ (fun name' ↦ ?_) hd'
            rw [hdone' name', hmore, List.mem_cons, List.mem_cons]
            tauto

/-- Uploading a directory uploads each of its files that are asked for. -/
theorem along_uploadBatch {base batchId : String} {only : Option (List String)}
    {J : List String → Disk → Prop} (hJ : ∀ done w, J done w → I w)
    (hstep : ∀ done w' name text, J done w' → name ∈ w.names base →
      (∀ names ∈ only, name ∈ names) → w'.file (base ++ "/" ++ name) = some text →
      J (name :: done)
        (w'.upload env.exportS3Bucket s!"{env.exportS3Prefix}/{batchId}/{name}" text))
    (hstart : J [] w) {Q : List (String × Json) → Db → Disk → Prop}
    (hQ : ∀ done w' keys,
      (∀ name, name ∈ done ↔ name ∈ w.names base ∧ ∀ names ∈ only, name ∈ names) →
      J done w' → Q keys s w') :
    diskMachine.Along I (uploadBatch env base batchId only) s w Q := by
  unfold uploadBatch
  refine ⟨hJ _ _ hstart, fun reply w₁ hw₁ ↦ ?_⟩
  cases reply with
  | none =>
      obtain rfl := Option.some.inj hw₁
      exact hJ _ _ hstart
  | some entries =>
      obtain ⟨hlisted, hw⟩ := Option.ite_none_right_eq_some.mp hw₁
      obtain rfl := Option.some.inj hw
      have hwanted (name : String) :
          name ∈ wanted only (entries.insertionSort fun a b ↦ a.1 ≤ b.1) ↔
            name ∈ w.names base ∧ ∀ names ∈ only, name ∈ names := by
        rw [mem_wanted, (List.perm_insertionSort _ entries).mem_iff, ← hlisted.mem_iff]
        simp
      refine along_returned_bind (hJ _ _ hstart) fun found hfound ↦ ?_
      obtain rfl := Option.some.inj hfound
      refine along_uploadFiles hJ ?_ hstart ?_
      · intro done w' name text hd hname htext
        rw [hwanted] at hname
        exact hstep done w' name text hd hname.1 hname.2 htext
      · intro done w' keys hdone hd
        refine hQ done w' keys (fun name ↦ ?_) hd
        rw [hdone, hwanted]
        simp

theorem along_record {actor action entityType entityId : String} {payload : Json}
    {Q : AuditEvent → Db → Disk → Prop} (hI : ∀ n, I { w with seq := n })
    (hQ : ∀ ev evs n, Q ev { s with auditEvents := evs } { w with seq := n }) :
    diskMachine.Along I (Audit.record env actor action entityType entityId payload) s w Q := by
  unfold Audit.record
  rw [Machine.along_select_bind]
  refine ⟨hI w.seq, fun seq w₁ hw₁ ↦ ?_⟩
  obtain ⟨_, hw₁⟩ := Option.ite_none_right_eq_some.mp hw₁
  obtain rfl := Option.some.inj hw₁
  refine ⟨hI _, fun now w₂ hw₂ ↦ ?_⟩
  obtain rfl := Option.some.inj hw₂
  refine ⟨hI _, fun s₁ hs₁ ↦ ?_⟩
  obtain rfl := Option.some.inj hs₁
  exact ⟨hI _, hQ _ _ _⟩

theorem along_writeManifest {base : String} {manifest : List (String × Json)}
    {Q : Unit → Db → Disk → Prop} (hI : I w)
    (hwritten : I (w.write (base ++ "/" ++ "manifest.json")
      (Json.dumpsIndent env.floatRepr 0 (.obj manifest))))
    (hQ : Q () s (w.write (base ++ "/" ++ "manifest.json")
      (Json.dumpsIndent env.floatRepr 0 (.obj manifest)))) :
    diskMachine.Along I (writeManifest env base manifest) s w Q := by
  have hpath : base ++ "/manifest.json" = base ++ "/" ++ "manifest.json" := by
    rw [String.append_assoc]
    rfl
  unfold writeManifest
  rw [hpath]
  refine ⟨hI, fun reply w₁ hw₁ ↦ ?_⟩
  cases reply with
  | none =>
      obtain rfl := Option.some.inj hw₁
      exact hI
  | some done =>
      obtain rfl := Option.some.inj hw₁
      exact ⟨hwritten, hQ⟩

/-- Storing a release leaves the data files alone and adds at most the
`storage` block to the manifest. -/
theorem along_storeFiles {base batchId : String} {manifest : List (String × Json)}
    {Q : List (String × Json) → Db → Disk → Prop}
    (hQ : ∀ manifest' w', (∀ path, path ≠ base ++ "/" ++ "manifest.json" →
        w'.file path = w.file path) →
      (manifest' = manifest ∨ ∃ storage, manifest' = Json.insert manifest "storage" storage) →
      Q manifest' s w') :
    diskMachine.Along (fun _ ↦ True) (storeFiles env base batchId manifest) s w Q := by
  have hkept : ∀ only (w₁ : Disk) {Q' : List (String × Json) → Db → Disk → Prop},
      (∀ keys w₂, w₂.files = w₁.files → Q' keys s w₂) →
      diskMachine.Along (fun _ ↦ True) (uploadBatch env base batchId only) s w₁ Q' := by
    intro only w₁ Q' hQ'
    exact along_uploadBatch (J := fun _ w₂ ↦ w₂.files = w₁.files) (fun _ _ _ ↦ trivial)
      (fun _ _ _ _ hfiles _ _ _ ↦ hfiles) rfl fun _ w₂ keys _ hfiles ↦ hQ' keys w₂ hfiles
  have hwritten (w₁ w₂ : Disk) (text : String) (hw₁ : w₁.files = w.files)
      (hw₂ : w₂.files = (w₁.write (base ++ "/" ++ "manifest.json") text).files) (path : String)
      (hpath : path ≠ base ++ "/" ++ "manifest.json") : w₂.file path = w.file path := by
    have hstep : w₂.file path = (w₁.write (base ++ "/" ++ "manifest.json") text).file path := by
      rw [Disk.file, hw₂]
      rfl
    rw [hstep, Disk.file_write_ne _ hpath, Disk.file, hw₁]
    rfl
  unfold storeFiles
  by_cases hstored : stored env
  · rw [if_pos hstored, Machine.along_bind]
    refine hkept none w fun keys w₁ hw₁ ↦ ?_
    rw [Machine.along_bind]
    refine along_writeManifest trivial trivial ?_
    rw [Machine.along_bind]
    refine hkept _ _ fun keys' w₂ hw₂ ↦ ⟨trivial, hQ _ _ ?_ (Or.inr ⟨_, rfl⟩)⟩
    exact hwritten w₁ w₂ _ hw₁ hw₂
  · rw [if_neg hstored, Machine.along_bind]
    refine along_writeManifest trivial trivial ⟨trivial, hQ _ _ ?_ (Or.inl rfl)⟩
    exact hwritten w _ _ rfl rfl

end Export

namespace Development

def blank : Disk :=
  ⟨1, [], []⟩

/-- Files are read back as written; an upload fails if it is the call with
this number. -/
def diskAnswers (refused : Option ℕ) : Oracle Call Reply Disk
  | _, w, .readFile path => w.file path
  | _, w, .iterdir base => some ((w.names base).map fun name ↦ (name, true))
  | n, _, .uploadFile .. => if refused = some n then none else some ()
  | n, w, c => answers n w.seq c

end Development

end HumanDataFactory
