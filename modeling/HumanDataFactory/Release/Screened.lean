import HumanDataFactory.Qc.Gate1
import HumanDataFactory.Release.Certified
import HumanDataFactory.Validators.Findings

/-!
# What gate 1 saw of the records that ship

The text gate 1 looks at consists of the strings and the lists of strings of a
submission.  A record takes over whole fields, whatever is inside them.
-/

namespace HumanDataFactory

open Transact

namespace Json

mutual

/-- The strings at any depth, keys included. -/
def strings : Json → List String
  | str s => [s]
  | arr xs => stringsItems xs
  | obj kvs => stringsPairs kvs
  | _ => []

def stringsItems : List Json → List String
  | [] => []
  | x :: xs => strings x ++ stringsItems xs

def stringsPairs : List (String × Json) → List String
  | [] => []
  | (k, x) :: kvs => k :: strings x ++ stringsPairs kvs

end

/-- The strings inside objects, and inside lists that are in a list. -/
def buried : Json → List String
  | str _ => []
  | arr xs => xs.flatMap fun
      | str _ => []
      | x => strings x
  | x => strings x

theorem mem_stringsItems {t : String} {xs : List Json} :
    t ∈ stringsItems xs ↔ ∃ x ∈ xs, t ∈ strings x := by
  induction xs with
  | nil => simp [stringsItems]
  | cons x xs ih => simp [stringsItems, ih]

/-- A string is in the text of gate 1, or it is buried. -/
theorem mem_strings {t : String} {x : Json} :
    t ∈ strings x ↔ t ∈ Validators.parts x ∨ t ∈ buried x := by
  cases x with
  | arr xs =>
      simp only [strings, mem_stringsItems, Validators.parts, List.mem_filterMap, buried,
        List.mem_flatMap]
      constructor
      · rintro ⟨x, hx, ht⟩
        cases x with
        | str s =>
            obtain rfl := List.mem_singleton.mp ht
            exact Or.inl ⟨.str t, hx, rfl⟩
        | _ => exact Or.inr ⟨_, hx, ht⟩
      · rintro (⟨x, hx, ht⟩ | ⟨x, hx, ht⟩)
        · cases x with
          | str s =>
              obtain rfl := Option.some.inj ht
              exact ⟨.str s, hx, List.mem_singleton_self s⟩
          | _ => cases ht
        · cases x with
          | str s => cases ht
          | _ => exact ⟨_, hx, ht⟩
  | _ => simp [strings, Validators.parts, buried]

end Json

namespace Validators

variable (u : Unicode)

/-- One of the patterns for SSNs, emails and placeholders matches. -/
def flagged (s : String) : Bool :=
  (u.search (SSN u) s).isSome || (u.search EMAIL s).isSome || (u.search PLACEHOLDER s).isSome

variable {u} {env : Env}

theorem flagged_empty : flagged u "" = false := rfl

/-- Nothing in the text of gate 1 is flagged. -/
theorem Sound.unflagged {content : List (String × Json)} {taskType : TaskType}
    (h : Sound u env content taskType) {kv : String × Json} (hkv : kv ∈ content) {s : String}
    (hs : s ∈ parts kv.2) : flagged u s = false := by
  have hline : s ∈ content.flatMap fun kv ↦ parts kv.2 := List.mem_flatMap.mpr ⟨kv, hkv, hs⟩
  have hquiet : ∀ r, u.search r (textBlob content) = none → (u.search r s).isSome = false := by
    intro r hnone
    by_contra hfound
    rw [Bool.not_eq_false] at hfound
    have hblob := u.isSome_search_lines hline hfound
    change (u.search r (textBlob content)).isSome = true at hblob
    simp [hnone] at hblob
  obtain ⟨hssn, hemail, _⟩ := silent_checkPii.mp h.pii
  simp [flagged, hquiet _ hssn, hquiet _ hemail, hquiet _ h.placeholders]

end Validators

namespace Export

open Validators

/-- The fields of a record that come from the submission, with the fields they
are taken from. -/
def derivedFields : TaskType → List (String × String)
  | .sft => [("completion", "response"), ("citations", "citations")]
  | .preference => [("chosen", "chosen"), ("rejected", "rejected"),
      ("rejection_rationale", "rejection_rationale"), ("citations", "citations")]
  | .eval => [("reference_answer", "answer"), ("grading_notes", "grading_notes"),
      ("citations", "citations")]

section Record

variable (u : Unicode)

/-- No string of a derived field is flagged. -/
def Screened (taskType : TaskType) (record : Json) : Prop :=
  ∀ f ∈ derivedFields taskType, ∀ t ∈ (record.field f.1).strings, flagged u t = false

instance (taskType : TaskType) (record : Json) : Decidable (Screened u taskType record) :=
  List.decidableBAll _ _

/-- No string that is buried in a field to be exported is flagged. -/
def Unburied (taskType : TaskType) (content : List (String × Json)) : Prop :=
  ∀ f ∈ derivedFields taskType, ∀ t ∈ (fieldOf content f.2).buried, flagged u t = false

instance (taskType : TaskType) (content : List (String × Json)) :
    Decidable (Unburied u taskType content) :=
  List.decidableBAll _ _

variable {u} {env : Env}

section Fields

variable {content : List (String × Json)} {k : String} {x d : Json}

theorem lookup_of_index (h : (Json.obj content).index k = .ok x) :
    Json.lookup content k = some x := by
  simp only [Json.index] at h
  split at h
  · rename_i v hv
    rw [hv, Except.ok.inj h]
  · cases h

theorem lookup_of_getD (h : (Json.obj content).getD k d = .ok x)
    (hd : d = .str "" ∨ d = .arr []) :
    Json.lookup content k = some x ∨
      (Json.lookup content k = none ∧ (x = .str "" ∨ x = .arr [])) := by
  have hx := Except.ok.inj h
  cases hv : Json.lookup content k with
  | none =>
      obtain rfl : d = x := by simpa [hv] using hx
      exact Or.inr ⟨rfl, hd⟩
  | some v => exact Or.inl (by simpa [hv] using hx)

end Fields

/-- A field of a record is the field of the content, or a default. -/
theorem field_of_formatRecord {taskType : TaskType} {task : Task} {sub : Submission} {record : Json}
    {content : List (String × Json)} (h : formatRecord taskType task sub = .ok record)
    (hcontent : sub.content = .obj content) {f : String × String}
    (hf : f ∈ derivedFields taskType) :
    Json.lookup content f.2 = some (record.field f.1) ∨
      (Json.lookup content f.2 = none ∧
        (record.field f.1 = .str "" ∨ record.field f.1 = .arr [])) := by
  unfold formatRecord at h
  rw [hcontent] at h
  cases taskType with
  | sft =>
      simp only [bind_eq_ok] at h
      obtain ⟨completion, hcompletion, citations, hcitations, h⟩ := h
      obtain rfl := Except.ok.inj h
      simp only [derivedFields, List.mem_cons, List.not_mem_nil, or_false] at hf
      rcases hf with rfl | rfl
      · exact Or.inl (lookup_of_index hcompletion)
      · exact lookup_of_getD hcitations (Or.inr rfl)
  | preference =>
      simp only [bind_eq_ok] at h
      obtain ⟨chosen, hchosen, rejected, hrejected, rationale, hrationale, citations, hcitations,
        h⟩ := h
      obtain rfl := Except.ok.inj h
      simp only [derivedFields, List.mem_cons, List.not_mem_nil, or_false] at hf
      rcases hf with rfl | rfl | rfl | rfl
      · exact Or.inl (lookup_of_index hchosen)
      · exact Or.inl (lookup_of_index hrejected)
      · exact lookup_of_getD hrationale (Or.inl rfl)
      · exact lookup_of_getD hcitations (Or.inr rfl)
  | eval =>
      simp only [bind_eq_ok] at h
      obtain ⟨answer, hanswer, notes, hnotes, citations, hcitations, h⟩ := h
      obtain rfl := Except.ok.inj h
      simp only [derivedFields, List.mem_cons, List.not_mem_nil, or_false] at hf
      rcases hf with rfl | rfl | rfl
      · exact Or.inl (lookup_of_index hanswer)
      · exact lookup_of_getD hnotes (Or.inl rfl)
      · exact lookup_of_getD hcitations (Or.inr rfl)

/-- What passed gate 1 and is buried nowhere is screened. -/
theorem screened_iff_unburied {taskType taskType' : TaskType} {task : Task} {sub : Submission}
    {record : Json} {content : List (String × Json)}
    (hsound : Sound u env content taskType') (h : formatRecord taskType task sub = .ok record)
    (hcontent : sub.content = .obj content) :
    Screened u taskType record ↔ Unburied u taskType content := by
  refine forall₂_congr fun f hf ↦ ?_
  rcases field_of_formatRecord h hcontent hf with hsome | ⟨hnone, hdefault⟩
  · have hfield : fieldOf content f.2 = record.field f.1 := by simp [fieldOf, hsome]
    have hmem : (f.2, record.field f.1) ∈ content := by
      obtain ⟨kv, hfind, hvalue⟩ := Option.map_eq_some_iff.mp hsome
      obtain ⟨hkey, hkv⟩ : kv.1 = f.2 ∧ kv ∈ content :=
        ⟨by simpa using List.find?_some hfind, List.mem_of_find?_eq_some hfind⟩
      rwa [← hkey, ← hvalue]
    rw [hfield]
    constructor
    · exact fun hall t ht ↦ hall t (Json.mem_strings.mpr (Or.inr ht))
    · intro hall t ht
      rcases Json.mem_strings.mp ht with hpart | hburied
      · exact hsound.unflagged hmem hpart
      · exact hall t hburied
  · have hfield : (fieldOf content f.2).buried = [] := by
      simp [fieldOf, hnone, Json.buried, Json.strings]
    have hstrings : ∀ t ∈ (record.field f.1).strings, t = "" := by
      intro t ht
      rcases hdefault with heq | heq
      · simpa [heq, Json.strings] using ht
      · simp [heq, Json.strings, Json.stringsItems] at ht
    rw [hfield]
    refine iff_of_true ?_ (by simp)
    intro t ht
    rw [hstrings t ht]
    exact flagged_empty

theorem forall₂_of_formatRecords {taskType : TaskType} {rows : List (Task × Submission)}
    {records : List Json} (h : formatRecords taskType rows = .ok records) :
    List.Forall₂ (fun row record ↦ formatRecord taskType row.1 row.2 = .ok record) rows
      records := by
  induction rows generalizing records with
  | nil =>
      obtain rfl := Except.ok.inj h
      exact .nil
  | cons row rows ih =>
      obtain ⟨task, sub⟩ := row
      unfold formatRecords at h
      obtain ⟨record, hrecord, hrest⟩ := bind_eq_ok.mp h
      obtain ⟨rest, hrecords, heq⟩ := bind_eq_ok.mp hrest
      obtain rfl := Except.ok.inj heq
      exact .cons hrecord (ih hrecords)

end Record

/-- The release `e` of batch `b` wrote these records of these rows. -/
structure Wrote (env : Env) (e : Served Api.Http Db Json) (b : ExportBatch) (w : Disk)
    (project : Project) (rows : List (Task × Submission)) (records : List Json) : Prop where
  found : e.before.projects.find? b.projectId = some project
  shipped : rows = approvedRows env e.before project
  formatted : formatRecords project.taskType rows = .ok records
  files : ∀ f ∈ dataFiles env project.taskType records,
    w.file (directory env b.id ++ "/" ++ f.1) = some f.2

variable {env : Env} {e : Served Api.Http Db Json} {b : ExportBatch} {w : Disk}

theorem ReleasedBy.wrote (h : ReleasedBy env e b w) :
    ∃ project rows records, Wrote env e b w project rows records := by
  obtain ⟨_, _, batch, approver, _, _, _, hmade⟩ := h
  obtain ⟨project, hproject, ⟨records, hrecords, hfiles⟩, _⟩ := hmade.content
  refine ⟨project, _, records, ?_, rfl, hrecords, ?_⟩
  · rw [hmade.projectId]
    exact hproject
  · rw [hmade.id]
    exact hfiles

/-- What an approved submission holds passed gate 1. -/
theorem sound_of_approved {u : Unicode} {tr : List (Served Api.Http Db Json)} {s : Db} {w₀ w : ℕ}
    (h : machine.Run (Api.serve (env.validated u)) Db.empty w₀ tr s w) {sub : Submission}
    (hsub : sub ∈ s.submissions) (hstatus : sub.status = .approved) :
    ∃ content taskType, sub.content = .obj content ∧ Sound u env content taskType := by
  obtain ⟨pre, e, post, i, _, hintake⟩ := Engine.intake_of_run h hsub
  have hpassed := hintake.passed (by simp [hstatus])
  obtain ⟨hsound, _⟩ := runAll_passed_iff.mp ⟨hintake.ran, hpassed⟩
  exact ⟨i.content, _, hintake.content_eq, hsound⟩

/-- In every run, the records a batch was released with are screened exactly
where nothing flagged is buried in a field that is exported. -/
theorem screened_iff_of_run {u : Unicode} {tr : List (Served Api.Http Db Json)} {s : Db}
    {w₀ w : Disk} (h : diskMachine.Run (Api.serve (env.validated u)) Db.empty w₀ tr s w) :
    ∀ b ∈ s.exportBatches, b.status = .released →
      ∃ pre e post w₁ w₂ project rows records, tr = pre ++ e :: post ∧
        diskMachine.Serves (Api.serve (env.validated u)) e w₁ w₂ ∧
        Wrote (env.validated u) e b w₂ project rows records ∧
        List.Forall₂ (fun row record ↦ ∃ content, row.2.content = .obj content ∧
          (Screened u project.taskType record ↔ Unburied u project.taskType content))
          rows records := by
  intro b hb hstatus
  obtain ⟨pre, e, post, w₁, w₂, rfl, hbefore, hserves, _, hreleased⟩ :=
    (batches_of_run h b hb).2 hstatus
  obtain ⟨project, rows, records, hwrote⟩ := hreleased.wrote
  refine ⟨pre, e, post, w₁, w₂, project, rows, records, rfl, hserves, hwrote, ?_⟩
  have hmachine := diskMachine_refines.run hbefore
  have hrecords := forall₂_of_formatRecords hwrote.formatted
  have happroved : ∀ row ∈ rows, Approved e.before project row := by
    intro row hrow
    rw [hwrote.shipped] at hrow
    exact approved_of_mem hrow
  refine ((List.forall₂_and_left _ _).mpr ⟨happroved, hrecords⟩).imp ?_
  rintro row record ⟨hrow, hrecord⟩
  obtain ⟨content, taskType, hcontent, hsound⟩ :=
    sound_of_approved hmachine hrow.submission hrow.status
  exact ⟨content, hcontent, screened_iff_unburied hsound hrecord hcontent⟩

end Export

namespace Development

def screeningEnv : Env := exportEnv.validated .ascii

/-- The first delivery with this content, released. -/
def screenedExport (content : List (String × Json)) : List Api.Request :=
  submissionOf content ++
    [review .pass, .requestExport projectId, .approveExport batchId "lead"]

def screenedRun (content : List (String × Json)) :
    List (Served Api.Http Db Json) × Db × Disk :=
  diskMachine.simulateRun (diskAnswers none) (Api.serve screeningEnv)
    ((screenedExport content).map http) 1 Db.empty blank

theorem screenedRun_spec (content : List (String × Json)) :
    diskMachine.Run (Api.serve screeningEnv) Db.empty blank (screenedRun content).1
      (screenedRun content).2.1 (screenedRun content).2.2 :=
  Machine.run_of_simulateRun _ _ _ _ _

/-- A response that is an object with a text. -/
def objectContent (text : String) : List (String × Json) :=
  [("response", .obj [("text", .str text)]), ("citations", .arr [.str "IRC 162"])]

/-- Some record of the rows that would ship is flagged. -/
def flaggedRecords (s : Db) (project : Project) : Bool :=
  match Export.formatRecords project.taskType (Export.approvedRows screeningEnv s project) with
  | .ok records => records.any fun r ↦ !decide (Export.Screened .ascii project.taskType r)
  | .error _ => false

/-- Nothing flagged is buried in this content. -/
def isUnburied (taskType : TaskType) : Json → Bool
  | .obj content => decide (Export.Unburied .ascii taskType content)
  | _ => true

end Development

open Development

/-- A plain text in the object: what ships is screened. -/
theorem Export.screened_iff_of_run_plain :
    (screenedRun (objectContent "Deductible.")).2.1.exportBatches.rows.map ExportBatch.status =
        [.released] ∧
      ∀ b ∈ (screenedRun (objectContent "Deductible.")).2.1.exportBatches, b.status = .released →
        ∃ pre e post w₁ w₂ project rows records,
          (screenedRun (objectContent "Deductible.")).1 = pre ++ e :: post ∧
          diskMachine.Serves (Api.serve screeningEnv) e w₁ w₂ ∧
          Wrote screeningEnv e b w₂ project rows records ∧
          List.Forall₂ (fun _ record ↦ Screened .ascii project.taskType record) rows records := by
  have hplain : ∀ e ∈ (screenedRun (objectContent "Deductible.")).1,
      ∀ project ∈ e.before.projects.rows, ∀ row ∈ approvedRows screeningEnv e.before project,
        isUnburied project.taskType row.2.content = true := by
    decide +kernel
  refine ⟨by decide +kernel, fun b hb hstatus ↦ ?_⟩
  obtain ⟨pre, e, post, w₁, w₂, project, rows, records, htr, hserves, hwrote, hiff⟩ :=
    screened_iff_of_run (screenedRun_spec (objectContent "Deductible.")) b hb hstatus
  have hunburied : ∀ row ∈ rows, isUnburied project.taskType row.2.content = true := by
    intro row hrow
    rw [hwrote.shipped] at hrow
    exact hplain e (by rw [htr]; simp) project (Table.mem_of_find? hwrote.found) row hrow
  refine ⟨pre, e, post, w₁, w₂, project, rows, records, htr, hserves, hwrote, ?_⟩
  refine ((List.forall₂_and_left _ _).mpr ⟨hunburied, hiff⟩).imp ?_
  rintro row record ⟨hrow, content, hcontent, hscreened⟩
  rw [hcontent] at hrow
  exact hscreened.mpr (of_decide_eq_true hrow)

/-- An address inside an object ships. -/
theorem Export.buried_address_ships : ∃ tr s w,
    diskMachine.Run (Api.serve screeningEnv) Db.empty blank tr s w ∧
      ∃ b ∈ s.exportBatches, b.status = .released ∧
        ∃ pre e post w₁ w₂ project rows records, tr = pre ++ e :: post ∧
          diskMachine.Serves (Api.serve screeningEnv) e w₁ w₂ ∧
          Wrote screeningEnv e b w₂ project rows records ∧
          ∃ record ∈ records, ¬Screened .ascii project.taskType record := by
  have hreleased : ∃ b ∈ (screenedRun (objectContent "jo@ex.com")).2.1.exportBatches.rows,
      b.status = .released := by decide +kernel
  have hflagged : ∀ e ∈ (screenedRun (objectContent "jo@ex.com")).1,
      (approvalOf e.request.request).isSome = true → ∀ project ∈ e.before.projects.rows,
      flaggedRecords e.before project = true := by decide +kernel
  have hrun := screenedRun_spec (objectContent "jo@ex.com")
  obtain ⟨b, hb, hstatus⟩ := hreleased
  obtain ⟨pre, e, post, w₁, w₂, htr, _, hserves, _, hrelease⟩ :=
    (batches_of_run hrun b hb).2 hstatus
  obtain ⟨project, rows, records, hwrote⟩ := hrelease.wrote
  refine ⟨_, _, _, hrun, b, hb, hstatus, pre, e, post, w₁, w₂, project, rows, records, htr, hserves,
    hwrote, ?_⟩
  obtain ⟨approvedBy, hrequest⟩ := hrelease.request
  have hrecords := hflagged e (by simp [htr]) (by simp [hrequest, approvalOf]) project
    (Table.mem_of_find? hwrote.found)
  have hformatted := hwrote.formatted
  rw [hwrote.shipped] at hformatted
  unfold flaggedRecords at hrecords
  rw [hformatted] at hrecords
  simpa using hrecords

end HumanDataFactory
