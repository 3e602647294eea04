import HumanDataFactory.Release.Screened

/-!
# No duplicates in a project

Gate 1 compares a submission with everything its project has on record.  What
is past gate 1 therefore differs in its main text from all that came before it,
and so do the records of an export.
-/

namespace HumanDataFactory

open Transact

namespace Validators

variable (u : Unicode) (env : Env)

/-- The main text of a submission as it is compared: in lower case, without
what is not a word character. -/
def plainText (content : Json) (taskType : TaskType) : String :=
  match content with
  | .obj content => normalized u env (mainText env content taskType)
  | _ => ""

theorem contentFingerprint_eq (content : Json) (taskType : TaskType) :
    contentFingerprint u env content taskType = env.sha256 (plainText u env content taskType) := by
  cases content <;> rfl

end Validators

namespace Engine

open Validators

variable {u : Unicode} {env : Env} {s s' : Db}

theorem projects_of_write {u : Write} (h : Db.apply u s = some s') :
    ∀ project ∈ s.projects, project ∈ s'.projects := by
  intro project hproject
  cases u with
  | insertProject a =>
      obtain ⟨hvac, rfl⟩ :
          s.projects.Vacant a.id ∧ { s with projects := s.projects.push a } = s' := by
        simpa [Db.apply] using h
      exact (Table.mem_push hvac).mpr (Or.inl hproject)
  | _ =>
      simp only [Db.apply, Option.ite_none_right_eq_some, Option.some.injEq] at h
      grind

theorem projects_of_run {pre post : List (Served Api.Http Db Json)} {e : Served Api.Http Db Json}
    {w₀ w : ℕ} (h : machine.Run (Api.serve env) Db.empty w₀ (pre ++ e :: post) s w) :
    ∀ project ∈ e.before.projects, project ∈ s.projects :=
  h.relates_writes (R := fun s s' ↦ ∀ project ∈ s.projects, project ∈ s'.projects)
    (fun _ _ hp ↦ hp) (fun _ _ _ h h' _ hp ↦ h' _ (h _ hp)) fun _ _ _ ↦ projects_of_write

theorem stable_from {tr pre post : List (Served Api.Http Db Json)} {e : Served Api.Http Db Json}
    {w₀ w : ℕ} (h : machine.Run (Api.serve env) Db.empty w₀ tr s w) (htr : tr = pre ++ e :: post) :
    Evidence.Stable e.before s ∧ Evidence.Stable e.after s := by
  subst htr
  have hafter : Evidence.Stable e.after s :=
    Evidence.relates_after .refl (fun _ _ _ ↦ .trans) (fun _ _ ↦ Evidence.Moved.stable) h
  exact ⟨(Evidence.moved_of_mem h (by simp)).stable.trans hafter, hafter⟩

/-- Some version of `sub` was on record already. -/
def Seen (s : Db) (sub : Submission) : Prop :=
  ∃ old ∈ s.submissions, old.id = sub.id

/-- A submission that was entered in a part of a run is there after it. -/
theorem EnteredBy.seen {pre mid : List (Served Api.Http Db Json)} {e : Served Api.Http Db Json}
    {w₀ w : ℕ} (h : machine.Run (Api.serve env) Db.empty w₀ (pre ++ e :: mid) s w)
    {row sub : Submission} (hentered : EnteredBy e row sub) : Seen s sub := by
  obtain ⟨status, hlater⟩ := (stable_from h rfl).2 row hentered.mem
  obtain ⟨status', rfl⟩ := hentered.same
  exact ⟨_, hlater, rfl⟩

/-- One request enters one submission. -/
theorem id_eq_of_same_entry {e : Served Api.Http Db Json} {i i' : Intake} {a b : Submission}
    (hi : i.Of env e a) (hi' : i'.Of env e b) : a.id = b.id := by
  obtain ⟨status, hsame⟩ := hi.entered.same
  obtain ⟨status', hsame'⟩ := hi'.entered.same
  have hrow : i'.row = i.row := by
    have hmem := hi'.entered.mem
    rw [hi.validated.entered] at hmem
    rcases (Table.mem_push hi.entered.new).mp hmem with hold | heq
    · exact absurd rfl (hi'.entered.new _ hold)
    · exact heq
  rw [hsame, hsame', hrow]

theorem seen_or_seen {tr pre post pre' post' : List (Served Api.Http Db Json)}
    {e e' : Served Api.Http Db Json} {w₀ w : ℕ}
    (h : machine.Run (Api.serve env) Db.empty w₀ tr s w) (htr : tr = pre ++ e :: post)
    (htr' : tr = pre' ++ e' :: post') {i i' : Intake} {a b : Submission} (hi : i.Of env e a)
    (hi' : i'.Of env e' b) (hne : a.id ≠ b.id) : Seen e'.before a ∨ Seen e.before b := by
  have hrun : ∀ {pre post : List (Served Api.Http Db Json)} {e : Served Api.Http Db Json},
      tr = pre ++ e :: post →
      ∃ w', machine.Run (Api.serve env) Db.empty w₀ pre e.before w' := by
    rintro pre post e rfl
    obtain ⟨w₁, _, hpre, _⟩ := h.split
    exact ⟨w₁, hpre⟩
  obtain ⟨_, hpre⟩ := hrun htr
  obtain ⟨_, hpre'⟩ := hrun htr'
  rcases List.append_eq_append_iff.mp (htr.symm.trans htr') with ⟨l, rfl, hl⟩ | ⟨l, rfl, hl⟩
  · cases l with
    | cons x l =>
        obtain ⟨rfl, _⟩ := List.cons.inj hl
        exact Or.inl (hi.entered.seen hpre')
    | nil =>
        obtain ⟨rfl, _⟩ := List.cons.inj hl
        exact absurd (id_eq_of_same_entry hi hi') hne
  · cases l with
    | cons x l =>
        obtain ⟨rfl, _⟩ := List.cons.inj hl
        exact Or.inr (hi'.entered.seen hpre)
    | nil =>
        obtain ⟨rfl, _⟩ := List.cons.inj hl
        exact absurd (id_eq_of_same_entry hi hi') hne

/-- `sub` was made for a task of `project`. -/
def Within (s : Db) (project : Project) (sub : Submission) : Prop :=
  ∃ task ∈ s.tasks, task.id = sub.taskId ∧ task.projectId = project.id

section Intakes

variable {tr pre post : List (Served Api.Http Db Json)} {e : Served Api.Http Db Json} {w₀ w : ℕ}
  (h : machine.Run (Api.serve env) Db.empty w₀ tr s w) (htr : tr = pre ++ e :: post)
  {project : Project}
include h htr

/-- A submission was taken in for the project it is in. -/
theorem project_of_intake (hproject : project ∈ s.projects) {i : Intake} {b : Submission}
    (hi : i.Of env e b) (hwithin : Within s project b) : i.project = project := by
  subst htr
  obtain ⟨task, htask, hid, hof⟩ := hwithin
  obtain ⟨htask₀, hid₀⟩ := Table.find?_eq_some.mp hi.task
  obtain ⟨task', htask', hfacts⟩ := Export.task_later (Export.later_of_run h) htask₀
  have hid' : task'.id = i.task.id := congrArg Metering.TaskFacts.id hfacts
  have hof' : task'.projectId = i.task.projectId := congrArg Metering.TaskFacts.projectId hfacts
  obtain rfl := Table.eq_of_key htask' htask (hid'.trans (hid₀.trans hid.symm))
  obtain ⟨hmem, hkey⟩ := Table.find?_eq_some.mp hi.fresh.project
  exact Table.eq_of_key (projects_of_run h _ hmem) hproject (hkey.trans (hof'.symm.trans hof))

/-- What was on record in the project is among the fingerprints. -/
theorem fingerprint_of_seen {a : Submission} (ha : a ∈ s.submissions)
    (hwithin : Within s project a) (hseen : Seen e.before a) {excluded : String}
    (hne : a.id ≠ excluded) (taskType : TaskType) :
    env.contentFingerprint a.content taskType ∈
      projectFingerprints env e.before project.id taskType excluded := by
  obtain ⟨old, hold, hid⟩ := hseen
  obtain ⟨status, hlater⟩ := (stable_from h htr).1 old hold
  obtain rfl := Table.eq_of_key hlater ha hid
  subst htr
  obtain ⟨w₁, _, hpre, _⟩ := h.split
  obtain ⟨task, htask, htaskId, hof⟩ := hwithin
  obtain ⟨task₀, htask₀, hfacts⟩ := Export.task_before (Metering.sound_of_run hpre).balanced
    (Metering.sound_of_run h).balanced (Export.later_of_run h) hold htask htaskId.symm
  have hid₀ : task₀.id = task.id := congrArg Metering.TaskFacts.id hfacts
  have hof₀ : task₀.projectId = task.projectId := congrArg Metering.TaskFacts.projectId hfacts
  refine List.mem_map.mpr ⟨old, List.mem_filter.mpr ⟨hold, ?_⟩, rfl⟩
  simp only [List.any_eq_true, decide_eq_true_eq]
  exact ⟨hne, task₀, htask₀, hid₀.trans htaskId, hof₀.trans hof⟩

/-- What passed gate 1 has another main text than what was on record. -/
theorem differs_of_seen {u : Unicode} {env' : Env} (henv : env = env'.validated u)
    (hproject : project ∈ s.projects) {a b : Submission} (ha : a ∈ s.submissions)
    (hwithin : Within s project a) (hwithin' : Within s project b) (hne : a.id ≠ b.id)
    (hstatus : b.status ≠ .autoCheckFailed) {i : Intake} (hi : i.Of env e b)
    (hseen : Seen e.before a) : plainText u env' a.content project.taskType ≠
      plainText u env' b.content project.taskType := by
  have hproj := project_of_intake h htr hproject hi hwithin'
  have hmem := fingerprint_of_seen h htr ha hwithin hseen (hi.id_eq ▸ hne) project.taskType
  have hran := hi.ran
  rw [hproj, henv] at hran
  obtain ⟨_, hfresh, _⟩ := runAll_passed_iff.mp ⟨hran, hi.passed hstatus⟩
  intro hsame
  apply hfresh
  rw [henv] at hmem
  change contentFingerprint u env' a.content project.taskType ∈ _ at hmem
  rwa [contentFingerprint_eq, hsame, hi.content_eq] at hmem

end Intakes

/-- In every run, the submissions of a project that passed gate 1 differ in
their main texts. -/
theorem plainText_ne_of_run {u : Unicode} {tr : List (Served Api.Http Db Json)} {w₀ w : ℕ}
    (h : machine.Run (Api.serve (env.validated u)) Db.empty w₀ tr s w) {project : Project}
    (hproject : project ∈ s.projects) {a b : Submission} (ha : a ∈ s.submissions)
    (hb : b ∈ s.submissions) (hwithin : Within s project a) (hwithin' : Within s project b)
    (hne : a.id ≠ b.id) (hstatus : a.status ≠ .autoCheckFailed)
    (hstatus' : b.status ≠ .autoCheckFailed) :
    plainText u env a.content project.taskType ≠ plainText u env b.content project.taskType := by
  obtain ⟨pre, e, post, i, htr, hi⟩ := intake_of_run h ha
  obtain ⟨pre', e', post', i', htr', hi'⟩ := intake_of_run h hb
  rcases seen_or_seen h htr htr' hi hi' hne with hseen | hseen
  · exact differs_of_seen h htr' rfl hproject ha hwithin hwithin' hne hstatus' hi' hseen
  · exact (differs_of_seen h htr rfl hproject hb hwithin' hwithin hne.symm hstatus hi hseen).symm

end Engine

namespace Export

open Validators

/-- The field of a record that holds the main text. -/
def recordKey : TaskType → String
  | .sft => "completion"
  | .preference => "chosen"
  | .eval => "reference_answer"

variable (u : Unicode) (env : Env)

def recordText (taskType : TaskType) (record : Json) : String :=
  normalized u env (env.str (record.field (recordKey taskType)))

variable {u : Unicode} {env : Env}

/-- A record has its main text from the submission. -/
theorem index_of_formatRecord {taskType : TaskType} {task : Task} {sub : Submission} {record : Json}
    (h : formatRecord taskType task sub = .ok record) :
    sub.content.index (mainKey taskType) = .ok (record.field (recordKey taskType)) := by
  unfold formatRecord at h
  cases taskType with
  | sft =>
      simp only [bind_eq_ok] at h
      obtain ⟨completion, hcompletion, _, _, h⟩ := h
      obtain rfl := Except.ok.inj h
      exact hcompletion
  | preference =>
      simp only [bind_eq_ok] at h
      obtain ⟨chosen, hchosen, _, _, _, _, _, _, h⟩ := h
      obtain rfl := Except.ok.inj h
      exact hchosen
  | eval =>
      simp only [bind_eq_ok] at h
      obtain ⟨answer, hanswer, _, _, _, _, h⟩ := h
      obtain rfl := Except.ok.inj h
      exact hanswer

theorem recordText_of_formatRecord {taskType : TaskType} {row : Task × Submission} {record : Json}
    (h : formatRecord taskType row.1 row.2 = .ok record) :
    recordText u env taskType record = plainText u env row.2.content taskType := by
  have hindex := index_of_formatRecord h
  cases hcontent : row.2.content with
  | obj content =>
      rw [hcontent] at hindex
      cases hmain : Json.lookup content (mainKey taskType) with
      | none => simp [Json.index, hmain] at hindex
      | some main =>
          simp only [Json.index, hmain, Except.ok.injEq] at hindex
          simp [recordText, plainText, mainText, hmain, hindex]
  | _ =>
      rw [hcontent] at hindex
      simp [Json.index] at hindex

theorem texts_of_formatRecords {taskType : TaskType} {rows : List (Task × Submission)}
    {records : List Json} (h : formatRecords taskType rows = .ok records) :
    records.map (recordText u env taskType) =
      rows.map fun row ↦ plainText u env row.2.content taskType := by
  have hrecords := forall₂_of_formatRecords h
  clear h
  induction hrecords with
  | nil => rfl
  | cons hrecord _ ih =>
      rw [List.map_cons, List.map_cons, recordText_of_formatRecord hrecord, ih]

/-- In every run, the submissions of a project that passed gate 1 differ in
their main texts, and so do the records of an export. -/
theorem distinct_of_run {tr : List (Served Api.Http Db Json)} {s : Db} {w₀ w : ℕ}
    (h : machine.Run (Api.serve (env.validated u)) Db.empty w₀ tr s w) :
    ∀ project ∈ s.projects,
      (∀ a ∈ s.submissions, ∀ b ∈ s.submissions, Engine.Within s project a →
        Engine.Within s project b → a.id ≠ b.id → a.status ≠ .autoCheckFailed →
        b.status ≠ .autoCheckFailed →
        plainText u env a.content project.taskType ≠ plainText u env b.content project.taskType) ∧
      ∀ records, formatRecords project.taskType
          (approvedRows (env.validated u) s project) = .ok records →
        (records.map (recordText u env project.taskType)).Nodup := by
  intro project hproject
  have hdistinct : ∀ a ∈ s.submissions, ∀ b ∈ s.submissions, Engine.Within s project a →
      Engine.Within s project b → a.id ≠ b.id → a.status ≠ .autoCheckFailed →
      b.status ≠ .autoCheckFailed →
      plainText u env a.content project.taskType ≠ plainText u env b.content project.taskType :=
    fun a ha b hb hwithin hwithin' hne hstatus hstatus' ↦
      Engine.plainText_ne_of_run h hproject ha hb hwithin hwithin' hne hstatus hstatus'
  refine ⟨hdistinct, fun records hrecords ↦ ?_⟩
  rw [texts_of_formatRecords hrecords, List.Nodup, List.pairwise_map]
  have hids : (approvedRows (env.validated u) s project).Pairwise fun r r' ↦ r.1.id ≠ r'.1.id :=
    List.pairwise_map.mp (nodup_approvedRows _ s project)
  refine hids.imp_of_mem fun {r r'} hr hr' hne ↦ ?_
  have hrow := approved_of_mem hr
  have hrow' := approved_of_mem hr'
  -- rows of different tasks hold different submissions
  have hsub : r.2.id ≠ r'.2.id := by
    intro hid
    have hsame := Table.eq_of_key hrow.submission hrow'.submission hid
    exact hne (hrow.of.symm.trans ((congrArg Submission.taskId hsame).trans hrow'.of))
  apply hdistinct r.2 hrow.submission r'.2 hrow'.submission
  · exact ⟨r.1, hrow.task, hrow.of.symm, hrow.project⟩
  · exact ⟨r'.1, hrow'.task, hrow'.of.symm, hrow'.project⟩
  · exact hsub
  · simp [hrow.status]
  · simp [hrow'.status]

end Export

namespace Development

/-- An environment whose main texts compute for numbers. -/
def comparingEnv : Env :=
  { env with
    lower := fun text ↦ String.ofList (text.toList.map Char.toLower)
    reprJson
      | .int n => toString n
      | _ => "{}" }

/-- A submission whose response is a number. -/
def contentNumber (n : ℤ) : List (String × Json) :=
  [("response", .int n), ("citations", .arr [.str "IRC 162"])]

/-- The second task of the project and the submission for it. -/
def secondTaskId : String := identifier 41

/-- Submissions with two responses, and the approval of the first one. -/
def responses (first second : ℤ) : List Api.Request :=
  submissionOf (contentNumber first) ++
    [review .pass, .createTask projectId ⟨"Explain it again", [], false, none⟩,
      .createSubmission secondTaskId authorId (contentNumber second)]

def responsesRun (first second : ℤ) : List (Served Api.Http Db Json) × Db × ℕ :=
  machine.simulateRun answers (Api.serve (comparingEnv.validated .ascii))
    ((responses first second).map http) 1 Db.empty 1

theorem responsesRun_spec (first second : ℤ) :
    machine.Run (Api.serve (comparingEnv.validated .ascii)) Db.empty 1 (responsesRun first second).1
      (responsesRun first second).2.1 (responsesRun first second).2.2 :=
  Machine.run_of_simulateRun _ _ _ _ _

/-- The same, with the approval of the second submission. -/
def bothApproved : List Api.Request :=
  responses 1 2 ++ [.postHumanReview (identifier 45) ⟨reviewerId, .pass, none, ""⟩]

def approvedRun : List (Served Api.Http Db Json) × Db × ℕ :=
  machine.simulateRun answers (Api.serve (comparingEnv.validated .ascii)) (bothApproved.map http) 1
    Db.empty 1

theorem approvedRun_spec : machine.Run (Api.serve (comparingEnv.validated .ascii)) Db.empty 1
    approvedRun.1 approvedRun.2.1 approvedRun.2.2 :=
  Machine.run_of_simulateRun _ _ _ _ _

end Development

open Validators Development

/-- Both submissions are approved, and two different records are exported. -/
theorem Export.distinct_of_run_numbers :
    approvedRun.2.1.submissions.rows.map Submission.status = [.approved, .approved] ∧
      ∀ project ∈ approvedRun.2.1.projects,
        (∀ a ∈ approvedRun.2.1.submissions, ∀ b ∈ approvedRun.2.1.submissions,
          Engine.Within approvedRun.2.1 project a → Engine.Within approvedRun.2.1 project b →
          a.id ≠ b.id → a.status ≠ .autoCheckFailed → b.status ≠ .autoCheckFailed →
          plainText .ascii comparingEnv a.content project.taskType ≠
            plainText .ascii comparingEnv b.content project.taskType) ∧
        ∃ records, formatRecords project.taskType
            (approvedRows (comparingEnv.validated .ascii) approvedRun.2.1 project) = .ok records ∧
          records.length = 2 ∧
            (records.map (recordText .ascii comparingEnv project.taskType)).Nodup := by
  refine ⟨by decide +kernel, fun project hproject ↦ ?_⟩
  obtain ⟨hsubmissions, hrecords⟩ := distinct_of_run approvedRun_spec project hproject
  have htwo : ∀ project ∈ approvedRun.2.1.projects.rows,
      (formatRecords project.taskType (approvedRows (comparingEnv.validated .ascii)
        approvedRun.2.1 project)).toOption.map List.length = some 2 := by
    decide +kernel
  have hlength := htwo project hproject
  cases hformat : formatRecords project.taskType
      (approvedRows (comparingEnv.validated .ascii) approvedRun.2.1 project) with
  | error e =>
      rw [hformat] at hlength
      cases hlength
  | ok records =>
      rw [hformat] at hlength
      exact ⟨hsubmissions, records, rfl, Option.some.inj hlength, hrecords records hformat⟩

end HumanDataFactory
