import HumanDataFactory.Qc.Duplicates

/-!
# Revise and resubmit

Gate 1 compares a submission with all others of its project, and so a revision
with the version it revises.  One that keeps the main text fails.
-/

namespace HumanDataFactory

open Transact

namespace Validators

variable {u : Unicode} {env : Env}

/-- Content without other errors fails as a duplicate and as nothing else. -/
theorem runAll_duplicate {content : List (String × Json)} {taskType : TaskType}
    {existing : List String} {v : ValidationResult} (hsound : Sound u env content taskType)
    (hdup : fingerprint u env content taskType ∈ existing)
    (h : runAll u env (.obj content) taskType existing = .ok v) :
    v.errors.map Finding.code = ["DUPLICATE_CONTENT"] := by
  simp only [runAll, dictionary, findings, bind_eq_ok] at h
  obtain ⟨_, hdict, found, ⟨financial, hfinancial, hfound⟩, h⟩ := h
  obtain rfl := Except.ok.inj hdict
  obtain rfl := Except.ok.inj hfound
  obtain rfl := Except.ok.inj (hfinancial.symm.trans hsound.financial)
  obtain rfl := Except.ok.inj h
  have hwarnings : ∀ fs : List Finding, Silent fs →
      fs.filter (fun f ↦ f.severity = .error) = [] := by
    intro fs hfs
    simpa [Silent] using hfs
  simp only [ValidationResult.errors, List.filter_append, hsound.schema,
    checkPlaceholders_eq_nil.mpr hsound.placeholders, hwarnings _ hsound.pii,
    hwarnings _ hsound.citations, checkDuplicate, if_pos hdup]
  rfl

end Validators

namespace Engine

open Validators

variable {u : Unicode} {env : Env} {s s' : Db} {w w' : ℕ}

variable (u env) in
/-- `content` is a revision of `prior`, which held `before`: the main text is
the same, the rest is in order, and nobody else in the project has that text. -/
structure Revision (s : Db) (project : Project) (prior : Submission)
    (before content : List (String × Json)) : Prop where
  known : project ∈ s.projects
  recorded : prior ∈ s.submissions
  within : Within s project prior
  ended : prior.status = .autoCheckFailed ∨ prior.status = .needsRevision
  holds : prior.content = .obj before
  text : mainText env content project.taskType = mainText env before project.taskType
  sound : Sound u env content project.taskType
  alone : ∀ other ∈ s.submissions, Within s project other →
    (other.taskId ≠ prior.taskId ∨ other.expertId ≠ prior.expertId) →
    plainText u env other.content project.taskType ≠
      plainText u env (.obj content) project.taskType

/-- The version that is revised is among the fingerprints. -/
theorem Revision.mem {project : Project} {prior : Submission}
    {before content : List (String × Json)}
    (h : Revision u env s project prior before content) {excluded : String}
    (hne : prior.id ≠ excluded) : fingerprint u env content project.taskType ∈
      projectFingerprints (env.validated u) s project.id project.taskType excluded := by
  obtain ⟨task, htask, hid, hof⟩ := h.within
  refine List.mem_map.mpr ⟨prior, List.mem_filter.mpr ⟨h.recorded, ?_⟩, ?_⟩
  · simp only [List.any_eq_true, decide_eq_true_eq]
    exact ⟨hne, task, htask, hid, hof⟩
  · change contentFingerprint u env prior.content project.taskType = _
    rw [h.holds, contentFingerprint, fingerprint, fingerprint, h.text]

/-- What serving a submission request entered, and what gate 1 found. -/
theorem validated_of_serve {http : Api.Http} {taskId expertId : String}
    {content : List (String × Json)} {r : Json}
    (h : machine.Exec (Api.serve env http) s w r s' w')
    (hrequest : http.request = .createSubmission taskId expertId content)
    (hseq : Audit.SeqBelow s.auditEvents w) :
    ∃ task expert project sub validation row, s.tasks.find? taskId = some task ∧
      s.experts.find? expertId = some expert ∧ Fresh s task expert (.obj content) project sub ∧
      Validated env s project sub validation row s' := by
  obtain ⟨task, expert, r', htask, hexpert, hsubmit⟩ := Api.exec_serve_submission h hrequest
  obtain ⟨project, sub, validation, row, hfresh, hvalidated⟩ :=
    validated_of_submit hsubmit (Table.find?_key htask) (Table.find?_key hexpert) hseq
  exact ⟨task, expert, project, sub, validation, row, htask, hexpert, hfresh, hvalidated⟩

/-- In every run, a revision that keeps the main text fails gate 1: it is a
duplicate of the version it revises. -/
theorem revision_fails {tr : List (Served Api.Http Db Json)} {w₀ : ℕ}
    (h : machine.Run (Api.serve (env.validated u)) Db.empty w₀ tr s w) {project : Project}
    {prior : Submission} {before content : List (String × Json)}
    (hrevision : Revision u env s project prior before content) {http : Api.Http}
    (hrequest : http.request = .createSubmission prior.taskId prior.expertId content) {r : Json}
    (hexec : machine.Exec (Api.serve (env.validated u) http) s w r s' w') :
    ∃ sub validation row, Validated (env.validated u) s project sub validation row s' ∧
      row.taskId = prior.taskId ∧ row.expertId = prior.expertId ∧ row.content = .obj content ∧
      validation.errors.map Finding.code = ["DUPLICATE_CONTENT"] ∧
      row.status = .autoCheckFailed := by
  obtain ⟨task, expert, project', sub, validation, row, htask, hexpert, hfresh, hvalidated⟩ :=
    validated_of_serve hexec hrequest (Evidence.kept_of_run h).below
  obtain ⟨htask, hid⟩ := Table.find?_eq_some.mp htask
  -- the project is the one of the earlier version
  have hproject : project' = project := by
    obtain ⟨task', htask', hid', hof⟩ := hrevision.within
    obtain rfl := Table.eq_of_key htask htask' (hid.trans hid'.symm)
    obtain ⟨hmem, hkey⟩ := Table.find?_eq_some.mp hfresh.project
    exact Table.eq_of_key hmem hrevision.known (hkey.trans hof)
  subst hproject
  have hran := hvalidated.ran
  rw [hfresh.content] at hran
  have hmem := hrevision.mem (hfresh.vacant prior hrevision.recorded)
  have hcodes := runAll_duplicate hrevision.sound hmem hran
  have hfailed : validation.passed = false := by
    cases hpassed : validation.passed with
    | false => rfl
    | true =>
        obtain ⟨_, hfresh', _⟩ := runAll_passed_iff.mp ⟨hran, hpassed⟩
        exact absurd hmem hfresh'
  obtain ⟨status, sampled, hrow⟩ := hvalidated.kept
  refine ⟨sub, validation, row, hvalidated, ?_, ?_, ?_, hcodes, hvalidated.failed.mpr hfailed⟩
  · rw [hrow]
    exact hfresh.taskId.trans hid
  · rw [hrow]
    exact hfresh.expertId.trans (Table.key_of_find? hexpert)
  · rw [hrow]
    exact hfresh.content

end Engine

namespace Development

open Validators

/-- A submission without citations, which gate 1 turns down. -/
def uncitedNumber (n : ℤ) : List (String × Json) :=
  [("response", .int n)]

def uncitedRun : List (Served Api.Http Db Json) × Db × ℕ :=
  machine.simulateRun answers (Api.serve (comparingEnv.validated .ascii))
    ((submissionOf (uncitedNumber 1)).map http) 1 Db.empty 1

theorem uncitedRun_spec : machine.Run (Api.serve (comparingEnv.validated .ascii)) Db.empty 1
    uncitedRun.1 uncitedRun.2.1 uncitedRun.2.2 :=
  Machine.run_of_simulateRun _ _ _ _ _

/-- The same response, cited. -/
def resubmission : Api.Http :=
  http (.createSubmission taskId authorId (contentNumber 1))

def resubmitted : Option (Json × ℕ × Db × ℕ) :=
  machine.simulate answers (Api.serve (comparingEnv.validated .ascii) resubmission) 30
    uncitedRun.2.1 uncitedRun.2.2

theorem sound_contentNumber : Sound .ascii comparingEnv (contentNumber 1) .sft := by
  have hpassed : Validators.runAll .ascii comparingEnv (.obj (contentNumber 1)) .sft [] =
      .ok ⟨[]⟩ := by decide +kernel
  exact (runAll_passed_iff.mp ⟨hpassed, rfl⟩).1

/-- The main text of a dictionary. -/
def mainTextOf : Json → Option String
  | .obj content => some (mainText comparingEnv content .sft)
  | _ => none

theorem revision_resubmission : ∃ project prior before,
    Engine.Revision .ascii comparingEnv uncitedRun.2.1 project prior before (contentNumber 1) ∧
      prior.taskId = taskId ∧ prior.expertId = authorId := by
  have hprojects : uncitedRun.2.1.projects.rows.map (fun p ↦ (p.id, p.taskType)) =
      [(projectId, .sft)] := by decide +kernel
  have htasks : uncitedRun.2.1.tasks.rows.map (fun t ↦ (t.id, t.projectId)) =
      [(taskId, projectId)] := by decide +kernel
  have hsubmissions : uncitedRun.2.1.submissions.rows.map
      (fun sub ↦ (sub.taskId, sub.expertId, sub.status, mainTextOf sub.content)) =
        [(taskId, authorId, .autoCheckFailed, mainTextOf (.obj (contentNumber 1)))] := by
    decide +kernel
  obtain ⟨project, hproject, hprojectFacts⟩ := List.map_eq_singleton_iff.mp hprojects
  obtain ⟨task, htask, htaskFacts⟩ := List.map_eq_singleton_iff.mp htasks
  obtain ⟨prior, hprior, hpriorFacts⟩ := List.map_eq_singleton_iff.mp hsubmissions
  simp only [Prod.mk.injEq] at hprojectFacts htaskFacts hpriorFacts
  obtain ⟨hprojectId, htaskType⟩ := hprojectFacts
  obtain ⟨htaskId, htaskProject⟩ := htaskFacts
  obtain ⟨hpriorTask, hpriorExpert, hstatus, htext⟩ := hpriorFacts
  cases hcontent : prior.content with
  | obj before =>
      rw [hcontent] at htext
      refine ⟨project, prior, before, ⟨?_, ?_, ?_, Or.inl hstatus, hcontent, ?_, ?_, ?_⟩,
        hpriorTask, hpriorExpert⟩
      · exact List.mem_of_mem_head? (by rw [hproject]; rfl)
      · exact List.mem_of_mem_head? (by rw [hprior]; rfl)
      · exact ⟨task, List.mem_of_mem_head? (by rw [htask]; rfl), htaskId.trans hpriorTask.symm,
          htaskProject.trans hprojectId.symm⟩
      · rw [htaskType]
        exact (Option.some.inj htext).symm
      · rw [htaskType]
        exact sound_contentNumber
      · intro other hother _ hne
        have honly : other ∈ uncitedRun.2.1.submissions.rows := hother
        rw [hprior, List.mem_singleton] at honly
        simp [honly] at hne
  | _ =>
      rw [hcontent] at htext
      cases htext

end Development

open Development

theorem Engine.revision_fails_uncited : ∃ project prior before r s' w',
    Revision .ascii comparingEnv uncitedRun.2.1 project prior before (contentNumber 1) ∧
      machine.Exec (Api.serve (comparingEnv.validated .ascii) resubmission) uncitedRun.2.1
        uncitedRun.2.2 r s' w' ∧
      ∃ sub validation row, Validated (comparingEnv.validated .ascii) uncitedRun.2.1 project sub
          validation row s' ∧
        row.taskId = prior.taskId ∧ row.expertId = prior.expertId ∧
        row.content = .obj (contentNumber 1) ∧
        validation.errors.map Finding.code = ["DUPLICATE_CONTENT"] ∧
        row.status = .autoCheckFailed := by
  obtain ⟨project, prior, before, hrevision, htask, hexpert⟩ := revision_resubmission
  have hsome : resubmitted.isSome = true := by decide +kernel
  obtain ⟨⟨r, n, s', w'⟩, hresult⟩ := Option.isSome_iff_exists.mp hsome
  have hexec := Machine.exec_of_simulate hresult
  refine ⟨project, prior, before, r, s', w', hrevision, hexec, ?_⟩
  exact revision_fails uncitedRun_spec hrevision (by rw [htask, hexpert]; rfl) hexec

/-- A submission without citations and the same one with them: the second one
fails, too. -/
theorem Engine.cited_revision_fails : ∃ project prior before r s' w',
    machine.Run (Api.serve (comparingEnv.validated .ascii)) Db.empty 1 uncitedRun.1 uncitedRun.2.1
        uncitedRun.2.2 ∧
      Revision .ascii comparingEnv uncitedRun.2.1 project prior before (contentNumber 1) ∧
      resubmission.request = .createSubmission prior.taskId prior.expertId (contentNumber 1) ∧
      machine.Exec (Api.serve (comparingEnv.validated .ascii) resubmission) uncitedRun.2.1
        uncitedRun.2.2 r s' w' ∧
      ∃ row ∈ s'.submissions, uncitedRun.2.1.submissions.Vacant row.id ∧
        row.status = .autoCheckFailed := by
  obtain ⟨project, prior, before, hrevision, htask, hexpert⟩ := revision_resubmission
  have hfailed : (resubmitted.any fun result ↦ result.2.2.1.submissions.rows.any fun row ↦
      decide (uncitedRun.2.1.submissions.Vacant row.id ∧ row.status = .autoCheckFailed)) =
        true := by decide +kernel
  obtain ⟨⟨r, n, s', w'⟩, hresult, hrow⟩ := (Option.any_eq_true _ _).mp hfailed
  refine ⟨project, prior, before, r, s', w', uncitedRun_spec, hrevision, ?_,
    Machine.exec_of_simulate hresult, ?_⟩
  · rw [htask, hexpert]
    rfl
  · obtain ⟨row, hmem, hfacts⟩ := List.any_eq_true.mp hrow
    exact ⟨row, hmem, of_decide_eq_true hfacts⟩

end HumanDataFactory
