import HumanDataFactory.Qc.Newcomers

/-!
# What gate 1 decides

Every submission on record went through gate 1 when it was created, against the
submissions its project had then, and it is marked as failed exactly if the
checks did not pass.
-/

namespace HumanDataFactory

open Transact

namespace Engine

variable {env : Env} {s s' : Db} {w w' : ℕ}

/-- What gate 1 found about `sub`, and the row with which it joined the
submissions of `s`. -/
structure Validated (env : Env) (s : Db) (project : Project) (sub : Submission)
    (validation : ValidationResult) (row : Submission) (s' : Db) : Prop where
  ran : env.runAll sub.content project.taskType
    (projectFingerprints env s project.id project.taskType sub.id) = .ok validation
  entered : s'.submissions = s.submissions.push row
  kept : ∃ status sampled, row = { sub with status := status, sampledForHumanReview := sampled }
  failed : row.status = .autoCheckFailed ↔ validation.passed = false

/-- A submission is not compared with itself. -/
theorem projectFingerprints_push {sub : Submission} (hv : s.submissions.Vacant sub.id)
    (events : List AuditEvent) (projectId : String) (taskType : TaskType) :
    projectFingerprints env
        { s with submissions := s.submissions.push sub, auditEvents := events } projectId taskType
        sub.id =
      projectFingerprints env s projectId taskType sub.id := by
  simp [projectFingerprints, Table.rows_push hv, List.filter_append]

section Process

variable {sub : Submission} {task : Task} {project : Project} {expert : Expert}
  {status : SubmissionStatus} {events : List AuditEvent}

theorem validated_of_process
    (h : machine.Exec (process env sub task project expert)
      { s with submissions := s.submissions.push sub, auditEvents := events } w status s' w')
    (hv : s.submissions.Vacant sub.id) (htask : s.tasks.find? task.id = some task)
    (hexpert : s.experts.find? expert.id = some expert) (hseq : Audit.SeqBelow events w) :
    ∃ validation row, Validated env s project sub validation row s' := by
  unfold process at h
  rw [Machine.exec_ofExcept_bind] at h
  obtain ⟨rubric, _, h⟩ := h
  rw [Machine.exec_select_bind, Machine.exec_ofExcept_bind] at h
  obtain ⟨validation, hran, h⟩ := h
  rw [projectFingerprints_push hv] at hran
  rw [exec_addReview_bind] at h
  obtain ⟨id, now, hid, h⟩ := h
  cases hpassed : validation.passed with
  | false =>
      rw [if_pos hpassed] at h
      obtain ⟨aud, hentry, rfl, rfl, hseq'⟩ := exec_failAutoCheck h rfl hv hseq
      exact ⟨validation, _, hran, rfl, ⟨_, _, rfl⟩, by simp [hpassed]⟩
  | true =>
      rw [if_neg (by simp [hpassed])] at h
      cases hgold : goldAnswerOf task with
      | some goldAnswer =>
          rw [hgold] at h
          obtain ⟨passed, id', now', aud, hid', hentry, rfl, rfl, hseq'⟩ :=
            exec_goldCheck h rfl hv htask hexpert hseq
          refine ⟨validation, _, hran, rfl, ⟨_, _, rfl⟩, ?_⟩
          cases passed <;> simp [hpassed]
      | none =>
          rw [hgold] at h
          obtain ⟨result, sampled, id', now', hid', hroute, hseq', hcase⟩ :=
            exec_autoReview h rfl hv htask hexpert hseq
          rcases hcase with ⟨aud, hstatus, hentry, rfl⟩ | ⟨s₁, aud, rfl, hmeter, hentry, rfl⟩
          · refine ⟨validation, _, hran, rfl, ⟨_, _, rfl⟩, ?_⟩
            rcases hstatus with rfl | rfl <;> simp [hpassed]
          · refine ⟨validation, _, hran, (Evidence.kept_of_metered hmeter).1, ⟨_, _, rfl⟩, ?_⟩
            simp [hpassed]

end Process

/-- The submission a call of `submit` makes, before the gates. -/
structure Fresh (s : Db) (task : Task) (expert : Expert) (content : Json) (project : Project)
    (sub : Submission) : Prop where
  project : s.projects.find? task.projectId = some project
  vacant : s.submissions.Vacant sub.id
  taskId : sub.taskId = task.id
  expertId : sub.expertId = expert.id
  content : sub.content = content

theorem validated_of_submit {task : Task} {expert : Expert} {content : Json} {r : Submission}
    (h : machine.Exec (submit env task expert content) s w r s' w')
    (htask : s.tasks.find? task.id = some task)
    (hexpert : s.experts.find? expert.id = some expert) (hseq : Audit.SeqBelow s.auditEvents w) :
    ∃ project sub validation row, Fresh s task expert content project sub ∧
      Validated env s project sub validation row s' := by
  unfold submit at h
  rw [Machine.exec_select_bind, Machine.exec_getSome_bind] at h
  obtain ⟨project, hproject, h⟩ := h
  rw [Machine.exec_bind] at h
  obtain ⟨_, s₁, w₁, hqual, h⟩ := h
  obtain ⟨_, _, rfl, rfl⟩ := Controls.exec_assertQualified hqual
  rw [Machine.exec_ensure_bind, Machine.exec_select_bind] at h
  obtain ⟨_, h⟩ := h
  simp only [Session.exec_uuid4_bind, Session.exec_now_bind, Machine.exec_emit_bind,
    machine_apply, Db.apply, Option.ite_none_right_eq_some, Option.some.injEq] at h
  obtain ⟨id, now, s₂, ⟨hid, rfl⟩, h⟩ := h
  rw [Machine.exec_bind] at h
  obtain ⟨aud, s₃, w₃, haud, h⟩ := h
  obtain ⟨rfl, _, hseq₃⟩ := Audit.exec_record haud hseq
  rw [Machine.exec_bind] at h
  obtain ⟨status, s₄, w₄, hprocess, rfl, rfl, rfl⟩ := h
  obtain ⟨validation, row, hvalidated⟩ :=
    validated_of_process hprocess hid htask hexpert hseq₃
  exact ⟨project, _, validation, row, ⟨hproject, hid, rfl, rfl, rfl⟩, hvalidated⟩

theorem validated_of_exec {http : Api.Http} {r : Json} {row : Submission}
    (h : machine.Exec (Api.serve env http) s w r s' w') (hseq : Audit.SeqBelow s.auditEvents w)
    (hnew : s.submissions.Vacant row.id) (hrow : row ∈ s'.submissions) :
    ∃ task expert content project sub validation, s.tasks.find? row.taskId = some task ∧
      s.experts.find? row.expertId = some expert ∧
      Fresh s task expert (.obj content) project sub ∧
      Validated env s project sub validation row s' := by
  obtain ⟨⟨actor, heffect⟩, _⟩ := Api.exec_serve h hseq
  obtain ⟨taskId, expertId, content, hrequest⟩ :=
    Newcomers.createSubmission_of_new heffect hnew hrow
  obtain ⟨task, expert, r', htask, hexpert, hsubmit⟩ := Api.exec_serve_submission h hrequest
  have htask' := Table.find?_key htask
  have hexpert' := Table.find?_key hexpert
  obtain ⟨project, sub, validation, row', hfresh, hvalidated⟩ :=
    validated_of_submit hsubmit htask' hexpert' hseq
  obtain ⟨status, sampled, rfl⟩ := hvalidated.kept
  rw [hvalidated.entered] at hrow
  rcases (Table.mem_push (by exact hfresh.vacant)).mp hrow with hold | rfl
  · exact absurd rfl (hnew row hold)
  · refine ⟨task, expert, content, project, sub, validation, ?_, ?_, hfresh, hvalidated⟩
    · rwa [hfresh.taskId]
    · rwa [hfresh.expertId]

/-- The entry `e` of a run created `sub`, which was `row` at first. -/
structure EnteredBy (e : Served Api.Http Db Json) (row sub : Submission) : Prop where
  new : e.before.submissions.Vacant row.id
  mem : row ∈ e.after.submissions
  same : ∃ status, sub = { row with status := status }
  advances : Evidence.Advances row.status sub.status

theorem EnteredBy.later {e : Served Api.Http Db Json} {row sub sub' : Submission}
    (h : EnteredBy e row sub) (hmoved : Evidence.Moved s s') (hsub : sub ∈ s.submissions)
    (hsub' : sub' ∈ s'.submissions) (hid : sub'.id = sub.id) : EnteredBy e row sub' := by
  obtain ⟨status, rfl⟩ := h.same
  obtain ⟨status', hstable⟩ := hmoved.stable _ hsub
  obtain rfl := Table.eq_of_key hsub' hstable hid
  obtain ⟨sub'', hsub'', hid'', hadvances⟩ := hmoved.progress _ hsub
  obtain rfl := Table.eq_of_key hsub'' hsub' hid''
  exact ⟨h.new, h.mem, ⟨status', rfl⟩, h.advances.trans hadvances⟩

theorem entered_of_run {tr : List (Served Api.Http Db Json)} {w₀ : ℕ}
    (h : machine.Run (Api.serve env) Db.empty w₀ tr s w) :
    ∀ sub ∈ s.submissions, ∃ pre e post row, tr = pre ++ e :: post ∧ EnteredBy e row sub := by
  induction h with
  | nil =>
      intro sub hsub
      simp [Db.empty] at hsub
  | @snoc tr s w e w' h hb he ih =>
      subst hb
      intro sub hsub
      have hmoved : Evidence.Moved e.before e.after :=
        Evidence.moved_of_mem (h.snoc rfl he) (by simp)
      by_cases hnew : e.before.submissions.Vacant sub.id
      · exact ⟨tr, e, [], sub, rfl, hnew, hsub, ⟨sub.status, rfl⟩, Or.inl rfl⟩
      · simp only [Table.Vacant, not_forall, not_not] at hnew
        obtain ⟨old, hold, hid⟩ := hnew
        obtain ⟨pre, e', post, row, rfl, hentered⟩ := ih old hold
        exact ⟨pre, e', post ++ [e], row, by simp,
          hentered.later hmoved hold hsub hid.symm⟩

/-- What was there when a submission was created, and how gate 1 left it. -/
structure Intake where
  task : Task
  expert : Expert
  content : List (String × Json)
  project : Project
  fresh : Submission
  validation : ValidationResult
  row : Submission

/-- The entry `e` of a run took in `sub`. -/
structure Intake.Of (i : Intake) (env : Env) (e : Served Api.Http Db Json) (sub : Submission) :
    Prop where
  entered : EnteredBy e i.row sub
  task : e.before.tasks.find? sub.taskId = some i.task
  expert : e.before.experts.find? sub.expertId = some i.expert
  fresh : Fresh e.before i.task i.expert (.obj i.content) i.project i.fresh
  validated : Validated env e.before i.project i.fresh i.validation i.row e.after

variable {i : Intake} {e : Served Api.Http Db Json} {sub : Submission}

theorem Intake.Of.id_eq (h : i.Of env e sub) : sub.id = i.fresh.id := by
  obtain ⟨status, hsub⟩ := h.entered.same
  obtain ⟨status', sampled, hrow⟩ := h.validated.kept
  rw [hsub, hrow]

theorem Intake.Of.content_eq (h : i.Of env e sub) : sub.content = .obj i.content := by
  obtain ⟨status, hsub⟩ := h.entered.same
  obtain ⟨status', sampled, hrow⟩ := h.validated.kept
  rw [hsub, hrow]
  exact h.fresh.content

theorem Intake.Of.ran (h : i.Of env e sub) : env.runAll (.obj i.content) i.project.taskType
    (projectFingerprints env e.before i.project.id i.project.taskType i.fresh.id) =
      .ok i.validation := by
  have hran := h.validated.ran
  rwa [h.fresh.content] at hran

/-- Only what passed gate 1 is past it. -/
theorem Intake.Of.passed (h : i.Of env e sub) (hstatus : sub.status ≠ .autoCheckFailed) :
    i.validation.passed = true := by
  by_contra hfailed
  have hrow := h.validated.failed.mpr (by simpa using hfailed)
  rcases h.entered.advances with heq | ⟨hwaiting, _⟩
  · exact hstatus (heq.trans hrow)
  · rw [hrow] at hwaiting
    cases hwaiting

/-- Behind every submission of a run stands a request whose content gate 1
looked at. -/
theorem intake_of_run {tr : List (Served Api.Http Db Json)} {w₀ : ℕ}
    (h : machine.Run (Api.serve env) Db.empty w₀ tr s w) {sub : Submission}
    (hsub : sub ∈ s.submissions) :
    ∃ pre e post, ∃ i : Intake, tr = pre ++ e :: post ∧ i.Of env e sub := by
  obtain ⟨pre, e, post, row, rfl, hentered⟩ := entered_of_run h sub hsub
  obtain ⟨w₁, w₂, hpre, hserves, _⟩ := h.split
  cases hserves with
  | failed _ => exact absurd rfl (hentered.new row hentered.mem)
  | ok hexec =>
      obtain ⟨task, expert, content, project, fresh, validation, htask, hexpert, hfresh,
        hvalidated⟩ := validated_of_exec hexec (Evidence.kept_of_run hpre).below hentered.new
        hentered.mem
      obtain ⟨status, rfl⟩ := hentered.same
      exact ⟨pre, _, post, ⟨task, expert, content, project, fresh, validation, row⟩, rfl, hentered,
        htask, hexpert, hfresh, hvalidated⟩

end Engine

end HumanDataFactory
