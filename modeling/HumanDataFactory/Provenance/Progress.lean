import HumanDataFactory.Credentials
import HumanDataFactory.Provenance.Runs
import HumanDataFactory.Transact.Possible

/-!
# Waiting work can be done

On every database that requests lead to, a submission that waits for a human
can be judged: a review goes through exactly when its reviewer is entitled to
it.  Nothing it looks up is missing, and what it writes is refused by nothing.
-/

namespace HumanDataFactory

open Transact

theorem Table.exists_vacant {α : Type} {key : α → String} (t : Table String α key) :
    ∃ id, t.Vacant id := by
  have : Infinite String := Infinite.of_injective Nat.repr fun _ _ ↦ Json.repr_nat_inj
  obtain ⟨id, hid⟩ := Infinite.exists_notMem_finset (t.rows.map key).toFinset
  exact ⟨id, fun a ha heq ↦ hid (List.mem_toFinset.mpr (heq ▸ List.mem_map_of_mem ha))⟩

section Steps

variable {env : Env} {α : Type} {s : Db} {w : ℕ} {Q : α → Db → ℕ → Prop}

theorem Session.can_uuid4_bind {k : String → Tx α} :
    machine.Can (Session.uuid4 >>= k) s w Q ↔ ∃ id, machine.Can (k id) s w Q := by
  rw [Machine.can_ask_bind]
  simp [accept]

theorem Session.can_now_bind {k : Time → Tx α} :
    machine.Can (Session.now >>= k) s w Q ↔ ∃ now, machine.Can (k now) s w Q := by
  rw [Machine.can_ask_bind]
  simp [accept]

/-- An event can always be recorded. -/
theorem Audit.can_record_bind {actor action entityType entityId : String} {payload : Json}
    {k : AuditEvent → Tx α}
    (h : ∀ ev evs n, machine.Can (k ev) { s with auditEvents := evs } n Q) :
    machine.Can (Audit.record env actor action entityType entityId payload >>= k) s w Q := by
  rw [Machine.can_bind]
  unfold Audit.record
  rw [Machine.can_select_bind, Machine.can_ask_bind]
  refine ⟨w, w + 1, if_pos rfl, ?_⟩
  rw [Session.can_now_bind]
  refine ⟨0, ?_⟩
  rw [Machine.can_emit_bind]
  exact ⟨_, rfl, h _ _ _⟩

/-- Nothing but the rows decides about a lookup. -/
theorem Api.can_getOr404_bind {M : Machine Db Write Call Reply ℕ} {β : Type} {model id : String}
    {t : TableName} {find : Db → Option β} {k : β → Tx α} :
    M.Can (Api.getOr404 model id t find >>= k) s w Q ↔
      ∃ a, find s = some a ∧ M.Can (k a) s w Q := by
  unfold Api.getOr404
  rw [Prog.bind_assoc, Machine.can_select_bind, Machine.can_getSome_bind]

theorem Auth.can_currentActor_bind {M : Machine Db Write Call Reply ℕ} {allowed : List Role}
    {authorization xActorId : Option String} {k : Auth.Actor → Tx α} :
    M.Can (Auth.currentActor env allowed authorization xActorId >>= k) s w Q ↔
      ∃ actor, Api.Authenticates env s authorization xActorId actor ∧ actor.role ∈ allowed ∧
        M.Can (k actor) s w Q := by
  obtain ⟨r, hr⟩ : ∃ r, (Auth.resolve env authorization xActorId).answer s = some r :=
    Credentials.exists_answer_resolve _ _
  unfold Auth.currentActor Auth.requireRoles Api.Authenticates
  rw [Prog.bind_assoc, Machine.can_bind_of_answer hr]
  simp only [Prog.bind_assoc, Machine.can_ensure_bind, hr, Option.some.injEq]
  rfl

end Steps

namespace Engine

variable {env : Env} {s : Db} {w : ℕ}

/-- A review is always filed; which one does not matter when what follows does
not look at it. -/
theorem can_addReview_bind {α : Type} {submissionId reviewerId : String} {kind : ReviewKind}
    {verdict : Verdict} {overall : Option PyFloat} {detail : Json} {k : Review → Tx α}
    {Q : α → Db → ℕ → Prop} {P : Prop}
    (h : ∀ rev, machine.Can (k rev) { s with reviews := s.reviews.push rev } w Q ↔ P) :
    machine.Can (addReview submissionId kind reviewerId verdict overall detail >>= k) s w Q ↔
      P := by
  unfold addReview
  simp only [Prog.bind_assoc]
  rw [Session.can_uuid4_bind]
  simp only [Session.can_now_bind]
  constructor
  · rintro ⟨id, now, s₁, hinsert, hk⟩
    obtain ⟨-, hs₁⟩ := Option.ite_none_right_eq_some.mp hinsert
    cases hs₁
    exact (h _).mp hk
  · intro hP
    obtain ⟨id, hid⟩ := s.reviews.exists_vacant
    exact ⟨id, 0, _, if_pos hid, (h _).mpr hP⟩

/-- The trust score is updated without a question, and only experts change. -/
theorem can_updateQualityScore_bind (s : Db) (w : ℕ) (expert : Expert) (score : PyFloat) :
    ∃ e experts, ∀ {α : Type} {k : Expert → Tx α} {Q : α → Db → ℕ → Prop},
      machine.Can (Controls.updateQualityScore expert score >>= k) s w Q ↔
        machine.Can (k e) { s with experts := experts } w Q := by
  let scored (a : Expert) : Expert :=
    { a with qualityScore := Controls.ewma score expert.qualityScore }
  let experts := s.experts.modify expert.id scored fun _ ↦ rfl
  unfold Controls.updateQualityScore Controls.maybeSuspend
  by_cases hdue : Controls.dueForSuspension (scored expert)
  · refine ⟨{ scored expert with status := .suspended },
      experts.modify expert.id (fun a ↦ { a with status := .suspended }) fun _ ↦ rfl,
      fun {α k Q} ↦ ?_⟩
    simp only [Prog.bind_assoc]
    rw [Machine.can_emit_bind_of_apply rfl, if_pos hdue, Prog.bind_assoc,
      Machine.can_emit_bind_of_apply rfl]
    rfl
  · refine ⟨scored expert, experts, fun {α k Q} ↦ ?_⟩
    simp only [Prog.bind_assoc]
    rw [Machine.can_emit_bind_of_apply rfl, if_neg hdue]
    rfl

theorem answer_resolveUnitPriceCents (firmId : String) (taskType : TaskType) :
    (Billing.resolveUnitPriceCents env firmId taskType).answer s =
      some (.ok (Billing.unitPriceCents env s firmId taskType)) := by
  unfold Billing.resolveUnitPriceCents Billing.unitPriceCents
  rw [Prog.answer_select_bind]
  cases Billing.newestRate env s (some firmId) taskType with
  | some row => rfl
  | none =>
      dsimp only
      rw [Prog.answer_select_bind]
      cases Billing.newestRate env s none taskType <;> rfl

/-- A record can be metered unless its task is metered twice already. -/
theorem can_recordApprovedRecord_bind {α : Type} {project : Project} {task : Task}
    {sub : Submission} (hgold : task.isGold = false)
    (hfirm : ∃ firm, s.firms.find? project.firmId = some firm) {k : Option UsageEvent → Tx α}
    {Q : α → Db → ℕ → Prop}
    (h : ∀ r usage evs n,
      machine.Can (k r) { s with usageEvents := usage, auditEvents := evs } n Q) :
    machine.Can (Billing.recordApprovedRecord env project task sub >>= k) s w Q ↔
      (Billing.approvedRecordEvents s task.id).length ≤ 1 := by
  unfold Billing.recordApprovedRecord
  rw [if_neg (by simp [hgold]), Prog.bind_assoc, Machine.can_select_bind]
  rcases Billing.approvedRecordEvents s task.id with _ | ⟨a, _ | ⟨b, rest⟩⟩
  · refine iff_of_true ?_ (by simp)
    obtain ⟨firm, hfirm⟩ := hfirm
    obtain ⟨id, hid⟩ := s.usageEvents.exists_vacant
    rw [Machine.can_bind]
    change machine.Can (Billing.meter env project task sub) s w _
    unfold Billing.meter
    rw [Machine.can_select_bind, Machine.can_getSome_bind]
    refine ⟨firm, hfirm, ?_⟩
    rw [Machine.can_bind_of_answer (answer_resolveUnitPriceCents _ _)]
    refine ⟨_, rfl, ?_⟩
    rw [Session.can_uuid4_bind]
    refine ⟨id, ?_⟩
    rw [Session.can_now_bind]
    refine ⟨0, ?_⟩
    rw [Machine.can_emit_bind]
    exact ⟨_, if_pos hid, Audit.can_record_bind fun _ _ _ ↦ h _ _ _ _⟩
  · exact iff_of_true (h none _ _ w) (by simp)
  · refine iff_of_false ?_ (by simp)
    exact id

/-- A verdict can be applied unless it is to meter a task that is metered twice
already. -/
theorem can_applyVerdict_bind {α : Type} {sub : Submission} {task : Task} {project : Project}
    {author : Expert} {overall : Option PyFloat} {verdict : Verdict} (hgold : task.isGold = false)
    (hfirm : ∃ firm, s.firms.find? project.firmId = some firm) {k : SubmissionStatus → Tx α}
    {Q : α → Db → ℕ → Prop} (h : ∀ status s₁ n, machine.Can (k status) s₁ n Q) :
    machine.Can (applyVerdict env sub task project (some author) overall verdict >>= k) s w Q ↔
      (verdict = .pass → (Billing.approvedRecordEvents s task.id).length ≤ 1) := by
  cases verdict with
  | pass =>
      simp only [applyVerdict, passVerdict, Prog.bind_assoc, true_imp_iff]
      rw [Machine.can_emit_bind_of_apply rfl, Machine.can_emit_bind_of_apply rfl,
        Machine.can_getSome_bind]
      simp only [Option.some.injEq, exists_eq_left']
      rw [Machine.can_emit_bind_of_apply rfl]
      obtain ⟨e, experts, hscore⟩ := can_updateQualityScore_bind _ w
        { author with approvedCount := author.approvedCount + 1 } (overall.getD (.finite 4))
      rw [hscore]
      refine (can_recordApprovedRecord_bind hgold ?_ fun _ _ _ _ ↦ h _ _ _).trans Iff.rfl
      exact hfirm
  | revise =>
      simp only [applyVerdict, reviseVerdict, Prog.bind_assoc]
      rw [Machine.can_emit_bind_of_apply rfl]
      exact iff_of_true (h _ _ _) (by simp)
  | fail =>
      simp only [applyVerdict, failVerdict, Prog.bind_assoc]
      rw [Machine.can_emit_bind_of_apply rfl, Machine.can_getSome_bind]
      simp only [Option.some.injEq, exists_eq_left']
      obtain ⟨e, experts, hscore⟩ := can_updateQualityScore_bind _ w author
        (overall.getD (.finite 1))
      rw [hscore]
      exact iff_of_true (h _ _ _) (by simp)

end Engine

namespace Provenance

variable {env : Env} {s : Db} {w : ℕ}

def scoresOf (body : Api.HumanReviewIn) : List Json :=
  (body.criterionScores.getD []).map Json.obj

/-- The scores can be weighed by the rubric of the submission's project. -/
def Weighable (env : Env) (s : Db) (sub : Submission) (scores : List Json) : Prop :=
  ∀ task project rubric, s.tasks.find? sub.taskId = some task →
    s.projects.find? task.projectId = some project → getRubric project.rubricId = .ok rubric →
    ∃ overall, Engine.overallOf env rubric scores = .ok overall

/-- Every score that can be read off the rows is a finite number; what a database
makes of `nan` is left open. -/
def FiniteScores (env : Env) (scores : List Json) : Prop :=
  ∀ row ∈ scores, ∀ x, row.index "score" >>= Json.toFloat env.parseFloat = .ok x →
    ∃ q, x = .finite q

/-- The actor may hand in this review of a submission that waits for it. -/
structure Reviewable (env : Env) (s : Db) (actor : Auth.Actor) (submissionId : String)
    (body : Api.HumanReviewIn) (sub : Submission) (reviewer : Expert) : Prop where
  role : actor.role ∈ Api.reviewRoles
  self : ¬(actor.role = .reviewer ∧ some body.reviewerId ≠ actor.expertId)
  submissionFound : s.submissions.find? submissionId = some sub
  reviewerFound : s.experts.find? body.reviewerId = some reviewer
  waiting : sub.status = .humanReview
  independent : reviewer.id ≠ sub.expertId
  isReviewer : reviewer.isReviewer = true
  qualified : reviewer.status = .qualified
  weighable : Weighable env s sub (scoresOf body)
  metered : body.verdict = .pass → (Billing.approvedRecordEvents s sub.taskId).length ≤ 1

/-- What a review of a waiting submission looks up is there. -/
structure Surroundings (env : Env) (s : Db) (sub : Submission) (task : Task) (project : Project)
    (rubric : Rubric) (author : Expert) : Prop where
  taskFound : s.tasks.find? sub.taskId = some task
  notGold : task.isGold = false
  projectFound : s.projects.find? task.projectId = some project
  rubricFound : getRubric project.rubricId = .ok rubric
  firmFound : ∃ firm, s.firms.find? project.firmId = some firm
  authorFound : s.experts.find? sub.expertId = some author

theorem find?_of_key {α : Type} {key : α → String} {t : Table String α key} {k : String}
    (h : ∃ a ∈ t, key a = k) : ∃ a, t.find? k = some a := by
  obtain ⟨a, ha, hk⟩ := h
  exact ⟨a, Table.find?_eq_some.mpr ⟨ha, hk⟩⟩

theorem Reached.surroundings (h : Reached env s) {sub : Submission} (hsub : sub ∈ s.submissions)
    (hstatus : sub.status = .humanReview) :
    ∃ task project rubric author, Surroundings env s sub task project rubric author := by
  have hgrounds : SubmissionGrounds s sub := h.grounded (x := .submission sub) hsub
  have hcleared := hgrounds.cleared
  rw [hstatus] at hcleared
  obtain ⟨_, ⟨task, htask, hid, hgold⟩, _⟩ := hcleared
  have htaskGrounds : TaskGrounds s task := h.grounded (x := .task task) htask
  obtain ⟨project, hproject, hpid⟩ := htaskGrounds.project
  have hprojectGrounds : ProjectGrounds env s project :=
    h.grounded (x := .project project) hproject
  obtain ⟨author, hauthor⟩ := find?_of_key hgrounds.expert
  obtain ⟨rubric, hrubric⟩ : ∃ rubric, getRubric project.rubricId = .ok rubric := by
    obtain ⟨r, hr, hrid⟩ := List.mem_map.mp hprojectGrounds.rubric
    have hfound : (Rubrics.all.find? fun r ↦ r.id = project.rubricId).isSome = true :=
      List.find?_isSome.mpr ⟨r, hr, by simpa using hrid⟩
    obtain ⟨rubric, hrubric⟩ := Option.isSome_iff_exists.mp hfound
    exact ⟨rubric, by rw [getRubric, hrubric]⟩
  exact ⟨task, project, rubric, author, Table.find?_eq_some.mpr ⟨htask, hid⟩, hgold,
    Table.find?_eq_some.mpr ⟨hproject, hpid⟩, hrubric, find?_of_key hprojectGrounds.firm, hauthor⟩

theorem Surroundings.weighable_iff {sub : Submission} {task : Task} {project : Project}
    {rubric : Rubric} {author : Expert} (h : Surroundings env s sub task project rubric author)
    {scores : List Json} :
    Weighable env s sub scores ↔ ∃ overall, Engine.overallOf env rubric scores = .ok overall := by
  constructor
  · intro hscores
    exact hscores task project rubric h.taskFound h.projectFound h.rubricFound
  · intro hscores task' project' rubric' htask hproject hrubric
    rw [h.taskFound] at htask
    cases htask
    rw [h.projectFound] at hproject
    cases hproject
    rw [h.rubricFound] at hrubric
    cases hrubric
    exact hscores

/-- With everything there, a review of a waiting submission asks for an
independent reviewer, scores that can be weighed, and a task that can be
metered when it is to be. -/
theorem servable_humanReview {sub : Submission} {reviewer : Expert} {verdict : Verdict}
    {scores : List Json} {comments : String} {task : Task} {project : Project} {rubric : Rubric}
    {author : Expert} (hstatus : sub.status = .humanReview)
    (h : Surroundings env s sub task project rubric author) :
    machine.Servable (Engine.humanReview env sub reviewer verdict scores comments) s w ↔
      reviewer.id ≠ sub.expertId ∧ reviewer.isReviewer = true ∧ reviewer.status = .qualified ∧
        Weighable env s sub scores ∧
          (verdict = .pass → (Billing.approvedRecordEvents s sub.taskId).length ≤ 1) := by
  rw [h.weighable_iff]
  obtain ⟨htask, hgold, hproject, hrubric, hfirm, hauthor⟩ := h
  unfold Machine.Servable Engine.humanReview Controls.assertReviewerIndependent
  rw [Machine.can_ensure_bind, and_iff_right hstatus]
  simp only [Prog.bind_assoc]
  rw [Machine.can_ensure_bind, Machine.can_ensure_bind, Machine.can_ensure_bind,
    Machine.can_select_bind, Machine.can_getSome_bind]
  simp only [htask, Option.some.injEq, exists_eq_left']
  rw [Machine.can_select_bind, Machine.can_getSome_bind]
  simp only [hproject, Option.some.injEq, exists_eq_left']
  rw [Machine.can_ofExcept_bind]
  simp only [hrubric, Except.ok.injEq, exists_eq_left']
  rw [Machine.can_select_bind, Machine.can_ofExcept_bind, hauthor]
  -- What is left writes, and only the meter can refuse.
  refine (and_congr_right fun _ ↦ and_congr_right fun _ ↦ and_congr_right fun _ ↦
    exists_congr fun overall ↦ and_congr_right fun _ ↦ Engine.can_addReview_bind
      (P := verdict = .pass → (Billing.approvedRecordEvents s task.id).length ≤ 1) fun rev ↦
        Engine.can_applyVerdict_bind hgold ?_ fun status s₁ n ↦ ?_).trans ?_
  · exact hfirm
  · exact Audit.can_record_bind fun _ _ _ ↦ trivial
  · rw [Table.key_of_find? htask]
    simp only [exists_and_right]

theorem Reached.servable_humanReview_iff (h : Reached env s) {sub : Submission}
    (hsub : sub ∈ s.submissions) (reviewer : Expert) (verdict : Verdict) (scores : List Json)
    (comments : String) :
    machine.Servable (Engine.humanReview env sub reviewer verdict scores comments) s w ↔
      sub.status = .humanReview ∧ reviewer.id ≠ sub.expertId ∧ reviewer.isReviewer = true ∧
        reviewer.status = .qualified ∧ Weighable env s sub scores ∧
          (verdict = .pass → (Billing.approvedRecordEvents s sub.taskId).length ≤ 1) := by
  by_cases hstatus : sub.status = .humanReview
  · obtain ⟨task, project, rubric, author, hfound⟩ := h.surroundings hsub hstatus
    rw [and_iff_right hstatus]
    exact servable_humanReview hstatus hfound
  · refine iff_of_false ?_ fun hserved ↦ hstatus hserved.1
    unfold Machine.Servable Engine.humanReview
    rw [Machine.can_ensure_bind]
    exact fun hserved ↦ hstatus hserved.1

/-- On every database that requests lead to, a review with finite scores is
served exactly when its sender may hand it in. -/
theorem review_served_iff (h : Reached env s) {authorization xActorId : Option String}
    {submissionId : String} {body : Api.HumanReviewIn} : FiniteScores env (scoresOf body) →
    (machine.Servable (Api.serve env ⟨authorization, xActorId, .postHumanReview submissionId body⟩)
        s w ↔
      ∃ actor sub reviewer, Api.Authenticates env s authorization xActorId actor ∧
        Reviewable env s actor submissionId body sub reviewer) := by
  intro _
  unfold Machine.Servable Api.serve
  simp only [Api.rolesOf, Api.handle, Api.postHumanReview, Api.getSubmission, Api.getExpert]
  rw [Auth.can_currentActor_bind]
  simp only [Machine.can_ensure_bind, Api.can_getOr404_bind]
  have hserved (sub : Submission) (hsub : sub ∈ s.submissions) (reviewer : Expert) :=
    h.servable_humanReview_iff (w := w) hsub reviewer body.verdict (scoresOf body) body.comments
  constructor
  · rintro ⟨actor, hactor, hrole, hself, sub, hsub, reviewer, hreviewer, hcan⟩
    rw [Machine.can_bind, Machine.can_mapErr] at hcan
    obtain ⟨hwaiting, hindependent, hholds, hqualified, hweighable, hmetered⟩ :=
      (hserved sub (Table.mem_of_find? hsub) reviewer).mp hcan
    exact ⟨actor, sub, reviewer, hactor, hrole, hself, hsub, hreviewer, hwaiting, hindependent,
      hholds, hqualified, hweighable, hmetered⟩
  · rintro ⟨actor, sub, reviewer, hactor, hrole, hself, hsub, hreviewer, hwaiting, hindependent,
      hholds, hqualified, hweighable, hmetered⟩
    refine ⟨actor, hactor, hrole, hself, sub, hsub, reviewer, hreviewer, ?_⟩
    rw [Machine.can_bind, Machine.can_mapErr]
    exact (hserved sub (Table.mem_of_find? hsub) reviewer).mpr
      ⟨hwaiting, hindependent, hholds, hqualified, hweighable, hmetered⟩

/-- The first submission waits, and the reviewer's pass is served. -/
theorem review_served_iff_firstSubmission :
    machine.Servable (Api.serve Development.env (Development.http (Development.review .pass)))
      (Development.run Development.firstSubmission).2.1 0 := by
  have hsubmissions : ∀ sub ∈ (Development.run Development.firstSubmission).2.1.submissions.rows,
      sub.status = .humanReview ∧ sub.expertId = Development.authorId := by decide +kernel
  have hsub : ((Development.run Development.firstSubmission).2.1.submissions.find?
      Development.submissionId).isSome = true := by decide +kernel
  have hreviewers : ∀ e ∈ (Development.run Development.firstSubmission).2.1.experts.rows,
      e.id = Development.reviewerId → e.isReviewer = true ∧ e.status = .qualified := by
    decide +kernel
  have hreviewer : ((Development.run Development.firstSubmission).2.1.experts.find?
      Development.reviewerId).isSome = true := by decide +kernel
  have hmetered : (Development.run Development.firstSubmission).2.1.usageEvents.rows.length = 0 :=
    by decide +kernel
  obtain ⟨sub, hsub⟩ := Option.isSome_iff_exists.mp hsub
  obtain ⟨reviewer, hreviewer⟩ := Option.isSome_iff_exists.mp hreviewer
  obtain ⟨hwaiting, hauthor⟩ := hsubmissions sub (Table.mem_of_find? hsub)
  have hid : reviewer.id = Development.reviewerId := Table.key_of_find? hreviewer
  obtain ⟨hholds, hqualified⟩ := hreviewers reviewer (Table.mem_of_find? hreviewer) hid
  refine (review_served_iff (.of_run (Development.run_spec _)) ?_).mpr
    ⟨_, sub, reviewer, rfl, ?_⟩
  · exact fun _ hrow ↦ absurd hrow List.not_mem_nil
  exact
    { role := by decide
      self := by decide
      submissionFound := hsub
      reviewerFound := hreviewer
      waiting := hwaiting
      independent := by rw [hid, hauthor]; decide
      isReviewer := hholds
      qualified := hqualified
      weighable := fun _ _ _ _ _ _ ↦ ⟨none, rfl⟩
      metered := by
        intro _
        unfold Billing.approvedRecordEvents
        exact (List.length_filter_le _ _).trans (by omega) }

end Provenance

end HumanDataFactory
