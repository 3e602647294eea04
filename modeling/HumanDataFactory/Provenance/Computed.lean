import HumanDataFactory.Provenance.Footprint
import HumanDataFactory.Qc.Duplicates

/-!
# Reviews can be computed again

A review says what the code makes of rows that never change: the content of a
submission, the answer and the prompt of its task, the type and the rubric of
its project.  So whatever ran at the same time, the verdicts in the database
are the verdicts that the validators, the comparison, the model's reply and the
rubric give.
-/

namespace HumanDataFactory

open Transact

namespace AutoReviewer

/-- What gate 3 can come to: the review made of some reply, or the offline
one. -/
def Outcome (env : Env) (taskType : TaskType) (content : Json) (rubric : Rubric)
    (validation : ValidationResult) (result : AutoReview) : Prop :=
  (∃ reply, env.anthropicAvailable = true ∧ reviewWithClaude env rubric reply = .ok result) ∨
    result = reviewHeuristic env taskType content rubric validation

theorem Outcome.sound {env : Env} {taskType : TaskType} {content : Json} {rubric : Rubric}
    {validation : ValidationResult} {result : AutoReview}
    (h : Outcome env taskType content rubric validation result) (hpassed : result.passed = true) :
    result.Sound := by
  rcases h with ⟨reply, _, hreply⟩ | rfl
  · exact reviewWithClaude_sound hreply hpassed
  · simp [reviewHeuristic] at hpassed

end AutoReviewer

namespace Provenance

variable (env : Env)

/-! ## What a review says -/

def verdictOf (passed : Bool) (otherwise : Verdict) : Verdict :=
  if passed then .pass else otherwise

/-- Gate 1 looked at the content, among some fingerprints of the project. -/
def Validated (sub : Submission) (project : Project) (r : Review) : Prop :=
  ∃ seen validation, env.runAll sub.content project.taskType seen = .ok validation ∧
    r.verdict = verdictOf validation.passed .fail ∧ r.detail = validation.asDict

/-- The content was compared with the answer of the task. -/
def Compared (sub : Submission) (task : Task) (project : Project) (r : Review) : Prop :=
  ∃ answer passed, Engine.goldAnswerOf task = some answer ∧
    Controls.goldAnswerMatches env sub.content answer project.taskType = .ok passed ∧
      r.verdict = verdictOf passed .fail

/-- Gate 3 looked at content that gate 1 had passed. -/
def ModelReviewed (sub : Submission) (project : Project) (r : Review) : Prop :=
  ∃ rubric seen validation result, getRubric project.rubricId = .ok rubric ∧
    env.runAll sub.content project.taskType seen = .ok validation ∧ validation.passed = true ∧
      AutoReviewer.Outcome env project.taskType sub.content rubric validation result ∧
        r.reviewerId = result.reviewerId ∧ r.verdict = verdictOf result.passed .revise ∧
          r.overallScore = some result.overallScore ∧ r.detail = result.asDetail env

/-- The scores that were handed in make the overall score. -/
def Weighed (project : Project) (r : Review) : Prop :=
  ∃ rubric scores comments, getRubric project.rubricId = .ok rubric ∧
    Engine.overallOf env rubric scores = .ok r.overallScore ∧
      r.detail = .obj [("criterion_scores", .arr scores), ("comments", .str comments)]

def Says (sub : Submission) (task : Task) (project : Project) (r : Review) : Prop :=
  match r.kind with
  | .deterministic => Validated env sub project r
  | .goldCheck => Compared env sub task project r
  | .autoLlm => ModelReviewed env sub project r
  | .human => Weighed env project r

/-- The review says what is computed from the rows it is about. -/
def Computed (s : Db) (r : Review) : Prop :=
  ∃ sub ∈ s.submissions, ∃ task ∈ s.tasks, ∃ project ∈ s.projects,
    sub.id = r.submissionId ∧ task.id = sub.taskId ∧ project.id = task.projectId ∧
      Says env sub task project r

variable {env} {s t : Db}

theorem Computed.mono {r : Review} (hst : s.Grows t) (h : Computed env s r) : Computed env t r := by
  obtain ⟨sub, hsub, task, htask, project, hproject, hid, htid, hpid, hstates⟩ := h
  obtain ⟨status, sampled, hsub⟩ := hst.submission hsub
  obtain ⟨taskStatus, assignedTo, htask⟩ := hst.task htask
  refine ⟨_, hsub, _, htask, project, hst.project hproject, hid, htid, hpid, ?_⟩
  unfold Says at hstates ⊢
  cases hkind : r.kind <;> simp only [hkind] at hstates ⊢ <;> exact hstates

/-- What the engine holds is on file, as far as a review looks at it. -/
structure OnFile (s : Db) (sub : Submission) (task : Task) (project : Project) : Prop where
  submission : ∃ a ∈ s.submissions, a.id = sub.id ∧ a.taskId = task.id ∧ a.content = sub.content
  task : ∃ a ∈ s.tasks, a.id = task.id ∧ a.projectId = project.id ∧
    Engine.goldAnswerOf a = Engine.goldAnswerOf task
  project : project ∈ s.projects

namespace OnFile

variable {sub : Submission} {task : Task} {project : Project}

theorem mono (hst : s.Grows t) (h : OnFile s sub task project) : OnFile t sub task project where
  submission := by
    obtain ⟨a, ha, hof⟩ := h.submission
    obtain ⟨_, _, hb⟩ := hst.submission ha
    exact ⟨_, hb, hof⟩
  task := by
    obtain ⟨a, ha, hof⟩ := h.task
    obtain ⟨_, _, hb⟩ := hst.task ha
    exact ⟨_, hb, hof⟩
  project := hst.project h.project

theorem computed (h : OnFile s sub task project) {r : Review} (hid : r.submissionId = sub.id)
    (hstates : Says env sub task project r) : Computed env s r := by
  obtain ⟨a, ha, haid, htid, hcontent⟩ := h.submission
  obtain ⟨b, hb, hbid, hpid, hanswer⟩ := h.task
  refine ⟨a, ha, b, hb, project, h.project, haid.trans hid.symm, hbid.trans htid.symm, ?_⟩
  refine ⟨hpid.symm, ?_⟩
  unfold Says Validated Compared ModelReviewed at hstates ⊢
  rwa [hcontent, hanswer]

end OnFile

/-! ## Requests file no other reviews -/

variable (env) in
/-- The terms of reviewing: a review is filed when it says what is computed. -/
def computing : Contract machine Unit where
  le := Db.Grows
  inv := fun _ s ↦ ∀ r ∈ s.reviews, Computed env s r
  due := fun u s ↦ ∀ r, u = .insertReview r → Computed env s r
  next := fun _ d ↦ d
  refl := Db.Grows.refl
  trans := Db.Grows.trans
  up := Db.Grows.of_apply
  mono := Db.Grows.apply
  due_mono := fun hst hdue r hr ↦ (hdue r hr).mono hst
  keep := by
    intro u d s s' hI hdue happ r hr
    have hgrows : s.Grows s' := .of_apply happ
    rcases Db.has_cases (y := .review r) happ hr with ⟨x, hx, htouch⟩ | hadds
    · have hbecomes : x.Becomes (.review r) := htouch ▸ .self_touch u x
      cases hbecomes with
      | review => exact (hI r hx).mono hgrows
    · have hinsert : u = .insertReview r := by
        cases u <;> cases hadds
        rfl
      exact (hdue r hinsert).mono hgrows

section Programs

variable {α : Type} {p : Tx α}

/-- Programs that file no review. -/
theorem honours_of_unreviewing {cs : List Change} (hp : Within cs p)
    (hcs : .insert .reviews ∉ cs) :
    (computing env).Honours p (fun _ _ t ↦ s.Grows t) () s := by
  refine Contract.Honours.of_writesIn hp ?_ (fun _ _ ↦ rfl) fun _ _ hst ↦ hst
  rintro _ hu t r rfl
  exact absurd hu hcs

theorem honours_marking (hp : Within marking p) :
    (computing env).Honours p (fun _ _ t ↦ s.Grows t) () s :=
  honours_of_unreviewing hp (by decide)

end Programs

section Gates

variable {sub : Submission} {task : Task} {project : Project} {expert : Expert}

theorem honours_addReview {kind : ReviewKind} {reviewerId : String} {verdict : Verdict}
    {overall : Option PyFloat} {detail : Json} (hfile : OnFile s sub task project)
    (hstates : ∀ id now, Says env sub task project
      (Engine.newReview sub.id kind reviewerId verdict overall detail id now)) :
    (computing env).Honours (Engine.addReview sub.id kind reviewerId verdict overall detail)
      (fun _ _ t ↦ s.Grows t) () s := by
  intro id now
  refine ⟨?_, fun t t' hst _ happ ↦ hst.trans ((computing env).up happ)⟩
  rintro _ ⟨⟩
  exact hfile.computed rfl (hstates id now)

theorem honours_goldCheck {answer : Json} (hfile : OnFile s sub task project)
    (hanswer : Engine.goldAnswerOf task = some answer) :
    (computing env).Honours (Engine.goldCheck env sub task answer project expert)
      (fun _ _ _ ↦ True) () s := by
  unfold Engine.goldCheck
  rw [Contract.honours_ofExcept_bind]
  intro passed hpassed
  rw [Contract.honours_bind]
  refine (honours_marking (within_registerGoldResult _ _)).imp fun expert' _ t _ hst ↦ ?_
  rw [Contract.honours_bind]
  refine (honours_addReview (hfile.mono hst) ?_).imp fun _ _ u _ _ ↦ ?_
  · exact fun _ _ ↦ ⟨answer, passed, hanswer, hpassed, rfl⟩
  · refine (honours_marking ?_).imp fun _ _ _ _ _ ↦ trivial
    exact (Within.emit rfl).bind fun _ ↦ (Within.emit rfl).bind fun _ ↦
      Within.recording rfl _ _ _ _ _ _

theorem honours_review {rubric : Rubric} {validation : ValidationResult} :
    (computing env).Honours
      (AutoReviewer.review env task.prompt task.context project.taskType sub.content rubric
        validation)
      (fun result _ t ↦ s.Grows t ∧
        AutoReviewer.Outcome env project.taskType sub.content rubric validation result) () s := by
  unfold AutoReviewer.review
  split
  · rename_i hlive
    rw [Contract.honours_ask_bind]
    intro reply
    split
    · rename_i result hresult
      exact ⟨.refl s, Or.inl ⟨reply, hlive, hresult⟩⟩
    · exact ⟨.refl s, Or.inr rfl⟩
  · exact ⟨.refl s, Or.inr rfl⟩

theorem honours_autoReview {rubric : Rubric} {validation : ValidationResult} {seen : List String}
    (hfile : OnFile s sub task project) (hrubric : getRubric project.rubricId = .ok rubric)
    (hvalidation : env.runAll sub.content project.taskType seen = .ok validation)
    (hvalid : validation.passed = true) :
    (computing env).Honours (Engine.autoReview env sub task project expert rubric validation)
      (fun _ _ _ ↦ True) () s := by
  unfold Engine.autoReview
  rw [Contract.honours_bind]
  refine (honours_marking (Within.emit rfl)).imp fun _ _ t _ hst ↦ ?_
  rw [Contract.honours_bind]
  refine honours_review.imp fun result _ t₁ _ ⟨h₁, houtcome⟩ ↦ ?_
  rw [Contract.honours_bind]
  refine (honours_addReview (hfile.mono (hst.trans h₁)) ?_).imp fun _ _ t₂ _ _ ↦ ?_
  · exact fun _ _ ↦ ⟨rubric, seen, validation, result, hrubric, hvalidation, hvalid, houtcome,
      rfl, rfl, rfl, rfl⟩
  rw [Contract.honours_ofExcept_bind]
  intro critical _
  rw [Contract.honours_ofExcept_bind]
  intro sampled _
  rw [Contract.honours_bind]
  refine (honours_marking (Within.emit rfl)).imp fun _ _ _ _ _ ↦ ?_
  split
  · exact (honours_marking (within_holdBack _ _ _ _)).imp fun _ _ _ _ _ ↦ trivial
  · split
    · exact (honours_marking (within_holdBack _ _ _ _)).imp fun _ _ _ _ _ ↦ trivial
    · exact (honours_marking (within_autoApprove _ _ _ _ _ _)).imp fun _ _ _ _ _ ↦ trivial

theorem honours_process (hfile : OnFile s sub task project) :
    (computing env).Honours (Engine.process env sub task project expert)
      (fun _ _ _ ↦ True) () s := by
  unfold Engine.process
  rw [Contract.honours_ofExcept_bind]
  intro rubric hrubric
  rw [Contract.honours_select_bind]
  intro t h₁ _
  rw [Contract.honours_ofExcept_bind]
  intro validation hvalidation
  rw [Contract.honours_bind]
  refine (honours_addReview (hfile.mono h₁) ?_).imp fun _ _ u _ h₂ ↦ ?_
  · exact fun _ _ ↦ ⟨_, validation, hvalidation, rfl, rfl⟩
  have hfile' := hfile.mono (h₁.trans h₂)
  split
  · exact (honours_marking (within_failAutoCheck _ _)).imp fun _ _ _ _ _ ↦ trivial
  · rename_i hvalid
    cases hanswer : Engine.goldAnswerOf task with
    | some answer => exact honours_goldCheck hfile' hanswer
    | none => exact honours_autoReview hfile' hrubric hvalidation (by simpa using hvalid)

/-- A submission is on file from the moment it is processed. -/
theorem honours_submit {content : Json}
    (htask : ∃ status assignedTo,
      { task with status := status, assignedTo := assignedTo } ∈ s.tasks) :
    (computing env).Honours (Engine.submit env task expert content) (fun _ _ _ ↦ True) () s := by
  unfold Engine.submit
  rw [Contract.honours_select_bind]
  intro t₁ h₁ _
  rw [Contract.honours_getSome_bind]
  intro project hproject
  rw [Contract.honours_bind]
  refine Contract.Honours.of_writeless (writeless_assertQualified _ _) fun _ t₂ h₂ ↦ ?_
  rw [Contract.honours_ensure_bind]
  intro _
  rw [Contract.honours_select_bind]
  intro t₃ h₃ _
  refine Contract.honours_ask_bind.mpr fun id ↦ Contract.honours_ask_bind.mpr fun now ↦ ?_
  refine Contract.honours_emit_bind.mpr ⟨by rintro r ⟨⟩, fun t₄ t₅ h₄ _ happ ↦ ?_⟩
  replace happ : Db.apply
      (.insertSubmission (Engine.newSubmission task expert content _ id now)) t₄ = some t₅ := happ
  have h₁₅ : t₁.Grows t₅ := h₂.trans (h₃.trans (h₄.trans (.of_apply happ)))
  rw [Contract.honours_bind]
  refine (honours_marking (Within.record rfl _ _ _ _ _)).imp fun _ _ t₆ _ h₆ ↦ ?_
  rw [Contract.honours_bind]
  refine (honours_process (OnFile.mono h₆ ?_)).imp fun _ _ _ _ _ ↦ trivial
  obtain ⟨_, _, htask⟩ := htask
  obtain ⟨_, _, htask⟩ := (h₁.trans h₁₅).task htask
  obtain ⟨hproject, hpid⟩ := Table.find?_eq_some.mp hproject
  exact {
    submission := ⟨_, Db.has_adds (y := .submission _) happ rfl, rfl, rfl, rfl⟩
    task := ⟨_, htask, rfl, hpid.symm, rfl⟩
    project := h₁₅.project hproject }

theorem honours_humanReview {reviewer : Expert} {verdict : Verdict} {scores : List Json}
    {comments : String}
    (hsub : ∃ status sampled,
      { sub with status := status, sampledForHumanReview := sampled } ∈ s.submissions) :
    (computing env).Honours (Engine.humanReview env sub reviewer verdict scores comments)
      (fun _ _ _ ↦ True) () s := by
  unfold Engine.humanReview Controls.assertReviewerIndependent
  simp only [Prog.bind_assoc, Contract.honours_ensure_bind]
  intro _ _ _ _
  rw [Contract.honours_select_bind]
  intro t₁ h₁ _
  rw [Contract.honours_getSome_bind]
  intro task htask
  rw [Contract.honours_select_bind]
  intro t₂ h₂ _
  rw [Contract.honours_getSome_bind]
  intro project hproject
  rw [Contract.honours_ofExcept_bind]
  intro rubric hrubric
  rw [Contract.honours_select_bind]
  intro t₃ h₃ _
  rw [Contract.honours_ofExcept_bind]
  intro overall hoverall
  rw [Contract.honours_bind]
  obtain ⟨htask, htid⟩ := Table.find?_eq_some.mp htask
  obtain ⟨hproject, hpid⟩ := Table.find?_eq_some.mp hproject
  obtain ⟨_, _, htask⟩ := (h₂.trans h₃).task htask
  obtain ⟨_, _, hsub⟩ := hsub
  obtain ⟨_, _, hsub⟩ := (h₁.trans (h₂.trans h₃)).submission hsub
  have hfile : OnFile t₃ sub task project := {
    submission := ⟨_, hsub, rfl, htid.symm, rfl⟩
    task := ⟨_, htask, rfl, hpid.symm, rfl⟩
    project := h₃.project hproject }
  refine (honours_addReview hfile ?_).imp fun _ _ _ _ _ ↦ ?_
  · exact fun _ _ ↦ ⟨rubric, scores, comments, hrubric, hoverall, rfl⟩
  rw [Contract.honours_bind]
  refine (honours_marking (within_applyVerdict _ _ _ _ _ _)).imp fun _ _ _ _ _ ↦ ?_
  exact (honours_marking (Within.recording rfl _ _ _ _ _ _)).imp fun _ _ _ _ _ ↦ trivial

end Gates

/-- Only submissions and human reviews file reviews. -/
theorem reviewing_cases {request : Api.Request} (h : .insert .reviews ∈ footprint request) :
    (∃ taskId expertId content, request = .createSubmission taskId expertId content) ∨
      ∃ submissionId body, request = .postHumanReview submissionId body := by
  cases request <;> simp [footprint, settling, issuing] at h
  · exact Or.inl ⟨_, _, _, rfl⟩
  · exact Or.inr ⟨_, _, rfl⟩

theorem honours_createSubmission {actor : Auth.Actor} {taskId expertId : String}
    {content : List (String × Json)} :
    (computing env).Honours (Api.createSubmission env actor taskId expertId content)
      (fun _ _ _ ↦ True) () s := by
  unfold Api.createSubmission Api.getTask Api.getExpert Api.getOr404
  simp only [Prog.bind_assoc, Contract.honours_ensure_bind]
  intro _
  rw [Contract.honours_select_bind]
  intro t₁ _ _
  rw [Contract.honours_getSome_bind]
  intro task htask
  rw [Contract.honours_select_bind]
  intro t₂ h₂ _
  rw [Contract.honours_getSome_bind]
  intro expert _
  rw [Contract.honours_bind, Contract.honours_mapErr]
  refine (honours_submit (h₂.task (Table.mem_of_find? htask))).imp fun _ _ _ _ _ ↦ ?_
  rw [Api.submissionOut, Contract.honours_select_bind]
  exact fun _ _ _ ↦ trivial

theorem honours_postHumanReview {actor : Auth.Actor} {submissionId : String}
    {body : Api.HumanReviewIn} :
    (computing env).Honours (Api.postHumanReview env actor submissionId body)
      (fun _ _ _ ↦ True) () s := by
  unfold Api.postHumanReview Api.getSubmission Api.getExpert Api.getOr404
  simp only [Prog.bind_assoc, Contract.honours_ensure_bind]
  intro _
  rw [Contract.honours_select_bind]
  intro t₁ _ _
  rw [Contract.honours_getSome_bind]
  intro sub hsub
  rw [Contract.honours_select_bind]
  intro t₂ h₂ _
  rw [Contract.honours_getSome_bind]
  intro reviewer _
  rw [Contract.honours_bind, Contract.honours_mapErr]
  exact (honours_humanReview (h₂.submission (Table.mem_of_find? hsub))).imp fun _ _ _ _ _ ↦ trivial

/-- Whatever is requested, a review is filed only when it says what is
computed. -/
theorem honours_computing {http : Api.Http} :
    (computing env).Honours (Api.serve env http) (fun _ _ _ ↦ True) () s := by
  by_cases hrequest : .insert .reviews ∈ footprint http.request
  · unfold Api.serve
    rcases reviewing_cases hrequest with ⟨taskId, expertId, content, hrequest⟩ |
      ⟨submissionId, body, hrequest⟩
    · rw [hrequest]
      simp only [Api.rolesOf, Api.handle]
      rw [Contract.honours_bind]
      exact Contract.Honours.of_writeless (Auth.writeless_currentActor env _ _ _) fun _ _ _ ↦
        honours_createSubmission
    · rw [hrequest]
      simp only [Api.rolesOf, Api.handle]
      rw [Contract.honours_bind]
      exact Contract.Honours.of_writeless (Auth.writeless_currentActor env _ _ _) fun _ _ _ ↦
        honours_postHumanReview
  · exact (honours_of_unreviewing (within_serve http) hrequest).imp fun _ _ _ _ _ ↦ trivial

/-! ## Every state the API reaches -/

theorem Reached.computed (h : Reached env s) : ∀ r ∈ s.reviews, Computed env s r :=
  h.inv_of_honours (C := computing env) (fun _ hr ↦ absurd hr List.not_mem_nil)
    fun _ _ ↦ honours_computing

/-- In every state the API reaches, whatever ran at the same time, every review
says what the validators, the comparison, a reply of the model or the rubric
make of rows that are there. -/
theorem reviews_are_computed (h : Reached env s) :
    ∀ r ∈ s.reviews, ∃ sub ∈ s.submissions, ∃ task ∈ s.tasks, ∃ project ∈ s.projects,
      sub.id = r.submissionId ∧ task.id = sub.taskId ∧ project.id = task.projectId ∧
        Says env sub task project r :=
  h.computed

/-- Two verdicts on one submission at the same time, and both can be computed
again. -/
theorem reviews_are_computed_staleVerdict :
    ∃ S, machine.play Development.answers HumanReview.staleVerdict 100 HumanReview.reviewing =
      some S ∧ (S.store.reviews.rows.filter fun r ↦ r.kind = .human).length = 2 ∧
        ∀ r ∈ S.store.reviews, Computed Development.env S.store r := by
  have hplay : (machine.play Development.answers HumanReview.staleVerdict 100
      HumanReview.reviewing).map (fun S ↦
        (S.store.reviews.rows.filter fun r ↦ r.kind = .human).length) = some 2 := by
    decide +kernel
  obtain ⟨S, hS, hlength⟩ := Option.map_eq_some_iff.mp hplay
  exact ⟨S, hS, hlength, reviews_are_computed (reached_of_play hS)⟩

/-- Every review of a submission says what is computed from it, its task and its
project. -/
theorem Reached.states (h : Reached env s) {sub : Submission} (hsub : sub ∈ s.submissions) :
    ∃ task ∈ s.tasks, ∃ project ∈ s.projects, task.id = sub.taskId ∧ project.id = task.projectId ∧
      ∀ r ∈ s.reviews, r.submissionId = sub.id → Says env sub task project r := by
  have hgrounds : SubmissionGrounds s sub := h.grounded (x := .submission sub) hsub
  obtain ⟨task, htask, htid, project, hproject, hpid, _⟩ := hgrounds.entitled
  refine ⟨task, htask, project, hproject, htid, hpid, fun r hr hof ↦ ?_⟩
  obtain ⟨sub', hsub', task', htask', project', hproject', hid, htid', hpid', hstates⟩ :=
    h.computed r hr
  obtain rfl := Table.eq_of_key hsub' hsub (hid.trans hof)
  obtain rfl := Table.eq_of_key htask' htask (htid'.trans htid.symm)
  obtain rfl := Table.eq_of_key hproject' hproject (hpid'.trans hpid.symm)
  exact hstates

/-! ## What approval means -/

theorem passed_of_verdictOf {passed : Bool} {otherwise : Verdict} (hne : otherwise ≠ .pass)
    (h : Verdict.pass = verdictOf passed otherwise) : passed = true := by
  cases passed with
  | false => exact absurd h.symm hne
  | true => rfl

/-- A submission that deserves its approval: sound content, the answer of a gold
task, and otherwise a pass by a human or a live one with a passing score. -/
structure Merits (u : Unicode) (env : Env) (s : Db) (sub : Submission) (task : Task)
    (project : Project) : Prop where
  ofTask : task ∈ s.tasks ∧ task.id = sub.taskId
  ofProject : project ∈ s.projects ∧ project.id = task.projectId
  sound : ∃ content, sub.content = .obj content ∧
    Validators.Sound u env content project.taskType
  gold : task.isGold = true → ∃ answer, Engine.goldAnswerOf task = some answer ∧
    Controls.goldAnswerMatches (env.validated u) sub.content answer project.taskType = .ok true
  judged : task.isGold = false → ∃ r ∈ s.reviews, r.submissionId = sub.id ∧ r.verdict = .pass ∧
    (r.kind = .human ∨ r.kind = .autoLlm ∧ r.reviewerId = AutoReviewer.AUTO_REVIEWER_ID ∧
      ∃ score, r.overallScore = some score ∧ Settings.qcPassThreshold.le score = true)

section Approved

variable {u : Unicode} {sub : Submission} {task : Task} {project : Project} {r : Review}

theorem Says.sound (h : Says (env.validated u) sub task project r)
    (hkind : r.kind = .deterministic) (hpass : r.verdict = .pass) :
    ∃ content, sub.content = .obj content ∧ Validators.Sound u env content project.taskType := by
  rw [Says, hkind] at h
  obtain ⟨seen, validation, hrun, hverdict, _⟩ := h
  rw [hpass] at hverdict
  have hpassed := passed_of_verdictOf (by decide) hverdict
  have hran : Validators.runAll u env sub.content project.taskType seen = .ok validation := hrun
  obtain ⟨content, hcontent⟩ : ∃ content, sub.content = .obj content := by
    obtain ⟨content, hdict, _⟩ := bind_eq_ok.mp hran
    cases hc : sub.content <;> rw [hc] at hdict <;> cases hdict
    exact ⟨_, rfl⟩
  rw [hcontent] at hran
  exact ⟨content, hcontent, (Validators.runAll_passed_iff.mp ⟨hran, hpassed⟩).1⟩

theorem Says.matched (h : Says env sub task project r) (hkind : r.kind = .goldCheck)
    (hpass : r.verdict = .pass) : ∃ answer, Engine.goldAnswerOf task = some answer ∧
      Controls.goldAnswerMatches env sub.content answer project.taskType = .ok true := by
  rw [Says, hkind] at h
  obtain ⟨answer, passed, hanswer, hmatches, hverdict⟩ := h
  rw [hpass] at hverdict
  obtain rfl := passed_of_verdictOf (by decide) hverdict
  exact ⟨answer, hanswer, hmatches⟩

theorem Says.live (h : Says env sub task project r) (hkind : r.kind = .autoLlm)
    (hpass : r.verdict = .pass) : r.reviewerId = AutoReviewer.AUTO_REVIEWER_ID ∧
      ∃ score, r.overallScore = some score ∧ Settings.qcPassThreshold.le score = true := by
  rw [Says, hkind] at h
  obtain ⟨_, _, _, result, _, _, _, houtcome, hreviewer, hverdict, hscore, _⟩ := h
  rw [hpass] at hverdict
  have hsound := houtcome.sound (passed_of_verdictOf (by decide) hverdict)
  exact ⟨hreviewer.trans hsound.live, result.overallScore, hscore, hsound.score⟩

/-- Whatever ran at the same time, an approved submission deserves it. -/
theorem Reached.merits (h : Reached (env.validated u) s) (hsub : sub ∈ s.submissions)
    (hstatus : sub.status = .approved) : ∃ task project, Merits u env s sub task project := by
  have hgrounds : SubmissionGrounds s sub := h.grounded (x := .submission sub) hsub
  have hcleared := hgrounds.cleared
  rw [hstatus] at hcleared
  obtain ⟨⟨r₁, hr₁, hof₁, hkind₁, hpass₁⟩, hjudged⟩ := hcleared
  obtain ⟨task, htask, project, hproject, htid, hpid, hstates⟩ := h.states hsub
  refine ⟨task, project, ⟨htask, htid⟩, ⟨hproject, hpid⟩, ?_, fun hgold ↦ ?_, fun hplain ↦ ?_⟩
  · exact (hstates r₁ hr₁ hof₁).sound hkind₁ hpass₁
  · rcases hjudged with ⟨_, r, hr, hof, hkind, hpass⟩ | ⟨⟨a, ha, hid, hnot⟩, _⟩
    · exact (hstates r hr hof).matched hkind hpass
    · obtain rfl := Table.eq_of_key ha htask (hid.trans htid.symm)
      simp [hgold] at hnot
  · rcases hjudged with ⟨⟨a, ha, hid, hnot⟩, _⟩ | ⟨_, _, hpassed⟩
    · obtain rfl := Table.eq_of_key ha htask (hid.trans htid.symm)
      simp [hplain] at hnot
    · rcases hpassed with ⟨r, hr, hof, hkind, hpass⟩ | ⟨r, hr, hof, hkind, hpass⟩
      · exact ⟨r, hr, hof, hpass, Or.inr ⟨hkind, (hstates r hr hof).live hkind hpass⟩⟩
      · exact ⟨r, hr, hof, hpass, Or.inl hkind⟩

/-- In every state the API reaches with the checks of `validators.py`, whatever
ran at the same time: what is approved has no error gate 1 could find, answers
a gold task as it should be answered, and otherwise was passed by a human or,
with a passing score, by the model. -/
theorem approvals_are_deserved (h : Reached (env.validated u) s) :
    ∀ sub ∈ s.submissions, sub.status = .approved →
      ∃ task project, Merits u env s sub task project :=
  fun _ hsub hstatus ↦ h.merits hsub hstatus

theorem approvals_are_deserved_numbers :
    (Development.responsesRun 1 2).2.1.submissions.rows.map Submission.status =
        [.approved, .humanReview] ∧
      ∀ sub ∈ (Development.responsesRun 1 2).2.1.submissions, sub.status = .approved →
        ∃ task project, Merits .ascii Development.comparingEnv
          (Development.responsesRun 1 2).2.1 sub task project :=
  ⟨by decide +kernel, approvals_are_deserved (.of_run (Development.responsesRun_spec 1 2))⟩

end Approved

end Provenance

end HumanDataFactory
