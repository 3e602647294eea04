import HumanDataFactory.Evidence

/-!
# Human reviews under interleaving

`human_review` looks at the status of the submission and, for a pass, at the
usage events of the task; what it found need not hold any more when it
commits.  Reviews whose findings still hold leave one human review for a
submission and one charge for an approved task.  Two reviews that both found
the submission waiting are both recorded.
-/

namespace HumanDataFactory

open Transact

namespace HumanReview

variable {env : Env}

/-! ## What a review decides on -/

/-- The tables a review decides on; of a task only what never changes. -/
structure Core where
  projects : Table String Project Project.id
  tasks : Set Metering.TaskFacts
  submissions : Table String Submission Submission.id
  reviews : Table String Review Review.id
  usageEvents : Table String UsageEvent UsageEvent.id

def coreOf (s : Db) : Core :=
  ⟨s.projects, (Metering.bookOf s).tasks, s.submissions, s.reviews, s.usageEvents⟩

/-- The core says what is in the book. -/
def Core.book (c : Core) : Metering.Book where
  projects := c.projects.gather fun p ↦ some (p.id, p.firmId)
  tasks := c.tasks
  submissions := c.submissions.gather fun sub ↦ some (sub.id, sub.taskId)
  approved := c.submissions.gather Metering.approvedPair
  charges := c.usageEvents.gather fun ev ↦ some (Metering.chargeOf ev)

theorem book_coreOf (s : Db) : (coreOf s).book = Metering.bookOf s := rfl

/-- A write that changes nothing a review decides on. -/
abbrev Inert (u : Write) : Prop := machine.Keeps coreOf u

theorem Inert.usageEvents {u : Write} (h : Inert u) :
    machine.Keeps (fun s ↦ s.usageEvents) u :=
  h.comp Core.usageEvents fun _ ↦ rfl

theorem inert_setTaskStatus (id : String) (v : TaskStatus) : Inert (.setTaskStatus id v) := by
  intro s s' h
  obtain rfl := Option.some.inj h
  have htasks := Table.gather_modify (t := s.tasks) (k := id)
    (g := fun t ↦ some (Metering.taskFacts t)) (f := fun t ↦ { t with status := v })
    (fun _ ↦ rfl) fun _ ↦ rfl
  exact congrArg (fun x ↦ { coreOf s with tasks := x }) htasks

theorem inert_insertAuditEvent (ev : AuditEvent) : Inert (.insertAuditEvent ev) := by
  intro s s' h
  obtain rfl := Option.some.inj h
  rfl

theorem inert_setApprovedCount (id : String) (v : ℕ) : Inert (.setApprovedCount id v) := by
  intro s s' h
  obtain rfl := Option.some.inj h
  rfl

theorem inert_setQualityScore (id : String) (v : PyFloat) : Inert (.setQualityScore id v) := by
  intro s s' h
  obtain rfl := Option.some.inj h
  rfl

theorem inert_setExpertStatus (id : String) (v : ExpertStatus) :
    Inert (.setExpertStatus id v) := by
  intro s s' h
  obtain rfl := Option.some.inj h
  rfl

/-! ## What a review writes -/

/-- What a pass adds to the usage events, by what it saw of them. -/
inductive Meters (seen : List (Query × Db)) (project : Project) (task : Task)
    (sub : Submission) : List Write → Prop
  | skipped (hfree : task.isGold = true ∨ ∃ s, (.rows .usageEvents, s) ∈ seen ∧
      Billing.approvedRecordEvents s task.id ≠ []) : Meters seen project task sub []
  | metered (hgold : task.isGold = false) {s : Db} (hs : (.rows .usageEvents, s) ∈ seen)
      (hnew : Billing.approvedRecordEvents s task.id = []) {ev : UsageEvent}
      (htask : ev.taskId = task.id) (hproject : ev.projectId = project.id)
      (hsub : ev.submissionId = sub.id) (hkind : ev.kind = "approved_record")
      (hquantity : ev.quantity = 1) (hamount : ev.amountCents = ev.unitPriceCents)
      (hfirm : ev.firmId = project.firmId) : Meters seen project task sub [.insertUsageEvent ev]

theorem Meters.mono {seen seen' : List (Query × Db)} {project : Project} {task : Task}
    {sub : Submission} {us : List Write} (h : Meters seen project task sub us)
    (hsub : ∀ x ∈ seen, x ∈ seen') : Meters seen' project task sub us := by
  cases h with
  | skipped hfree =>
      refine .skipped ?_
      rcases hfree with hgold | ⟨s, hs, hev⟩
      · exact Or.inl hgold
      · exact Or.inr ⟨s, hsub _ hs, hev⟩
  | metered hgold hs hnew htask hproject hof hkind hquantity hamount hfirm =>
      exact .metered hgold (hsub _ hs) hnew htask hproject hof hkind hquantity hamount hfirm

section Runs

variable {project : Project} {task : Task} {sub : Submission} {ws₀ ws : List Write}
  {seen : List (Query × Db)}

theorem runs_meter {r : Option UsageEvent}
    (h : machine.Runs (Billing.meter env project task sub) ws₀ seen ws r)
    (hgold : task.isGold = false) {seen' : List (Query × Db)} {s : Db}
    (hs : (.rows .usageEvents, s) ∈ seen')
    (hnew : Billing.approvedRecordEvents s task.id = []) :
    ∃ us vs, ws = ws₀ ++ us ++ vs ∧ Meters seen' project task sub us ∧ ∀ v ∈ vs, Inert v := by
  unfold Billing.meter at h
  rw [Machine.runs_select_bind] at h
  obtain ⟨s₁, v₁, seen₁, rfl, hv₁, h⟩ := h
  rw [Machine.runs_getSome_bind] at h
  obtain ⟨firm, hfirm, h⟩ := h
  rw [Machine.runs_bind] at h
  obtain ⟨price, ws₁, seen₂, seen₃, rfl, hprice, h⟩ := h
  obtain rfl := hprice.of_writeless (Billing.writeless_resolveUnitPriceCents env _ _)
  rw [Machine.runs_ask_bind] at h
  obtain ⟨id, h⟩ := h
  rw [Machine.runs_ask_bind] at h
  obtain ⟨now, h⟩ := h
  rw [Machine.runs_emit_bind, Machine.runs_bind] at h
  obtain ⟨aud, ws₂, seen₄, seen₅, rfl, hrecord, _, rfl, _⟩ := h
  obtain ⟨vs, rfl, hvs⟩ := hrecord.writesIn
    (Audit.record_writesIn env inert_insertAuditEvent _ _ _ _ _)
  have hfirmId : firm.id = project.firmId := Table.key_of_find? hfirm
  exact ⟨_, vs, rfl, .metered hgold hs hnew rfl rfl rfl rfl rfl rfl hfirmId, hvs⟩

/-- The check for an existing event reads the committed ones, as long as the
transaction has written none. -/
theorem runs_recordApprovedRecord {r : Option UsageEvent}
    (h : machine.Runs (Billing.recordApprovedRecord env project task sub) ws₀ seen ws r)
    (hws₀ : ∀ u ∈ ws₀, machine.Keeps (fun s ↦ s.usageEvents) u) :
    ∃ us vs, ws = ws₀ ++ us ++ vs ∧ Meters seen project task sub us ∧ ∀ v ∈ vs, Inert v := by
  unfold Billing.recordApprovedRecord at h
  split at h
  · rename_i hgold
    obtain ⟨rfl, rfl, rfl⟩ := h
    exact ⟨[], [], by simp, .skipped (Or.inl hgold), by simp⟩
  · rename_i hgold
    rw [Machine.runs_select_bind] at h
    obtain ⟨s, v, seen₁, rfl, hv, h⟩ := h
    have hsame : Billing.approvedRecordEvents v task.id =
        Billing.approvedRecordEvents s task.id := by
      unfold Billing.approvedRecordEvents
      rw [Machine.Keeps.view hws₀ hv]
    rw [Machine.runs_bind] at h
    obtain ⟨existing, ws₁, seen₂, seen₃, rfl, hex, h⟩ := h
    obtain ⟨hrows, rfl, rfl⟩ := Session.runs_scalarOneOrNone hex
    rw [hsame] at hrows
    cases existing with
    | some ev =>
        obtain ⟨rfl, rfl, rfl⟩ := h
        refine ⟨[], [], by simp, .skipped (Or.inr ⟨s, by simp, ?_⟩), by simp⟩
        simp [hrows]
    | none => exact runs_meter h (by simpa using hgold) (by simp) hrows

/-- What a verdict writes. -/
inductive Decides (seen : List (Query × Db)) (project : Project) (task : Task)
    (sub : Submission) : List Write → Prop
  | passed {us₁ us us₂ : List Write} (hus₁ : ∀ u ∈ us₁, Inert u)
      (hmeters : Meters seen project task sub us) (hus₂ : ∀ u ∈ us₂, Inert u) :
      Decides seen project task sub (.setSubmissionStatus sub.id .approved :: (us₁ ++ us ++ us₂))
  | turnedDown {status : SubmissionStatus} (hstatus : status = .needsRevision ∨ status = .rejected)
      {us : List Write} (hus : ∀ u ∈ us, Inert u) :
      Decides seen project task sub (.setSubmissionStatus sub.id status :: us)

theorem keeps_usageEvents_setSubmissionStatus (id : String) (v : SubmissionStatus) :
    machine.Keeps (fun s ↦ s.usageEvents) (.setSubmissionStatus id v) := by
  intro s s' h
  obtain rfl := Option.some.inj h
  rfl

theorem runs_passVerdict {found : Option Expert} {overall : Option PyFloat}
    {status : SubmissionStatus}
    (h : machine.Runs (Engine.passVerdict env sub task project found overall) ws₀ seen ws status)
    (hws₀ : ∀ u ∈ ws₀, machine.Keeps (fun s ↦ s.usageEvents) u) :
    ∃ us, ws = ws₀ ++ us ∧ Decides seen project task sub us := by
  unfold Engine.passVerdict at h
  rw [Machine.runs_emit_bind, Machine.runs_emit_bind, Machine.runs_getSome_bind] at h
  obtain ⟨author, _, h⟩ := h
  rw [Machine.runs_emit_bind, Machine.runs_bind] at h
  obtain ⟨_, ws₁, seen₁, seen₂, rfl, hscore, h⟩ := h
  obtain ⟨vs, rfl, hvs⟩ := hscore.writesIn
    (Controls.updateQualityScore_writesIn inert_setQualityScore inert_setExpertStatus _ _)
  have hinert : ∀ u ∈ Write.setTaskStatus task.id .completed ::
      .setApprovedCount author.id (author.approvedCount + 1) :: vs, Inert u := by
    intro u hu
    simp only [List.mem_cons] at hu
    rcases hu with rfl | rfl | hu
    · exact inert_setTaskStatus _ _
    · exact inert_setApprovedCount _ _
    · exact hvs u hu
  rw [Machine.runs_bind] at h
  obtain ⟨_, ws₂, seen₃, seen₄, rfl, hmeter, rfl, rfl, _⟩ := h
  obtain ⟨us, us₂, rfl, hmeters, hus₂⟩ := runs_recordApprovedRecord hmeter (by
    intro u hu
    simp only [List.append_assoc, List.mem_append, List.mem_cons, List.not_mem_nil,
      or_false] at hu
    rcases hu with hu | rfl | rfl | rfl | hu
    · exact hws₀ u hu
    · exact keeps_usageEvents_setSubmissionStatus _ _
    · exact (inert_setTaskStatus _ _).usageEvents
    · exact (inert_setApprovedCount _ _).usageEvents
    · exact (hvs u hu).usageEvents)
  refine ⟨_, ?_, .passed hinert (hmeters.mono fun x hx ↦ by simp [hx]) hus₂⟩
  simp

theorem runs_applyVerdict {found : Option Expert} {overall : Option PyFloat} {verdict : Verdict}
    {status : SubmissionStatus}
    (h : machine.Runs (Engine.applyVerdict env sub task project found overall verdict)
      ws₀ seen ws status)
    (hws₀ : ∀ u ∈ ws₀, machine.Keeps (fun s ↦ s.usageEvents) u) :
    ∃ us, ws = ws₀ ++ us ∧ Decides seen project task sub us := by
  cases verdict with
  | pass => exact runs_passVerdict h hws₀
  | revise =>
      unfold Engine.applyVerdict Engine.reviseVerdict at h
      rw [Machine.runs_emit_bind] at h
      obtain ⟨rfl, rfl, rfl⟩ := h
      exact ⟨_, rfl, .turnedDown (Or.inl rfl) (by simp)⟩
  | fail =>
      unfold Engine.applyVerdict Engine.failVerdict at h
      rw [Machine.runs_emit_bind, Machine.runs_getSome_bind] at h
      obtain ⟨author, _, h⟩ := h
      rw [Machine.runs_bind] at h
      obtain ⟨_, ws₁, seen₁, seen₂, rfl, hscore, rfl, rfl, rfl⟩ := h
      obtain ⟨vs, rfl, hvs⟩ := hscore.writesIn
        (Controls.updateQualityScore_writesIn inert_setQualityScore inert_setExpertStatus _ _)
      exact ⟨_, by simp, .turnedDown (Or.inr rfl) hvs⟩

end Runs

/-- What a review of `sub` found and writes. -/
structure Writes (seen : List (Query × Db)) (sub : Submission) (ws : List Write) : Prop where
  waiting : sub.status = .humanReview
  writes : ∃ (task : Task) (project : Project) (rev : Review) (us vs : List Write),
    (∃ s, (.row .tasks, s) ∈ seen ∧ s.tasks.find? sub.taskId = some task) ∧
    (∃ s, (.row .projects, s) ∈ seen ∧ s.projects.find? task.projectId = some project) ∧
    rev.submissionId = sub.id ∧ rev.kind = .human ∧
    ws = .insertReview rev :: (us ++ vs) ∧ Decides seen project task sub us ∧ ∀ v ∈ vs, Inert v

theorem Decides.mono {seen seen' : List (Query × Db)} {project : Project} {task : Task}
    {sub : Submission} {us : List Write} (h : Decides seen project task sub us)
    (hsub : ∀ x ∈ seen, x ∈ seen') : Decides seen' project task sub us := by
  cases h with
  | passed hus₁ hmeters hus₂ => exact .passed hus₁ (hmeters.mono hsub) hus₂
  | turnedDown hstatus hus => exact .turnedDown hstatus hus

theorem Writes.mono {seen seen' : List (Query × Db)} {sub : Submission} {ws : List Write}
    (h : Writes seen sub ws) (hsub : ∀ x ∈ seen, x ∈ seen') : Writes seen' sub ws := by
  obtain ⟨hwaiting, task, project, rev, us, vs, ⟨s, hs, htask⟩, ⟨s', hs', hproject⟩, hrev, hkind,
    hws, hdecides, hvs⟩ := h
  exact ⟨hwaiting, task, project, rev, us, vs, ⟨s, hsub _ hs, htask⟩,
    ⟨s', hsub _ hs', hproject⟩, hrev, hkind, hws, hdecides.mono hsub, hvs⟩

theorem runs_humanReview {sub : Submission} {reviewer : Expert} {verdict : Verdict}
    {criterionScores : List Json} {comments : String} {r : Review × SubmissionStatus}
    {seen : List (Query × Db)} {ws : List Write}
    (h : machine.Runs (Engine.humanReview env sub reviewer verdict criterionScores comments)
      [] seen ws r) : Writes seen sub ws := by
  unfold Engine.humanReview Controls.assertReviewerIndependent Engine.addReview at h
  simp only [Machine.runs_ensure_bind, Prog.bind_assoc] at h
  obtain ⟨hwaiting, _, _, _, h⟩ := h
  rw [Machine.runs_select_bind_nil] at h
  obtain ⟨s₁, seen₁, rfl, h⟩ := h
  rw [Machine.runs_getSome_bind] at h
  obtain ⟨task, htask, h⟩ := h
  rw [Machine.runs_select_bind_nil] at h
  obtain ⟨s₂, seen₂, rfl, h⟩ := h
  rw [Machine.runs_getSome_bind] at h
  obtain ⟨project, hproject, h⟩ := h
  rw [Machine.runs_ofExcept_bind] at h
  obtain ⟨rubric, _, h⟩ := h
  rw [Machine.runs_select_bind_nil] at h
  obtain ⟨s₃, seen₃, rfl, h⟩ := h
  rw [Machine.runs_ofExcept_bind] at h
  obtain ⟨overall, _, h⟩ := h
  rw [Machine.runs_ask_bind] at h
  obtain ⟨id, h⟩ := h
  rw [Machine.runs_ask_bind] at h
  obtain ⟨now, h⟩ := h
  rw [Machine.runs_emit_bind] at h
  have hinsert : ∀ rev, machine.Keeps (fun s ↦ s.usageEvents) (.insertReview rev) := by
    intro rev s s' hs
    obtain ⟨_, hs⟩ := Option.ite_none_right_eq_some.mp hs
    obtain rfl := Option.some.inj hs
    rfl
  rw [Prog.monad_pure, Prog.pure_bind, Machine.runs_bind] at h
  obtain ⟨status, ws₁, seen₄, seen₅, rfl, hverdict, h⟩ := h
  obtain ⟨us, rfl, hdecides⟩ := runs_applyVerdict hverdict (by
    intro u hu
    obtain rfl : u = _ := by simpa using hu
    exact hinsert _)
  rw [Machine.runs_bind] at h
  obtain ⟨aud, ws₂, seen₆, seen₇, rfl, hrecord, rfl, rfl, _⟩ := h
  obtain ⟨vs, rfl, hvs⟩ := hrecord.writesIn
    (Audit.record_writesIn env inert_insertAuditEvent _ _ _ _ _)
  refine ⟨hwaiting, task, project, _, us, vs, ⟨s₁, by simp, htask⟩, ⟨s₂, by simp, hproject⟩,
    rfl, rfl, rfl, hdecides.mono fun x hx ↦ by simp [hx], hvs⟩

/-- A call of `post_human_review`. -/
structure ReviewCall where
  authorization : Option String
  xActorId : Option String
  submissionId : String
  body : Api.HumanReviewIn

def ReviewCall.http (call : ReviewCall) : Api.Http :=
  ⟨call.authorization, call.xActorId, .postHumanReview call.submissionId call.body⟩

/-- A review writes on the strength of a committed state in which its
submission was waiting. -/
theorem runs_postHumanReview {call : ReviewCall} {r : Json} {seen : List (Query × Db)}
    {ws : List Write} (h : machine.Runs (Api.serve env call.http) [] seen ws r) :
    ∃ s sub, (.row .submissions, s) ∈ seen ∧
      s.submissions.find? call.submissionId = some sub ∧ Writes seen sub ws := by
  unfold Api.serve at h
  change machine.Runs (Auth.currentActor env Api.reviewRoles call.authorization call.xActorId >>=
    fun actor ↦ Api.postHumanReview env actor call.submissionId call.body) [] seen ws r at h
  rw [Machine.runs_bind] at h
  obtain ⟨actor, ws₁, seen₁, seen₂, rfl, hactor, h⟩ := h
  obtain rfl := hactor.of_writeless (Auth.writeless_currentActor env _ _ _)
  unfold Api.postHumanReview Api.getSubmission Api.getExpert Api.getOr404 at h
  simp only [Prog.bind_assoc] at h
  rw [Machine.runs_ensure_bind, Machine.runs_select_bind_nil] at h
  obtain ⟨_, s, seen₃, rfl, h⟩ := h
  rw [Machine.runs_getSome_bind] at h
  obtain ⟨sub, hsub, h⟩ := h
  rw [Machine.runs_select_bind_nil] at h
  obtain ⟨s', seen₄, rfl, h⟩ := h
  rw [Machine.runs_getSome_bind] at h
  obtain ⟨reviewer, _, h⟩ := h
  rw [Machine.runs_bind] at h
  obtain ⟨x, ws₂, seen₅, seen₆, rfl, hreview, rfl, rfl, _⟩ := h
  rw [Machine.runs_mapErr] at hreview
  exact ⟨s, sub, by simp, hsub, (runs_humanReview hreview).mono fun x hx ↦ by simp [hx]⟩

/-! ## What a commit does to the core -/

variable {s₀ s s' : Db}

/-- The submission of a verdict gets its status, and a pass may be charged. -/
inductive Charged (seen : List (Query × Db)) (project : Project) (task : Task)
    (sub : Submission) (c : Core) : SubmissionStatus → Core → Prop
  | turnedDown {status : SubmissionStatus}
      (hstatus : status = .needsRevision ∨ status = .rejected) :
      Charged seen project task sub c status c
  | free (hfree : Meters seen project task sub []) : Charged seen project task sub c .approved c
  | charged {ev : UsageEvent} (hmeters : Meters seen project task sub [.insertUsageEvent ev])
      (hvac : c.usageEvents.Vacant ev.id) :
      Charged seen project task sub c .approved { c with usageEvents := c.usageEvents.push ev }

theorem Inert.view {us : List Write} (hus : ∀ u ∈ us, Inert u)
    (hv : machine.view us s = some s') : coreOf s' = coreOf s :=
  Machine.Keeps.view hus hv

theorem charged_of_view {seen : List (Query × Db)} {project : Project} {task : Task}
    {sub sub' : Submission} {us : List Write} (h : Decides seen project task sub us)
    (hv : machine.view us s = some s') (hsub : s.submissions.find? sub.id = some sub') :
    ∃ status c, Charged seen project task sub (coreOf s) status c ∧
      coreOf s' =
        { c with submissions := s.submissions.replace { sub' with status := status } } := by
  have hset : ∀ status, Db.apply (.setSubmissionStatus sub.id status) s =
      some { s with submissions := s.submissions.replace { sub' with status := status } } := by
    intro status
    have hreplace : s.submissions.modify sub.id (fun a ↦ { a with status := status })
        (fun _ ↦ rfl) = s.submissions.replace { sub' with status := status } :=
      Table.modify_eq_replace hsub
    exact congrArg (fun x ↦ some { s with submissions := x }) hreplace
  cases h with
  | passed hus₁ hmeters hus₂ =>
      rw [Machine.view_cons, machine_apply, hset, Option.bind_some, Machine.view_append,
        Machine.view_append] at hv
      obtain ⟨s₂, hs₂, hv⟩ := Option.bind_eq_some_iff.mp hv
      obtain ⟨s₁, hs₁, hs₂⟩ := Option.bind_eq_some_iff.mp hs₂
      have hcore₁ := Inert.view hus₁ hs₁
      have hcore := Inert.view hus₂ hv
      cases hmeters with
      | skipped hfree =>
          obtain rfl := Option.some.inj hs₂
          exact ⟨_, _, .free (.skipped hfree), hcore.trans hcore₁⟩
      | @metered hgold s₃ hs₃ hnew ev htask hproject hof hkind hquantity hamount hfirm =>
          rw [Machine.view_cons, machine_apply] at hs₂
          obtain ⟨s₄, hs₄, hs₂⟩ := Option.bind_eq_some_iff.mp hs₂
          obtain rfl := Option.some.inj hs₂
          obtain ⟨hvac, hs₄⟩ := Option.ite_none_right_eq_some.mp hs₄
          obtain rfl := Option.some.inj hs₄
          have hevents : s₁.usageEvents = s.usageEvents := congrArg Core.usageEvents hcore₁
          rw [hevents] at hvac
          refine ⟨_, _, .charged
            (.metered hgold hs₃ hnew htask hproject hof hkind hquantity hamount hfirm) hvac, ?_⟩
          refine hcore.trans ?_
          exact congrArg (fun c ↦ { c with usageEvents := c.usageEvents.push ev }) hcore₁
  | turnedDown hstatus hus =>
      rw [Machine.view_cons, machine_apply, hset, Option.bind_some] at hv
      exact ⟨_, _, .turnedDown hstatus, Inert.view hus hv⟩

/-! ## What reviews keep -/

/-- The books while only reviews commit; `s₀` is where they started. -/
structure Sound (s₀ s : Db) : Prop where
  projects : s.projects = s₀.projects
  tasks : (Metering.bookOf s).tasks = (Metering.bookOf s₀).tasks
  submissions : (Metering.bookOf s).submissions = (Metering.bookOf s₀).submissions
  balanced : (Metering.bookOf s).Balanced
  gate : Evidence.Gate s

/-- A submission seen in one state is there in any other. -/
theorem Sound.row (h : Sound s₀ s) (h' : Sound s₀ s') {sub : Submission}
    (hsub : sub ∈ s.submissions) :
    ∃ sub', s'.submissions.find? sub.id = some sub' ∧ sub'.taskId = sub.taskId := by
  have hpair : (sub.id, sub.taskId) ∈ (Metering.bookOf s').submissions := by
    rw [h'.submissions, ← h.submissions]
    exact ⟨sub, hsub, rfl⟩
  obtain ⟨sub', hsub', hsame⟩ := hpair
  simp only [Option.some.injEq, Prod.mk.injEq] at hsame
  exact ⟨sub', Table.find?_eq_some.mpr ⟨hsub', hsame.1⟩, hsame.2⟩

theorem Sound.fact (h : Sound s₀ s) (h' : Sound s₀ s') {task : Task} (htask : task ∈ s.tasks) :
    Metering.taskFacts task ∈ (Metering.bookOf s').tasks := by
  rw [h'.tasks, ← h.tasks]
  exact ⟨task, htask, rfl⟩

/-- A verdict on a submission that still waits is at most one step of the
book, whatever else the review read is out of date. -/
theorem steps_of_charged {seen : List (Query × Db)} {project : Project} {task : Task}
    {sub sub' : Submission} {status : SubmissionStatus} {c : Core}
    (h : Charged seen project task sub (coreOf s) status c)
    (hcore : (coreOf s').book =
      { c with submissions := s.submissions.replace { sub' with status := status } }.book)
    (hsub : s.submissions.find? sub.id = some sub') (hof : sub'.taskId = task.id)
    (hwaiting : sub'.status = .humanReview)
    (htask : Metering.taskFacts task ∈ (Metering.bookOf s).tasks)
    (hid : project.id = task.projectId)
    (hproject : (project.id, project.firmId) ∈ (Metering.bookOf s).projects)
    (hfresh : Fresh (.rows .usageEvents) (fun s ↦ Billing.approvedRecordEvents s task.id) seen s) :
    (Metering.bookOf s).Steps (Metering.bookOf s') ∧
      (Metering.bookOf s').submissions = (Metering.bookOf s).submissions := by
  have hkey : sub'.id = sub.id := Table.key_of_find? hsub
  have hself : s.submissions.find? sub'.id = some sub' := by rwa [hkey]
  have hnot : sub'.status ≠ .approved := by simp [hwaiting]
  have hin : (sub'.id, sub'.taskId) ∈ (Metering.bookOf s).submissions :=
    ⟨sub', Table.mem_of_find? hsub, rfl⟩
  have happroved := Metering.bookOf_replace_approved (s := s)
    { sub' with status := .approved } hself rfl rfl hnot rfl
  have hpair : (sub'.id, sub'.taskId) = (sub'.id, task.id) := by rw [hof]
  rw [hpair] at hin happroved
  rw [book_coreOf] at hcore
  cases h with
  | turnedDown hstatus =>
      have hbook := Metering.bookOf_replace_submission (s := s)
        { sub' with status := status } hself rfl rfl hnot
        (by rcases hstatus with rfl | rfl <;> simp)
      replace hcore := hcore.trans hbook
      exact ⟨.of_eq hcore, by rw [hcore]⟩
  | free hfree =>
      replace hcore := hcore.trans happroved
      refine ⟨?_, by rw [hcore]⟩
      rw [hcore]
      refine .single (.approve htask hin ?_)
      cases hfree with
      | skipped hfree =>
          rcases hfree with hgold | ⟨s₁, hs₁, hevents⟩
          · exact Or.inl hgold
          · have hsame : Billing.approvedRecordEvents s₁ task.id =
                Billing.approvedRecordEvents s task.id := hfresh s₁ hs₁
            rw [hsame] at hevents
            obtain ⟨ev, hev⟩ := List.exists_mem_of_ne_nil _ hevents
            obtain ⟨hmem, hevTask, _⟩ := Metering.mem_approvedRecordEvents.mp hev
            exact Or.inr ⟨Metering.chargeOf ev, ⟨ev, hmem, rfl⟩, hevTask⟩
  | @charged ev hmeters hvac =>
      have hpush := Metering.bookOf_push_usageEvent
        (s := { s with
          submissions := s.submissions.replace { sub' with status := .approved } }) hvac
      rw [happroved] at hpush
      replace hcore := hcore.trans hpush
      refine ⟨?_, by rw [hcore]⟩
      rw [hcore]
      cases hmeters with
      | @metered hgold s₁ hs₁ hnew ev hevTask hevProject hevSub hkind hquantity hamount hfirm =>
          have hnone : Billing.approvedRecordEvents s task.id = [] :=
            (hfresh s₁ hs₁).symm.trans hnew
          refine .single (.charge htask hin hgold ?_
            ⟨hevTask, hevProject.trans hid, hevSub.trans hkey.symm, hkind, hquantity, hamount⟩ ?_)
          · rintro c ⟨ev', hev', hc⟩ hckind hctask
            cases hc
            have hmem : ev' ∈ Billing.approvedRecordEvents s task.id :=
              Metering.mem_approvedRecordEvents.mpr ⟨hev', hctask, hckind⟩
            simp [hnone] at hmem
          · change (task.projectId, ev.firmId) ∈ _
            rwa [hfirm, ← hid]

theorem projects_of_charged {seen : List (Query × Db)} {project : Project} {task : Task}
    {sub : Submission} {status : SubmissionStatus} {c c' : Core}
    (h : Charged seen project task sub c status c') :
    c'.projects = c.projects ∧ c'.tasks = c.tasks ∧ c'.reviews = c.reviews ∧
      status ≠ .humanReview := by
  cases h with
  | turnedDown hstatus => exact ⟨rfl, rfl, rfl, by rcases hstatus with rfl | rfl <;> simp⟩
  | free hfree => exact ⟨rfl, rfl, rfl, by simp⟩
  | charged hmeters hvac => exact ⟨rfl, rfl, rfl, by simp⟩

/-- A review that commits over a submission that still waits, and over the
usage events it read, keeps the books. -/
theorem Sound.commit (hs : Sound s₀ s) {seen : List (Query × Db)} {sub sub' : Submission}
    {ws : List Write} (hw : Writes seen sub ws) (hseen : ∀ q s₁, (q, s₁) ∈ seen → Sound s₀ s₁)
    (hsub : s.submissions.find? sub.id = some sub') (hof : sub'.taskId = sub.taskId)
    (hwaiting : sub'.status = .humanReview)
    (hfresh : Fresh (.rows .usageEvents)
      (fun s ↦ Billing.approvedRecordEvents s sub'.taskId) seen s)
    (hv : machine.view ws s = some s') : Sound s₀ s' := by
  obtain ⟨_, task, project, rev, us, vs, ⟨s₁, hs₁, htask⟩, ⟨s₂, hs₂, hproject⟩, hown, hkind, rfl,
    hdecides, hvs⟩ := hw
  rw [Machine.view_cons, machine_apply] at hv
  obtain ⟨s₃, hs₃, hv⟩ := Option.bind_eq_some_iff.mp hv
  obtain ⟨hvac, hs₃⟩ := Option.ite_none_right_eq_some.mp hs₃
  obtain rfl := Option.some.inj hs₃
  rw [Machine.view_append] at hv
  obtain ⟨s₄, hs₄, hv⟩ := Option.bind_eq_some_iff.mp hv
  obtain ⟨status, c, hcharged, hcore⟩ := charged_of_view hdecides hs₄ hsub
  replace hcore := (Inert.view hvs hv).trans hcore
  obtain ⟨hprojects, htasks, hreviews, hdecided⟩ := projects_of_charged hcharged
  have hsubmissions : s'.submissions = s.submissions.replace { sub' with status := status } :=
    congrArg Core.submissions hcore
  -- the task and the project were read in earlier states of the same books
  have hmem := (hseen _ _ hs₁).fact hs (Table.mem_of_find? htask)
  have hin : (project.id, project.firmId) ∈ (Metering.bookOf s).projects := by
    refine ⟨project, ?_, rfl⟩
    rw [hs.projects, ← (hseen _ _ hs₂).projects]
    exact Table.mem_of_find? hproject
  have hofTask : sub'.taskId = task.id := hof.trans (Table.key_of_find? htask).symm
  rw [hofTask] at hfresh
  have hsteps := steps_of_charged (s := { s with reviews := s.reviews.push rev }) hcharged
    (congrArg Core.book hcore) hsub hofTask hwaiting hmem (Table.key_of_find? hproject) hin hfresh
  refine ⟨?_, ?_, ?_, hs.balanced.of_steps hsteps.1, ?_⟩
  · have hsame : s'.projects = c.projects := congrArg Core.projects hcore
    rw [hsame, hprojects]
    exact hs.projects
  · have hsame : (Metering.bookOf s').tasks = c.tasks := congrArg Core.tasks hcore
    rw [hsame, htasks]
    exact hs.tasks
  · exact hsteps.2.trans hs.submissions
  · have hsame : s'.reviews = c.reviews := congrArg Core.reviews hcore
    have hkey : sub'.id = sub.id := Table.key_of_find? hsub
    refine hs.gate.judged (Table.mem_of_find? hsub) hwaiting hdecided hsubmissions ?_
      (hown.trans hkey.symm) hkind
    rw [hsame, hreviews]
    exact Table.rows_push hvac

theorem sound_of_run {tr : List (Served Api.Http Db Json)} {w₀ w : ℕ}
    (h : machine.Run (Api.serve env) Db.empty w₀ tr s w) : Sound s s :=
  ⟨rfl, rfl, rfl, (Metering.sound_of_run h).balanced, (Evidence.kept_of_run h).sound.gate⟩

/-! ## Any number of reviews side by side -/

def usageEventsOf (s : Db) (taskId : String) : List UsageEvent :=
  s.usageEvents.rows.filter fun ev ↦ ev.taskId = taskId

/-- A task that is not gold is charged once if it is approved and not at all
otherwise, and no submission has two human reviews. -/
structure Consistent (s : Db) : Prop where
  charged : ∀ task ∈ s.tasks, task.isGold = false → Metering.HasApproved s task →
    (usageEventsOf s task.id).length = 1
  free : ∀ task ∈ s.tasks, task.isGold = false → ¬Metering.HasApproved s task →
    (usageEventsOf s task.id).length = 0
  once : ∀ sub ∈ s.submissions, (Evidence.humanReviews s sub.id).length ≤ 1

/-- Every event of a task in balanced books is an approved record. -/
theorem usageEventsOf_eq (hb : (Metering.bookOf s).Balanced) {task : Task}
    (htask : task ∈ s.tasks) :
    usageEventsOf s task.id = Billing.approvedRecordEvents s task.id := by
  apply List.filter_congr
  intro ev hev
  by_cases hof : ev.taskId = task.id
  · obtain ⟨_, _, hkind⟩ := Metering.bills_of_balanced hb htask hev hof
    simp [hof, hkind]
  · simp [hof]

theorem Sound.consistent (h : Sound s₀ s) : Consistent s := by
  refine ⟨?_, ?_, fun sub _ ↦ h.gate.once sub.id⟩
  · intro task htask hgold happ
    obtain ⟨ev, hlist, _⟩ :=
      (Metering.approvedRecordEvents_of_balanced h.balanced htask).1 hgold happ
    rw [usageEventsOf_eq h.balanced htask, hlist]
    rfl
  · intro task htask _ hnot
    rw [usageEventsOf_eq h.balanced htask,
      (Metering.approvedRecordEvents_of_balanced h.balanced htask).2 (Or.inr hnot)]
    rfl

section Interleaving

variable {ι : Type} [DecidableEq ι]

/-- The commit condition under which no decision is made twice: the submission
still waits, and its task has the usage events the review found. -/
def stillDue (calls : ι → ReviewCall) : Machine.CommitCond ι Db Write Query :=
  fun i seen _ s ↦ ∀ sub ∈ s.submissions, sub.id = (calls i).submissionId →
    sub.status = .humanReview ∧
      Fresh (.rows .usageEvents) (fun s ↦ Billing.approvedRecordEvents s sub.taskId) seen s

theorem consistent_of_stillDue {s₀ : Db} {w₀ w₁ : ℕ} {tr : List (Served Api.Http Db Json)}
    (hstart : machine.Run (Api.serve env) Db.empty w₁ tr s₀ w₀) {calls : ι → ReviewCall}
    {S : Sys ι Db Write Query Call Reply ℕ PyError Json}
    (h : machine.Steps (stillDue calls)
      (.init s₀ w₀ fun i ↦ Api.serve env (calls i).http) S) : Consistent S.store := by
  have hsound : Sound s₀ S.store := by
    refine Machine.Steps.invariant (J := fun s _ ↦ Sound s₀ s) (fun _ _ _ h _ ↦ h)
      (sound_of_run hstart) ?_ h
    intro i r ws seen s s' w hs hh hdue hv
    have hseen : ∀ q s₁, (q, s₁) ∈ seen → Sound s₀ s₁ := by
      intro q s₁ hs₁
      obtain ⟨_, hsound⟩ := hh.of_mem_seen hs₁
      exact hsound
    obtain ⟨s₁, sub, hs₁, hsub, hwrites⟩ := runs_postHumanReview hh.runs
    obtain ⟨sub', hsub', hof⟩ := (hseen _ _ hs₁).row hs (Table.mem_of_find? hsub)
    have hid : sub'.id = (calls i).submissionId :=
      (Table.key_of_find? hsub').trans (Table.key_of_find? hsub)
    obtain ⟨hwaiting, hfresh⟩ := hdue sub' (Table.mem_of_find? hsub') hid
    exact hs.commit hwrites hseen hsub' hof hwaiting hfresh hv
  exact hsound.consistent

end Interleaving

/-- A second version of a submission waits beside the first. -/
def twoVersions : List Api.Request :=
  Development.firstSubmission ++ [.createSubmission Development.taskId Development.authorId
    [("response", .str "It is deductible, too.")]]

/-- Both versions are passed. -/
def passes : Bool → ReviewCall
  | false => ⟨none, none, Development.submissionId, ⟨Development.reviewerId, .pass, none, ""⟩⟩
  | true =>
      ⟨none, none, Development.identifier 33, ⟨Development.reviewerId, .pass, none, ""⟩⟩

def passingBoth : Sys Bool Db Write Query Call Reply ℕ PyError Json :=
  .init (Development.run twoVersions).2.1 (Development.run twoVersions).2.2 fun i ↦
    Api.serve Development.env (passes i).http

/-- The second review finds its submission waiting, then the first runs and
commits, then the second goes on: it finds the task charged. -/
def meterAfterCommit : List (Move Bool) :=
  List.replicate 5 (.advance true) ++ List.replicate 40 (.advance false) ++ [.commit false] ++
    List.replicate 40 (.advance true) ++ [.commit true]

theorem consistent_of_stillDue_twoVersions :
    ∃ S, machine.Steps (stillDue passes) passingBoth S ∧ S.Done ∧
      S.store.submissions.rows.map Submission.status = [.approved, .approved] ∧
      S.store.usageEvents.rows.length = 1 ∧ Consistent S.store := by
  have hplay : (machine.play Development.answers meterAfterCommit 100 passingBoth).map
      (fun S ↦ (decide S.Done, S.store.submissions.rows.map Submission.status,
        S.store.usageEvents.rows.length)) = some (true, [.approved, .approved], 1) := by
    decide +kernel
  have hdue : ∀ c ∈ machine.commits Development.answers meterAfterCommit 100 passingBoth,
      ∀ sub ∈ c.2.2.2.submissions.rows, sub.id = (passes c.1).submissionId →
        sub.status = .humanReview ∧ ∀ x ∈ c.2.1, x.1 = .rows .usageEvents →
          Billing.approvedRecordEvents x.2 sub.taskId =
            Billing.approvedRecordEvents c.2.2.2 sub.taskId := by
    decide +kernel
  obtain ⟨S, hS, hfinal⟩ := Option.map_eq_some_iff.mp hplay
  simp only [Prod.mk.injEq, decide_eq_true_eq] at hfinal
  obtain ⟨hdone, hstatus, hcharged⟩ := hfinal
  have hsteps : machine.Steps (stillDue passes) passingBoth S := by
    refine Machine.steps_of_play hS fun c hc sub hsub hid ↦ ?_
    obtain ⟨hwaiting, hfresh⟩ := hdue c hc sub hsub hid
    exact ⟨hwaiting, fun s₀ hs₀ ↦ hfresh _ hs₀ rfl⟩
  exact ⟨S, hsteps, hdone, hstatus, hcharged,
    consistent_of_stillDue (Development.run_spec twoVersions) hsteps⟩

def secondReviewerId : String := Development.identifier 33

/-- A submission waits, and two reviewers may judge it. -/
def twoReviewers : List Api.Request :=
  Development.firstSubmission ++
    [.createExpert ⟨"Max", "max@example.com", ["CPA"], true⟩,
      .recordExam secondReviewerId ⟨.tax, .finite 90, Development.ninety_inRange⟩]

def waitingStore : Db := (Development.run twoReviewers).2.1

/-- The first reviewer passes the submission, the second fails it. -/
def verdicts : Bool → ReviewCall
  | false => ⟨none, none, Development.submissionId, ⟨Development.reviewerId, .pass, none, ""⟩⟩
  | true => ⟨none, none, Development.submissionId, ⟨secondReviewerId, .fail, none, ""⟩⟩

def reviewing : Sys Bool Db Write Query Call Reply ℕ PyError Json :=
  .init waitingStore (Development.run twoReviewers).2.2 fun i ↦
    Api.serve Development.env (verdicts i).http

/-- The second reviewer finds the submission waiting, then the first passes it
and commits, then the second goes on and commits. -/
def staleVerdict : List (Move Bool) :=
  List.replicate 5 (.advance true) ++ List.replicate 40 (.advance false) ++ [.commit false] ++
    List.replicate 40 (.advance true) ++ [.commit true]

/-- Both verdicts are recorded, and a rejected submission stays charged. -/
theorem judged_twice :
    ¬∀ S, machine.Interleaves reviewing S → S.Done → Consistent S.store := by
  intro hclaim
  have hplay : (machine.play Development.answers staleVerdict 100 reviewing).map (fun S ↦
      (decide S.Done, S.store.submissions.rows.map fun sub ↦
        (sub.status, (Evidence.humanReviews S.store sub.id).length,
          (usageEventsOf S.store sub.taskId).length))) =
      some (true, [(.rejected, 2, 1)]) := by decide +kernel
  obtain ⟨S, hS, hfinal⟩ := Option.map_eq_some_iff.mp hplay
  simp only [Prod.mk.injEq, decide_eq_true_eq] at hfinal
  obtain ⟨hdone, hsubs⟩ := hfinal
  obtain ⟨sub, hsub, htwice⟩ := List.mem_map.mp (hsubs ▸ List.mem_singleton_self _)
  simp only [Prod.mk.injEq] at htwice
  have honce := (hclaim S (Machine.interleaves_of_play hS) hdone).once sub hsub
  omega

end HumanReview

end HumanDataFactory
