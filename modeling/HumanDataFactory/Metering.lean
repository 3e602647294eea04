import HumanDataFactory.Api.Effects
import HumanDataFactory.Development

/-!
# Metering

What the factory charges for is kept in a book: the tasks of each project, the
submissions, which of them were approved, and the charges.  The book grows by
small steps, each of which keeps it balanced, every request is a sequence of
such steps, and a balanced book says which usage events the database holds.
-/

namespace HumanDataFactory

open Transact

namespace Metering

/-! ## The book -/

/-- What never changes of a task. -/
structure TaskFacts where
  id : String
  projectId : String
  isGold : Bool

/-- A usage event without the invoice it is attached to. -/
structure Charge where
  id : String
  taskId : String
  projectId : String
  firmId : String
  submissionId : String
  kind : String
  quantity : ℤ
  unitPriceCents : ℤ
  amountCents : ℤ

structure Book where
  /-- Projects with their firms. -/
  projects : Set (String × String)
  tasks : Set TaskFacts
  /-- Submissions with their tasks. -/
  submissions : Set (String × String)
  /-- The submissions that were approved. -/
  approved : Set (String × String)
  charges : Set Charge

/-- A charge for the approval of a task's submission. -/
structure Charge.IsFor (c : Charge) (t : TaskFacts) (submissionId : String) : Prop where
  task : c.taskId = t.id
  project : c.projectId = t.projectId
  submission : c.submissionId = submissionId
  kind : c.kind = "approved_record"
  quantity : c.quantity = 1
  amount : c.amountCents = c.unitPriceCents

inductive Book.Step (b : Book) : Book → Prop
  | addProject (p : String × String) : Step b { b with projects := insert p b.projects }
  | addTask (t : TaskFacts) (hnew : ∀ u ∈ b.tasks, u.id ≠ t.id) :
      Step b { b with tasks := insert t b.tasks }
  | addSubmission (id : String) {t : TaskFacts} (ht : t ∈ b.tasks) :
      Step b { b with submissions := insert (id, t.id) b.submissions }
  | approve {id : String} {t : TaskFacts} (ht : t ∈ b.tasks)
      (hsub : (id, t.id) ∈ b.submissions)
      (hfree : t.isGold = true ∨ ∃ c ∈ b.charges, c.taskId = t.id) :
      Step b { b with approved := insert (id, t.id) b.approved }
  | charge {id : String} {t : TaskFacts} (ht : t ∈ b.tasks)
      (hsub : (id, t.id) ∈ b.submissions) (hgold : t.isGold = false)
      (hnew : ∀ c ∈ b.charges, c.kind = "approved_record" → c.taskId ≠ t.id) {c : Charge}
      (hc : c.IsFor t id) (hfirm : (t.projectId, c.firmId) ∈ b.projects) :
      Step b { b with
        approved := insert (id, t.id) b.approved
        charges := insert c b.charges }

/-- One charge for every approved task that is not gold, and no other. -/
structure Book.Balanced (b : Book) : Prop where
  unique : ∀ t ∈ b.tasks, ∀ u ∈ b.tasks, t.id = u.id → t = u
  taskOf : ∀ x ∈ b.submissions, ∃ t ∈ b.tasks, t.id = x.2
  approvedSub : b.approved ⊆ b.submissions
  backed : ∀ c ∈ b.charges, ∃ t ∈ b.tasks, t.isGold = false ∧ c.IsFor t c.submissionId ∧
    (t.projectId, c.firmId) ∈ b.projects ∧ (c.submissionId, t.id) ∈ b.approved
  once : ∀ c ∈ b.charges, ∀ d ∈ b.charges, c.taskId = d.taskId → c = d
  complete : ∀ x ∈ b.approved, ∀ t ∈ b.tasks, t.id = x.2 → t.isGold = false →
    ∃ c ∈ b.charges, c.taskId = t.id

theorem Book.Step.balanced {b b' : Book} (h : b.Step b') (hb : b.Balanced) : b'.Balanced := by
  cases h with
  | addProject p =>
      refine { hb with backed := ?_ }
      intro c hc
      obtain ⟨t, ht, hgold, hfor, hfirm, happ⟩ := hb.backed c hc
      exact ⟨t, ht, hgold, hfor, Set.mem_insert_of_mem _ hfirm, happ⟩
  | addTask t hnew =>
      refine { hb with unique := ?_, taskOf := ?_, backed := ?_, complete := ?_ }
      · rintro u (rfl | hu) v (rfl | hv) huv
        · rfl
        · exact absurd huv.symm (hnew v hv)
        · exact absurd huv (hnew u hu)
        · exact hb.unique u hu v hv huv
      · intro x hx
        obtain ⟨u, hu, hid⟩ := hb.taskOf x hx
        exact ⟨u, Set.mem_insert_of_mem _ hu, hid⟩
      · intro c hc
        obtain ⟨u, hu, hrest⟩ := hb.backed c hc
        exact ⟨u, Set.mem_insert_of_mem _ hu, hrest⟩
      · rintro x hx u (rfl | hu) hid hgold
        · obtain ⟨v, hv, hvid⟩ := hb.taskOf x (hb.approvedSub hx)
          exact absurd (hvid.trans hid.symm) (hnew v hv)
        · exact hb.complete x hx u hu hid hgold
  | addSubmission id ht =>
      refine { hb with taskOf := ?_, approvedSub := ?_ }
      · rintro x (rfl | hx)
        · exact ⟨_, ht, rfl⟩
        · exact hb.taskOf x hx
      · exact hb.approvedSub.trans (Set.subset_insert _ _)
  | @approve id t ht hsub hfree =>
      refine { hb with approvedSub := ?_, backed := ?_, complete := ?_ }
      · exact Set.insert_subset hsub hb.approvedSub
      · intro c hc
        obtain ⟨u, hu, hgold, hfor, hfirm, happ⟩ := hb.backed c hc
        exact ⟨u, hu, hgold, hfor, hfirm, Set.mem_insert_of_mem _ happ⟩
      · rintro x (rfl | hx) u hu hid hgold
        · obtain rfl := hb.unique u hu t ht hid
          rcases hfree with hfree | hfree
          · simp [hfree] at hgold
          · exact hfree
        · exact hb.complete x hx u hu hid hgold
  | @charge id t ht hsub hgold hnew c hc hfirm =>
      have hnone : ∀ d ∈ b.charges, d.taskId ≠ t.id := by
        intro d hd
        obtain ⟨u, _, _, hfor, _⟩ := hb.backed d hd
        exact hnew d hd hfor.kind
      refine { hb with approvedSub := ?_, backed := ?_, once := ?_, complete := ?_ }
      · exact Set.insert_subset hsub hb.approvedSub
      · rintro d (rfl | hd)
        · refine ⟨t, ht, hgold, ?_, hfirm, ?_⟩
          · rwa [hc.submission]
          · exact Or.inl (by rw [hc.submission])
        · obtain ⟨u, hu, hgold, hfor, hfirm, happ⟩ := hb.backed d hd
          exact ⟨u, hu, hgold, hfor, hfirm, Set.mem_insert_of_mem _ happ⟩
      · rintro d (rfl | hd) e (rfl | he) hde
        · rfl
        · exact absurd (hde.symm.trans hc.task) (hnone e he)
        · exact absurd (hde.trans hc.task) (hnone d hd)
        · exact hb.once d hd e he hde
      · rintro x (rfl | hx) u hu hid hgold'
        · exact ⟨c, Or.inl rfl, hc.task.trans hid.symm⟩
        · obtain ⟨d, hd, hdid⟩ := hb.complete x hx u hu hid hgold'
          exact ⟨d, Set.mem_insert_of_mem _ hd, hdid⟩

theorem Book.Balanced.of_steps {b b' : Book} (h : Relation.ReflTransGen Book.Step b b')
    (hb : b.Balanced) : b'.Balanced := by
  induction h with
  | refl => exact hb
  | tail _ hstep ih => exact hstep.balanced ih

/-! ## The book of a database -/

def taskFacts (t : Task) : TaskFacts :=
  ⟨t.id, t.projectId, t.isGold⟩

def chargeOf (ev : UsageEvent) : Charge :=
  ⟨ev.id, ev.taskId, ev.projectId, ev.firmId, ev.submissionId, ev.kind, ev.quantity,
    ev.unitPriceCents, ev.amountCents⟩

def approvedPair (sub : Submission) : Option (String × String) :=
  if sub.status = .approved then some (sub.id, sub.taskId) else none

def bookOf (s : Db) : Book where
  projects := s.projects.gather fun p ↦ some (p.id, p.firmId)
  tasks := s.tasks.gather fun t ↦ some (taskFacts t)
  submissions := s.submissions.gather fun sub ↦ some (sub.id, sub.taskId)
  approved := s.submissions.gather approvedPair
  charges := s.usageEvents.gather fun ev ↦ some (chargeOf ev)

theorem balanced_empty : (bookOf Db.empty).Balanced := by
  constructor <;> simp [bookOf, Db.empty]

section Tables

variable {s : Db}

theorem bookOf_push_project {p : Project} (h : s.projects.Vacant p.id) :
    bookOf { s with projects := s.projects.push p } =
      { bookOf s with projects := insert (p.id, p.firmId) (bookOf s).projects } :=
  congrArg (fun x ↦ { bookOf s with projects := x })
    (Table.gather_push_some (g := fun p ↦ some (p.id, p.firmId)) h rfl)

theorem bookOf_push_task {t : Task} (h : s.tasks.Vacant t.id) :
    bookOf { s with tasks := s.tasks.push t } =
      { bookOf s with tasks := insert (taskFacts t) (bookOf s).tasks } :=
  congrArg (fun x ↦ { bookOf s with tasks := x })
    (Table.gather_push_some (g := fun t ↦ some (taskFacts t)) h rfl)

theorem bookOf_push_usageEvent {ev : UsageEvent} (h : s.usageEvents.Vacant ev.id) :
    bookOf { s with usageEvents := s.usageEvents.push ev } =
      { bookOf s with charges := insert (chargeOf ev) (bookOf s).charges } :=
  congrArg (fun x ↦ { bookOf s with charges := x })
    (Table.gather_push_some (g := fun ev ↦ some (chargeOf ev)) h rfl)

/-- Assigning or completing a task leaves the book alone. -/
theorem bookOf_replace_task {t : Task} (t' : Task) (h : s.tasks.find? t.id = some t)
    (hfacts : taskFacts t' = taskFacts t) :
    bookOf { s with tasks := s.tasks.replace t' } = bookOf s := by
  have hfind : s.tasks.find? t'.id = some t := by
    rwa [show t'.id = t.id from congrArg TaskFacts.id hfacts]
  have hgather := Table.gather_replace (g := fun t ↦ some (taskFacts t)) hfind (by rw [hfacts])
  exact congrArg (fun x ↦ { bookOf s with tasks := x }) hgather

theorem bookOf_push_submission (sub : Submission) (h : s.submissions.Vacant sub.id)
    (hstatus : sub.status ≠ .approved) :
    bookOf { s with submissions := s.submissions.push sub } =
      { bookOf s with submissions := insert (sub.id, sub.taskId) (bookOf s).submissions } := by
  have hids := Table.gather_push_some (g := fun sub ↦ some (sub.id, sub.taskId)) h rfl
  have happroved := Table.gather_push_none h (g := approvedPair) (if_neg hstatus)
  exact congrArg₂ (fun x y ↦ { bookOf s with submissions := x, approved := y }) hids happroved

theorem bookOf_push_approved (sub : Submission) (h : s.submissions.Vacant sub.id)
    (hstatus : sub.status = .approved) :
    bookOf { s with submissions := s.submissions.push sub } =
      { bookOf s with
        submissions := insert (sub.id, sub.taskId) (bookOf s).submissions
        approved := insert (sub.id, sub.taskId) (bookOf s).approved } := by
  have hids := Table.gather_push_some (g := fun sub ↦ some (sub.id, sub.taskId)) h rfl
  have happroved := Table.gather_push_some h (g := approvedPair) (if_pos hstatus)
  exact congrArg₂ (fun x y ↦ { bookOf s with submissions := x, approved := y }) hids happroved

/-- A verdict on a submission that was not approved yet. -/
theorem bookOf_replace_submission {sub : Submission} (sub' : Submission)
    (h : s.submissions.find? sub.id = some sub) (hid : sub'.id = sub.id)
    (htask : sub'.taskId = sub.taskId) (hold : sub.status ≠ .approved)
    (hstatus : sub'.status ≠ .approved) :
    bookOf { s with submissions := s.submissions.replace sub' } = bookOf s := by
  have hfind : s.submissions.find? sub'.id = some sub := by rwa [hid]
  have hids := Table.gather_replace (g := fun sub ↦ some (sub.id, sub.taskId)) hfind
    (by rw [hid, htask])
  have happroved := Table.gather_replace (g := approvedPair) hfind
    ((if_neg hstatus).trans (if_neg hold).symm)
  exact congrArg₂ (fun x y ↦ { bookOf s with submissions := x, approved := y }) hids happroved

theorem bookOf_replace_approved {sub : Submission} (sub' : Submission)
    (h : s.submissions.find? sub.id = some sub) (hid : sub'.id = sub.id)
    (htask : sub'.taskId = sub.taskId) (hold : sub.status ≠ .approved)
    (hstatus : sub'.status = .approved) :
    bookOf { s with submissions := s.submissions.replace sub' } =
      { bookOf s with approved := insert (sub.id, sub.taskId) (bookOf s).approved } := by
  have hfind : s.submissions.find? sub'.id = some sub := by rwa [hid]
  have hids := Table.gather_replace (g := fun sub ↦ some (sub.id, sub.taskId)) hfind
    (by rw [hid, htask])
  have happroved := Table.gather_replace_some (g := approvedPair) hfind (if_neg hold)
    (if_pos hstatus)
  rw [hid, htask] at happroved
  exact congrArg₂ (fun x y ↦ { bookOf s with submissions := x, approved := y }) hids happroved

/-- Attaching events to an invoice leaves the book alone. -/
theorem bookOf_attach (invoiceId : String) (events : List UsageEvent) :
    bookOf { s with
        usageEvents := s.usageEvents.mapRows (Billing.attach invoiceId events)
          (Billing.attach_id invoiceId events) } = bookOf s := by
  have hcharge : ∀ ev, chargeOf (Billing.attach invoiceId events ev) = chargeOf ev := by
    intro ev
    unfold Billing.attach
    split <;> rfl
  have hgather := Table.gather_mapRows (t := s.usageEvents) (g := fun ev ↦ some (chargeOf ev))
    (Billing.attach_id invoiceId events) fun ev ↦ congrArg some (hcharge ev)
  exact congrArg (fun x ↦ { bookOf s with charges := x }) hgather

end Tables

variable {env : Env} {s s' : Db}

/-- The approval of a submission with its metering is one step of the book. -/
theorem metered_step {project : Project} {task : Task} {sub : Submission} {b : Book}
    (h : Billing.Metered env project task sub s s')
    (hb : bookOf s = { b with approved := insert (sub.id, sub.taskId) b.approved })
    (hof : sub.taskId = task.id) (htask : taskFacts task ∈ b.tasks)
    (hsub : (sub.id, sub.taskId) ∈ b.submissions)
    (hid : project.id = task.projectId) (hproject : (project.id, project.firmId) ∈ b.projects) :
    b.Step (bookOf s') := by
  have hcharges : (bookOf s).charges = b.charges := by rw [hb]
  rw [hof] at hb hsub
  cases h with
  | skipped hfree =>
      rw [hb]
      refine .approve htask hsub ?_
      rcases hfree with hgold | ⟨ev, hev⟩
      · exact Or.inl hgold
      · have hmem : ev ∈ Billing.approvedRecordEvents s task.id := by simp [hev]
        obtain ⟨hev, hof⟩ := List.mem_filter.mp hmem
        simp only [decide_eq_true_eq] at hof
        refine Or.inr ⟨chargeOf ev, ?_, hof.1⟩
        rw [← hcharges]
        exact ⟨ev, hev, rfl⟩
  | @metered hgold hnew firm hfirm ev hev hvac aud haud =>
      have hbook := bookOf_push_usageEvent hvac
      rw [hb] at hbook
      have hstep : b.Step { b with
          approved := insert (sub.id, task.id) b.approved
          charges := insert (chargeOf ev) b.charges } := by
        obtain ⟨id, now, rfl⟩ := hev
        refine .charge htask hsub hgold ?_ ⟨rfl, hid, rfl, rfl, rfl, rfl⟩ ?_
        · intro c hc hkind hcid
          rw [← hcharges] at hc
          obtain ⟨ev, hev, hof⟩ := hc
          cases hof
          have hmem : ev ∈ Billing.approvedRecordEvents s task.id :=
            List.mem_filter.mpr ⟨hev, by simpa using ⟨hcid, hkind⟩⟩
          simp [hnew] at hmem
        · have hfirmId : firm.id = project.firmId := Table.key_of_find? hfirm
          change (task.projectId, firm.id) ∈ b.projects
          rwa [hfirmId, ← hid]
      rw [← hbook] at hstep
      exact hstep

abbrev Book.Steps : Book → Book → Prop :=
  Relation.ReflTransGen Book.Step

theorem Book.Steps.of_eq {b b' : Book} (h : b' = b) : b.Steps b' := by
  subst h
  exact .refl

theorem isGold_of_goldAnswer {task : Task} {answer : Json}
    (h : Engine.goldAnswerOf task = some answer) : task.isGold = true := by
  unfold Engine.goldAnswerOf at h
  split at h
  · assumption
  · cases h

/-- A submission enters the book, and may be approved at once. -/
theorem processed_steps {sub : Submission} {task : Task} {project : Project} {expert : Expert}
    {aud : AuditEvent}
    (h : Engine.Processed env s.submissions sub task project expert
      { s with submissions := s.submissions.push sub, auditEvents := s.auditEvents ++ [aud] } s')
    (hv : s.submissions.Vacant sub.id) (hof : sub.taskId = task.id)
    (htask : s.tasks.find? task.id = some task)
    (hproject : s.projects.find? task.projectId = some project) :
    (bookOf s).Steps (bookOf s') := by
  have hmem : taskFacts task ∈ (bookOf s).tasks := ⟨task, Table.mem_of_find? htask, rfl⟩
  have henter : (bookOf s).Step { bookOf s with
      submissions := insert (sub.id, sub.taskId) (bookOf s).submissions } := by
    rw [hof]
    exact .addSubmission sub.id hmem
  have hsub : (sub.id, sub.taskId) ∈ insert (sub.id, sub.taskId) (bookOf s).submissions :=
    Set.mem_insert _ _
  cases h with
  | autoCheckFailed hfailed hid haud =>
      have hbook := bookOf_push_submission (s := s) { sub with status := .autoCheckFailed } hv
        (by simp)
      rw [← hbook] at henter
      exact .single henter
  | goldChecked hpassed hgold passed hid hid' haud =>
      have htask' : ∀ t, bookOf { s with
          submissions := t
          tasks := s.tasks.replace (Engine.approvedTask task) } =
          bookOf { s with submissions := t } :=
        fun t ↦ bookOf_replace_task (s := { s with submissions := t }) _ htask rfl
      cases passed with
      | true =>
          have hbook := bookOf_push_approved (s := s) { sub with status := .approved } hv rfl
          have happrove := Book.Step.approve (b := { bookOf s with
            submissions := insert (sub.id, sub.taskId) (bookOf s).submissions })
            hmem (by rwa [hof] at hsub ⊢) (Or.inl (isGold_of_goldAnswer hgold))
          rw [show (taskFacts task).id = sub.taskId from hof.symm] at happrove
          have hsteps : (bookOf s).Steps _ := .tail (.single henter) happrove
          rw [← hbook, ← htask' (s.submissions.push { sub with status := .approved })] at hsteps
          exact hsteps
      | false =>
          have hbook := bookOf_push_submission (s := s) { sub with status := .rejected } hv
            (by simp)
          rw [← hbook, ← htask' (s.submissions.push { sub with status := .rejected })] at henter
          exact .single henter
  | @heldBack validation hpassed hgold result sampled status hstatus hroute id now hid id' now'
      hid' aud' haud =>
      have hbook := bookOf_push_submission (s := s)
        { sub with status := status, sampledForHumanReview := sampled } hv
        (by rcases hstatus with rfl | rfl <;> simp)
      rw [← hbook] at henter
      exact .single henter
  | @autoApproved validation hpassed hgold result sampled hroute id now hid id' now' hid' s₁ hmeter
      aud' haud =>
      have hbook := bookOf_push_approved (s := s)
        { sub with status := .approved, sampledForHumanReview := sampled } hv rfl
      have htask' := bookOf_replace_task (s := { s with
        submissions := s.submissions.push
          { sub with status := .approved, sampledForHumanReview := sampled } })
        (Engine.approvedTask task) htask rfl
      rw [hbook] at htask'
      have hid : project.id = task.projectId := Table.key_of_find? hproject
      have hstep := metered_step (b := { bookOf s with
        submissions := insert (sub.id, sub.taskId) (bookOf s).submissions })
        hmeter htask' hof hmem hsub hid ⟨project, Table.mem_of_find? hproject, rfl⟩
      exact .tail (.single henter) hstep

theorem reviewed_steps {sub : Submission} {reviewer : Expert} {verdict : Verdict}
    (h : Engine.Reviewed env sub reviewer verdict s s')
    (hsub : s.submissions.find? sub.id = some sub) : (bookOf s).Steps (bookOf s') := by
  obtain ⟨hstatus, hother, hreviewer, hqualified, hid, hdecided, haud⟩ := h
  have hnot : sub.status ≠ .approved := by simp [hstatus]
  cases hdecided with
  | @pass task htask project hproject author hauthor s₁ hmeter =>
      have hbook := bookOf_replace_approved { sub with status := .approved } hsub rfl rfl hnot rfl
      have htask' := bookOf_replace_task (s := { s with
        submissions := s.submissions.replace { sub with status := .approved } })
        (Engine.approvedTask task) (Table.find?_key htask) rfl
      rw [hbook] at htask'
      have hmem : taskFacts task ∈ (bookOf s).tasks := ⟨task, Table.mem_of_find? htask, rfl⟩
      have hin : (sub.id, sub.taskId) ∈ (bookOf s).submissions :=
        ⟨sub, Table.mem_of_find? hsub, rfl⟩
      have hof : sub.taskId = task.id := (Table.key_of_find? htask).symm
      have hproj : project.id = task.projectId := Table.key_of_find? hproject
      have hstep := metered_step (b := bookOf s) hmeter htask' hof hmem hin hproj
        ⟨project, Table.mem_of_find? hproject, rfl⟩
      exact .single hstep
  | revise =>
      have hbook := bookOf_replace_submission { sub with status := .needsRevision } hsub
        rfl rfl hnot (by simp)
      exact .of_eq hbook
  | fail hauthor =>
      have hbook := bookOf_replace_submission { sub with status := .rejected } hsub
        rfl rfl hnot (by simp)
      exact .of_eq hbook

/-- Every request is a sequence of steps of the book. -/
theorem effect_steps {actor : Auth.Actor} {request : Api.Request}
    (h : Api.Effect env actor s request s') : (bookOf s).Steps (bookOf s') := by
  cases h with
  | @createProject body id rubricId aud hfirm hrubric hid haud =>
      have hbook := bookOf_push_project (p := ⟨id, body.name, body.firmId, body.track,
        body.taskType, body.guidelines, rubricId, actor.id⟩) hid
      have hstep : (bookOf s).Step _ := .addProject (id, body.firmId)
      rw [← hbook] at hstep
      exact .single hstep
  | @createTask projectId body project id now aud hproject hgold hid haud =>
      have hbook := bookOf_push_task (t := Api.newTask project body id now) hid
      have hnew : ∀ u ∈ (bookOf s).tasks, u.id ≠ id := by
        rintro u ⟨t, ht, hu⟩
        cases hu
        exact hid t ht
      have hstep := Book.Step.addTask (b := bookOf s)
        (taskFacts (Api.newTask project body id now)) hnew
      rw [← hbook] at hstep
      exact .single hstep
  | assignTask htask hexpert hproject hqualified haud =>
      exact .of_eq (bookOf_replace_task _ (Table.find?_key htask) rfl)
  | createSubmission htask hexpert h =>
      obtain ⟨hproject, hqualified, hheld, hassigned, ⟨id, now, rfl⟩, hid, haud, hprocess⟩ := h
      exact processed_steps hprocess hid rfl (Table.find?_key htask) hproject
  | postHumanReview hsub hreviewer h => exact reviewed_steps h (Table.find?_key hsub)
  | generateInvoice hfirm h =>
      obtain ⟨hinv, hfirms, haud⟩ := h
      exact .of_eq (bookOf_attach _ _)
  | createInvoiceCheckout hinv haccess h =>
      cases h
      exact .refl
  | recordExternalPayment hinv h =>
      cases h
      exact .refl
  | stripeWebhook hevent hact h => cases h <;> exact .refl
  | _ => exact .refl

/-- The books balance, and the trail's numbers have been handed out. -/
structure Sound (s : Db) (w : ℕ) : Prop where
  balanced : (bookOf s).Balanced
  below : Audit.SeqBelow s.auditEvents w

theorem Sound.serves {e : Served Api.Http Db Json} {w w' : ℕ} (hs : Sound e.before w)
    (h : machine.Serves (Api.serve env) e w w') : Sound e.after w' := by
  cases h with
  | ok h =>
      obtain ⟨⟨actor, heffect⟩, hseq⟩ := Api.exec_serve h hs.below
      exact ⟨hs.balanced.of_steps (effect_steps heffect), hseq⟩
  | failed h => exact ⟨hs.balanced, hs.below.mono (moves_le h)⟩

theorem sound_of_run {tr : List (Served Api.Http Db Json)} {w₀ w : ℕ}
    (h : machine.Run (Api.serve env) Db.empty w₀ tr s w) : Sound s w :=
  Machine.Run.invariant (I := Sound) ⟨balanced_empty, Audit.seqBelow_empty w₀⟩
    (fun _ _ _ hs he ↦ hs.serves he) h

/-! ## The records that ship -/

theorem ids_keepLatest (latest : List (Task × Submission)) (row : Task × Submission)
    (id : String) : (∃ r ∈ Export.keepLatest latest row, r.1.id = id) ↔
      (∃ r ∈ latest, r.1.id = id) ∨ row.1.id = id := by
  unfold Export.keepLatest
  split
  · rename_i hex
    have hkeep : ∀ r : Task × Submission, (if r.1.id = row.1.id ∧ r.2.version < row.2.version
        then row else r).1.id = r.1.id := by
      intro r
      split
      · rename_i hr
        exact hr.1.symm
      · rfl
    simp only [List.mem_map, exists_exists_and_eq_and, hkeep]
    constructor
    · exact Or.inl
    · rintro (h | rfl)
      · exact h
      · exact hex
  · simp only [List.mem_append, List.mem_singleton, or_and_right, exists_or, exists_eq_left]

/-- Keeping the latest versions keeps every task. -/
theorem ids_latestVersions (rows : List (Task × Submission)) (id : String) :
    (∃ r ∈ Export.latestVersions rows, r.1.id = id) ↔ ∃ r ∈ rows, r.1.id = id := by
  have hfold : ∀ latest : List (Task × Submission),
      (∃ r ∈ rows.foldl Export.keepLatest latest, r.1.id = id) ↔
        (∃ r ∈ latest, r.1.id = id) ∨ ∃ r ∈ rows, r.1.id = id := by
    induction rows with
    | nil => simp
    | cons row rows ih =>
        intro latest
        rw [List.foldl_cons, ih, ids_keepLatest, List.exists_mem_cons_iff, or_assoc]
  have hrows := hfold []
  simp only [List.not_mem_nil, false_and, exists_false, false_or] at hrows
  exact hrows

def HasApproved (s : Db) (task : Task) : Prop :=
  ∃ sub ∈ s.submissions, sub.taskId = task.id ∧ sub.status = .approved

theorem shipped_iff (s : Db) (project : Project) (id : String) :
    (∃ row ∈ Export.approvedRows env s project, row.1.id = id) ↔
      ∃ task ∈ s.tasks, task.id = id ∧ task.projectId = project.id ∧ task.isGold = false ∧
        HasApproved s task := by
  unfold Export.approvedRows
  rw [ids_latestVersions]
  simp only [Env.mem_orderBy, Export.approvedJoin, List.mem_flatMap, List.mem_filter,
    List.mem_map, decide_eq_true_eq, HasApproved, Table.mem_def]
  constructor
  · rintro ⟨_, ⟨task, ⟨htask, hproject, hgold⟩, sub, ⟨hsub, hof, hstatus⟩, rfl⟩, hid⟩
    exact ⟨task, htask, hid, hproject, hgold, sub, hsub, hof, hstatus⟩
  · rintro ⟨task, htask, hid, hproject, hgold, sub, hsub, hof, hstatus⟩
    exact ⟨_, ⟨task, ⟨htask, hproject, hgold⟩, sub, ⟨hsub, hof, hstatus⟩, rfl⟩, hid⟩

/-! ## Metering integrity -/

/-- The usage event that bills a task. -/
structure Bills (s : Db) (task : Task) (ev : UsageEvent) : Prop where
  project : ev.projectId = task.projectId
  firm : ∃ project ∈ s.projects, project.id = task.projectId ∧ ev.firmId = project.firmId
  quantity : ev.quantity = 1
  amount : ev.amountCents = ev.unitPriceCents
  approval : ∃ sub ∈ s.submissions, sub.id = ev.submissionId ∧ sub.taskId = task.id ∧
    sub.status = .approved

theorem mem_approved {x : String × String} (h : x ∈ (bookOf s).approved) :
    ∃ sub ∈ s.submissions, sub.id = x.1 ∧ sub.taskId = x.2 ∧ sub.status = .approved := by
  obtain ⟨sub, hsub, hx⟩ := h
  unfold approvedPair at hx
  split at hx
  · cases hx
    exact ⟨sub, hsub, rfl, rfl, by assumption⟩
  · cases hx

theorem bills_of_balanced (hb : (bookOf s).Balanced) {task : Task} (htask : task ∈ s.tasks)
    {ev : UsageEvent} (hev : ev ∈ s.usageEvents) (hof : ev.taskId = task.id) :
    task.isGold = false ∧ Bills s task ev ∧ ev.kind = "approved_record" := by
  obtain ⟨t, ht, hgold, hfor, hfirm, happ⟩ := hb.backed (chargeOf ev) ⟨ev, hev, rfl⟩
  have hsame : t = taskFacts task :=
    hb.unique t ht _ ⟨task, htask, rfl⟩ (hfor.task.symm.trans hof)
  subst hsame
  obtain ⟨project, hproject, hpair⟩ := hfirm
  simp only [Option.some.injEq, Prod.mk.injEq] at hpair
  obtain ⟨sub, hsub, hid, hsubOf, hstatus⟩ := mem_approved happ
  exact ⟨hgold, ⟨hfor.project, ⟨project, hproject, hpair.1, hpair.2.symm⟩, hfor.quantity,
    hfor.amount, ⟨sub, hsub, hid, hsubOf, hstatus⟩⟩, hfor.kind⟩

theorem mem_approvedRecordEvents {taskId : String} {ev : UsageEvent} :
    ev ∈ Billing.approvedRecordEvents s taskId ↔
      ev ∈ s.usageEvents ∧ ev.taskId = taskId ∧ ev.kind = "approved_record" := by
  simp [Billing.approvedRecordEvents, Table.mem_def]

/-- At most one event for a task. -/
theorem length_approvedRecordEvents (hb : (bookOf s).Balanced) (taskId : String) :
    (Billing.approvedRecordEvents s taskId).length ≤ 1 := by
  have hsame : ∀ ev ∈ Billing.approvedRecordEvents s taskId,
      ∀ ev' ∈ Billing.approvedRecordEvents s taskId, ev.id = ev'.id := by
    intro ev hev ev' hev'
    obtain ⟨hev, hof, _⟩ := mem_approvedRecordEvents.mp hev
    obtain ⟨hev', hof', _⟩ := mem_approvedRecordEvents.mp hev'
    exact congrArg Charge.id (hb.once (chargeOf ev) ⟨ev, hev, rfl⟩ (chargeOf ev') ⟨ev', hev', rfl⟩
      (hof.trans hof'.symm))
  have hnodup : ((Billing.approvedRecordEvents s taskId).map UsageEvent.id).Nodup :=
    s.usageEvents.nodup.sublist (List.filter_sublist.map _)
  rcases hlist : Billing.approvedRecordEvents s taskId with _ | ⟨ev, _ | ⟨ev', evs⟩⟩
  · simp
  · simp
  · rw [hlist] at hsame hnodup
    have := hsame ev (by simp) ev' (by simp)
    simp [this] at hnodup

/-- A task with an approved submission that is not gold is billed once, any
other task not at all. -/
theorem approvedRecordEvents_of_balanced (hb : (bookOf s).Balanced) {task : Task}
    (htask : task ∈ s.tasks) :
    (task.isGold = false → HasApproved s task →
      ∃ ev, Billing.approvedRecordEvents s task.id = [ev] ∧ Bills s task ev) ∧
    (task.isGold = true ∨ ¬HasApproved s task →
      Billing.approvedRecordEvents s task.id = []) := by
  constructor
  · rintro hgold ⟨sub, hsub, hof, hstatus⟩
    have happ : (sub.id, sub.taskId) ∈ (bookOf s).approved := ⟨sub, hsub, if_pos hstatus⟩
    obtain ⟨c, ⟨ev, hev, hc⟩, hid⟩ := hb.complete _ happ (taskFacts task) ⟨task, htask, rfl⟩
      hof.symm hgold
    cases hc
    obtain ⟨_, hbills, hkind⟩ := bills_of_balanced hb htask hev hid
    have hmem : ev ∈ Billing.approvedRecordEvents s task.id :=
      mem_approvedRecordEvents.mpr ⟨hev, hid, hkind⟩
    obtain ⟨ev', hlist⟩ := List.length_eq_one_iff.mp (le_antisymm
      (length_approvedRecordEvents hb task.id) (List.length_pos_of_mem hmem))
    rw [hlist] at hmem
    obtain rfl : ev = ev' := by simpa using hmem
    exact ⟨ev, hlist, hbills⟩
  · intro hfree
    refine List.eq_nil_iff_forall_not_mem.mpr fun ev hev ↦ ?_
    obtain ⟨hev, hid, _⟩ := mem_approvedRecordEvents.mp hev
    obtain ⟨hgold, hbills, _⟩ := bills_of_balanced hb htask hev hid
    rcases hfree with hfree | hfree
    · simp [hfree] at hgold
    · obtain ⟨sub, hsub, _, hof, hstatus⟩ := hbills.approval
      exact hfree ⟨sub, hsub, hof, hstatus⟩

variable (env) in
/-- Metering integrity of a database: what is billed is what ships. -/
structure Integrity (s : Db) : Prop where
  billedOnce : ∀ task ∈ s.tasks, task.isGold = false → HasApproved s task →
    ∃ ev, Billing.approvedRecordEvents s task.id = [ev] ∧ Bills s task ev
  otherwiseFree : ∀ task ∈ s.tasks, task.isGold = true ∨ ¬HasApproved s task →
    Billing.approvedRecordEvents s task.id = []
  shipped : ∀ (project : Project) (taskId : String),
    (∃ row ∈ Export.approvedRows env s project, row.1.id = taskId) ↔
      ∃ ev ∈ s.usageEvents, ev.kind = "approved_record" ∧ ev.projectId = project.id ∧
        ev.taskId = taskId

theorem integrity_of_run {tr : List (Served Api.Http Db Json)} {w₀ w : ℕ}
    (h : machine.Run (Api.serve env) Db.empty w₀ tr s w) : Integrity env s := by
  have hb := (sound_of_run h).balanced
  refine ⟨fun task htask ↦ (approvedRecordEvents_of_balanced hb htask).1,
    fun task htask ↦ (approvedRecordEvents_of_balanced hb htask).2, ?_⟩
  intro project taskId
  rw [shipped_iff]
  constructor
  · rintro ⟨task, htask, rfl, hproject, hgold, happ⟩
    obtain ⟨ev, hlist, hbills⟩ := (approvedRecordEvents_of_balanced hb htask).1 hgold happ
    have hmem : ev ∈ Billing.approvedRecordEvents s task.id := by simp [hlist]
    obtain ⟨hev, hid, hkind⟩ := mem_approvedRecordEvents.mp hmem
    exact ⟨ev, hev, hkind, hbills.project.trans hproject, hid⟩
  · rintro ⟨ev, hev, hkind, hproject, rfl⟩
    obtain ⟨_, ⟨task, htask, ht⟩, _, hfor, _⟩ := hb.backed (chargeOf ev) ⟨ev, hev, rfl⟩
    cases ht
    obtain ⟨hgold, hbills, _⟩ := bills_of_balanced hb htask hev hfor.task
    obtain ⟨sub, hsub, _, hof, hstatus⟩ := hbills.approval
    exact ⟨task, htask, hfor.task.symm, hfor.project.symm.trans hproject, hgold, sub, hsub, hof,
      hstatus⟩

theorem integrity_of_firstApproval :
    (Development.run Development.firstApproval).2.1.usageEvents.rows.length = 1 ∧
      Integrity Development.env (Development.run Development.firstApproval).2.1 :=
  ⟨by decide +kernel, integrity_of_run (Development.run_spec _)⟩

end Metering

end HumanDataFactory
