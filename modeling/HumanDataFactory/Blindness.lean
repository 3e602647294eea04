import HumanDataFactory.Api.Reads
import HumanDataFactory.Development

/-!
# Blind work

Experts are to work on honeypots without knowing it, and reviewers to judge
submissions without knowing whose they are.  Both would mean that a change of
the secret changes no response; the task endpoint shows the one, and the
submission endpoint the other.
-/

namespace HumanDataFactory

open Transact

namespace Blindness

variable {env : Env} {s : Db} {authorization xActorId : Option String} {actor : Auth.Actor}

theorem mem_roles_getTask (role : Role) (id : String) : role ∈ (Api.Read.getTask id).roles := by
  cases role <;> simp [Api.Read.roles, Api.anyAuthenticated]

theorem reviewer_mem_roles (id : String) : .reviewer ∈ (Api.Read.getSubmission id).roles := by
  simp [Api.Read.roles, Api.reviewRoles]

/-- The database with other gold columns in the task. -/
def withGold (s : Db) (task : Task) (isGold : Bool) (goldAnswer : Option Json) : Db :=
  { s with tasks := s.tasks.replace { task with isGold := isGold, goldAnswer := goldAnswer } }

/-- An endpoint that asks for no actor admits everyone. -/
def Admits (role : Role) (request : Api.Request) : Prop :=
  ∀ roles ∈ Api.rolesOf request, role ∈ roles

/-- Whatever the gold columns of the task are, an expert with these headers
gets the same responses. -/
def HidesGold (env : Env) (s : Db) (authorization xActorId : Option String) (task : Task) : Prop :=
  ∀ isGold goldAnswer,
    (∀ read : Api.Read, .expert ∈ read.roles →
      (Api.serveRead env authorization xActorId read).answer s =
        (Api.serveRead env authorization xActorId read).answer
          (withGold s task isGold goldAnswer)) ∧
    ∀ request : Api.Request, Admits .expert request → ∀ w r,
      machine.Responds (Api.serve env ⟨authorization, xActorId, request⟩) s w r ↔
        machine.Responds (Api.serve env ⟨authorization, xActorId, request⟩)
          (withGold s task isGold goldAnswer) w r

section Expert

variable {task : Task} (htask : task ∈ s.tasks)
include htask

theorem find?_withGold (isGold : Bool) (goldAnswer : Option Json) (id : String) :
    (withGold s task isGold goldAnswer).tasks.find? id =
      if task.id = id then some { task with isGold := isGold, goldAnswer := goldAnswer }
      else s.tasks.find? id := by
  have hfind : s.tasks.find? task.id = some task := Table.find?_of_mem htask
  exact Table.find?_replace hfind

/-- An expert sees the flag at the task, and nothing of the gold columns
elsewhere. -/
theorem respond_withGold_iff (hrole : actor.role = .expert) (isGold : Bool)
    (goldAnswer : Option Json) {read : Api.Read} (hadmits : .expert ∈ read.roles) :
    Api.respond env s actor read =
        Api.respond env (withGold s task isGold goldAnswer) actor read ↔
      (read = .getTask task.id → isGold = task.isGold) := by
  have hrefused : ∀ id r, Api.permitted actor id r =
      .error (.http 403 "not permitted for this firm") := by
    intro id r
    refine if_neg ?_
    simp [Auth.firmAccess, Auth.Actor.isInternal, hrole]
  cases read with
  | getTask id =>
      simp only [Api.respond, find?_withGold htask, Api.Read.getTask.injEq]
      by_cases hid : task.id = id
      · subst hid
        rw [Table.find?_of_mem htask, if_pos rfl, forall_prop_of_true rfl, eq_comm (a := isGold)]
        simp only [Api.found, Option.elim_some, Except.ok.injEq, Api.taskOut, Json.obj.injEq,
          List.cons.injEq, Prod.mk.injEq, Json.bool.injEq, true_and, and_true]
      · simp [hid, Ne.symm hid]
  | getControlReport id =>
      simp only [Api.respond, hrefused, reduceCtorEq, false_imp_iff, iff_true]
      rfl
  | getFirm id => exact iff_of_true rfl (by simp)
  | listProjects => exact iff_of_true rfl (by simp)
  | getBillingSummary id => exact iff_of_true rfl (by simp)
  | listUsage id uninvoicedOnly => exact iff_of_true rfl (by simp)
  | listInvoices id => exact iff_of_true rfl (by simp)
  | getInvoice id => exact iff_of_true rfl (by simp)
  | firmReconciliation id periodStart periodEnd => exact iff_of_true rfl (by simp)
  | _ => simp [Api.Read.roles, Api.internal, Api.reviewRoles] at hadmits

theorem answer_withGold_iff (hactor : Api.Authenticates env s authorization xActorId actor)
    (hrole : actor.role = .expert) (isGold : Bool) (goldAnswer : Option Json) {read : Api.Read}
    (hadmits : .expert ∈ read.roles) :
    (Api.serveRead env authorization xActorId read).answer s =
        (Api.serveRead env authorization xActorId read).answer
          (withGold s task isGold goldAnswer) ↔
      (read = .getTask task.id → isGold = task.isGold) := by
  have hactor' : Api.Authenticates env (withGold s task isGold goldAnswer) authorization
      xActorId actor := hactor.congr rfl rfl
  rw [Api.answer_serveRead hactor, Api.answer_serveRead hactor', hrole, if_pos hadmits,
    if_pos hadmits, Option.some.injEq]
  exact respond_withGold_iff htask hrole isGold goldAnswer hadmits

/-- The task endpoint tells a honeypot from any other task. -/
theorem answer_getTask_ne (hactor : Api.Authenticates env s authorization xActorId actor)
    (hrole : actor.role = .expert) (goldAnswer : Option Json) :
    (Api.serveRead env authorization xActorId (.getTask task.id)).answer s ≠
      (Api.serveRead env authorization xActorId (.getTask task.id)).answer
        (withGold s task (!task.isGold) goldAnswer) := by
  rw [ne_eq, answer_withGold_iff htask hactor hrole _ _ (mem_roles_getTask _ _)]
  exact fun h ↦ Bool.not_ne_self _ (h rfl)

/-- No honeypot is hidden from an expert. -/
theorem not_hidesGold (hactor : Api.Authenticates env s authorization xActorId actor)
    (hrole : actor.role = .expert) : ¬HidesGold env s authorization xActorId task := by
  intro hhides
  have hread := (hhides (!task.isGold) task.goldAnswer).1 (.getTask task.id)
    (mem_roles_getTask _ _)
  exact answer_getTask_ne htask hactor hrole _ hread

end Expert

def honeypotDesk : List Api.Request :=
  [.createFirm ⟨"Alder", "ap@alder.example.com", .external, "usd", ""⟩,
    .createExpert ⟨"Ada", "ada@example.com", ["CPA"], false⟩,
    .createUser ⟨"Ada", "ada@example.com", .expert, none, some (Development.identifier 9)⟩,
    .createProject ⟨"Returns", Development.identifier 6, .tax, .sft, "", none⟩,
    .createTask (Development.identifier 17) ⟨"Explain the treatment", [], true,
      some [("must_include", .arr [.str "deductible"])]⟩]

def deskDb : Db :=
  (Development.guardedRun honeypotDesk).2.1

def expertKey : String := "hdf_" ++ Development.identifier 13

def ada : Auth.Actor :=
  ⟨Development.identifier 12, "Ada", .expert, none, some (Development.identifier 9)⟩

theorem authenticates_ada :
    Api.Authenticates Development.guardedEnv deskDb (Development.bearer expertKey) none ada := by
  unfold Api.Authenticates
  decide +kernel

theorem not_hidesGold_of_honeypotDesk : ∃ task ∈ deskDb.tasks, task.isGold = true ∧
    ¬HidesGold Development.guardedEnv deskDb (Development.bearer expertKey) none task := by
  obtain ⟨task, htask, hgold⟩ := List.any_eq_true.mp
    (show (deskDb.tasks.rows.any fun t ↦ t.isGold) = true by decide +kernel)
  exact ⟨task, htask, hgold, not_hidesGold htask authenticates_ada rfl⟩

/-- An expert asks for the honeypot before submitting to it. -/
theorem honeypot_shows :
    ¬∀ (env : Env) (tr : List (Served Api.Http Db Json)) (w₀ w : ℕ) (s : Db)
      (authorization xActorId : Option String) (actor : Auth.Actor) (task : Task),
      machine.Run (Api.serve env) Db.empty w₀ tr s w →
      Api.Authenticates env s authorization xActorId actor → actor.role = .expert →
      task ∈ s.tasks →
      (∀ sub ∈ s.submissions, sub.taskId = task.id → some sub.expertId ≠ actor.expertId) →
      HidesGold env s authorization xActorId task := by
  intro hclaim
  obtain ⟨task, htask, _⟩ := List.any_eq_true.mp
    (show (deskDb.tasks.rows.any fun t ↦ t.isGold) = true by decide +kernel)
  have hempty : deskDb.submissions.rows = [] :=
    List.isEmpty_iff.mp (by decide +kernel)
  have hhides := hclaim _ _ _ _ _ _ _ ada task (Development.guardedRun_spec honeypotDesk)
    authenticates_ada rfl htask fun sub hsub ↦ by
      rw [Table.mem_def, ← deskDb, hempty] at hsub
      cases hsub
  have hread := (hhides (!task.isGold) task.goldAnswer).1 (.getTask task.id)
    (mem_roles_getTask _ _)
  exact answer_getTask_ne htask authenticates_ada rfl _ hread

/-- The database with another author of the submission, who has its task if
the author had it. -/
def withAuthor (s : Db) (sub : Submission) (expertId : String) : Db :=
  { s with
    submissions := s.submissions.replace { sub with expertId := expertId }
    tasks := s.tasks.modify sub.taskId
      (fun t ↦ { t with
        assignedTo := if t.assignedTo = some sub.expertId then some expertId else t.assignedTo })
      fun _ ↦ rfl }

/-- A reviewer with these headers reads the same with another author. -/
def HidesAuthor (env : Env) (s : Db) (authorization xActorId : Option String) (sub : Submission)
    (expertId : String) : Prop :=
  ∀ read : Api.Read, .reviewer ∈ read.roles →
    (Api.serveRead env authorization xActorId read).answer s =
      (Api.serveRead env authorization xActorId read).answer (withAuthor s sub expertId)

theorem find?_withAuthor {sub : Submission} (hsub : sub ∈ s.submissions) (expertId id : String) :
    (withAuthor s sub expertId).submissions.find? id =
      if sub.id = id then some { sub with expertId := expertId }
      else s.submissions.find? id := by
  have hfind : s.submissions.find? sub.id = some sub := Table.find?_of_mem hsub
  exact Table.find?_replace hfind

/-- The submission endpoint names the author. -/
theorem answer_getSubmission_ne (hactor : Api.Authenticates env s authorization xActorId actor)
    (hrole : actor.role = .reviewer) {sub : Submission} (hsub : sub ∈ s.submissions)
    {expertId : String} (hother : expertId ≠ sub.expertId) :
    (Api.serveRead env authorization xActorId (.getSubmission sub.id)).answer s ≠
      (Api.serveRead env authorization xActorId (.getSubmission sub.id)).answer
        (withAuthor s sub expertId) := by
  intro hread
  have hadmits := reviewer_mem_roles sub.id
  have hactor' : Api.Authenticates env (withAuthor s sub expertId) authorization xActorId
      actor := hactor.congr rfl rfl
  have hfind : s.submissions.find? sub.id = some sub := Table.find?_of_mem hsub
  have hfind' : (withAuthor s sub expertId).submissions.find? sub.id =
      some { sub with expertId := expertId } := by
    rw [find?_withAuthor hsub, if_pos rfl]
  rw [Api.answer_serveRead hactor, Api.answer_serveRead hactor', hrole, if_pos hadmits,
    if_pos hadmits, Option.some.injEq] at hread
  simp only [Api.respond, hfind, hfind', Api.found, Option.elim_some, Except.ok.injEq,
    Api.submissionJson, Json.obj.injEq, List.cons.injEq, Prod.mk.injEq, Json.str.injEq,
    true_and] at hread
  exact hother hread.1.symm

/-- No author is hidden from a reviewer. -/
theorem not_hidesAuthor (hactor : Api.Authenticates env s authorization xActorId actor)
    (hrole : actor.role = .reviewer) {sub : Submission} (hsub : sub ∈ s.submissions)
    {expertId : String} (hother : expertId ≠ sub.expertId) :
    ¬HidesAuthor env s authorization xActorId sub expertId :=
  fun hhides ↦ answer_getSubmission_ne hactor hrole hsub hother
    (hhides (.getSubmission sub.id) (reviewer_mem_roles _))

def reviewDesk : List Api.Request :=
  [.createFirm ⟨"Alder", "ap@alder.example.com", .external, "usd", ""⟩,
    .createExpert ⟨"Ada", "ada@example.com", ["CPA"], false⟩,
    .createExpert ⟨"Rae", "rae@example.com", ["CPA"], true⟩,
    .createExpert ⟨"Bo", "bo@example.com", ["CPA"], false⟩,
    .createUser ⟨"Rae", "rae@example.com", .reviewer, none, some (Development.identifier 12)⟩,
    .recordExam (Development.identifier 9) ⟨.tax, .finite 90, Development.ninety_inRange⟩,
    .createProject ⟨"Returns", Development.identifier 6, .tax, .sft, "", none⟩,
    .createTask (Development.identifier 26) ⟨"Explain the treatment", [], false, none⟩,
    .assignTask (Development.identifier 29) (Development.identifier 9),
    .createSubmission (Development.identifier 29) (Development.identifier 9)
      [("response", .str "It is deductible.")]]

def queueDb : Db :=
  (Development.guardedRun reviewDesk).2.1

def reviewerKey : String := "hdf_" ++ Development.identifier 19

def rae : Auth.Actor :=
  ⟨Development.identifier 18, "Rae", .reviewer, none, some (Development.identifier 12)⟩

theorem authenticates_rae :
    Api.Authenticates Development.guardedEnv queueDb (Development.bearer reviewerKey) none rae := by
  unfold Api.Authenticates
  decide +kernel

/-- Ada's submission is in the queue, and Bo could have written it. -/
theorem exists_queued : ∃ sub ∈ queueDb.submissions, sub.status = .humanReview ∧
    sub.expertId = Development.identifier 9 := by
  obtain ⟨sub, hsub, hqueued⟩ := List.any_eq_true.mp (show (queueDb.submissions.rows.any fun sub ↦
    decide (sub.status = .humanReview ∧ sub.expertId = Development.identifier 9)) = true by
      decide +kernel)
  exact ⟨sub, hsub, of_decide_eq_true hqueued⟩

theorem not_hidesAuthor_of_reviewDesk : ∃ sub ∈ queueDb.submissions, sub.status = .humanReview ∧
    ¬HidesAuthor Development.guardedEnv queueDb (Development.bearer reviewerKey) none sub
      (Development.identifier 15) := by
  obtain ⟨sub, hsub, hstatus, hauthor⟩ := exists_queued
  exact ⟨sub, hsub, hstatus, not_hidesAuthor authenticates_rae rfl hsub
    (hauthor ▸ by decide +kernel)⟩

theorem author_shows :
    ¬∀ (env : Env) (tr : List (Served Api.Http Db Json)) (w₀ w : ℕ) (s : Db)
      (authorization xActorId : Option String) (actor : Auth.Actor) (sub : Submission)
      (other : Expert),
      machine.Run (Api.serve env) Db.empty w₀ tr s w →
      Api.Authenticates env s authorization xActorId actor → actor.role = .reviewer →
      sub ∈ s.submissions → sub.status = .humanReview → other ∈ s.experts →
      other.id ≠ sub.expertId → some other.id ≠ actor.expertId →
      HidesAuthor env s authorization xActorId sub other.id := by
  intro hclaim
  obtain ⟨sub, hsub, hstatus, hauthor⟩ := exists_queued
  obtain ⟨other, hother, hid⟩ := List.any_eq_true.mp (show (queueDb.experts.rows.any fun e ↦
    decide (e.id = Development.identifier 15)) = true by decide +kernel)
  have hid : other.id = Development.identifier 15 := of_decide_eq_true hid
  have hne : other.id ≠ sub.expertId := by
    rw [hid, hauthor]
    decide +kernel
  have hnot : some other.id ≠ rae.expertId := by
    rw [hid]
    decide +kernel
  have hhides := hclaim _ _ _ _ _ _ _ rae sub other (Development.guardedRun_spec reviewDesk)
    authenticates_rae rfl hsub hstatus hother hne hnot
  exact answer_getSubmission_ne authenticates_rae rfl hsub hne
    (hhides (.getSubmission sub.id) (reviewer_mem_roles _))

end Blindness

end HumanDataFactory
