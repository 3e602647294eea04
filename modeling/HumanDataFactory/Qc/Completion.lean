import HumanDataFactory.Development
import HumanDataFactory.Evidence

/-!
# Task completion

Every approval completes its task, and nothing else does.  The one request that
takes the status back without a look at it is the assignment: a completed task
that is assigned again is open work with an approved submission.
-/

namespace HumanDataFactory

open Transact

namespace Completion

variable {env : Env} {s s' : Db}

/-- A task outside the gold check is completed exactly if one of its submissions
is approved. -/
def Consistent (s : Db) : Prop :=
  ∀ task ∈ s.tasks, task.isGold = false →
    (task.status = .completed ↔ Metering.HasApproved s task)

/-- The tasks with an approved submission. -/
def approvals (s : Db) : Set String :=
  s.submissions.gather fun sub ↦ if sub.status = .approved then some sub.taskId else none

theorem hasApproved_iff {task : Task} : Metering.HasApproved s task ↔ task.id ∈ approvals s := by
  unfold Metering.HasApproved approvals
  rw [Table.mem_gather]
  refine exists_congr fun sub ↦ and_congr_right fun _ ↦ ?_
  by_cases hstatus : sub.status = .approved <;> simp [hstatus]

theorem consistent_iff : Consistent s ↔ ∀ task ∈ s.tasks, task.isGold = false →
    (task.status = .completed ↔ task.id ∈ approvals s) := by
  simp only [Consistent, hasApproved_iff]

/-- What serving `request` does to tasks and approvals. -/
inductive TaskMove (request : Api.Request) (s s' : Db) : Prop
  | kept (htasks : s'.tasks = s.tasks) (happ : approvals s' = approvals s)
  | created {task : Task} (hvac : s.tasks.Vacant task.id) (htasks : s'.tasks = s.tasks.push task)
      (hstatus : task.status ≠ .completed) (happ : approvals s' = approvals s)
  | assigned {task : Task} {expert : Expert} (hrequest : request = .assignTask task.id expert.id)
      (htask : s.tasks.find? task.id = some task)
      (htasks : s'.tasks = s.tasks.replace (Api.assigned task expert))
      (happ : approvals s' = approvals s)
  | completed {task : Task} (htask : s.tasks.find? task.id = some task)
      (htasks : s'.tasks = s.tasks.replace (Engine.approvedTask task))
      (hown : task.isGold = true ∨ task.id ∈ approvals s')
      (hothers : ∀ id, id ≠ task.id → (id ∈ approvals s' ↔ id ∈ approvals s))

theorem approvals_push {sub : Submission} (hvac : s.submissions.Vacant sub.id)
    (hsubs : s'.submissions = s.submissions.push sub) (hstatus : sub.status ≠ .approved) :
    approvals s' = approvals s := by
  unfold approvals
  rw [hsubs]
  exact Table.gather_push_none hvac (if_neg hstatus)

theorem approvals_push_approved {sub : Submission} (hvac : s.submissions.Vacant sub.id)
    (hsubs : s'.submissions = s.submissions.push sub) (hstatus : sub.status = .approved) :
    approvals s' = insert sub.taskId (approvals s) := by
  unfold approvals
  rw [hsubs]
  exact Table.gather_push_some hvac (if_pos hstatus)

theorem approvals_judged {sub : Submission} {status : SubmissionStatus}
    (hsub : s.submissions.find? sub.id = some sub) (hold : sub.status ≠ .approved)
    (hsubs : s'.submissions = s.submissions.replace { sub with status := status })
    (hstatus : status ≠ .approved) : approvals s' = approvals s := by
  unfold approvals
  rw [hsubs]
  exact Table.gather_replace hsub ((if_neg hstatus).trans (if_neg hold).symm)

theorem approvals_passed {sub : Submission} (hsub : s.submissions.find? sub.id = some sub)
    (hold : sub.status ≠ .approved)
    (hsubs : s'.submissions = s.submissions.replace { sub with status := .approved }) :
    approvals s' = insert sub.taskId (approvals s) := by
  unfold approvals
  rw [hsubs]
  exact Table.gather_replace_some hsub (if_neg hold) (if_pos rfl)

/-- A task is completed together with its approval. -/
theorem TaskMove.of_insert {request : Api.Request} {task : Task}
    (htask : s.tasks.find? task.id = some task)
    (htasks : s'.tasks = s.tasks.replace (Engine.approvedTask task))
    (happ : approvals s' = insert task.id (approvals s)) : TaskMove request s s' := by
  refine .completed htask htasks (Or.inr ?_) fun id hne ↦ ?_
  · rw [happ]
    exact Set.mem_insert _ _
  · rw [happ, Set.mem_insert_iff, or_iff_right hne]

theorem tasks_of_metered {project : Project} {task : Task} {sub : Submission}
    (h : Billing.Metered env project task sub s s') :
    s'.tasks = s.tasks ∧ s'.submissions = s.submissions := by
  cases h <;> exact ⟨rfl, rfl⟩

theorem move_of_submitted {request : Api.Request} {task : Task} {expert : Expert} {content : Json}
    (h : Engine.Submitted env task expert content s s')
    (htask : s.tasks.find? task.id = some task) : TaskMove request s s' := by
  obtain ⟨hproject, hqualified, hheld, hassigned, ⟨id, now, rfl⟩, hid, haud, hprocess⟩ := h
  cases hprocess with
  | autoCheckFailed _ _ _ => exact .kept rfl (approvals_push (by exact hid) rfl (by simp))
  | goldChecked _ hgold passed _ _ _ =>
      have hisGold : task.isGold = true := by
        by_contra hnot
        simp [Engine.goldAnswerOf, hnot] at hgold
      refine .completed htask rfl (Or.inl hisGold) fun id' hne ↦ ?_
      cases passed with
      | true =>
          rw [approvals_push_approved (by exact hid) rfl rfl, Set.mem_insert_iff]
          exact or_iff_right hne
      | false => rw [approvals_push (by exact hid) rfl (by simp)]
  | heldBack _ _ hstatus _ _ _ _ =>
      refine .kept rfl (approvals_push (by exact hid) rfl ?_)
      rcases hstatus with rfl | rfl <;> simp
  | autoApproved _ _ _ _ _ hmeter _ =>
      obtain ⟨htasks, hsubs⟩ := tasks_of_metered hmeter
      exact .of_insert htask htasks (approvals_push_approved (by exact hid) hsubs rfl)

theorem move_of_reviewed {request : Api.Request} {sub : Submission} {reviewer : Expert}
    {verdict : Verdict} (h : Engine.Reviewed env sub reviewer verdict s s')
    (hsub : s.submissions.find? sub.id = some sub) : TaskMove request s s' := by
  obtain ⟨hstatus, hother, hrole, hqualified, hid, hdecided, haud⟩ := h
  have hold : sub.status ≠ .approved := by simp [hstatus]
  cases hdecided with
  | pass htask _ _ hmeter =>
      obtain ⟨htasks, hsubs⟩ := tasks_of_metered hmeter
      obtain hid := Table.key_of_find? htask
      refine .of_insert (Table.find?_key htask) htasks ?_
      rw [hid]
      exact approvals_passed hsub hold hsubs
  | revise => exact .kept rfl (approvals_judged hsub hold rfl (by simp))
  | fail _ => exact .kept rfl (approvals_judged hsub hold rfl (by simp))

theorem move_of_effect {actor : Auth.Actor} {request : Api.Request}
    (h : Api.Effect env actor s request s') : TaskMove request s s' := by
  cases h with
  | createTask _ _ hid _ => exact .created hid rfl (by simp [Api.newTask]) rfl
  | assignTask htask hexpert _ _ _ =>
      obtain rfl := Table.key_of_find? htask
      obtain rfl := Table.key_of_find? hexpert
      exact .assigned rfl htask rfl rfl
  | createSubmission htask _ h => exact move_of_submitted h (Table.find?_key htask)
  | postHumanReview hsub _ h => exact move_of_reviewed h (Table.find?_key hsub)
  | generateInvoice _ h =>
      cases h
      exact .kept rfl rfl
  | createInvoiceCheckout _ _ h =>
      cases h
      exact .kept rfl rfl
  | recordExternalPayment _ h =>
      cases h
      exact .kept rfl rfl
  | stripeWebhook _ _ h => cases h <;> exact .kept rfl rfl
  | _ => exact .kept rfl rfl

/-- No submission is about a task that is not there. -/
theorem vacant_not_approved (hs : Evidence.Sound s) {task : Task}
    (hvac : s.tasks.Vacant task.id) : task.id ∉ approvals s := by
  rw [← hasApproved_iff]
  rintro ⟨sub, hsub, hof, _⟩
  obtain ⟨isGold, old, hold, hfacts⟩ := hs.taskOf sub hsub
  have hid : old.id = sub.taskId := congrArg Prod.fst (Option.some.inj hfacts)
  exact hvac old hold (hid.trans hof)

theorem Consistent.kept (h : Consistent s) (htasks : s'.tasks = s.tasks)
    (happ : approvals s' = approvals s) : Consistent s' := by
  rw [consistent_iff] at h ⊢
  rwa [htasks, happ]

theorem Consistent.push (h : Consistent s) {task : Task} (hvac : s.tasks.Vacant task.id)
    (htasks : s'.tasks = s.tasks.push task) (happ : approvals s' = approvals s)
    (hnew : task.status = .completed ↔ task.id ∈ approvals s) : Consistent s' := by
  rw [consistent_iff] at h ⊢
  intro t ht hgold
  rw [htasks] at ht
  rw [happ]
  rcases (Table.mem_push hvac).mp ht with hold | rfl
  · exact h t hold hgold
  · exact hnew

theorem Consistent.replace (h : Consistent s) {task task' : Task}
    (htasks : s'.tasks = s.tasks.replace task')
    (hid : task'.id = task.id)
    (hothers : ∀ id, id ≠ task.id → (id ∈ approvals s' ↔ id ∈ approvals s))
    (hnew : task'.isGold = false → (task'.status = .completed ↔ task'.id ∈ approvals s')) :
    Consistent s' := by
  rw [consistent_iff] at h ⊢
  intro t ht hgold
  rw [htasks] at ht
  rcases Table.mem_replace ht with rfl | ⟨hold, hne⟩
  · exact hnew hgold
  · rw [hothers t.id (by rwa [hid] at hne)]
    exact h t hold hgold

/-- A request that assigns a non-gold task with an approved submission. -/
def Reassigns (s : Db) (request : Api.Request) : Prop :=
  ∃ taskId expertId, request = .assignTask taskId expertId ∧
    ∃ task ∈ s.tasks, task.id = taskId ∧ task.isGold = false ∧ Metering.HasApproved s task

theorem Consistent.move (h : Consistent s) (hs : Evidence.Sound s) {request : Api.Request}
    (hmove : TaskMove request s s') (hfree : ¬Reassigns s request) : Consistent s' := by
  cases hmove with
  | kept htasks happ => exact h.kept htasks happ
  | created hvac htasks hstatus happ =>
      exact h.push hvac htasks happ (iff_of_false hstatus (vacant_not_approved hs hvac))
  | @assigned task expert hrequest htask htasks happ =>
      refine h.replace htasks rfl (fun id _ ↦ by rw [happ]) fun hgold ↦ ?_
      have hopen : task.id ∉ approvals s := fun happroved ↦ hfree ⟨task.id, expert.id, hrequest,
        task, Table.mem_of_find? htask, rfl, hgold, hasApproved_iff.mpr happroved⟩
      rw [happ]
      exact iff_of_false (by simp [Api.assigned]) hopen
  | @completed task htask htasks hown hothers =>
      refine h.replace htasks rfl hothers fun hgold ↦ ?_
      refine iff_of_true rfl (hown.resolve_left fun hisGold ↦ ?_)
      exact absurd (hgold.symm.trans hisGold) (by simp)

/-- An assigned task is not completed. -/
theorem not_consistent_of_reassigns {actor : Auth.Actor} {request : Api.Request}
    (heffect : Api.Effect env actor s request s') (h : Reassigns s request) :
    ¬Consistent s' := by
  obtain ⟨taskId, expertId, rfl, task, htask, hid, hgold, happroved⟩ := h
  intro hconsistent
  cases heffect with
  | @assignTask _ _ found expert _ _ hfound _ _ _ _ =>
      have hmem := Table.mem_of_find? hfound
      obtain rfl := Table.eq_of_key htask hmem (hid.trans (Table.key_of_find? hfound).symm)
      have hnow := (hconsistent (Api.assigned task expert)
        (Table.mem_replace_self hmem rfl) hgold).mpr happroved
      cases hnow

theorem consistent_empty : Consistent Db.empty := by
  simp [Consistent, Db.empty]

variable {tr : List (Served Api.Http Db Json)} {w₀ w : ℕ}

theorem consistent_of_run (h : machine.Run (Api.serve env) Db.empty w₀ tr s w)
    (hfree : ∀ e ∈ tr, e.outcome ≠ none → ¬Reassigns e.before e.request.request) :
    Consistent s := by
  induction h with
  | nil => exact consistent_empty
  | @snoc tr s w e w' h hb he ih =>
      subst hb
      have hbefore := ih fun e' he' ↦ hfree e' (List.mem_append_left _ he')
      cases he with
      | failed _ => exact hbefore
      | ok hexec =>
          obtain ⟨⟨actor, heffect⟩, _⟩ := Api.exec_serve hexec (Evidence.kept_of_run h).below
          have hthis := hfree _ (List.mem_append_right _ (List.mem_singleton_self _))
          exact hbefore.move (Evidence.kept_of_run h).sound (move_of_effect heffect)
            (hthis (by simp))

/-- A run passes through consistent states only, exactly if no step of it
assigns a non-gold task that has an approved submission. -/
theorem completion_of_run (h : machine.Run (Api.serve env) Db.empty w₀ tr s w) :
    ((∀ e ∈ tr, e.outcome ≠ none → ¬Reassigns e.before e.request.request) → Consistent s) ∧
      ((∀ e ∈ tr, Consistent e.after) ↔
        ∀ e ∈ tr, e.outcome ≠ none → ¬Reassigns e.before e.request.request) := by
  refine ⟨consistent_of_run h, ?_, ?_⟩
  · intro hstates e he houtcome hreassigns
    rcases Api.effect_of_mem (Audit.seqBelow_empty w₀) h he with ⟨actor, heffect⟩ | ⟨hnone, _⟩
    · exact not_consistent_of_reassigns heffect hreassigns (hstates e he)
    · exact houtcome hnone
  · intro hfree e he
    obtain ⟨pre, post, rfl⟩ := List.append_of_mem he
    obtain ⟨w₁, w₂, hpre, hserves, _⟩ := h.split
    refine consistent_of_run (hpre.snoc rfl hserves) fun e' he' ↦ hfree e' ?_
    rcases List.mem_append.mp he' with hold | hlast
    · exact List.mem_append_left _ hold
    · exact List.mem_append_right _ (List.mem_singleton.mp hlast ▸ List.mem_cons_self)

/-- Nothing is assigned on the way to the first approval. -/
theorem completion_of_firstApproval :
    (Development.run Development.firstApproval).2.1.tasks.rows.map Task.status = [.completed] ∧
      ∀ e ∈ (Development.run Development.firstApproval).1, Consistent e.after := by
  have hnone : ∀ e ∈ (Development.run Development.firstApproval).1, ∀ taskId expertId,
      e.request.request ≠ .assignTask taskId expertId := by
    intro e he taskId expertId hassign
    have hkinds : ∀ e ∈ (Development.run Development.firstApproval).1,
        (match e.request.request with | .assignTask _ _ => false | _ => true) = true := by
      decide +kernel
    have hkind := hkinds e he
    rw [hassign] at hkind
    cases hkind
  refine ⟨by decide +kernel, (completion_of_run (Development.run_spec _)).2.mpr ?_⟩
  rintro e he _ ⟨taskId, expertId, hassign, _⟩
  exact hnone e he taskId expertId hassign

def handedOutAgain : List Api.Request :=
  Development.firstApproval ++ [.assignTask Development.taskId Development.authorId]

theorem approved_task_reopened :
    ¬∀ (env : Env) (tr : List (Served Api.Http Db Json)) (w₀ w : ℕ) (s : Db),
      machine.Run (Api.serve env) Db.empty w₀ tr s w → ∀ task ∈ s.tasks, task.isGold = false →
      (task.status = .completed ↔
        ∃ sub ∈ s.submissions, sub.taskId = task.id ∧ sub.status = .approved) := by
  intro hclaim
  have hopen : ∃ task ∈ (Development.run handedOutAgain).2.1.tasks.rows,
      task.isGold = false ∧ task.status = .assigned ∧
        ∃ sub ∈ (Development.run handedOutAgain).2.1.submissions.rows,
          sub.taskId = task.id ∧ sub.status = .approved := by
    decide +kernel
  obtain ⟨task, htask, hgold, hstatus, happroved⟩ := hopen
  have hcompleted := (hclaim _ _ _ _ _ (Development.run_spec handedOutAgain) task htask
    hgold).mpr happroved
  rw [hstatus] at hcompleted
  cases hcompleted

end Completion

end HumanDataFactory
