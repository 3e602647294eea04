import HumanDataFactory.Qc.Newcomers
import HumanDataFactory.Release.Versions

/-!
# What the selection picks

For every order of the joined rows the selection has one row for each task with
an approved submission, at the task's highest version.  Which submission that is
depends on the order exactly if two authors reached the highest version.
-/

namespace HumanDataFactory

open Transact

namespace Export

/-- One pair for each non-gold task of the project with an approved submission,
none for any other task, and no approved version above the one picked. -/
structure Selects (s : Db) (project : Project) (latest : List (Task × Submission)) : Prop where
  once : ∀ task ∈ s.tasks, task.projectId = project.id → task.isGold = false →
    Metering.HasApproved s task → (latest.map fun r ↦ r.1.id).count task.id = 1
  approved : ∀ row ∈ latest, Approved s project row
  maximal : ∀ row ∈ latest, ∀ sub ∈ s.submissions, sub.taskId = row.1.id →
    sub.status = .approved → sub.version ≤ row.2.version

section Selection

variable {env : Env} {s : Db} {project : Project} {rows : List (Task × Submission)}

theorem approved_row (h : rows.Perm (approvedJoin s project)) {row : Task × Submission} :
    row ∈ rows ↔ Approved s project row := by
  rw [h.mem_iff, mem_approvedJoin]

theorem selects_of_perm (h : rows.Perm (approvedJoin s project)) :
    Selects s project (latestVersions rows) := by
  have hlatest := latest_latestVersions rows
  refine ⟨?_, fun row hrow ↦ (approved_row h).mp (hlatest.subset hrow), ?_⟩
  · rintro task htask hproject hgold ⟨sub, hsub, hof, hstatus⟩
    have hmem : (task, sub) ∈ rows :=
      (approved_row h).mpr ⟨htask, hproject, hgold, hsub, hof, hstatus⟩
    obtain ⟨r, hr, hid, _⟩ := hlatest.top _ hmem
    have hmemId : task.id ∈ (latestVersions rows).map fun r ↦ r.1.id :=
      List.mem_map.mpr ⟨r, hr, hid⟩
    exact List.count_eq_one_of_mem hlatest.nodup hmemId
  · intro row hrow sub hsub hof hstatus
    have happroved := (approved_row h).mp (hlatest.subset hrow)
    have hmem : (row.1, sub) ∈ rows := (approved_row h).mpr
      ⟨happroved.task, happroved.project, happroved.gold, hsub, hof, hstatus⟩
    obtain ⟨r, hr, hid, hle⟩ := hlatest.top _ hmem
    obtain rfl := List.inj_on_of_nodup_map hlatest.nodup hr hrow hid
    exact hle

theorem selects_approvedRows (env : Env) (s : Db) (project : Project) :
    Selects s project (approvedRows env s project) :=
  selects_of_perm (env.orderBy_perm _ _)

def projectTasks (s : Db) (project : Project) : List Task :=
  s.tasks.rows.filter fun t ↦ t.projectId = project.id ∧ t.isGold = false

theorem mem_projectTasks {task : Task} : task ∈ projectTasks s project ↔
    task ∈ s.tasks ∧ task.projectId = project.id ∧ task.isGold = false := by
  simp [projectTasks, Table.mem_def]

theorem nodup_projectTasks (s : Db) (project : Project) :
    ((projectTasks s project).map Task.id).Nodup :=
  List.Nodup.sublist (List.filter_sublist.map Task.id) s.tasks.nodup

/-- Pending and approved tasks are the project's, each of them once. -/
theorem partition_of_report (env : Env) (s : Db) (project : Project) :
    ((reportOf env s project).tasksWithoutApprovedSubmission ++
      (approvedRows env s project).map fun row ↦ row.1.id).Perm
        ((projectTasks s project).map Task.id) := by
  have happroved := (selects_approvedRows env s project).approved
  refine (List.perm_ext_iff_of_nodup ?_ (nodup_projectTasks s project)).mpr fun id ↦ ?_
  · refine List.nodup_append.mpr
      ⟨(nodup_projectTasks s project).filter _, nodup_approvedRows env s project, ?_⟩
    intro a ha b hb heq
    obtain ⟨_, hpending⟩ := List.mem_filter.mp ha
    rw [heq] at hpending
    exact of_decide_eq_true hpending hb
  · constructor
    · intro hid
      rcases List.mem_append.mp hid with hid | hid
      · exact List.mem_of_mem_filter hid
      · obtain ⟨row, hrow, rfl⟩ := List.mem_map.mp hid
        have h := happroved row hrow
        exact List.mem_map_of_mem (mem_projectTasks.mpr ⟨h.task, h.project, h.gold⟩)
    · intro hid
      by_cases hships : id ∈ (approvedRows env s project).map fun row ↦ row.1.id
      · exact List.mem_append_right _ hships
      · exact List.mem_append_left _ (List.mem_filter.mpr ⟨hid, decide_eq_true hships⟩)

end Selection

/-- No record is lost and none ships twice, in whatever order the rows of the
join come; what the report lists as pending is the rest of the project. -/
theorem selection_exact (env : Env) (s : Db) (project : Project) :
    (∀ rows, rows.Perm (approvedJoin s project) → Selects s project (latestVersions rows)) ∧
      Selects s project (approvedRows env s project) ∧
      ∃ report, (controlReport env project).answer s = some (.ok report) ∧
        (report.tasksWithoutApprovedSubmission ++
          (approvedRows env s project).map fun row ↦ row.1.id).Perm
            ((projectTasks s project).map Task.id) :=
  ⟨fun _ ↦ selects_of_perm, selects_approvedRows env s project, reportOf env s project,
    answer_controlReport project, partition_of_report env s project⟩

/-- An order in which the database may return the join. -/
structure RowOrder (s : Db) (project : Project) (rows : List (Task × Submission)) : Prop where
  perm : rows.Perm (approvedJoin s project)
  sorted : rows.Pairwise fun a b ↦ a.1.createdAt ≤ b.1.createdAt

/-- The selection does not depend on what the database does with equal times. -/
def Unambiguous (s : Db) (project : Project) : Prop :=
  ∀ rows rows', RowOrder s project rows → RowOrder s project rows' →
    ∀ r ∈ latestVersions rows, ∀ r' ∈ latestVersions rows', r.1.id = r'.1.id → r.2 = r'.2

/-- An approved submission of the task, and no other has a higher version. -/
structure Top (s : Db) (task : Task) (sub : Submission) : Prop where
  mem : sub ∈ s.submissions
  of : sub.taskId = task.id
  status : sub.status = .approved
  maximal : ∀ other ∈ s.submissions, other.taskId = task.id → other.status = .approved →
    other.version ≤ sub.version

/-- The highest version of a task was reached once. -/
def SoleTop (s : Db) (project : Project) : Prop :=
  ∀ task ∈ s.tasks, task.projectId = project.id → task.isGold = false →
    ∀ a b, Top s task a → Top s task b → a = b

theorem rowOrder_approvedRows (env : Env) (s : Db) (project : Project) :
    RowOrder s project (env.orderBy (fun row ↦ row.1.createdAt) (approvedJoin s project)) :=
  ⟨env.orderBy_perm _ _, List.pairwise_map.mp (env.orderBy_sorted _ _)⟩

section Ties

variable {s : Db} {project : Project} {task : Task} {sub : Submission}

theorem top_of_selects {latest : List (Task × Submission)} (h : Selects s project latest)
    {row : Task × Submission} (hrow : row ∈ latest) : Top s row.1 row.2 :=
  have happroved := h.approved row hrow
  ⟨happroved.submission, happroved.of, happroved.status, h.maximal row hrow⟩

theorem unambiguous_of_soleTop (h : SoleTop s project) : Unambiguous s project := by
  intro rows rows' hrows hrows' r hr r' hr' hid
  have hsel := selects_of_perm hrows.perm
  have hsel' := selects_of_perm hrows'.perm
  have happroved := hsel.approved r hr
  have htask : r.1 = r'.1 :=
    Table.eq_of_key happroved.task (hsel'.approved r' hr').task hid
  have htop := top_of_selects hsel' hr'
  rw [← htask] at htop
  exact h r.1 happroved.task happroved.project happroved.gold _ _ (top_of_selects hsel hr) htop

theorem mem_keepLatest {latest : List (Task × Submission)} {x row : Task × Submission}
    (hx : x ∈ latest) (hle : row.1.id = x.1.id → row.2.version ≤ x.2.version) :
    x ∈ keepLatest latest row := by
  unfold keepLatest
  split
  · refine List.mem_map.mpr ⟨x, hx, if_neg ?_⟩
    rintro ⟨hid, hlt⟩
    have := hle hid.symm
    omega
  · exact List.mem_append_left _ hx

theorem mem_latestVersions_of_first {x : Task × Submission}
    {before after : List (Task × Submission)}
    (hbefore : ∀ r ∈ before, r.1.id ≠ x.1.id)
    (hafter : ∀ r ∈ after, r.1.id = x.1.id → r.2.version ≤ x.2.version) :
    x ∈ latestVersions (before ++ x :: after) := by
  have hfirst : x ∈ keepLatest (latestVersions before) x := by
    have hnone : ¬∃ r ∈ latestVersions before, r.1.id = x.1.id := by
      rintro ⟨r, hr, hid⟩
      exact hbefore r ((latest_latestVersions before).subset hr) hid
    rw [keepLatest, if_neg hnone]
    exact List.mem_append_right _ (List.mem_singleton_self x)
  have hfold : ∀ latest : List (Task × Submission), x ∈ latest →
      x ∈ after.foldl keepLatest latest := by
    induction after with
    | nil => exact fun latest hx ↦ hx
    | cons row after ih =>
        intro latest hx
        exact ih (fun r hr ↦ hafter r (List.mem_cons_of_mem _ hr)) _
          (mem_keepLatest hx (hafter row List.mem_cons_self))
  rw [latestVersions, List.foldl_append, List.foldl_cons]
  exact hfold _ hfirst

/-- The database may return any row first among those of its time. -/
theorem exists_rowOrder {x : Task × Submission} (hx : x ∈ approvedJoin s project) :
    ∃ before after, RowOrder s project (before ++ x :: after) ∧
      ∀ r ∈ before, r.1.createdAt < x.1.createdAt := by
  obtain ⟨front, back, hjoin⟩ := List.append_of_mem hx
  have : Std.Total fun a b : Task × Submission ↦ a.1.createdAt ≤ b.1.createdAt :=
    ⟨fun a b ↦ le_total a.1.createdAt b.1.createdAt⟩
  have : IsTrans (Task × Submission) fun a b ↦ a.1.createdAt ≤ b.1.createdAt :=
    ⟨fun _ _ _ ↦ le_trans⟩
  let rest := (front ++ back).insertionSort fun a b ↦ a.1.createdAt ≤ b.1.createdAt
  have hsorted : rest.Pairwise fun a b ↦ a.1.createdAt ≤ b.1.createdAt :=
    List.pairwise_insertionSort _ _
  have hbefore : ∀ r ∈ rest.filter fun r ↦ r.1.createdAt < x.1.createdAt,
      r.1.createdAt < x.1.createdAt :=
    fun r hr ↦ of_decide_eq_true (List.mem_filter.mp hr).2
  have hafter : ∀ r ∈ rest.filter fun r ↦ !decide (r.1.createdAt < x.1.createdAt),
      x.1.createdAt ≤ r.1.createdAt := by
    intro r hr
    have hnot := (List.mem_filter.mp hr).2
    simpa using hnot
  refine ⟨rest.filter fun r ↦ r.1.createdAt < x.1.createdAt,
    rest.filter fun r ↦ !decide (r.1.createdAt < x.1.createdAt), ⟨?_, ?_⟩, hbefore⟩
  · have hparts := List.filter_append_perm (fun r ↦ decide (r.1.createdAt < x.1.createdAt)) rest
    have hrest : rest.Perm (front ++ back) := List.perm_insertionSort _ _
    rw [hjoin]
    exact List.perm_middle.trans (((hparts.trans hrest).cons x).trans List.perm_middle.symm)
  · refine List.pairwise_append.mpr ⟨hsorted.filter _, List.pairwise_cons.mpr
      ⟨hafter, hsorted.filter _⟩, ?_⟩
    intro a ha b hb
    have halt := hbefore a ha
    rcases List.mem_cons.mp hb with rfl | hb
    · exact halt.le
    · exact halt.le.trans (hafter b hb)

theorem exists_order_selecting (h : Top s task sub) (htask : task ∈ s.tasks)
    (hproject : task.projectId = project.id) (hgold : task.isGold = false) :
    ∃ rows, RowOrder s project rows ∧ (task, sub) ∈ latestVersions rows := by
  have hx : (task, sub) ∈ approvedJoin s project :=
    mem_approvedJoin.mpr ⟨htask, hproject, hgold, h.mem, h.of, h.status⟩
  obtain ⟨before, after, horder, hbefore⟩ := exists_rowOrder hx
  refine ⟨_, horder, mem_latestVersions_of_first ?_ ?_⟩
  · intro r hr hid
    have happroved := (approved_row horder.perm).mp (List.mem_append_left _ hr)
    have hlt := hbefore r hr
    rw [Table.eq_of_key happroved.task htask hid] at hlt
    exact lt_irrefl _ hlt
  · intro r hr hid
    have happroved := (approved_row horder.perm).mp
      (List.mem_append_right _ (List.mem_cons_of_mem _ hr))
    exact h.maximal r.2 happroved.submission (happroved.of.trans hid) happroved.status

theorem unambiguous_iff_soleTop (s : Db) (project : Project) :
    Unambiguous s project ↔ SoleTop s project := by
  refine ⟨?_, unambiguous_of_soleTop⟩
  intro h task htask hproject hgold a b ha hb
  obtain ⟨rows, horder, hrow⟩ := exists_order_selecting ha htask hproject hgold
  obtain ⟨rows', horder', hrow'⟩ := exists_order_selecting hb htask hproject hgold
  exact h rows rows' horder horder' _ hrow _ hrow' rfl

end Ties

/-! ## Versions of one author

`submit` counts versions for a task and an expert, so only different experts
can reach the same version of a task. -/

/-- No author has two submissions of one task with the same version. -/
def DistinctVersions (s : Db) : Prop :=
  ∀ a ∈ s.submissions, ∀ b ∈ s.submissions, a.taskId = b.taskId → a.expertId = b.expertId →
    a.version = b.version → a = b

section Versions

variable {env : Env} {s s' : Db} {sub : Submission}

theorem lt_nextVersion {taskId expertId : String} (hsub : sub ∈ s.submissions)
    (hof : sub.taskId = taskId) (hby : sub.expertId = expertId) :
    sub.version < Engine.nextVersion (Engine.priorSubmissions env s taskId expertId).head? := by
  have hprior : sub ∈ Engine.priorSubmissions env s taskId expertId := by
    unfold Engine.priorSubmissions
    rw [Env.mem_orderBy, List.mem_filter]
    exact ⟨hsub, decide_eq_true ⟨hof, hby⟩⟩
  have hsorted : (Engine.priorSubmissions env s taskId expertId).Pairwise
      fun a b ↦ -(a.version : ℤ) ≤ -(b.version : ℤ) :=
    List.pairwise_map.mp (env.orderBy_sorted _ _)
  cases hlist : Engine.priorSubmissions env s taskId expertId with
  | nil => simp [hlist] at hprior
  | cons top rest =>
      rw [hlist] at hprior hsorted
      have hle : sub.version ≤ top.version := by
        rcases List.mem_cons.mp hprior with rfl | hrest
        · exact le_rfl
        · have hneg := (List.pairwise_cons.mp hsorted).1 sub hrest
          omega
      exact Nat.lt_succ_of_le hle

/-- The gates decide the status of a submission and nothing else of it. -/
theorem row_of_processed {t : Table String Submission Submission.id} {task : Task}
    {project : Project} {expert : Expert}
    (h : Engine.Processed env t sub task project expert s s') :
    ∃ status sampled, s'.submissions =
      t.push { sub with status := status, sampledForHumanReview := sampled } := by
  cases h with
  | autoCheckFailed _ _ _ => exact ⟨_, _, rfl⟩
  | goldChecked _ _ _ _ _ _ => exact ⟨_, _, rfl⟩
  | heldBack _ _ _ _ _ _ _ => exact ⟨_, _, rfl⟩
  | autoApproved _ _ _ _ _ hmeter _ => exact ⟨_, _, (Evidence.kept_of_metered hmeter).1⟩

/-- What a submission request enters has the next version. -/
theorem version_of_submitted {task : Task} {expert : Expert} {content : Json}
    (h : Engine.Submitted env task expert content s s') :
    ∃ row, s.submissions.Vacant row.id ∧ s'.submissions = s.submissions.push row ∧
      ∀ sub ∈ s.submissions, sub.taskId = row.taskId → sub.expertId = row.expertId →
        sub.version < row.version := by
  obtain ⟨hproject, hqualified, hheld, hassigned, ⟨id, now, rfl⟩, hid, haud, hprocess⟩ := h
  obtain ⟨status, sampled, hsubs⟩ := row_of_processed hprocess
  exact ⟨_, by exact hid, hsubs, fun _ hsub hof hby ↦ lt_nextVersion hsub hof hby⟩

theorem DistinctVersions.push (h : DistinctVersions s) {row : Submission}
    (hvac : s.submissions.Vacant row.id) (hsubs : s'.submissions = s.submissions.push row)
    (habove : ∀ sub ∈ s.submissions, sub.taskId = row.taskId → sub.expertId = row.expertId →
      sub.version < row.version) : DistinctVersions s' := by
  intro a ha b hb htask hexpert hversion
  rw [hsubs] at ha hb
  rcases (Table.mem_push hvac).mp ha with hold | hnew
  · rcases (Table.mem_push hvac).mp hb with hold' | rfl
    · exact h a hold b hold' htask hexpert hversion
    · have hlt := habove a hold htask hexpert
      omega
  · subst hnew
    rcases (Table.mem_push hvac).mp hb with hold' | rfl
    · have hlt := habove b hold' htask.symm hexpert.symm
      omega
    · rfl

theorem DistinctVersions.replace (h : DistinctVersions s) {status : SubmissionStatus}
    (hsub : s.submissions.find? sub.id = some sub)
    (hsubs : s'.submissions = s.submissions.replace { sub with status := status }) :
    DistinctVersions s' := by
  have hmem := Table.mem_of_find? hsub
  -- every row stands for one of before, with the same author, task and version
  have hold : ∀ a ∈ s'.submissions, ∃ a₀ ∈ s.submissions, a₀.id = a.id ∧ a₀.taskId = a.taskId ∧
      a₀.expertId = a.expertId ∧ a₀.version = a.version := by
    intro a ha
    rw [hsubs] at ha
    rcases Table.mem_replace ha with rfl | ⟨ha, _⟩
    · exact ⟨sub, hmem, rfl, rfl, rfl, rfl⟩
    · exact ⟨a, ha, rfl, rfl, rfl, rfl⟩
  intro a ha b hb htask hexpert hversion
  obtain ⟨a₀, ha₀, haid, hatask, haexpert, haversion⟩ := hold a ha
  obtain ⟨b₀, hb₀, hbid, hbtask, hbexpert, hbversion⟩ := hold b hb
  have heq : a₀ = b₀ := h a₀ ha₀ b₀ hb₀ (by rw [hatask, hbtask, htask])
    (by rw [haexpert, hbexpert, hexpert]) (by omega)
  exact Table.eq_of_key ha hb (by rw [← haid, ← hbid, heq])

theorem DistinctVersions.effect (h : DistinctVersions s) {actor : Auth.Actor}
    {request : Api.Request} (heffect : Api.Effect env actor s request s') :
    DistinctVersions s' := by
  cases Evidence.moved_of_effect heffect with
  | kept _ hsubs _ =>
      intro a ha b hb
      rw [hsubs] at ha hb
      exact h a ha b hb
  | judged _ hsub hsubs _ _ => exact h.replace hsub hsubs
  | entered row _ _ hvac hsubs _ _ =>
      have hrow : row ∈ s'.submissions := by
        rw [hsubs]
        exact (Table.mem_push hvac).mpr (Or.inr rfl)
      obtain ⟨taskId, expertId, content, rfl⟩ :=
        Newcomers.createSubmission_of_new heffect hvac hrow
      cases heffect with
      | createSubmission htask hexpert hsubmitted =>
          obtain ⟨row', hvac', hsubs', habove⟩ := version_of_submitted hsubmitted
          exact h.push hvac' hsubs' habove

theorem distinctVersions_of_run {tr : List (Served Api.Http Db Json)} {w₀ w : ℕ}
    (h : machine.Run (Api.serve env) Db.empty w₀ tr s w) : DistinctVersions s :=
  Api.invariant_of_effects (I := DistinctVersions) (by simp [DistinctVersions, Db.empty])
    (fun hI heffect ↦ hI.effect heffect) (Audit.seqBelow_empty w₀) h

end Versions

/-- No two experts reached the highest approved version of a task. -/
def OneTopAuthor (s : Db) (project : Project) : Prop :=
  ∀ task ∈ s.tasks, task.projectId = project.id → task.isGold = false →
    ∀ a b, Top s task a → Top s task b → a.expertId = b.expertId

theorem version_eq_of_top {s : Db} {task : Task} {a b : Submission} (ha : Top s task a)
    (hb : Top s task b) : a.version = b.version := by
  have hab := hb.maximal a ha.mem ha.of ha.status
  have hba := ha.maximal b hb.mem hb.of hb.status
  omega

/-- In every state of every run the selection is the same for all orders exactly
if no task has two experts at its highest version. -/
theorem unambiguous_iff {env : Env} {tr : List (Served Api.Http Db Json)} {s : Db} {w₀ w : ℕ}
    (h : machine.Run (Api.serve env) Db.empty w₀ tr s w) (project : Project) :
    Unambiguous s project ↔ OneTopAuthor s project := by
  rw [unambiguous_iff_soleTop]
  constructor
  · intro hsole task htask hproject hgold a b ha hb
    rw [hsole task htask hproject hgold a b ha hb]
  · intro hone task htask hproject hgold a b ha hb
    exact distinctVersions_of_run h a ha.mem b hb.mem (ha.of.trans hb.of.symm)
      (hone task htask hproject hgold a b ha hb) (version_eq_of_top ha hb)

/-- A second author for a task that nobody is assigned to. -/
def twoAuthors : List Api.Request :=
  Development.firstApproval ++
    [.createExpert ⟨"Bo", "bo@example.com", ["CPA"], false⟩,
      .recordExam (Development.identifier 41) ⟨.tax, .finite 90, Development.ninety_inRange⟩,
      .createSubmission Development.taskId (Development.identifier 41)
        [("response", .str "It is not deductible.")],
      .postHumanReview (Development.identifier 47) ⟨Development.reviewerId, .pass, none, ""⟩]

def returns : Project :=
  ⟨Development.projectId, "Returns", Development.firmId, .tax, .sft, "", "fin-sft-v1",
    "dev-admin"⟩

/-- Before the second author the selection is the same for every database. -/
theorem unambiguous_iff_firstApproval :
    Unambiguous (Development.run Development.firstApproval).2.1 returns ∧ ∀ env env' : Env,
      ∀ r ∈ approvedRows env (Development.run Development.firstApproval).2.1 returns,
        ∀ r' ∈ approvedRows env' (Development.run Development.firstApproval).2.1 returns,
          r.1.id = r'.1.id → r.2 = r'.2 := by
  have hauthor : ∀ a ∈ (Development.run Development.firstApproval).2.1.submissions.rows,
      a.expertId = Development.authorId := by
    decide +kernel
  have hone : OneTopAuthor (Development.run Development.firstApproval).2.1 returns := by
    intro task htask hproject hgold a b ha hb
    rw [hauthor a ha.mem, hauthor b hb.mem]
  have hsame := (unambiguous_iff (Development.run_spec _) returns).mpr hone
  exact ⟨hsame, fun env env' ↦ hsame _ _ (rowOrder_approvedRows env _ returns)
    (rowOrder_approvedRows env' _ returns)⟩

/-- Both reached version 1. -/
theorem order_decides_selection :
    ¬∀ (env : Env) (tr : List (Served Api.Http Db Json)) (w₀ w : ℕ) (s : Db) (project : Project),
      machine.Run (Api.serve env) Db.empty w₀ tr s w → project ∈ s.projects →
      ∀ rows rows', RowOrder s project rows → RowOrder s project rows' →
        ∀ r ∈ latestVersions rows, ∀ r' ∈ latestVersions rows', r.1.id = r'.1.id →
          r.2.id = r'.2.id := by
  intro hclaim
  let rows := approvedJoin (Development.run twoAuthors).2.1 returns
  have horder : RowOrder _ returns rows := ⟨.refl _, by decide +kernel⟩
  have hreversed : RowOrder _ returns rows.reverse := ⟨List.reverse_perm _, by decide +kernel⟩
  have hproject : returns ∈ (Development.run twoAuthors).2.1.projects.rows := by decide +kernel
  have hselect := hclaim _ _ _ _ _ returns (Development.run_spec twoAuthors) hproject
    rows rows.reverse horder hreversed
  have hfirst : ∃ r ∈ latestVersions rows,
      r.1.id = Development.taskId ∧ r.2.id = Development.submissionId := by
    decide +kernel
  have hlast : ∃ r ∈ latestVersions rows.reverse,
      r.1.id = Development.taskId ∧ r.2.id = Development.identifier 47 := by
    decide +kernel
  obtain ⟨r, hr, htask, hsub⟩ := hfirst
  obtain ⟨r', hr', htask', hsub'⟩ := hlast
  have heq := hselect r hr r' hr' (htask.trans htask'.symm)
  rw [hsub, hsub'] at heq
  exact absurd heq (by decide)

end Export

end HumanDataFactory
