import HumanDataFactory.Evidence
import HumanDataFactory.Replay

/-!
# Which versions ship, and when that changes

A release ships for every task the approved submission with the highest
version.  Tasks and approvals only accumulate, so what a control report covered
ships unchanged exactly as long as nothing approved later overtakes it.
-/

namespace HumanDataFactory

open Transact

namespace Export

/-- One row for each task, with a version as high as any. -/
structure Latest (rows latest : List (Task × Submission)) : Prop where
  subset : latest ⊆ rows
  nodup : (latest.map fun r ↦ r.1.id).Nodup
  top : ∀ row ∈ rows, ∃ r ∈ latest, r.1.id = row.1.id ∧ row.2.version ≤ r.2.version

/-- A row that replaces the one of its task if its version is higher. -/
def overtake (row r : Task × Submission) : Task × Submission :=
  if r.1.id = row.1.id ∧ r.2.version < row.2.version then row else r

theorem overtake_cases (row r : Task × Submission) :
    (overtake row r = r ∧ (r.1.id = row.1.id → row.2.version ≤ r.2.version)) ∨
      (overtake row r = row ∧ r.1.id = row.1.id ∧ r.2.version < row.2.version) := by
  unfold overtake
  split
  · rename_i h
    exact Or.inr ⟨rfl, h⟩
  · rename_i h
    refine Or.inl ⟨rfl, fun hid ↦ ?_⟩
    by_contra hlt
    exact h ⟨hid, by omega⟩

theorem overtake_id (row r : Task × Submission) : (overtake row r).1.id = r.1.id := by
  rcases overtake_cases row r with ⟨h, _⟩ | ⟨h, hid, _⟩
  · rw [h]
  · rw [h, hid]

theorem version_le_overtake (row r : Task × Submission) :
    r.2.version ≤ (overtake row r).2.version := by
  rcases overtake_cases row r with ⟨h, _⟩ | ⟨h, _, hlt⟩
  · rw [h]
  · rw [h]
    exact hlt.le

theorem Latest.keepLatest {rows latest : List (Task × Submission)} (h : Latest rows latest)
    (row : Task × Submission) : Latest (rows ++ [row]) (keepLatest latest row) := by
  have hrow : row ∈ rows ++ [row] := by simp
  unfold Export.keepLatest
  split
  · rename_i hex
    have hids : (latest.map (overtake row)).map (fun r ↦ r.1.id) = latest.map fun r ↦ r.1.id := by
      rw [List.map_map]
      exact List.map_congr_left fun r _ ↦ overtake_id row r
    refine ⟨?_, hids ▸ h.nodup, ?_⟩
    · intro x hx
      obtain ⟨r, hr, rfl⟩ := List.mem_map.mp hx
      change overtake row r ∈ _
      rcases overtake_cases row r with ⟨hsame, _⟩ | ⟨hsame, _⟩
      · rw [hsame]
        exact List.mem_append_left _ (h.subset hr)
      · rw [hsame]
        exact hrow
    · intro x hx
      rcases List.mem_append.mp hx with hx | hx
      · obtain ⟨r, hr, hid, hle⟩ := h.top x hx
        exact ⟨overtake row r, List.mem_map_of_mem hr, (overtake_id row r).trans hid,
          hle.trans (version_le_overtake row r)⟩
      · obtain rfl := List.mem_singleton.mp hx
        obtain ⟨r, hr, hid⟩ := hex
        refine ⟨overtake x r, List.mem_map_of_mem hr, (overtake_id x r).trans hid, ?_⟩
        rcases overtake_cases x r with ⟨hsame, hle⟩ | ⟨hsame, _⟩
        · rw [hsame]
          exact hle hid
        · rw [hsame]
  · rename_i hnone
    refine ⟨?_, ?_, ?_⟩
    · exact List.append_subset.mpr ⟨fun x hx ↦ List.mem_append_left _ (h.subset hx), by simp⟩
    · rw [List.map_append, List.nodup_append]
      refine ⟨h.nodup, by simp, ?_⟩
      intro id hid id' hid'
      obtain ⟨r, hr, rfl⟩ := List.mem_map.mp hid
      obtain rfl : id' = row.1.id := by simpa using hid'
      exact fun heq ↦ hnone ⟨r, hr, heq⟩
    · intro x hx
      rcases List.mem_append.mp hx with hx | hx
      · obtain ⟨r, hr, hrest⟩ := h.top x hx
        exact ⟨r, List.mem_append_left _ hr, hrest⟩
      · obtain rfl := List.mem_singleton.mp hx
        exact ⟨x, by simp, rfl, le_rfl⟩

theorem latest_latestVersions (rows : List (Task × Submission)) :
    Latest rows (latestVersions rows) := by
  induction rows using List.reverseRecOn with
  | nil => exact ⟨List.Subset.refl _, List.nodup_nil, by simp⟩
  | append_singleton rows row ih =>
      have hlast : latestVersions (rows ++ [row]) = keepLatest (latestVersions rows) row :=
        List.foldl_concat ..
      rw [hlast]
      exact ih.keepLatest row

section Rows

variable {env : Env} {s : Db} {project : Project} {row : Task × Submission}

/-- An approved submission of a task that is not gold. -/
structure Approved (s : Db) (project : Project) (row : Task × Submission) : Prop where
  task : row.1 ∈ s.tasks
  project : row.1.projectId = project.id
  gold : row.1.isGold = false
  submission : row.2 ∈ s.submissions
  of : row.2.taskId = row.1.id
  status : row.2.status = .approved

theorem mem_approvedJoin : row ∈ approvedJoin s project ↔ Approved s project row := by
  obtain ⟨task, sub⟩ := row
  simp only [approvedJoin, List.mem_flatMap, List.mem_filter, List.mem_map, decide_eq_true_eq]
  constructor
  · rintro ⟨task, ⟨htask, hproject, hgold⟩, sub, ⟨hsub, hof, hstatus⟩, heq⟩
    obtain ⟨rfl, rfl⟩ := Prod.mk.inj heq
    exact ⟨htask, hproject, hgold, hsub, hof, hstatus⟩
  · intro h
    exact ⟨task, ⟨h.task, h.project, h.gold⟩, sub, ⟨h.submission, h.of, h.status⟩, rfl⟩

theorem mem_sorted : row ∈ env.orderBy (fun row ↦ row.1.createdAt) (approvedJoin s project) ↔
    Approved s project row := by
  rw [Env.mem_orderBy, mem_approvedJoin]

theorem approved_of_mem (h : row ∈ approvedRows env s project) : Approved s project row :=
  mem_sorted.mp ((latest_latestVersions _).subset h)

theorem nodup_approvedRows (env : Env) (s : Db) (project : Project) :
    ((approvedRows env s project).map fun r ↦ r.1.id).Nodup :=
  (latest_latestVersions _).nodup

theorem exists_row (env : Env) (h : Approved s project row) :
    ∃ r ∈ approvedRows env s project, r.1.id = row.1.id ∧ row.2.version ≤ r.2.version :=
  (latest_latestVersions _).top row (mem_sorted.mpr h)

/-- The row of a task. -/
theorem row_unique {r r' : Task × Submission} (h : r ∈ approvedRows env s project)
    (h' : r' ∈ approvedRows env s project) (hid : r.1.id = r'.1.id) : r = r' :=
  List.inj_on_of_nodup_map (nodup_approvedRows env s project) h h' hid

theorem version_le (h : row ∈ approvedRows env s project) {sub : Submission}
    (hsub : sub ∈ s.submissions) (hof : sub.taskId = row.1.id) (hstatus : sub.status = .approved) :
    sub.version ≤ row.2.version := by
  have hrow := approved_of_mem h
  have hsubRow : Approved s project (row.1, sub) :=
    ⟨hrow.task, hrow.project, hrow.gold, hsub, hof, hstatus⟩
  obtain ⟨r, hr, hid, hle⟩ := exists_row env hsubRow
  rwa [row_unique hr h hid] at hle

end Rows

/-- Tasks keep what never changes of them, and approved submissions stay as
they are. -/
structure Later (s s' : Db) : Prop where
  tasks : (Metering.bookOf s).tasks ⊆ (Metering.bookOf s').tasks
  approved : ∀ sub ∈ s.submissions, sub.status = .approved → sub ∈ s'.submissions

theorem Later.refl (s : Db) : Later s s :=
  ⟨subset_rfl, fun _ hsub _ ↦ hsub⟩

theorem Later.trans {s₁ s₂ s₃ : Db} (h : Later s₁ s₂) (h' : Later s₂ s₃) : Later s₁ s₃ :=
  ⟨h.tasks.trans h'.tasks, fun sub hsub hstatus ↦
    h'.approved sub (h.approved sub hsub hstatus) hstatus⟩

theorem tasks_of_step {b b' : Metering.Book} (h : b.Step b') : b.tasks ⊆ b'.tasks := by
  cases h with
  | addTask t hnew => exact Set.subset_insert _ _
  | _ => exact subset_rfl

theorem tasks_of_steps {b b' : Metering.Book} (h : b.Steps b') : b.tasks ⊆ b'.tasks := by
  induction h with
  | refl => exact subset_rfl
  | tail _ hstep ih => exact ih.trans (tasks_of_step hstep)

section Runs

variable {env : Env} {s s' : Db}

theorem approved_of_moved (h : Evidence.Moved s s') {sub : Submission}
    (hsub : sub ∈ s.submissions) (hstatus : sub.status = .approved) : sub ∈ s'.submissions := by
  obtain ⟨status, hstable⟩ := h.stable sub hsub
  obtain ⟨sub', hsub', hid, hadvances⟩ := h.progress sub hsub
  obtain rfl := Table.eq_of_key hstable hsub' hid.symm
  rcases hadvances with hsame | ⟨hwaiting, _⟩
  · have hself : { sub with status := status } = sub := by
      cases sub
      simp_all
    rwa [hself] at hsub'
  · rw [hstatus] at hwaiting
    cases hwaiting

theorem later_of_effect {actor : Auth.Actor} {request : Api.Request}
    (h : Api.Effect env actor s request s') : Later s s' :=
  ⟨tasks_of_steps (Metering.effect_steps h), fun _ hsub hstatus ↦
    approved_of_moved (Evidence.moved_of_effect h) hsub hstatus⟩

theorem later_of_mem {tr : List (Served Api.Http Db Json)} {w₀ w : ℕ}
    (h : machine.Run (Api.serve env) Db.empty w₀ tr s w) {e : Served Api.Http Db Json}
    (he : e ∈ tr) : Later e.before e.after := by
  rcases Api.effect_of_mem (Audit.seqBelow_empty w₀) h he with ⟨actor, heffect⟩ | ⟨_, hsame⟩
  · exact later_of_effect heffect
  · rw [hsame]
    exact .refl _

/-- A run goes on from each of its entries. -/
theorem later_of_run {pre post : List (Served Api.Http Db Json)} {e : Served Api.Http Db Json}
    {w₀ w : ℕ} (h : machine.Run (Api.serve env) Db.empty w₀ (pre ++ e :: post) s w) :
    Later e.before s := by
  refine Machine.Run.relates_from Later.refl (fun _ _ _ ↦ Later.trans) h fun e' he' ↦ ?_
  exact later_of_mem h (List.mem_append_right _ he')

end Runs

/-- Every task that ships now has an approved submission whose version is above
all others, and that submission was approved already in `old`. -/
def Uncontested (old s : Db) (project : Project) : Prop :=
  ∀ task ∈ s.tasks, task.projectId = project.id → task.isGold = false →
    Metering.HasApproved s task →
    ∃ top ∈ old.submissions, top.taskId = task.id ∧ top.status = .approved ∧
      ∀ sub ∈ s.submissions, sub.taskId = task.id → sub.status = .approved → sub.id ≠ top.id →
        sub.version < top.version

/-- Task and submission of a row. -/
def rowIds (row : Task × Submission) : String × String :=
  (row.1.id, row.2.id)

section Covered

variable {env : Env} {old s : Db} {project : Project}

theorem task_later (h : Later old s) {task : Task} (htask : task ∈ old.tasks) :
    ∃ task' ∈ s.tasks, Metering.taskFacts task' = Metering.taskFacts task := by
  obtain ⟨task', htask', hfacts⟩ := h.tasks ⟨task, htask, rfl⟩
  exact ⟨task', htask', Option.some.inj hfacts⟩

/-- What shipped once has a row for ever. -/
theorem approved_later (h : Later old s) {row : Task × Submission}
    (hrow : Approved old project row) :
    ∃ task, task.id = row.1.id ∧ Approved s project (task, row.2) := by
  obtain ⟨task, htask, hfacts⟩ := task_later h hrow.task
  have hid : task.id = row.1.id := congrArg Metering.TaskFacts.id hfacts
  have hproject : task.projectId = row.1.projectId :=
    congrArg Metering.TaskFacts.projectId hfacts
  have hgold : task.isGold = row.1.isGold := congrArg Metering.TaskFacts.isGold hfacts
  exact ⟨task, hid, htask, hproject.trans hrow.project, hgold.trans hrow.gold,
    h.approved _ hrow.submission hrow.status, hrow.of.trans hid.symm, hrow.status⟩

variable (hold : (Metering.bookOf old).Balanced) (hs : (Metering.bookOf s).Balanced)
  (hlater : Later old s)
include hold hs hlater

/-- The task of an approved submission was there when it was approved. -/
theorem task_before {top : Submission} (htop : top ∈ old.submissions) {task : Task}
    (htask : task ∈ s.tasks) (hof : top.taskId = task.id) :
    ∃ task₀ ∈ old.tasks, Metering.taskFacts task₀ = Metering.taskFacts task := by
  obtain ⟨facts, ⟨task₀, htask₀, hfacts⟩, hid⟩ :=
    hold.taskOf (top.id, top.taskId) ⟨top, htop, rfl⟩
  have hmem : Metering.taskFacts task₀ ∈ (Metering.bookOf s).tasks :=
    hlater.tasks ⟨task₀, htask₀, rfl⟩
  have hsame : task₀.id = task.id := by
    rw [← Option.some.inj hfacts] at hid
    exact hid.trans hof
  exact ⟨task₀, htask₀, hs.unique _ hmem _ ⟨task, htask, rfl⟩ hsame⟩

/-- Uncontested rows shipped before. -/
theorem row_before (h : Uncontested old s project) {row : Task × Submission}
    (hrow : row ∈ approvedRows env s project) :
    ∃ row₀ ∈ approvedRows env old project, rowIds row₀ = rowIds row := by
  have happroved := approved_of_mem hrow
  obtain ⟨top, htop, hof, hstatus, habove⟩ := h row.1 happroved.task happroved.project
    happroved.gold ⟨row.2, happroved.submission, happroved.of, happroved.status⟩
  have hnow := hlater.approved top htop hstatus
  -- no version of this task is above that of `top`, now or before
  have htopNow : row.2.id = top.id := by
    by_contra hne
    have hlt := habove row.2 happroved.submission happroved.of happroved.status hne
    have hle := version_le hrow hnow hof hstatus
    omega
  obtain ⟨task₀, htask₀, hfacts⟩ := task_before hold hs hlater htop happroved.task hof
  have hid : task₀.id = row.1.id := congrArg Metering.TaskFacts.id hfacts
  have hthen : Approved old project (task₀, top) :=
    ⟨htask₀, (congrArg Metering.TaskFacts.projectId hfacts).trans happroved.project,
      (congrArg Metering.TaskFacts.isGold hfacts).trans happroved.gold, htop, hof.trans hid.symm,
      hstatus⟩
  obtain ⟨row₀, hrow₀, hid₀, hle⟩ := exists_row env hthen
  have happroved₀ := approved_of_mem hrow₀
  have htopThen : row₀.2.id = top.id := by
    by_contra hne
    have hlt := habove row₀.2 (hlater.approved _ happroved₀.submission happroved₀.status)
      (happroved₀.of.trans (hid₀.trans hid)) happroved₀.status hne
    have hle' : top.version ≤ row₀.2.version := hle
    omega
  refine ⟨row₀, hrow₀, Prod.ext (hid₀.trans hid) (htopThen.trans htopNow.symm)⟩

/-- A release without contest ships what the report covered. -/
theorem perm_of_uncontested (h : Uncontested old s project) :
    ((approvedRows env s project).map rowIds).Perm ((approvedRows env old project).map rowIds) := by
  have hnodup (t : Db) : ((approvedRows env t project).map rowIds).Nodup := by
    refine List.Nodup.of_map Prod.fst ?_
    rw [List.map_map]
    exact nodup_approvedRows env t project
  refine (List.perm_ext_iff_of_nodup (hnodup s) (hnodup old)).mpr fun ids ↦ ?_
  constructor
  · intro hids
    obtain ⟨row, hrow, rfl⟩ := List.mem_map.mp hids
    obtain ⟨row₀, hrow₀, hsame⟩ := row_before hold hs hlater h hrow
    exact hsame ▸ List.mem_map_of_mem hrow₀
  · intro hids
    obtain ⟨row₀, hrow₀, rfl⟩ := List.mem_map.mp hids
    obtain ⟨task, hid, hnow⟩ := approved_later hlater (approved_of_mem hrow₀)
    obtain ⟨row, hrow, hidRow, _⟩ := exists_row env hnow
    obtain ⟨row₁, hrow₁, hsame⟩ := row_before hold hs hlater h hrow
    have htask : row₁.1.id = row₀.1.id :=
      (congrArg Prod.fst hsame).trans (hidRow.trans hid)
    obtain rfl := row_unique hrow₁ hrow₀ htask
    exact hsame ▸ List.mem_map_of_mem hrow

end Covered

end Export

end HumanDataFactory
