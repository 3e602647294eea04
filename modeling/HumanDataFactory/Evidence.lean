import HumanDataFactory.Billing.Webhooks
import HumanDataFactory.Metering

/-!
# Approval evidence

Why a submission counts as approved must be on record: the automated checks
passed, and then either an independent reviewer or a live automatic review
passed it.  Requests enter a submission with its reviews, judge one that waits
for a human, or leave both tables alone; evidence survives all of them.
-/

namespace HumanDataFactory

open Transact

namespace Evidence

variable {env : Env} {s s' : Db}

/-! ## Evidence on record -/

def humanReviews (s : Db) (submissionId : String) : List Review :=
  s.reviews.rows.filter fun r ↦ r.submissionId = submissionId ∧ r.kind = .human

def PassedChecks (s : Db) (submissionId : String) : Prop :=
  ∃ r ∈ s.reviews, r.submissionId = submissionId ∧ r.kind = .deterministic ∧ r.verdict = .pass

/-- One human review, a pass by an independent reviewer. -/
def HumanApproval (s : Db) (sub : Submission) : Prop :=
  ∃ r, humanReviews s sub.id = [r] ∧ r.verdict = .pass ∧ r.reviewerId ≠ sub.expertId ∧
    ∃ e ∈ s.experts, e.id = r.reviewerId ∧ e.isReviewer = true

/-- A live automatic review that passes on grounded evidence. -/
structure Grounded (r : Review) : Prop where
  kind : r.kind = .autoLlm
  reviewer : r.reviewerId = "auto-qc/claude"
  verdict : r.verdict = .pass
  score : ∃ x, r.overallScore = some x ∧ Settings.qcPassThreshold.le x = true
  flags : AutoReviewer.criticalFlags (r.detail.field "flags") = .ok []
  sufficient : r.detail.field "insufficient_evidence" = .bool false

/-- No human looked, and none was asked to. -/
def AutoApproval (s : Db) (sub : Submission) : Prop :=
  humanReviews s sub.id = [] ∧ sub.sampledForHumanReview = false ∧
    ∃ r ∈ s.reviews, r.submissionId = sub.id ∧ Grounded r

def Approved (s : Db) (sub : Submission) : Prop :=
  PassedChecks s sub.id ∧ (HumanApproval s sub ∨ AutoApproval s sub)

/-- How a committed status may move. -/
def Advances (a b : SubmissionStatus) : Prop :=
  b = a ∨ (a = .humanReview ∧ (b = .approved ∨ b = .needsRevision ∨ b = .rejected))

/-! ## Moves of submissions and reviews -/

def expertFacts (s : Db) : Set (String × Bool) :=
  s.experts.gather fun e ↦ some (e.id, e.isReviewer)

def taskFacts (s : Db) : Set (String × Bool) :=
  s.tasks.gather fun t ↦ some (t.id, t.isGold)

/-- Experts keep their role and tasks their kind; at most one task is new. -/
structure Frame (s s' : Db) : Prop where
  experts : expertFacts s ⊆ expertFacts s'
  tasks : taskFacts s' = taskFacts s ∨
    ∃ id isGold, s.tasks.Vacant id ∧ taskFacts s' = insert (id, isGold) (taskFacts s)

/-- A submission that went through the automated gates, with its reviews. -/
structure Entered (s : Db) (sub : Submission) (revs : List Review) : Prop where
  task : ∃ isGold, (sub.taskId, isGold) ∈ taskFacts s ∧ (sub.status = .approved →
    isGold = true ∨ (sub.sampledForHumanReview = false ∧ ∃ r ∈ revs, Grounded r))
  own : ∀ r ∈ revs, r.submissionId = sub.id ∧ r.kind ≠ .human
  checks : sub.status = .humanReview ∨ sub.status = .approved →
    ∃ r ∈ revs, r.kind = .deterministic ∧ r.verdict = .pass

/-- A human verdict on a submission. -/
structure Judged (s : Db) (sub : Submission) (status : SubmissionStatus) (rev : Review) :
    Prop where
  waiting : sub.status = .humanReview
  decided : status = .approved ∨ status = .needsRevision ∨ status = .rejected
  own : rev.submissionId = sub.id
  kind : rev.kind = .human
  independent : rev.reviewerId ≠ sub.expertId
  reviewer : (rev.reviewerId, true) ∈ expertFacts s
  passed : status = .approved → rev.verdict = .pass

inductive Moved (s s' : Db) : Prop
  | kept (hframe : Frame s s') (hsubs : s'.submissions = s.submissions)
      (hrevs : s'.reviews = s.reviews)
  | entered (sub : Submission) (revs : List Review) (hframe : Frame s s')
      (hvac : s.submissions.Vacant sub.id) (hsubs : s'.submissions = s.submissions.push sub)
      (hrevs : s'.reviews.rows = s.reviews.rows ++ revs) (h : Entered s sub revs)
  | judged (hframe : Frame s s') {sub : Submission} {status : SubmissionStatus} {rev : Review}
      (hsub : s.submissions.find? sub.id = some sub)
      (hsubs : s'.submissions = s.submissions.replace { sub with status := status })
      (hrevs : s'.reviews.rows = s.reviews.rows ++ [rev]) (h : Judged s sub status rev)

/-! ## Evidence survives -/

/-- The human gate: nobody has judged a submission that waits for it, and no
submission is judged twice. -/
structure Gate (s : Db) : Prop where
  waiting : ∀ sub ∈ s.submissions, sub.status = .humanReview → humanReviews s sub.id = []
  once : ∀ id, (humanReviews s id).length ≤ 1

structure Sound (s : Db) : Prop where
  taskOf : ∀ sub ∈ s.submissions, ∃ isGold, (sub.taskId, isGold) ∈ taskFacts s
  reviewOf : ∀ r ∈ s.reviews, ∃ sub ∈ s.submissions, sub.id = r.submissionId
  gate : Gate s
  checked : ∀ sub ∈ s.submissions, sub.status = .humanReview → PassedChecks s sub.id
  evidence : ∀ sub ∈ s.submissions, sub.status = .approved →
    (sub.taskId, false) ∈ taskFacts s → Approved s sub

theorem sound_empty : Sound Db.empty := by
  refine ⟨?_, ?_, ⟨?_, ?_⟩, ?_, ?_⟩ <;> simp [Db.empty, humanReviews]

section Append

variable {revs : List Review} (hrevs : s'.reviews.rows = s.reviews.rows ++ revs)
include hrevs

theorem humanReviews_append (submissionId : String) :
    humanReviews s' submissionId = humanReviews s submissionId ++
      revs.filter fun r ↦ r.submissionId = submissionId ∧ r.kind = .human := by
  unfold humanReviews
  rw [hrevs, List.filter_append]

theorem humanReviews_eq {submissionId : String}
    (hnone : ∀ r ∈ revs, r.submissionId = submissionId → r.kind ≠ .human) :
    humanReviews s' submissionId = humanReviews s submissionId := by
  have hnil : (revs.filter fun r ↦ r.submissionId = submissionId ∧ r.kind = .human) = [] := by
    refine List.filter_eq_nil_iff.mpr ?_
    intro r hr
    simpa using hnone r hr
  rw [humanReviews_append hrevs, hnil, List.append_nil]

theorem mem_reviews {r : Review} (hr : r ∈ s.reviews) : r ∈ s'.reviews := by
  rw [Table.mem_def, hrevs]
  exact List.mem_append_left _ hr

theorem mem_reviews_right {r : Review} (hr : r ∈ revs) : r ∈ s'.reviews := by
  rw [Table.mem_def, hrevs]
  exact List.mem_append_right _ hr

theorem PassedChecks.mono {submissionId : String} (h : PassedChecks s submissionId) :
    PassedChecks s' submissionId := by
  obtain ⟨r, hr, hrest⟩ := h
  exact ⟨r, mem_reviews hrevs hr, hrest⟩

theorem Approved.mono {sub : Submission} (h : Approved s sub)
    (hexperts : expertFacts s ⊆ expertFacts s')
    (hnone : ∀ r ∈ revs, r.submissionId = sub.id → r.kind ≠ .human) : Approved s' sub := by
  obtain ⟨hchecks, happroval⟩ := h
  refine ⟨hchecks.mono hrevs, ?_⟩
  have hsame := humanReviews_eq hrevs hnone
  rcases happroval with ⟨r, hlist, hpass, hother, e, he, hid, hrole⟩ | ⟨hlist, hsampled, r, hr, hof⟩
  · have hfact : (e.id, e.isReviewer) ∈ expertFacts s' := hexperts ⟨e, he, rfl⟩
    obtain ⟨e', he', hfact'⟩ := hfact
    simp only [Option.some.injEq, Prod.mk.injEq] at hfact'
    exact Or.inl ⟨r, hsame.trans hlist, hpass, hother, e', he', hfact'.1.trans hid,
      hfact'.2.trans hrole⟩
  · exact Or.inr ⟨hsame.trans hlist, hsampled, r, mem_reviews hrevs hr, hof⟩

/-- Reviews of the automated gates leave the human gate alone. -/
theorem Gate.append (h : Gate s) (hnone : ∀ r ∈ revs, r.kind ≠ .human)
    (hsubs : ∀ sub ∈ s'.submissions, sub.status = .humanReview →
      sub ∈ s.submissions ∨ humanReviews s sub.id = []) : Gate s' := by
  have hsame : ∀ id, humanReviews s' id = humanReviews s id := fun id ↦
    humanReviews_eq hrevs fun r hr _ ↦ hnone r hr
  refine ⟨?_, fun id ↦ by rw [hsame]; exact h.once id⟩
  intro sub hsub hstatus
  rw [hsame]
  rcases hsubs sub hsub hstatus with hold | hfresh
  · exact h.waiting sub hold hstatus
  · exact hfresh

end Append

/-- A verdict on a submission that waits lets it through the gate. -/
theorem Gate.judged (h : Gate s) {sub : Submission} {status : SubmissionStatus} {rev : Review}
    (hsub : sub ∈ s.submissions) (hwaiting : sub.status = .humanReview)
    (hdecided : status ≠ .humanReview)
    (hsubs : s'.submissions = s.submissions.replace { sub with status := status })
    (hrevs : s'.reviews.rows = s.reviews.rows ++ [rev]) (hown : rev.submissionId = sub.id)
    (hkind : rev.kind = .human) : Gate s' := by
  constructor
  · rw [hsubs]
    intro sub' hsub' hstatus
    rcases Table.mem_replace hsub' with rfl | ⟨hsub', hne⟩
    · exact absurd hstatus hdecided
    · rw [humanReviews_eq hrevs]
      · exact h.waiting sub' hsub' hstatus
      · intro r hr hof
        obtain rfl : r = rev := by simpa using hr
        exact absurd (hof.symm.trans hown) hne
  · intro id
    rw [humanReviews_append hrevs]
    by_cases hid : rev.submissionId = id
    · have hnone := h.waiting sub hsub hwaiting
      rw [← hown, hid] at hnone
      simp [hnone, hid, hkind]
    · simpa [hid] using h.once id

theorem Frame.task_mono (h : Frame s s') : taskFacts s ⊆ taskFacts s' := by
  rcases h.tasks with heq | ⟨id, isGold, _, heq⟩
  · rw [heq]
  · rw [heq]
    exact Set.subset_insert _ _

/-- A task of a known submission is no new task. -/
theorem Frame.task_old (h : Frame s s') {taskId : String} {isGold : Bool}
    (hold : ∃ b, (taskId, b) ∈ taskFacts s) (hnew : (taskId, isGold) ∈ taskFacts s') :
    (taskId, isGold) ∈ taskFacts s := by
  rcases h.tasks with heq | ⟨id, b, hvac, heq⟩
  · rwa [heq] at hnew
  · rw [heq] at hnew
    rcases hnew with hnew | hnew
    · obtain ⟨_, t, ht, hfact⟩ := hold
      simp only [Prod.mk.injEq, Option.some.injEq] at hnew hfact
      exact absurd (hfact.1.trans hnew.1) (hvac t ht)
    · exact hnew

theorem Frame.known (h : Frame s s') {taskId : String} (hold : ∃ b, (taskId, b) ∈ taskFacts s) :
    ∃ b, (taskId, b) ∈ taskFacts s' :=
  hold.imp fun _ ht ↦ h.task_mono ht

theorem taskFacts_unique {taskId : String} {b b' : Bool} (h : (taskId, b) ∈ taskFacts s)
    (h' : (taskId, b') ∈ taskFacts s) : b = b' := by
  obtain ⟨t, ht, hf⟩ := h
  obtain ⟨t', ht', hf'⟩ := h'
  simp only [Option.some.injEq, Prod.mk.injEq] at hf hf'
  obtain rfl := Table.eq_of_key ht ht' (hf.1.trans hf'.1.symm)
  exact hf.2.symm.trans hf'.2

section Arrivals

variable {sub : Submission} {revs : List Review}

theorem Entered.known (h : Entered s sub revs) : ∃ b, (sub.taskId, b) ∈ taskFacts s :=
  h.task.imp fun _ ht ↦ ht.1

theorem Entered.passedChecks (h : Entered s sub revs)
    (hrevs : s'.reviews.rows = s.reviews.rows ++ revs)
    (hstatus : sub.status = .humanReview ∨ sub.status = .approved) : PassedChecks s' sub.id := by
  obtain ⟨r, hr, hkind, hpass⟩ := h.checks hstatus
  exact ⟨r, mem_reviews_right hrevs hr, (h.own r hr).1, hkind, hpass⟩

/-- Who enters approved, and is no honeypot, has grounded evidence. -/
theorem Entered.approved (h : Entered s sub revs)
    (hrevs : s'.reviews.rows = s.reviews.rows ++ revs) (hstatus : sub.status = .approved)
    (htask : (sub.taskId, false) ∈ taskFacts s) (hfresh : humanReviews s' sub.id = []) :
    Approved s' sub := by
  refine ⟨h.passedChecks hrevs (Or.inr hstatus), Or.inr ?_⟩
  obtain ⟨isGold, ht, happroval⟩ := h.task
  obtain rfl := taskFacts_unique ht htask
  rcases happroval hstatus with hgold | ⟨hsampled, r, hr, hground⟩
  · cases hgold
  · exact ⟨hfresh, hsampled, r, mem_reviews_right hrevs hr, (h.own r hr).1, hground⟩

/-- A verdict that approves is the one human approval. -/
theorem Judged.approval {status : SubmissionStatus} {rev : Review} (h : Judged s sub status rev)
    (hexperts : expertFacts s ⊆ expertFacts s')
    (hrevs : s'.reviews.rows = s.reviews.rows ++ [rev]) (hnone : humanReviews s sub.id = [])
    (hstatus : status = .approved) : HumanApproval s' { sub with status := status } := by
  refine ⟨rev, ?_, h.passed hstatus, h.independent, ?_⟩
  · rw [humanReviews_append hrevs]
    simp [hnone, h.own, h.kind]
  · obtain ⟨e, he, hfact⟩ := hexperts h.reviewer
    simp only [Option.some.injEq, Prod.mk.injEq] at hfact
    exact ⟨e, he, hfact.1, hfact.2⟩

end Arrivals

namespace Sound

/-- Nobody has reviewed a submission that is not there yet. -/
theorem unseen (hs : Sound s) {id : String} (hvac : s.submissions.Vacant id) :
    humanReviews s id = [] := by
  refine List.filter_eq_nil_iff.mpr ?_
  intro r hr
  obtain ⟨sub, hsub, hid⟩ := hs.reviewOf r hr
  have hne : r.submissionId ≠ id := by
    rw [← hid]
    exact hvac sub hsub
  simp [hne]

/-- The evidence for a submission on record outlives a move that adds no human
review of it. -/
theorem survives (hs : Sound s) (hframe : Frame s s') {revs : List Review}
    (hrevs : s'.reviews.rows = s.reviews.rows ++ revs) {sub : Submission}
    (hsub : sub ∈ s.submissions) (hstatus : sub.status = .approved)
    (htask : (sub.taskId, false) ∈ taskFacts s')
    (hnone : ∀ r ∈ revs, r.submissionId = sub.id → r.kind ≠ .human) : Approved s' sub :=
  (hs.evidence sub hsub hstatus (hframe.task_old (hs.taskOf sub hsub) htask)).mono hrevs
    hframe.experts hnone

theorem kept (hs : Sound s) (hframe : Frame s s') (hsubs : s'.submissions = s.submissions)
    (hrevs : s'.reviews = s.reviews) : Sound s' := by
  have happend : s'.reviews.rows = s.reviews.rows ++ [] := by simp [hrevs]
  refine ⟨?_, ?_, ?_, ?_, ?_⟩
  · rw [hsubs]
    exact fun sub hsub ↦ hframe.known (hs.taskOf sub hsub)
  · rw [hsubs, hrevs]
    exact hs.reviewOf
  · refine hs.gate.append happend (by simp) ?_
    rw [hsubs]
    exact fun sub hsub _ ↦ Or.inl hsub
  · rw [hsubs]
    exact fun sub hsub hstatus ↦ (hs.checked sub hsub hstatus).mono happend
  · rw [hsubs]
    exact fun sub hsub hstatus htask ↦ hs.survives hframe happend hsub hstatus htask (by simp)

theorem entered (hs : Sound s) {sub : Submission} {revs : List Review} (hframe : Frame s s')
    (hvac : s.submissions.Vacant sub.id) (hsubs : s'.submissions = s.submissions.push sub)
    (hrevs : s'.reviews.rows = s.reviews.rows ++ revs) (h : Entered s sub revs) : Sound s' := by
  have hauto : ∀ r ∈ revs, r.kind ≠ .human := fun r hr ↦ (h.own r hr).2
  refine ⟨?_, ?_, ?_, ?_, ?_⟩
  · rw [hsubs]
    intro sub' hsub'
    rcases (Table.mem_push hvac).mp hsub' with hsub' | rfl
    · exact hframe.known (hs.taskOf sub' hsub')
    · exact hframe.known h.known
  · rw [hsubs]
    intro r hr
    rw [Table.mem_def, hrevs] at hr
    rcases List.mem_append.mp hr with hr | hr
    · obtain ⟨sub', hsub', hid⟩ := hs.reviewOf r hr
      exact ⟨sub', (Table.mem_push hvac).mpr (Or.inl hsub'), hid⟩
    · exact ⟨sub, (Table.mem_push hvac).mpr (Or.inr rfl), (h.own r hr).1.symm⟩
  · refine hs.gate.append hrevs hauto ?_
    rw [hsubs]
    intro sub' hsub' _
    rcases (Table.mem_push hvac).mp hsub' with hsub' | rfl
    · exact Or.inl hsub'
    · exact Or.inr (hs.unseen hvac)
  · rw [hsubs]
    intro sub' hsub' hstatus
    rcases (Table.mem_push hvac).mp hsub' with hsub' | rfl
    · exact (hs.checked sub' hsub' hstatus).mono hrevs
    · exact h.passedChecks hrevs (Or.inl hstatus)
  · rw [hsubs]
    intro sub' hsub' hstatus htask
    rcases (Table.mem_push hvac).mp hsub' with hsub' | rfl
    · exact hs.survives hframe hrevs hsub' hstatus htask fun r hr _ ↦ hauto r hr
    · have hfresh : humanReviews s' sub'.id = [] :=
        (humanReviews_eq hrevs fun r hr _ ↦ hauto r hr).trans (hs.unseen hvac)
      exact h.approved hrevs hstatus (hframe.task_old h.known htask) hfresh

theorem judged (hs : Sound s) {sub : Submission} {status : SubmissionStatus} {rev : Review}
    (hframe : Frame s s') (hsub : s.submissions.find? sub.id = some sub)
    (hsubs : s'.submissions = s.submissions.replace { sub with status := status })
    (hrevs : s'.reviews.rows = s.reviews.rows ++ [rev]) (h : Judged s sub status rev) :
    Sound s' := by
  have hmem := Table.mem_of_find? hsub
  have hdecided : status ≠ .humanReview := by
    rcases h.decided with hd | hd | hd <;> simp [hd]
  refine ⟨?_, ?_, ?_, ?_, ?_⟩
  · rw [hsubs]
    intro sub' hsub'
    rcases Table.mem_replace hsub' with rfl | ⟨hsub', _⟩
    · exact hframe.known (hs.taskOf sub hmem)
    · exact hframe.known (hs.taskOf sub' hsub')
  · rw [hsubs]
    have hkeep : ∀ sub' ∈ s.submissions, ∃ sub'' ∈
        s.submissions.replace { sub with status := status }, sub''.id = sub'.id := by
      intro sub' hsub'
      by_cases hid : sub'.id = sub.id
      · exact ⟨_, Table.mem_replace_self hmem rfl, hid.symm⟩
      · exact ⟨sub', Table.mem_replace_of_ne hsub' hid, rfl⟩
    intro r hr
    rw [Table.mem_def, hrevs] at hr
    rcases List.mem_append.mp hr with hr | hr
    · obtain ⟨sub', hsub', hid⟩ := hs.reviewOf r hr
      obtain ⟨sub'', hsub'', hid'⟩ := hkeep sub' hsub'
      exact ⟨sub'', hsub'', hid'.trans hid⟩
    · obtain rfl : r = rev := by simpa using hr
      obtain ⟨sub'', hsub'', hid'⟩ := hkeep sub hmem
      exact ⟨sub'', hsub'', hid'.trans h.own.symm⟩
  · exact hs.gate.judged hmem h.waiting hdecided hsubs hrevs h.own h.kind
  · rw [hsubs]
    intro sub' hsub' hstatus
    rcases Table.mem_replace hsub' with rfl | ⟨hsub', _⟩
    · exact absurd hstatus hdecided
    · exact (hs.checked sub' hsub' hstatus).mono hrevs
  · rw [hsubs]
    intro sub' hsub' hstatus htask
    rcases Table.mem_replace hsub' with rfl | ⟨hsub', hne⟩
    · exact ⟨(hs.checked sub hmem h.waiting).mono hrevs,
        Or.inl (h.approval hframe.experts hrevs (hs.gate.waiting sub hmem h.waiting) hstatus)⟩
    · refine hs.survives hframe hrevs hsub' hstatus htask fun r hr hof ↦ ?_
      obtain rfl : r = rev := by simpa using hr
      exact absurd (hof.symm.trans h.own) hne

end Sound

theorem Moved.sound (h : Moved s s') (hs : Sound s) : Sound s' := by
  cases h with
  | kept hframe hsubs hrevs => exact hs.kept hframe hsubs hrevs
  | entered sub revs hframe hvac hsubs hrevs h => exact hs.entered hframe hvac hsubs hrevs h
  | judged hframe hsub hsubs hrevs h => exact hs.judged hframe hsub hsubs hrevs h

/-! ## Requests move submissions and reviews -/

/-- A passing automatic review rests on grounded evidence. -/
theorem grounded_of_routed {sub : Submission} {expert : Expert}
    {result : AutoReviewer.AutoReview} {sampled : Bool} (id : String) (now : Time)
    (h : Engine.Routed env sub expert result sampled .approved) :
    sampled = false ∧ Grounded (Engine.autoLlmReview env sub result id now) := by
  obtain ⟨hpassed, hsampled⟩ := h.approved
  have hsound := h.sound hpassed
  refine ⟨hsampled, ⟨rfl, hsound.live, ?_, ⟨_, rfl, hsound.score⟩, hsound.flags, ?_⟩⟩
  · exact if_pos hpassed
  · exact congrArg Json.bool hsound.grounded

theorem expertFacts_replace {e : Expert} (e' : Expert) (h : s.experts.find? e.id = some e)
    (hid : e'.id = e.id) (hrole : e'.isReviewer = e.isReviewer) :
    expertFacts { s with experts := s.experts.replace e' } = expertFacts s :=
  Table.gather_replace (by rwa [hid]) (by rw [hid, hrole])

theorem taskFacts_replace {t : Task} (t' : Task) (h : s.tasks.find? t.id = some t)
    (hid : t'.id = t.id) (hgold : t'.isGold = t.isGold) :
    taskFacts { s with tasks := s.tasks.replace t' } = taskFacts s :=
  Table.gather_replace (by rwa [hid]) (by rw [hid, hgold])

theorem Frame.of_eq (hexperts : expertFacts s' = expertFacts s)
    (htasks : taskFacts s' = taskFacts s) : Frame s s' :=
  ⟨hexperts.symm.subset, Or.inl htasks⟩

/-- Metering an approval leaves these tables alone. -/
theorem kept_of_metered {project : Project} {task : Task} {sub : Submission}
    (h : Billing.Metered env project task sub s s') :
    s'.submissions = s.submissions ∧ s'.reviews = s.reviews ∧
      expertFacts s' = expertFacts s ∧ taskFacts s' = taskFacts s := by
  cases h <;> exact ⟨rfl, rfl, rfl, rfl⟩

theorem rows_push_push {a b : Review} (ha : s.reviews.Vacant a.id)
    (hb : (s.reviews.push a).Vacant b.id) :
    ((s.reviews.push a).push b).rows = s.reviews.rows ++ [a, b] := by
  rw [Table.rows_push hb, Table.rows_push ha, List.append_assoc, List.singleton_append]

/-- The deterministic review and the one of a later gate. -/
theorem own_of_pair {sub : Submission} {a b : Review} (ha : a.submissionId = sub.id)
    (hb : b.submissionId = sub.id) (hak : a.kind ≠ .human) (hbk : b.kind ≠ .human) :
    ∀ r ∈ [a, b], r.submissionId = sub.id ∧ r.kind ≠ .human := by
  intro r hr
  simp only [List.mem_cons, List.not_mem_nil, or_false] at hr
  rcases hr with rfl | rfl
  · exact ⟨ha, hak⟩
  · exact ⟨hb, hbk⟩

theorem detReview_passed (sub : Submission) {validation : ValidationResult}
    (h : validation.passed = true) (id : String) (now : Time) :
    (Engine.detReview sub validation id now).kind = .deterministic ∧
      (Engine.detReview sub validation id now).verdict = .pass :=
  ⟨rfl, if_pos h⟩

theorem moved_of_processed {sub : Submission} {task : Task} {project : Project}
    {expert : Expert} {aud : AuditEvent}
    (h : Engine.Processed env s.submissions sub task project expert
      { s with submissions := s.submissions.push sub, auditEvents := s.auditEvents ++ [aud] } s')
    (hv : s.submissions.Vacant sub.id) (hof : sub.taskId = task.id)
    (htask : s.tasks.find? task.id = some task)
    (hexpert : s.experts.find? expert.id = some expert) : Moved s s' := by
  have hfact : (sub.taskId, task.isGold) ∈ taskFacts s :=
    ⟨task, Table.mem_of_find? htask, by rw [hof]⟩
  have htasks := taskFacts_replace (Engine.approvedTask task) htask rfl rfl
  cases h with
  | @autoCheckFailed validation hfailed id now hid aud haud =>
      refine .entered { sub with status := .autoCheckFailed }
        [Engine.detReview sub validation id now] (.of_eq rfl rfl) hv rfl
        (Table.rows_push hid) ⟨⟨_, hfact, by simp⟩, ?_, by simp⟩
      intro r hr
      obtain rfl : r = _ := by simpa using hr
      exact ⟨rfl, by simp [Engine.detReview, Engine.newReview]⟩
  | @goldChecked validation hpassed goldAnswer hgold passed id now hid id' now' hid' aud haud =>
      have hexperts := expertFacts_replace (Controls.withGoldResult passed expert) hexpert
        (by simp) (by simp)
      refine .entered { sub with status := if passed then .approved else .rejected } _
        (.of_eq hexperts htasks) hv rfl (rows_push_push hid hid') ⟨⟨_, hfact, ?_⟩, ?_, ?_⟩
      · intro _
        exact Or.inl (Metering.isGold_of_goldAnswer hgold)
      · exact own_of_pair rfl rfl (by simp [Engine.detReview, Engine.newReview])
          (by simp [Engine.goldReview, Engine.newReview])
      · intro _
        exact ⟨_, List.mem_cons_self, detReview_passed sub hpassed id now⟩
  | @heldBack validation hpassed hgold result sampled status hstatus hroute id now hid id' now'
      hid' aud' haud =>
      refine .entered { sub with status := status, sampledForHumanReview := sampled } _
        (.of_eq rfl rfl) hv rfl (rows_push_push hid hid') ⟨⟨_, hfact, ?_⟩, ?_, ?_⟩
      · rintro rfl
        simp at hstatus
      · exact own_of_pair rfl rfl (by simp [Engine.detReview, Engine.newReview])
          (by simp [Engine.autoLlmReview, Engine.newReview])
      · intro _
        exact ⟨_, List.mem_cons_self, detReview_passed sub hpassed id now⟩
  | @autoApproved validation hpassed hgold result sampled hroute id now hid id' now' hid' s₁ hmeter
      aud' haud =>
      have hexperts := expertFacts_replace (Engine.creditedWith result.overallScore expert)
        hexpert (by simp) (by simp)
      obtain ⟨hsubs, hrevs, hexperts', htasks'⟩ := kept_of_metered hmeter
      obtain ⟨hsampled, hground⟩ := grounded_of_routed id' now' hroute
      refine .entered { sub with status := .approved, sampledForHumanReview := sampled } _
        (.of_eq (hexperts'.trans hexperts) (htasks'.trans htasks)) hv hsubs
        ((congrArg Table.rows hrevs).trans (rows_push_push hid hid')) ⟨⟨_, hfact, ?_⟩, ?_, ?_⟩
      · intro _
        exact Or.inr ⟨hsampled, _, by simp, hground⟩
      · exact own_of_pair rfl rfl (by simp [Engine.detReview, Engine.newReview])
          (by simp [Engine.autoLlmReview, Engine.newReview])
      · intro _
        exact ⟨_, List.mem_cons_self, detReview_passed sub hpassed id now⟩

theorem moved_of_reviewed {sub : Submission} {reviewer : Expert} {verdict : Verdict}
    (h : Engine.Reviewed env sub reviewer verdict s s')
    (hsub : s.submissions.find? sub.id = some sub)
    (hreviewer : reviewer ∈ s.experts) : Moved s s' := by
  rcases h with @⟨hstatus, hother, hrole, hqualified, overall, _, _, _, hid, _, hdecided, _, _, _⟩
  have hfact : (reviewer.id, true) ∈ expertFacts s := ⟨reviewer, hreviewer, by simp [hrole]⟩
  cases hdecided with
  | @pass task htask project hproject author hauthor s₁ hmeter =>
      obtain ⟨hsubs, hrevs, hexperts', htasks'⟩ := kept_of_metered hmeter
      have hexperts := expertFacts_replace (s := s)
        (Engine.creditedWith (overall.getD (.finite 4)) author) (Table.find?_key hauthor)
        (by simp) (by simp)
      have htasks := taskFacts_replace (s := s) (Engine.approvedTask task)
        (Table.find?_key htask) rfl rfl
      exact .judged (.of_eq (hexperts'.trans hexperts) (htasks'.trans htasks)) hsub hsubs
        ((congrArg Table.rows hrevs).trans (Table.rows_push hid))
        ⟨hstatus, Or.inl rfl, rfl, rfl, hother, hfact, fun _ ↦ rfl⟩
  | revise =>
      exact .judged (.of_eq rfl rfl) hsub rfl (Table.rows_push hid)
        ⟨hstatus, Or.inr (Or.inl rfl), rfl, rfl, hother, hfact, by simp⟩
  | @fail author hauthor =>
      have hexperts := expertFacts_replace (s := s)
        (Controls.withReviewScore (overall.getD (.finite 1)) author) (Table.find?_key hauthor)
        (by simp) (by simp)
      exact .judged (.of_eq hexperts rfl) hsub rfl (Table.rows_push hid)
        ⟨hstatus, Or.inr (Or.inr rfl), rfl, rfl, hother, hfact, by simp⟩

theorem moved_of_effect {actor : Auth.Actor} {request : Api.Request}
    (h : Api.Effect env actor s request s') : Moved s s' := by
  cases h with
  | @createExpert body id aud hid haud =>
      have hexperts : expertFacts { s with experts := s.experts.push (Api.newExpert body id) } =
          insert (id, (Api.newExpert body id).isReviewer) (expertFacts s) :=
        Table.gather_push_some hid rfl
      exact .kept ⟨(Set.subset_insert _ _).trans hexperts.symm.subset, Or.inl rfl⟩ rfl rfl
  | @recordExam expertId body expert id aud hexpert hid haud =>
      have hexperts := expertFacts_replace (s := s)
        (Api.afterExam (Api.EXAM_PASS_SCORE.le body.examScore) expert) (Table.find?_key hexpert)
        (by simp) (by simp)
      exact .kept (.of_eq hexperts rfl) rfl rfl
  | @createTask projectId body project id now aud hproject hgold hid haud =>
      have htasks : taskFacts { s with tasks := s.tasks.push (Api.newTask project body id now) } =
          insert (id, (Api.newTask project body id now).isGold) (taskFacts s) :=
        Table.gather_push_some hid rfl
      exact .kept ⟨subset_rfl, Or.inr ⟨id, _, hid, htasks⟩⟩ rfl rfl
  | @assignTask taskId expertId task expert project aud htask hexpert hproject hqualified haud =>
      have htasks := taskFacts_replace (s := s) (Api.assigned task expert)
        (Table.find?_key htask) rfl rfl
      exact .kept (.of_eq rfl htasks) rfl rfl
  | createSubmission htask hexpert h =>
      obtain ⟨hproject, hqualified, hheld, hassigned, ⟨id, now, rfl⟩, hid, haud, hprocess⟩ := h
      exact moved_of_processed hprocess hid rfl (Table.find?_key htask)
        (Table.find?_key hexpert)
  | postHumanReview hsub hreviewer h =>
      exact moved_of_reviewed h (Table.find?_key hsub) (Table.mem_of_find? hreviewer)
  | generateInvoice hfirm h =>
      cases h
      exact .kept (.of_eq rfl rfl) rfl rfl
  | createInvoiceCheckout hinv haccess h =>
      cases h
      exact .kept (.of_eq rfl rfl) rfl rfl
  | recordExternalPayment hinv h =>
      cases h
      exact .kept (.of_eq rfl rfl) rfl rfl
  | stripeWebhook hevent hact h => cases h <;> exact .kept (.of_eq rfl rfl) rfl rfl
  | _ => exact .kept (.of_eq rfl rfl) rfl rfl

/-! ## Evidence of a run -/

theorem Advances.trans {a b c : SubmissionStatus} (h : Advances a b) (h' : Advances b c) :
    Advances a c := by
  rcases h with rfl | ⟨ha, hb⟩
  · exact h'
  · rcases h' with rfl | ⟨hb', _⟩
    · exact Or.inr ⟨ha, hb⟩
    · rcases hb with rfl | rfl | rfl <;> cases hb'

/-- Every submission is still on record, moved forward if at all. -/
def Progress (s s' : Db) : Prop :=
  ∀ sub ∈ s.submissions, ∃ sub' ∈ s'.submissions, sub'.id = sub.id ∧
    Advances sub.status sub'.status

theorem Progress.refl (s : Db) : Progress s s :=
  fun sub hsub ↦ ⟨sub, hsub, rfl, Or.inl rfl⟩

theorem Progress.trans {s₁ s₂ s₃ : Db} (h : Progress s₁ s₂) (h' : Progress s₂ s₃) :
    Progress s₁ s₃ := by
  intro sub hsub
  obtain ⟨sub₂, hsub₂, hid₂, hadv₂⟩ := h sub hsub
  obtain ⟨sub₃, hsub₃, hid₃, hadv₃⟩ := h' sub₂ hsub₂
  exact ⟨sub₃, hsub₃, hid₃.trans hid₂, hadv₂.trans hadv₃⟩

theorem Moved.progress (h : Moved s s') : Progress s s' := by
  intro sub' hsub'
  cases h with
  | kept hframe hsubs hrevs =>
      rw [hsubs]
      exact Progress.refl s sub' hsub'
  | entered sub revs hframe hvac hsubs hrevs h =>
      rw [hsubs]
      exact ⟨sub', (Table.mem_push hvac).mpr (Or.inl hsub'), rfl, Or.inl rfl⟩
  | @judged hframe sub status rev hsub hsubs hrevs h =>
      rw [hsubs]
      have hmem := Table.mem_of_find? hsub
      by_cases hid : sub'.id = sub.id
      · obtain rfl := Table.eq_of_key hsub' hmem hid
        exact ⟨_, Table.mem_replace_self hmem rfl, rfl, Or.inr ⟨h.waiting, h.decided⟩⟩
      · exact ⟨sub', Table.mem_replace_of_ne hsub' hid, rfl, Or.inl rfl⟩

structure Kept (tr : List (Served Api.Http Db Json)) (s : Db) (w : ℕ) : Prop where
  sound : Sound s
  below : Audit.SeqBelow s.auditEvents w
  progress : ∀ e ∈ tr, Progress e.before s

theorem Kept.serves {tr : List (Served Api.Http Db Json)} {e : Served Api.Http Db Json}
    {w w' : ℕ} (h : Kept tr e.before w) (he : machine.Serves (Api.serve env) e w w') :
    Kept (tr ++ [e]) e.after w' := by
  have hstep : Sound e.after ∧ Audit.SeqBelow e.after.auditEvents w' ∧
      Progress e.before e.after := by
    cases he with
    | ok hexec =>
        obtain ⟨⟨actor, heffect⟩, hbelow⟩ := Api.exec_serve hexec h.below
        have hm := moved_of_effect heffect
        exact ⟨hm.sound h.sound, hbelow, hm.progress⟩
    | failed hmoves => exact ⟨h.sound, h.below.mono (moves_le hmoves), .refl _⟩
  obtain ⟨hsound, hbelow, hprogress⟩ := hstep
  refine ⟨hsound, hbelow, ?_⟩
  intro e' he'
  rcases List.mem_append.mp he' with he' | he'
  · exact (h.progress e' he').trans hprogress
  · obtain rfl : e' = e := by simpa using he'
    exact hprogress

theorem kept_of_run {tr : List (Served Api.Http Db Json)} {w₀ w : ℕ}
    (h : machine.Run (Api.serve env) Db.empty w₀ tr s w) : Kept tr s w :=
  Machine.Run.invariant_trace (C := fun _ _ ↦ True) (I := Kept)
    ⟨sound_empty, Audit.seqBelow_empty w₀, by simp⟩
    (fun _ _ _ _ hk _ he ↦ hk.serves he) h fun _ _ _ _ ↦ trivial

theorem Moved.refl (s : Db) : Moved s s :=
  .kept (.of_eq rfl rfl) rfl rfl

theorem moved_of_mem {tr : List (Served Api.Http Db Json)} {w₀ w : ℕ}
    (h : machine.Run (Api.serve env) Db.empty w₀ tr s w) {e : Served Api.Http Db Json}
    (he : e ∈ tr) : Moved e.before e.after := by
  rcases Api.effect_of_mem (Audit.seqBelow_empty w₀) h he with ⟨actor, heffect⟩ | ⟨_, hsame⟩
  · exact moved_of_effect heffect
  · rw [hsame]
    exact .refl _

/-- What all moves preserve holds from the end of an entry on. -/
theorem relates_after {R : Db → Db → Prop} (hrefl : ∀ s, R s s)
    (htrans : ∀ s₁ s₂ s₃, R s₁ s₂ → R s₂ s₃ → R s₁ s₃) (hmoved : ∀ s s', Moved s s' → R s s')
    {pre post : List (Served Api.Http Db Json)} {e : Served Api.Http Db Json} {w₀ w : ℕ}
    (h : machine.Run (Api.serve env) Db.empty w₀ (pre ++ e :: post) s w) : R e.after s := by
  refine Machine.Run.relates_after hrefl htrans h fun e' he' ↦ hmoved _ _ ?_
  exact moved_of_mem h (List.mem_append_right _ (List.mem_cons_of_mem _ he'))

theorem Moved.task_mono (h : Moved s s') : taskFacts s ⊆ taskFacts s' := by
  cases h with
  | kept hframe _ _ => exact hframe.task_mono
  | entered sub revs hframe _ _ _ _ => exact hframe.task_mono
  | judged hframe _ _ _ _ => exact hframe.task_mono

/-- Of a submission on record only the status ever changes. -/
def Stable (s s' : Db) : Prop :=
  ∀ sub ∈ s.submissions, ∃ status, { sub with status := status } ∈ s'.submissions

theorem Stable.refl (s : Db) : Stable s s :=
  fun sub hsub ↦ ⟨sub.status, hsub⟩

theorem Stable.trans {s₁ s₂ s₃ : Db} (h : Stable s₁ s₂) (h' : Stable s₂ s₃) : Stable s₁ s₃ := by
  intro sub hsub
  obtain ⟨status, hstatus⟩ := h sub hsub
  obtain ⟨status', hstatus'⟩ := h' _ hstatus
  exact ⟨status', hstatus'⟩

theorem Moved.stable (h : Moved s s') : Stable s s' := by
  intro sub' hsub'
  cases h with
  | kept hframe hsubs hrevs =>
      rw [hsubs]
      exact Stable.refl s sub' hsub'
  | entered sub revs hframe hvac hsubs hrevs h =>
      rw [hsubs]
      exact ⟨sub'.status, (Table.mem_push hvac).mpr (Or.inl hsub')⟩
  | @judged hframe sub status rev hsub hsubs hrevs h =>
      rw [hsubs]
      have hmem := Table.mem_of_find? hsub
      by_cases hid : sub'.id = sub.id
      · obtain rfl := Table.eq_of_key hsub' hmem hid
        exact ⟨status, Table.mem_replace_self hmem rfl⟩
      · exact ⟨sub'.status, Table.mem_replace_of_ne hsub' hid⟩

/-- What stands behind the approvals of a run, and how its submissions moved. -/
structure Integrity (tr : List (Served Api.Http Db Json)) (s : Db) : Prop where
  evidence : ∀ sub ∈ s.submissions, sub.status = .approved →
    ∀ task ∈ s.tasks, task.id = sub.taskId → task.isGold = false → Approved s sub
  lifecycle : ∀ e ∈ tr, ∀ sub ∈ e.before.submissions, ∃ sub' ∈ s.submissions,
    sub'.id = sub.id ∧ Advances sub.status sub'.status

theorem evidence_of_run {tr : List (Served Api.Http Db Json)} {w₀ w : ℕ}
    (h : machine.Run (Api.serve env) Db.empty w₀ tr s w) : Integrity tr s := by
  have hkept := kept_of_run h
  refine ⟨?_, hkept.progress⟩
  intro sub hsub hstatus task htask hof hgold
  exact hkept.sound.evidence sub hsub hstatus ⟨task, htask, by simp [hof, hgold]⟩

theorem evidence_of_firstApproval :
    (Development.run Development.firstApproval).2.1.submissions.rows.map Submission.status =
        [.approved] ∧
      Integrity (Development.run Development.firstApproval).1
        (Development.run Development.firstApproval).2.1 :=
  ⟨by decide +kernel, evidence_of_run (Development.run_spec _)⟩

end Evidence

end HumanDataFactory
