import HumanDataFactory.Development
import HumanDataFactory.Qc.Calibration

/-!
# The counters of the calibration report

Each submission with both reviews is one pair; each pair is counted once over
all, once under its track and once under its grader version, so that the slices
add up to the whole.
-/

namespace HumanDataFactory

namespace Calibration

variable {env : Env} {s : Db} {track : Option String}

/-- The project of a submission, if it is of the track. -/
def projectOf (s : Db) (track : Option String) (sub : Submission) : Option Project := do
  let t ← s.tasks.find? sub.taskId
  let p ← s.projects.find? t.projectId
  if ofTrack track p then some p else none

/-- The pair that a submission contributes. -/
def pairFor (env : Env) (s : Db) (track : Option String) (sub : Submission) : Option Pair := do
  let project ← projectOf s track sub
  pairOf (sub, project) (reviewsOf env s sub)

/-- Both reviews of a submission whose task and project are of the track. -/
structure Calibrates (s : Db) (track : Option String) (sub : Submission) : Prop where
  ofTrack : ∃ t ∈ s.tasks, t.id = sub.taskId ∧ ∃ p ∈ s.projects, p.id = t.projectId ∧
    Calibration.ofTrack track p = true
  auto : ∃ r ∈ s.reviews, r.submissionId = sub.id ∧ r.kind = .autoLlm
  human : ∃ r ∈ s.reviews, r.submissionId = sub.id ∧ r.kind = .human

instance (sub : Submission) : Decidable (Calibrates s track sub) :=
  decidable_of_iff
    ((∃ t ∈ s.tasks.rows, t.id = sub.taskId ∧ ∃ p ∈ s.projects.rows, p.id = t.projectId ∧
        ofTrack track p = true) ∧
      (∃ r ∈ s.reviews.rows, r.submissionId = sub.id ∧ r.kind = .autoLlm) ∧
      ∃ r ∈ s.reviews.rows, r.submissionId = sub.id ∧ r.kind = .human)
    ⟨fun h ↦ ⟨h.1, h.2.1, h.2.2⟩, fun h ↦ ⟨h.ofTrack, h.auto, h.human⟩⟩

theorem joined_eq : joined s track =
    s.submissions.rows.filterMap fun sub ↦ (projectOf s track sub).map fun p ↦ (sub, p) := by
  rw [List.filterMap_eq_flatMap_toList]
  unfold joined
  congr 1
  funext sub
  rw [s.tasks.filter_key]
  cases htask : s.tasks.find? sub.taskId with
  | none => simp [projectOf, htask]
  | some t =>
      have hproject : s.projects.rows.filter (fun p ↦ p.id = t.projectId ∧ ofTrack track p = true) =
          (s.projects.find? t.projectId).toList.filter (ofTrack track) := by
        rw [← s.projects.filter_key, List.filter_filter]
        congr 1
        funext p
        rw [Bool.decide_and, Bool.decide_eq_true, Bool.and_comm]
      rw [Option.toList_some, List.flatMap_singleton, hproject]
      cases hfound : s.projects.find? t.projectId with
      | none => simp [projectOf, htask, hfound]
      | some p => by_cases hp : ofTrack track p = true <;> simp [projectOf, htask, hfound, hp]

theorem pairs_eq : pairs env s track = s.submissions.rows.filterMap (pairFor env s track) := by
  unfold pairs
  rw [joined_eq, List.filterMap_filterMap]
  congr 1
  funext sub
  unfold pairFor
  cases projectOf s track sub <;> rfl

theorem submission_of_pairFor {sub : Submission} {p : Pair}
    (h : pairFor env s track sub = some p) : p.submission = sub := by
  unfold pairFor pairOf at h
  simp only [Option.bind_eq_bind, Option.bind_eq_some_iff] at h
  obtain ⟨project, _, auto, _, human, _, h⟩ := h
  rw [← Option.some.inj h]

theorem isSome_lastOf {kind : ReviewKind} {reviews : List Review} :
    (lastOf kind reviews).isSome = true ↔ ∃ r ∈ reviews, r.kind = kind := by
  simp [lastOf]

theorem mem_reviewsOf {sub : Submission} {r : Review} :
    r ∈ reviewsOf env s sub ↔ r ∈ s.reviews ∧ r.submissionId = sub.id := by
  rw [reviewsOf, Env.mem_orderBy, List.mem_filter, decide_eq_true_iff, Table.mem_def]

theorem isSome_projectOf {sub : Submission} : (projectOf s track sub).isSome = true ↔
    ∃ t ∈ s.tasks, t.id = sub.taskId ∧ ∃ p ∈ s.projects, p.id = t.projectId ∧
      ofTrack track p = true := by
  simp only [projectOf, Option.isSome_iff_exists, Option.bind_eq_bind, Option.bind_eq_some_iff,
    Option.ite_none_right_eq_some, Table.find?_eq_some]
  constructor
  · rintro ⟨project, t, ⟨ht, htask⟩, p, ⟨hp, hproject⟩, htrack, -⟩
    exact ⟨t, ht, htask, p, hp, hproject, htrack⟩
  · rintro ⟨t, ht, htask, p, hp, hproject, htrack⟩
    exact ⟨p, t, ⟨ht, htask⟩, p, ⟨hp, hproject⟩, htrack, rfl⟩

variable (env) in
theorem isSome_pairFor {sub : Submission} :
    (pairFor env s track sub).isSome = true ↔ Calibrates s track sub := by
  have hlast (kind : ReviewKind) : (lastOf kind (reviewsOf env s sub)).isSome = true ↔
      ∃ r ∈ s.reviews, r.submissionId = sub.id ∧ r.kind = kind := by
    rw [isSome_lastOf]
    simp only [mem_reviewsOf, and_assoc]
  have hparts : (pairFor env s track sub).isSome = true ↔ (projectOf s track sub).isSome = true ∧
      (lastOf .autoLlm (reviewsOf env s sub)).isSome = true ∧
      (lastOf .human (reviewsOf env s sub)).isSome = true := by
    unfold pairFor pairOf
    cases projectOf s track sub with
    | none => simp
    | some project =>
        cases lastOf .autoLlm (reviewsOf env s sub) with
        | none => simp
        | some auto => cases lastOf .human (reviewsOf env s sub) <;> simp
  rw [hparts, isSome_projectOf, hlast, hlast]
  exact ⟨fun h ↦ ⟨h.1, h.2.1, h.2.2⟩, fun h ↦ ⟨h.ofTrack, h.auto, h.human⟩⟩

/-- The number of pairs a submission contributes. -/
theorem countP_pairs {sub : Submission}
    (hsub : sub ∈ s.submissions) :
    (pairs env s track).countP (fun p ↦ p.submission.id = sub.id) =
      if Calibrates s track sub then 1 else 0 := by
  have hsame : (pairs env s track).filter (fun p ↦ p.submission.id = sub.id) =
      (pairFor env s track sub).toList := by
    have hkeep (sub' : Submission) :
        (pairFor env s track sub').filter (fun p ↦ p.submission.id = sub.id) =
          if sub'.id = sub.id then pairFor env s track sub' else none := by
      cases hpair : pairFor env s track sub' with
      | none => simp
      | some p => simp [Option.filter, submission_of_pairFor hpair]
    have hrow : s.submissions.rows.filter (fun sub' ↦ sub'.id = sub.id) = [sub] := by
      rw [s.submissions.filter_key, Table.find?_of_mem hsub]
      rfl
    calc
      _ = s.submissions.rows.filterMap
          (fun sub' ↦ if sub'.id = sub.id then pairFor env s track sub' else none) := by
        rw [pairs_eq, List.filter_filterMap]
        exact congrFun (congrArg List.filterMap (funext hkeep)) _
      _ = [sub].filterMap (pairFor env s track) := by
        rw [← hrow, List.filterMap_filter]
        simp only [decide_eq_true_iff]
      _ = (pairFor env s track sub).toList := by
        cases hpair : pairFor env s track sub <;> simp [hpair]
  rw [List.countP_eq_length_filter, hsame]
  cases hpair : pairFor env s track sub with
  | none =>
      have hnot : ¬Calibrates s track sub := by
        rw [← isSome_pairFor env, hpair]
        simp
      rw [if_neg hnot]
      rfl
  | some p =>
      have hcalibrates : Calibrates s track sub := by
        rw [← isSome_pairFor env, hpair]
        rfl
      rw [if_pos hcalibrates]
      rfl

inductive Counter
  | pairs
  | agree
  | falsePass
  | falseHold
  | scorePairs
  | scoreExact
  | scoreAdjacent
  deriving DecidableEq, Repr

def Bucket.get (b : Bucket) : Counter → ℕ
  | .pairs => b.pairs
  | .agree => b.agree
  | .falsePass => b.falsePass
  | .falseHold => b.falseHold
  | .scorePairs => b.scorePairs
  | .scoreExact => b.scoreExact
  | .scoreAdjacent => b.scoreAdjacent

/-- What a pair adds to a counter. -/
def Mark.weight (c : Counter) (m : Mark) : ℕ :=
  (bucket.add m).get c

theorem get_bucket (c : Counter) : bucket.get c = 0 := by
  cases c <;> rfl

theorem get_add (b : Bucket) (m : Mark) (c : Counter) :
    (b.add m).get c = b.get c + m.weight c := by
  obtain ⟨track, grader, autoPass, humanPass, diff⟩ := m
  cases autoPass <;> cases humanPass <;> cases diff <;> cases c <;>
    simp [Bucket.add, Bucket.get, Mark.weight, bucket]

/-- How the counters of a bucket belong together. -/
structure Bucket.TiesOut (b : Bucket) : Prop where
  verdicts : b.agree + b.falsePass + b.falseHold = b.pairs
  exact_le : b.scoreExact ≤ b.scoreAdjacent
  adjacent_le : b.scoreAdjacent ≤ b.scorePairs
  scored_le : b.scorePairs ≤ b.pairs

theorem tiesOut_bucket : bucket.TiesOut :=
  ⟨rfl, le_refl 0, le_refl 0, le_refl 0⟩

theorem Bucket.TiesOut.add {b : Bucket} (h : b.TiesOut) (m : Mark) : (b.add m).TiesOut := by
  obtain ⟨hverdicts, hexact, hadjacent, hscored⟩ := h
  obtain ⟨track, grader, autoPass, humanPass, diff⟩ := m
  -- an exact score is an adjacent one
  have hdiff (d : ℕ) : (if d = 0 then 1 else 0) ≤ if d ≤ 1 then 1 else 0 := by
    split_ifs <;> omega
  have hone (d : ℕ) : (if d ≤ 1 then 1 else 0) ≤ 1 := by
    split_ifs <;> omega
  cases diff with
  | none =>
      cases autoPass <;> cases humanPass <;>
        constructor <;> simp [Bucket.add] <;> omega
  | some d =>
      have hexact' := add_le_add hexact (hdiff d)
      have hadjacent' := add_le_add hadjacent (hone d)
      cases autoPass <;> cases humanPass <;>
        constructor <;> simp only [Bucket.add] <;> simp <;> omega

section Slices

variable {κ : Type} [DecidableEq κ] (group : Mark → κ)

def counted (c : Counter) : (slices group).Column ℕ where
  value row := row.2.get c
  weight := Mark.weight c
  value_opened _ := get_bucket c
  value_add row m := get_add row.2 m c

theorem get_foldl_add (c : Counter) (ms : List Mark) (b : Bucket) :
    (ms.foldl Bucket.add b).get c = b.get c + (ms.map (Mark.weight c)).sum := by
  induction ms generalizing b with
  | nil => simp
  | cons m ms ih => rw [List.foldl_cons, ih, get_add, List.map_cons, List.sum_cons, add_assoc]

theorem tiesOut_foldl_add (ms : List Mark) {b : Bucket} (h : b.TiesOut) :
    (ms.foldl Bucket.add b).TiesOut := by
  induction ms generalizing b with
  | nil => exact h
  | cons m ms ih => exact ih (h.add m)

theorem tiesOut_slices (ms : List Mark) : ∀ row ∈ (slices group).rows ms, row.2.TiesOut :=
  (slices group).forall_rows (P := fun row ↦ row.2.TiesOut) (fun _ ↦ tiesOut_bucket)
    (fun _ m h ↦ h.add m) ms

/-- A counter over all slices is the counter over all pairs. -/
theorem sum_slices (c : Counter) (ms : List Mark) :
    (((slices group).rows ms).map fun row ↦ row.2.get c).sum =
      (ms.foldl Bucket.add bucket).get c := by
  rw [get_foldl_add, get_bucket, Nat.zero_add]
  exact (counted group c).sum_rows ms

end Slices

/-- The tally of what was read off the pairs. -/
def tallyOfMarks (ms : List Mark) : Tally :=
  ⟨ms.foldl Bucket.add bucket, (slices Mark.track).rows ms, (slices Mark.grader).rows ms⟩

theorem foldl_count (ms : List Mark) (t : Tally) : ms.foldl Tally.count t =
    ⟨ms.foldl Bucket.add t.overall, ms.foldl (slices Mark.track).step t.byTrack,
      ms.foldl (slices Mark.grader).step t.byGrader⟩ := by
  induction ms generalizing t with
  | nil => rfl
  | cons m ms ih => exact ih (t.count m)

theorem tallyFrom_eq_ok_iff {t t' : Tally} {ps : List Pair} : tallyFrom t ps = .ok t' ↔
    ∃ ms, List.Forall₂ (fun p m ↦ markOf p = .ok m) ps ms ∧ t' = ms.foldl Tally.count t := by
  induction ps generalizing t with
  | nil => simp [tallyFrom, eq_comm]
  | cons p ps ih =>
      rw [tallyFrom, bind_eq_ok]
      constructor
      · rintro ⟨m, hm, h⟩
        obtain ⟨ms, hms, rfl⟩ := ih.mp h
        exact ⟨m :: ms, .cons hm hms, rfl⟩
      · rintro ⟨ms, hms, rfl⟩
        cases hms with
        | cons hm hms => exact ⟨_, hm, ih.mpr ⟨_, hms, rfl⟩⟩

/-- A tally is that of the marks of all pairs. -/
theorem tallyOf_eq_ok_iff {ps : List Pair} {t : Tally} : tallyOf ps = .ok t ↔
    ∃ ms, List.Forall₂ (fun p m ↦ markOf p = .ok m) ps ms ∧ t = tallyOfMarks ms := by
  have hstart (ms : List Mark) : ms.foldl Tally.count .empty = tallyOfMarks ms :=
    foldl_count ms .empty
  unfold tallyOf
  rw [tallyFrom_eq_ok_iff]
  simp only [hstart]

theorem tallyFrom_returns_iff {t : Tally} {ps : List Pair} :
    (∃ t', tallyFrom t ps = .ok t') ↔ ∀ p ∈ ps, ∃ m, markOf p = .ok m := by
  induction ps generalizing t with
  | nil => simp [tallyFrom]
  | cons p ps ih =>
      rw [List.forall_mem_cons, tallyFrom]
      constructor
      · rintro ⟨t', h⟩
        obtain ⟨m, hm, h⟩ := bind_eq_ok.mp h
        exact ⟨⟨m, hm⟩, ih.mp ⟨t', h⟩⟩
      · rintro ⟨⟨m, hm⟩, hps⟩
        obtain ⟨t', ht'⟩ := ih.mpr hps
        exact ⟨t', bind_eq_ok.mpr ⟨m, hm, ht'⟩⟩

/-- Exactly where every pair can be read, there is a tally. -/
theorem tallyOf_returns_iff {ps : List Pair} :
    (∃ t, tallyOf ps = .ok t) ↔ ∀ p ∈ ps, ∃ m, markOf p = .ok m :=
  tallyFrom_returns_iff

theorem weight_pairs (m : Mark) : m.weight .pairs = 1 := by
  obtain ⟨track, grader, autoPass, humanPass, diff⟩ := m
  cases autoPass <;> cases humanPass <;> cases diff <;> rfl

/-- The counters of a tally belong together, in every slice, and the slices add
up to the whole. -/
structure Tally.TiesOut (t : Tally) : Prop where
  overall : t.overall.TiesOut
  byTrack : ∀ row ∈ t.byTrack, row.2.TiesOut
  byGrader : ∀ row ∈ t.byGrader, row.2.TiesOut
  sum_byTrack : ∀ c, (t.byTrack.map fun row ↦ row.2.get c).sum = t.overall.get c
  sum_byGrader : ∀ c, (t.byGrader.map fun row ↦ row.2.get c).sum = t.overall.get c

theorem tiesOut_tallyOfMarks (ms : List Mark) : (tallyOfMarks ms).TiesOut where
  overall := tiesOut_foldl_add ms tiesOut_bucket
  byTrack := tiesOut_slices Mark.track ms
  byGrader := tiesOut_slices Mark.grader ms
  sum_byTrack c := sum_slices Mark.track c ms
  sum_byGrader c := sum_slices Mark.grader c ms

theorem pairs_tallyOfMarks (ms : List Mark) : (tallyOfMarks ms).overall.pairs = ms.length := by
  have hget := get_foldl_add .pairs ms bucket
  have hweights : ms.map (Mark.weight .pairs) = List.replicate ms.length 1 :=
    List.map_eq_replicate_iff.mpr fun m _ ↦ weight_pairs m
  rw [get_bucket, Nat.zero_add, hweights, List.sum_replicate_nat, Nat.mul_one] at hget
  exact hget

/-- Every submission with both reviews is one pair of the calibration report,
and its counters tie out. -/
theorem calibration_ties_out (env : Env) (s : Db) (track : Option String) :
    (∀ sub ∈ s.submissions, (pairs env s track).countP (fun p ↦ p.submission.id = sub.id) =
        if Calibrates s track sub then 1 else 0) ∧
      ∀ t, tallyOf (pairs env s track) = .ok t →
        t.overall.pairs = (pairs env s track).length ∧ t.TiesOut := by
  refine ⟨fun sub hsub ↦ countP_pairs hsub, fun t ht ↦ ?_⟩
  obtain ⟨ms, hms, rfl⟩ := tallyOf_eq_ok_iff.mp ht
  exact ⟨(pairs_tallyOfMarks ms).trans hms.length_eq.symm, tiesOut_tallyOfMarks ms⟩

/-- A submission that was passed by the model and sent back by a reviewer. -/
def reviewedDesk : Db :=
  { Development.desk with
    reviews := .push (.push .empty
      ⟨"auto", "submission", .autoLlm, "auto-qc/claude", .pass, some (.finite 5),
        .obj [("grader_version", .str "qc-prompt-v2/fin-sft-v1/model")], 0⟩)
      ⟨"human", "submission", .human, "rae", .revise, some (.finite (7 / 2)), .obj [], 1⟩ }

def deskTally : Tally :=
  ⟨⟨1, 0, 1, 0, 1, 0, 1⟩, [(.tax, ⟨1, 0, 1, 0, 1, 0, 1⟩)],
    [(.str "qc-prompt-v2/fin-sft-v1/model", ⟨1, 0, 1, 0, 1, 0, 1⟩)]⟩

theorem reviewedDesk_ties_out :
    (pairs Development.env reviewedDesk (some "tax")).countP
        (fun p ↦ p.submission.id = "submission") = 1 ∧
      deskTally.TiesOut := by
  obtain ⟨hone, hties⟩ := calibration_ties_out Development.env reviewedDesk (some "tax")
  have hsub : Development.deskSubmission ∈ reviewedDesk.submissions :=
    (Table.mem_push fun _ h ↦ by cases h).mpr (Or.inr rfl)
  exact ⟨(hone _ hsub).trans (if_pos (by decide +kernel)), (hties deskTally (by decide +kernel)).2⟩

end Calibration

end HumanDataFactory
