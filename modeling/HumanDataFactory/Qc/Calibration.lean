import HumanDataFactory.Python.Rounding
import HumanDataFactory.Rollup
import HumanDataFactory.Session
import HumanDataFactory.Transact.Answers
import Mathlib.Data.List.Sort

/-!
# Calibration of the autonomous reviewer

`qc/calibration.py`: pairs of an automatic and a human review of one submission
are counted, over all and by track and grader version, and the rates become a
recommendation for the sampling.
-/

namespace HumanDataFactory

open Transact

/-- `round(x)`, an integer. -/
def PyFloat.roundInt : PyFloat → Except PyError ℤ
  | .finite q => .ok (roundHalfEven q)
  | .nan => .error .valueError
  | _ => .error .overflowError

namespace Calibration

variable (env : Env)

def FALSE_PASS_TOLERANCE : PyFloat := .finite (1 / 20)

def MIN_PAIRS_FOR_CONFIDENCE : ℕ := 50

def STRONG_AGREEMENT : PyFloat := .finite (9 / 10)

structure Pair where
  submission : Submission
  auto : Review
  human : Review
  track : DomainTrack

/-- `Project.track == track if track else True`. -/
def ofTrack (track : Option String) (project : Project) : Bool :=
  match track with
  | some v => decide (v = "" ∨ project.track.value = v)
  | none => true

/-- The join of submissions with their task and its project. -/
def joined (s : Db) (track : Option String) : List (Submission × Project) :=
  s.submissions.rows.flatMap fun sub ↦
    (s.tasks.rows.filter fun t ↦ t.id = sub.taskId).flatMap fun t ↦
      (s.projects.rows.filter fun p ↦ p.id = t.projectId ∧ ofTrack track p = true).map
        fun p ↦ (sub, p)

def reviewsOf (s : Db) (sub : Submission) : List Review :=
  env.orderBy Review.createdAt (s.reviews.rows.filter fun r ↦ r.submissionId = sub.id)

/-- `next((r for r in reversed(reviews) if r.kind == kind), None)`. -/
def lastOf (kind : ReviewKind) (reviews : List Review) : Option Review :=
  reviews.reverse.find? fun r ↦ r.kind = kind

def pairOf (row : Submission × Project) (reviews : List Review) : Option Pair := do
  let auto ← lastOf .autoLlm reviews
  let human ← lastOf .human reviews
  return ⟨row.1, auto, human, row.2.track⟩

structure Bucket where
  pairs : ℕ
  agree : ℕ
  falsePass : ℕ
  falseHold : ℕ
  scorePairs : ℕ
  scoreExact : ℕ
  scoreAdjacent : ℕ
  deriving DecidableEq, Repr

/-- `_bucket`. -/
def bucket : Bucket := ⟨0, 0, 0, 0, 0, 0, 0⟩

/-- What a dictionary tells grader versions apart by: numbers by their value,
and a `nan`, which equals nothing, by the review it is read from. -/
inductive GraderKey
  | str (s : String)
  | num (q : ℚ)
  | inf (positive : Bool)
  | nan (reviewId : String)
  deriving DecidableEq, Repr

/-- `(auto.detail or {}).get("grader_version") or "unversioned"`, as a key. -/
def graderOf (auto : Review) : Except PyError GraderKey := do
  let version ← (auto.detail.orElse (.obj [])).get "grader_version"
  match version.orElse (.str "unversioned") with
  | .str v => return .str v
  | .bool b => return .num (if b then 1 else 0)
  | .int z => return .num z
  | .float (.finite q) => return .num q
  | .float .posInf => return .inf true
  | .float .negInf => return .inf false
  | .float .nan => return .nan auto.id
  -- a list or a dictionary; `None` is falsy
  | _ => .error .typeError

/-- `abs(round(auto.overall_score) - round(human.overall_score))`, if both have
a score. -/
def scoreDiff (auto human : Review) : Except PyError (Option ℕ) :=
  match auto.overallScore, human.overallScore with
  | some a, some h => do
      let x ← a.roundInt
      let y ← h.roundInt
      return some (x - y).natAbs
  | _, _ => return none

/-- What the loop reads off a pair. -/
structure Mark where
  track : DomainTrack
  grader : GraderKey
  autoPass : Bool
  humanPass : Bool
  diff : Option ℕ
  deriving DecidableEq, Repr

def markOf (pair : Pair) : Except PyError Mark := do
  let grader ← graderOf pair.auto
  let diff ← scoreDiff pair.auto pair.human
  return {
    track := pair.track
    grader := grader
    autoPass := decide (pair.auto.verdict = .pass)
    humanPass := decide (pair.human.verdict = .pass)
    diff := diff }

/-- One round of the inner loop. -/
def Bucket.add (b : Bucket) (m : Mark) : Bucket :=
  let b := { b with pairs := b.pairs + 1 }
  let b :=
    if m.autoPass = m.humanPass then { b with agree := b.agree + 1 }
    else if m.autoPass = true ∧ ¬m.humanPass = true then { b with falsePass := b.falsePass + 1 }
    else { b with falseHold := b.falseHold + 1 }
  match m.diff with
  | none => b
  | some diff =>
      { b with
        scorePairs := b.scorePairs + 1
        scoreExact := b.scoreExact + if diff = 0 then 1 else 0
        scoreAdjacent := b.scoreAdjacent + if diff ≤ 1 then 1 else 0 }

/-- A `defaultdict(_bucket)` under one of the keys of a pair. -/
def slices {κ : Type} (group : Mark → κ) : Rollup κ Mark (κ × Bucket) where
  group := group
  key := Prod.fst
  opened k := (k, bucket)
  add row m := (row.1, row.2.add m)
  key_opened _ := rfl
  key_add _ _ := rfl

structure Tally where
  overall : Bucket
  byTrack : List (DomainTrack × Bucket)
  byGrader : List (GraderKey × Bucket)
  deriving DecidableEq, Repr

def Tally.empty : Tally := ⟨bucket, [], []⟩

/-- One round of the loop over the pairs. -/
def Tally.count (t : Tally) (m : Mark) : Tally where
  overall := t.overall.add m
  byTrack := (slices Mark.track).step t.byTrack m
  byGrader := (slices Mark.grader).step t.byGrader m

/-- The loop over the pairs, with one query of reviews for each row of the join. -/
def countPairs : List (Submission × Project) → Tally → Tx Tally
  | [], t => return t
  | row :: rows, t => do
      let reviews ← Session.select (.rows .reviews) fun s ↦ reviewsOf env s row.1
      match pairOf row reviews with
      | some pair =>
          let mark ← Prog.ofExcept (markOf pair)
          countPairs rows (t.count mark)
      | none => countPairs rows t

/-- `round(k / n, 3) if n else None`. -/
def rate (k n : ℕ) : Option PyFloat :=
  if n = 0 then none else some (PyFloat.round 3 (.finite (PyFloat.trueDiv k n)))

structure Rates where
  pairs : ℕ
  verdictAgreementRate : Option PyFloat
  falsePassRate : Option PyFloat
  falseHoldRate : Option PyFloat
  scoreExactAgreementRate : Option PyFloat
  scoreAdjacentAgreementRate : Option PyFloat
  deriving DecidableEq, Repr

/-- `_rates`. -/
def rates (b : Bucket) : Rates where
  pairs := b.pairs
  verdictAgreementRate := rate b.agree b.pairs
  falsePassRate := rate b.falsePass b.pairs
  falseHoldRate := rate b.falseHold b.pairs
  scoreExactAgreementRate := rate b.scoreExact b.scorePairs
  scoreAdjacentAgreementRate := rate b.scoreAdjacent b.scorePairs

inductive Recommendation
  | raiseSampling
  | hold
  | considerLower
  deriving DecidableEq, Repr

def Recommendation.value : Recommendation → String
  | raiseSampling => "raise_sampling"
  | hold => "hold"
  | considerLower => "consider_lower"

/-- `f"{x:.1%}"` of a rate, which is in thousandths. -/
def percent : PyFloat → String
  | .finite q =>
      let tenths := PyFloat.roundHalfEven (q * 1000)
      s!"{tenths / 10}.{tenths % 10}%"
  | .posInf => "inf%"
  | .negInf => "-inf%"
  | .nan => "nan%"

def recommend (r : Rates) : Recommendation × String :=
  if r.pairs = 0 then (.hold, "no calibration pairs yet")
  else
    match r.falsePassRate.filter fun fp ↦ FALSE_PASS_TOLERANCE.lt fp with
    | some fp =>
        (.raiseSampling,
          s!"false-pass rate {percent fp} exceeds tolerance 5% — widen human review")
    | none =>
        if r.pairs < MIN_PAIRS_FOR_CONFIDENCE then
          (.hold, s!"only {r.pairs} pairs (< {MIN_PAIRS_FOR_CONFIDENCE})")
        else
          match r.verdictAgreementRate.filter fun agree ↦ STRONG_AGREEMENT.le agree with
          | some agree =>
              (.considerLower, s!"agreement {percent agree} on {r.pairs} pairs — " ++
                "current sampling floors are defensible; review before changing")
          | none => (.hold, "agreement below the strong threshold")

structure Report where
  trackFilter : Option String
  rates : Rates
  byTrack : List (DomainTrack × Rates)
  byGraderVersion : List (GraderKey × Rates)
  falsePassTolerance : PyFloat
  minPairsForConfidence : ℕ
  strongAgreement : PyFloat
  samplingRecommendation : Recommendation
  recommendationReason : String
  deriving DecidableEq, Repr

def GraderKey.isStr : GraderKey → Bool
  | .str _ => true
  | _ => false

/-- `x < y` for two strings or two numbers. -/
def GraderKey.lt : GraderKey → GraderKey → Bool
  | .str s, .str t => decide (s < t)
  | .num p, .num q => decide (p < q)
  | .num _, .inf positive => positive
  | .inf positive, .num _ => !positive
  | .inf p, .inf q => !p && q
  | _, _ => false

/-- `sorted(by_grader.items())`, which cannot compare strings with numbers. -/
def sortedGraders (rows : List (GraderKey × Bucket)) :
    Except PyError (List (GraderKey × Bucket)) :=
  if (rows.any fun row ↦ row.1.isStr) && (rows.any fun row ↦ !row.1.isStr) then
    .error .typeError
  else .ok (rows.insertionSort fun a b ↦ b.1.lt a.1 = false)

def Tally.report (t : Tally) (track : Option String) : Except PyError Report := do
  let overall := Calibration.rates t.overall
  let (recommendation, reason) := recommend overall
  let byTrack := t.byTrack.insertionSort fun a b ↦ a.1.value ≤ b.1.value
  let byGrader ← sortedGraders t.byGrader
  return {
    trackFilter := track
    rates := overall
    byTrack := byTrack.map fun row ↦ (row.1, Calibration.rates row.2)
    byGraderVersion := byGrader.map fun row ↦ (row.1, Calibration.rates row.2)
    falsePassTolerance := FALSE_PASS_TOLERANCE
    minPairsForConfidence := MIN_PAIRS_FOR_CONFIDENCE
    strongAgreement := STRONG_AGREEMENT
    samplingRecommendation := recommendation
    recommendationReason := reason }

def calibrationReport (track : Option String) : Tx Report := do
  let rows ← Session.select (.rows .submissions) fun s ↦ joined s track
  let t ← countPairs env rows .empty
  Prog.ofExcept (t.report track)

/-- The pairs that `_pairs` yields. -/
def pairs (s : Db) (track : Option String) : List Pair :=
  (joined s track).filterMap fun row ↦ pairOf row (reviewsOf env s row.1)

def tallyFrom : Tally → List Pair → Except PyError Tally
  | t, [] => .ok t
  | t, pair :: rest => do
      let mark ← markOf pair
      tallyFrom (t.count mark) rest

def tallyOf (ps : List Pair) : Except PyError Tally :=
  tallyFrom .empty ps

/-- The report on a list of pairs. -/
def reportOf (track : Option String) (ps : List Pair) : Except PyError Report := do
  let t ← tallyOf ps
  t.report track

section Answers

variable {env} {s : Db}

theorem answer_countPairs (rows : List (Submission × Project)) (t : Tally) :
    (countPairs env rows t).answer s =
      some (tallyFrom t (rows.filterMap fun row ↦ pairOf row (reviewsOf env s row.1))) := by
  induction rows generalizing t with
  | nil => rfl
  | cons row rows ih =>
      rw [countPairs, Prog.answer_select_bind, List.filterMap_cons]
      cases pairOf row (reviewsOf env s row.1) with
      | none => exact ih t
      | some pair => exact Prog.answer_bind (Prog.answer_ofExcept _) fun mark ↦ ih (t.count mark)

/-- The report on a state is the report on its pairs. -/
theorem answer_calibrationReport (track : Option String) :
    (calibrationReport env track).answer s = some (reportOf track (pairs env s track)) := by
  unfold calibrationReport
  rw [Prog.answer_select_bind]
  exact Prog.answer_bind (answer_countPairs _ _) fun t ↦ Prog.answer_ofExcept (t.report track)

end Answers

end Calibration

end HumanDataFactory
