import HumanDataFactory.Python.Schema
import HumanDataFactory.Qc.AutoReviewer
import Mathlib.Algebra.BigOperators.Group.List.Basic
import Mathlib.Tactic.Ring

/-!
# Structured reviews

The response format of the live review, and a response as the reviewer means
it: scored criteria, flags, and whether the evidence is insufficient.  On
every response the format admits, the reviewer computes what is said of it
here.
-/

namespace HumanDataFactory

namespace AutoReviewer

/-- `sorted(CRITICAL_FLAGS | {...})`. -/
def FLAGS : List String :=
  ["CALCULATION_ERROR", "FABRICATED_CITATION", "HALLUCINATION_RISK", "INCOMPLETE", "PII",
    "STYLE_ISSUE", "WEAK_CONTRAST"]

def rowSchema (rubric : Rubric) : Schema :=
  .object
    [("criterion", .string (some (rubric.criteria.map Criterion.key))),
      ("score", .integer [0, 1, 2, 3, 4, 5]), ("justification", .string none),
      ("evidence", .string none)]
    ["criterion", "score", "justification", "evidence"]

def reviewSchema (rubric : Rubric) : Schema :=
  .object
    [("criterion_scores", .array (rowSchema rubric)),
      ("flags", .array (.string (some FLAGS))), ("insufficient_evidence", .boolean),
      ("summary", .string none)]
    ["criterion_scores", "flags", "insufficient_evidence", "summary"]

structure Response where
  rows : List (String × ℤ)
  flags : List String
  insufficient : Bool

def stringOf : Json → String
  | .str s => s
  | _ => ""

def itemsOf : Json → List Json
  | .arr xs => xs
  | _ => []

def rowOf (row : Json) : String × ℤ :=
  (stringOf (row.field "criterion"), (row.field "score").integer?.getD 0)

def responseOf (data : Json) : Response where
  rows := (itemsOf (data.field "criterion_scores")).map rowOf
  flags := (itemsOf (data.field "flags")).map stringOf
  insufficient := (data.field "insufficient_evidence").truthy

/-- The weight of a key; of equal keys the last counts. -/
def weightOf (rubric : Rubric) (key : String) : ℚ :=
  ((rubric.criteria.reverse.find? fun c ↦ c.key = key).map Criterion.weight).getD 0

def weightedSum (rubric : Rubric) (rows : List (String × ℤ)) : ℚ :=
  (rows.map fun row ↦ weightOf rubric row.1 * row.2).sum

def weightSum (rubric : Rubric) (rows : List (String × ℤ)) : ℚ :=
  (rows.map fun row ↦ weightOf rubric row.1).sum

def criticalKeys (rubric : Rubric) : List String :=
  (rubric.criteria.filter fun c ↦ c.critical).map Criterion.key

namespace Response

variable (rubric : Rubric) (r : Response)

/-- The weighted mean of the rows, to three decimals. -/
def overall : PyFloat :=
  PyFloat.round 3 (.finite (weightedSum rubric r.rows / weightSum rubric r.rows))

def raised : List String :=
  CRITICAL_FLAGS.filter fun f ↦ f ∈ r.flags

/-- Some row scores a critical criterion below 3. -/
def criticalBelow : Prop :=
  ∃ row ∈ r.rows, row.1 ∈ criticalKeys rubric ∧ row.2 < 3

instance : Decidable (r.criticalBelow rubric) :=
  inferInstanceAs (Decidable (∃ row ∈ r.rows, _))

/-- What keeps a response from passing. -/
def heldBack : Prop :=
  Settings.qcPassThreshold.le (r.overall rubric) = false ∨ r.raised ≠ [] ∨
    r.insufficient = true ∨ r.criticalBelow rubric

instance : Decidable (r.heldBack rubric) :=
  inferInstanceAs (Decidable (_ ∨ _))

end Response

theorem toFloat_of_integer? {x : Json} {z : ℤ} {parse : String → Option PyFloat}
    (h : x.integer? = some z) (hz : z.natAbs < Json.floatOverflow) :
    x.toFloat parse = .ok (.finite z) := by
  match x with
  | .int n =>
      obtain rfl : n = z := Option.some.inj h
      rw [Json.toFloat, if_pos hz]
  | .float (.finite q) =>
      simp only [Json.integer?, Option.ite_none_right_eq_some, Option.some.injEq] at h
      obtain ⟨hden, rfl⟩ := h
      have hq : (q.num : ℚ) = q := (Rat.den_eq_one_iff q).mp hden
      rw [Json.toFloat, hq]

theorem ltInt_of_integer? {x : Json} {z n : ℤ} (h : x.integer? = some z) :
    x.ltInt n = .ok (decide (z < n)) := by
  match x with
  | .int m =>
      obtain rfl : m = z := Option.some.inj h
      rfl
  | .float (.finite q) =>
      simp only [Json.integer?, Option.ite_none_right_eq_some, Option.some.injEq] at h
      obtain ⟨hden, rfl⟩ := h
      have hq : (q.num : ℚ) = q := (Rat.den_eq_one_iff q).mp hden
      have hlt : q < (n : ℚ) ↔ q.num < n := by
        rw [← hq]
        exact_mod_cast Iff.rfl
      simp [Json.ltInt, hlt]

/-- What the reviewer finds in one row of `criterion_scores`. -/
structure RowRead (rubric : Rubric) (row : Json) : Prop where
  criterion : row.index "criterion" = .ok (.str (rowOf row).1)
  known : (rowOf row).1 ∈ rubric.criteria.map Criterion.key
  score : ∃ x, row.index "score" = .ok x ∧ x.integer? = some (rowOf row).2
  range : 0 ≤ (rowOf row).2 ∧ (rowOf row).2 ≤ 5

theorem rowRead_of_admits {rubric : Rubric} {row : Json}
    (h : (rowSchema rubric).Admits row) : RowRead rubric row := by
  obtain ⟨c, hindex, hfield, hc⟩ := Schema.index_of_admits h (k := "criterion") (by simp) rfl
  obtain ⟨x, hindex', hfield', hx⟩ := Schema.index_of_admits h (k := "score") (by simp) rfl
  obtain ⟨s, rfl, hs⟩ := Schema.exists_of_admits_string hc
  obtain ⟨z, hz, hint⟩ := Schema.exists_of_admits_integer hx
  have hkey : (rowOf row).1 = s := by rw [rowOf, hfield]; rfl
  have hscore : (rowOf row).2 = z := by
    change ((row.field "score").integer?).getD 0 = z
    rw [hfield', hint]
    rfl
  refine ⟨by rw [hkey, hindex], by rw [hkey]; exact hs _ rfl,
    ⟨x, hindex', by rw [hscore, hint]⟩, ?_⟩
  rw [hscore]
  simp only [List.mem_cons, List.not_mem_nil, or_false] at hz
  omega

section Rows

variable {env : Env} {rubric : Rubric}

theorem criterionFor_str {key : String} (h : key ∈ rubric.criteria.map Criterion.key) :
    ∃ c, criterionFor rubric (.str key) = .ok (some c) ∧ c.weight = weightOf rubric key := by
  obtain ⟨c, hc, hkey⟩ := List.mem_map.mp h
  have hfound : (rubric.criteria.reverse.find? fun c ↦ c.key = key).isSome = true := by
    rw [List.find?_isSome]
    exact ⟨c, List.mem_reverse.mpr hc, by simpa using hkey⟩
  obtain ⟨c', hc'⟩ := Option.isSome_iff_exists.mp hfound
  exact ⟨c', by rw [criterionFor, hc'], by rw [weightOf, hc']; rfl⟩

theorem weigh_rows {rows : List Json} (h : ∀ row ∈ rows, RowRead rubric row) (a t : ℚ) :
    weigh env rubric rows (.finite a) t =
      .ok (.finite (a + weightedSum rubric (rows.map rowOf)),
        t + weightSum rubric (rows.map rowOf)) := by
  induction rows generalizing a t with
  | nil => simp [weigh, weightedSum, weightSum]
  | cons row rows ih =>
      have hrow : RowRead rubric row := h row (by simp)
      obtain ⟨c, hc, hweight⟩ := criterionFor_str hrow.known
      obtain ⟨x, hx, hint⟩ := hrow.score
      have hrange := hrow.range
      have hfloat : x.toFloat env.parseFloat = .ok (.finite (rowOf row).2) :=
        toFloat_of_integer? hint (by unfold Json.floatOverflow; omega)
      have hrest := ih (fun row' hrow' ↦ h row' (by simp [hrow']))
        (a + weightOf rubric (rowOf row).1 * (rowOf row).2) (t + weightOf rubric (rowOf row).1)
      have hstep : weigh env rubric (row :: rows) (.finite a) t =
          weigh env rubric rows ((PyFloat.finite a).add
            (PyFloat.scale c.weight (.finite (rowOf row).2))) (t + c.weight) := by
        rw [weigh, hrow.criterion]
        simp only [bind, Except.bind, hc, hx, hfloat]
      rw [hstep, hweight, PyFloat.scale_finite, PyFloat.add_finite, hrest]
      simp only [weightedSum, weightSum, List.map_cons, List.sum_cons, add_assoc]

theorem weightedOverall_rows {rows : List Json} (h : ∀ row ∈ rows, RowRead rubric row) :
    weightedOverall env rubric rows = .ok (PyFloat.round 3 (.finite
      (weightedSum rubric (rows.map rowOf) / weightSum rubric (rows.map rowOf)))) := by
  have hweigh : weigh env rubric rows (.finite 0) 0 =
      .ok (.finite (weightedSum rubric (rows.map rowOf)),
        weightSum rubric (rows.map rowOf)) := by
    rw [weigh_rows h, zero_add, zero_add]
  unfold weightedOverall
  rw [hweigh]
  simp only [bind, Except.bind]
  by_cases hzero : weightSum rubric (rows.map rowOf) = 0
  · have hround : PyFloat.round 3 (.finite 0) = .finite 0 := by
      norm_num [PyFloat.round, PyFloat.roundHalfEven]
    rw [if_neg (by simpa using hzero), hzero, div_zero, hround]
    rfl
  · rw [if_pos hzero, PyFloat.scale_finite, one_div, inv_mul_eq_div]
    rfl

theorem criticalGateFailed_rows {rows : List Json} (h : ∀ row ∈ rows, RowRead rubric row) :
    criticalGateFailed rubric rows = .ok (decide
      (∃ row ∈ rows.map rowOf, row.1 ∈ criticalKeys rubric ∧ row.2 < 3)) := by
  induction rows with
  | nil => simp [criticalGateFailed]
  | cons row rows ih =>
      have hrow : RowRead rubric row := h row (by simp)
      obtain ⟨x, hx, hint⟩ := hrow.score
      have hlow : x.ltInt 3 = .ok (decide ((rowOf row).2 < 3)) := ltInt_of_integer? hint
      have hrest := ih fun row' hrow' ↦ h row' (by simp [hrow'])
      have hmem : Json.memStrs ((rubric.criteria.filter fun c ↦ c.critical).map Criterion.key)
          (.str (rowOf row).1) = .ok (decide ((rowOf row).1 ∈ criticalKeys rubric)) := by
        rw [Json.memStrs, List.contains_eq_mem]
        exact congrArg Except.ok (decide_eq_decide.mpr Iff.rfl)
      have hstep : criticalGateFailed rubric (row :: rows) =
          if (rowOf row).1 ∈ criticalKeys rubric then
            if (rowOf row).2 < 3 then .ok true else criticalGateFailed rubric rows
          else criticalGateFailed rubric rows := by
        rw [criticalGateFailed, hrow.criterion]
        simp only [bind, Except.bind, pure, Except.pure, hmem, hx, hlow,
          decide_eq_true_eq]
      rw [hstep]
      by_cases hcrit : (rowOf row).1 ∈ criticalKeys rubric
      · by_cases hbelow : (rowOf row).2 < 3
        · simp [hcrit, hbelow]
        · simp [hcrit, hbelow, hrest]
      · simp [hcrit, hrest]

end Rows

theorem criticalFlags_strs {xs : List Json} (h : ∀ x ∈ xs, x = .str (stringOf x)) :
    criticalFlags (.arr xs) = .ok (CRITICAL_FLAGS.filter fun f ↦ f ∈ xs.map stringOf) := by
  have hhash : xs.all Json.hashable = true := by
    rw [List.all_eq_true]
    intro x hx
    rw [h x hx]
    rfl
  have hset : Json.toSet (.arr xs) = .ok xs := by
    rw [Json.toSet]
    simp only [Json.iter, bind, Except.bind, hhash, if_true]
  unfold criticalFlags
  rw [hset]
  simp only [bind, Except.bind, pure, Except.pure, Except.ok.injEq]
  refine List.filter_congr fun f _ ↦ ?_
  rw [Bool.eq_iff_iff, List.any_eq_true, decide_eq_true_eq, List.mem_map]
  constructor
  · rintro ⟨x, hx, hmatch⟩
    rw [h x hx] at hmatch
    exact ⟨x, hx, of_decide_eq_true hmatch⟩
  · rintro ⟨x, hx, rfl⟩
    refine ⟨x, hx, ?_⟩
    rw [h x hx]
    exact decide_eq_true rfl

/-- A live review that says of a response what there is to say. -/
structure Judges (rubric : Rubric) (resp : Response) (r : AutoReview) : Prop where
  live : r.reviewerId = AUTO_REVIEWER_ID
  score : r.overallScore = resp.overall rubric
  flags : criticalFlags r.flags = .ok resp.raised
  insufficient : r.insufficientEvidence = resp.insufficient
  passed : r.passed = true ↔ ¬resp.heldBack rubric

theorem livePassed_rows {rubric : Rubric} {rows : List Json}
    (h : ∀ row ∈ rows, RowRead rubric row) {resp : Response}
    (hresp : resp.rows = rows.map rowOf) :
    livePassed rubric rows (resp.overall rubric) resp.raised resp.insufficient =
      .ok (!decide (resp.heldBack rubric)) := by
  have hgate := criticalGateFailed_rows h
  rw [← hresp] at hgate
  unfold livePassed
  by_cases hclear : Settings.qcPassThreshold.le (resp.overall rubric) = true ∧
      resp.raised = [] ∧ resp.insufficient = false
  · rw [if_pos hclear, hgate]
    have hheld : resp.heldBack rubric ↔ resp.criticalBelow rubric := by
      simp [Response.heldBack, hclear.1, hclear.2.1, hclear.2.2]
    have hdec : decide (resp.heldBack rubric) = decide (resp.criticalBelow rubric) :=
      decide_eq_decide.mpr hheld
    rw [hdec]
    rfl
  · rw [if_neg hclear]
    have hheld : resp.heldBack rubric := by
      by_contra hnot
      simp only [Response.heldBack, not_or, Bool.not_eq_false, not_not, Bool.not_eq_true]
        at hnot
      exact hclear ⟨hnot.1, hnot.2.1, hnot.2.2.1⟩
    rw [decide_eq_true hheld]
    rfl

/-- On admitted responses the reviewer returns, with this verdict. -/
theorem reviewOfData_of_admits (env : Env) {rubric : Rubric} {data : Json}
    (h : (reviewSchema rubric).Admits data) :
    ∃ r, reviewOfData env rubric data = .ok r ∧ Judges rubric (responseOf data) r := by
  obtain ⟨scores, hscores, hscores', hrows⟩ :=
    Schema.index_of_admits h (k := "criterion_scores") (by simp) rfl
  obtain ⟨flags, hflags, hflags', hstrs⟩ :=
    Schema.index_of_admits h (k := "flags") (by simp) rfl
  obtain ⟨insufficient, _, hins, _⟩ :=
    Schema.index_of_admits h (k := "insufficient_evidence") (by simp) rfl
  obtain ⟨summary, hsummary, _, _⟩ := Schema.index_of_admits h (k := "summary") (by simp) rfl
  obtain ⟨rows, rfl, hrows⟩ := Schema.exists_of_admits_array hrows
  obtain ⟨xs, rfl, hxs⟩ := Schema.exists_of_admits_array hstrs
  have hread : ∀ row ∈ rows, RowRead rubric row := fun row hrow ↦
    rowRead_of_admits (hrows row hrow)
  have hstr : ∀ x ∈ xs, x = .str (stringOf x) := by
    intro x hx
    obtain ⟨s, rfl, _⟩ := Schema.exists_of_admits_string (hxs x hx)
    rfl
  have hget : data.get "insufficient_evidence" = .ok insufficient := by
    obtain ⟨kvs, rfl, _⟩ := Schema.exists_of_admits_object h
    exact congrArg Except.ok hins
  have hresp : responseOf data =
      ⟨rows.map rowOf, xs.map stringOf, insufficient.truthy⟩ := by
    rw [responseOf, hscores', hflags', hins]
    rfl
  rw [hresp]
  generalize hdef : Response.mk (rows.map rowOf) (xs.map stringOf) insufficient.truthy = resp
  have hrows' : resp.rows = rows.map rowOf := by rw [← hdef]
  have hoverall : weightedOverall env rubric rows = .ok (resp.overall rubric) := by
    rw [weightedOverall_rows hread, ← hdef]
    rfl
  have hcritical : criticalFlags (.arr xs) = .ok resp.raised := by
    rw [criticalFlags_strs hstr, ← hdef]
    rfl
  have htruthy : insufficient.truthy = resp.insufficient := by rw [← hdef]
  have hpassed := livePassed_rows hread hrows'
  refine ⟨⟨AUTO_REVIEWER_ID, resp.overall rubric, !decide (resp.heldBack rubric), .arr rows,
    .arr xs, summary, resp.insufficient, graderVersion env rubric true⟩, ?_,
    ⟨rfl, rfl, hcritical, rfl, by simp⟩⟩
  unfold reviewOfData
  simp only [hscores, hflags, hget, hsummary, hoverall, hcritical, htruthy, hpassed, Json.iter,
    bind, Except.bind, pure, Except.pure]

end AutoReviewer

end HumanDataFactory
