import HumanDataFactory.Development
import HumanDataFactory.Qc.Scale
import HumanDataFactory.WeightedMean

/-!
# The overall score is a mean

What `_weighted_overall` makes of any list of rows: the rows of unknown criteria
and the order do not matter, and of what is left it takes the weighted mean.
-/

namespace HumanDataFactory

namespace PyFloat

theorem round_mono {p q : ℚ} (h : p ≤ q) (d : ℕ) :
    (round d (finite p)).le (round d (finite q)) = true := by
  have hpow : (0 : ℚ) < 10 ^ d := by positivity
  have hround := roundHalfEven_mono (mul_le_mul_of_nonneg_right h hpow.le)
  have hcast : (roundHalfEven (p * 10 ^ d) : ℚ) ≤ roundHalfEven (q * 10 ^ d) := by
    exact_mod_cast hround
  simp only [round, le_finite, decide_eq_true_eq]
  exact div_le_div_of_nonneg_right hcast hpow.le

/-- Rounding does not leave the range between two integers. -/
theorem round_mem {q : ℚ} {lo hi : ℤ} (h : (lo : ℚ) ≤ q ∧ q ≤ hi) (d : ℕ) :
    ∃ r : ℚ, round d (finite q) = finite r ∧ lo ≤ r ∧ r ≤ hi := by
  have hpow : (0 : ℚ) < 10 ^ d := by positivity
  have hlow : lo * 10 ^ d ≤ roundHalfEven (q * 10 ^ d) := by
    apply le_roundHalfEven
    push_cast
    exact mul_le_mul_of_nonneg_right h.1 hpow.le
  have hhigh : roundHalfEven (q * 10 ^ d) ≤ hi * 10 ^ d := by
    apply roundHalfEven_le
    push_cast
    exact mul_le_mul_of_nonneg_right h.2 hpow.le
  refine ⟨_, rfl, ?_, ?_⟩
  · rw [le_div_iff₀ hpow]
    exact_mod_cast hlow
  · rw [div_le_iff₀ hpow]
    exact_mod_cast hhigh

theorem add_swap (x y z : PyFloat) : (x.add y).add z = (x.add z).add y := by
  cases x <;> cases y <;> cases z <;> simp [add, add_right_comm]

end PyFloat

namespace AutoReviewer

/-- `by_key.get(row["criterion"])`. -/
def criterionOf (rubric : Rubric) (row : Json) : Except PyError (Option Criterion) :=
  row.index "criterion" >>= criterionFor rubric

/-- `float(row["score"])`. -/
def scoreOf (env : Env) (row : Json) : Except PyError PyFloat :=
  row.index "score" >>= Json.toFloat env.parseFloat

/-- A row that can be read: its score is looked at if its criterion is known. -/
def Readable (env : Env) (rubric : Rubric) (row : Json) : Prop :=
  ∃ found, criterionOf rubric row = .ok found ∧ ∀ c, found = some c →
    ∃ score, scoreOf env row = .ok score

variable {env : Env} {rubric : Rubric}

theorem weigh_cons (row : Json) (rows : List Json) (acc : PyFloat) (totalW : ℚ) :
    weigh env rubric (row :: rows) acc totalW =
      criterionOf rubric row >>= fun found ↦
        match found with
        | none => weigh env rubric rows acc totalW
        | some c => scoreOf env row >>= fun score ↦
            weigh env rubric rows (acc.add (PyFloat.scale c.weight score)) (totalW + c.weight) := by
  rw [weigh, criterionOf, scoreOf]
  cases row.index "criterion" with
  | error e => rfl
  | ok key =>
      cases h : criterionFor rubric key with
      | error e => simp [h, Bind.bind, Except.bind]
      | ok found =>
          cases found with
          | none => simp [h, Bind.bind, Except.bind]
          | some c => cases row.index "score" <;> simp [h, Bind.bind, Except.bind]

theorem weigh_returns_iff {rows : List Json} {acc : PyFloat} {totalW : ℚ} :
    (∃ r, weigh env rubric rows acc totalW = .ok r) ↔ ∀ row ∈ rows, Readable env rubric row := by
  induction rows generalizing acc totalW with
  | nil => simp [weigh]
  | cons row rows ih =>
      rw [List.forall_mem_cons, weigh_cons]
      constructor
      · rintro ⟨r, h⟩
        obtain ⟨found, hfound, h⟩ := bind_eq_ok.mp h
        cases found with
        | none => exact ⟨⟨none, hfound, by simp⟩, ih.mp ⟨r, h⟩⟩
        | some c =>
            obtain ⟨score, hscore, h⟩ := bind_eq_ok.mp h
            exact ⟨⟨some c, hfound, fun _ _ ↦ ⟨score, hscore⟩⟩, ih.mp ⟨r, h⟩⟩
      · rintro ⟨⟨found, hfound, hread⟩, hrows⟩
        cases found with
        | none =>
            obtain ⟨r, hr⟩ := ih.mpr hrows
            exact ⟨r, bind_eq_ok.mpr ⟨none, hfound, hr⟩⟩
        | some c =>
            obtain ⟨score, hscore⟩ := hread c rfl
            obtain ⟨r, hr⟩ := ih.mpr hrows
            exact ⟨r, bind_eq_ok.mpr ⟨some c, hfound, bind_eq_ok.mpr ⟨score, hscore, hr⟩⟩⟩

theorem weigh_unknown {row : Json} (h : criterionOf rubric row = .ok none)
    (before after : List Json)
    (acc : PyFloat) (totalW : ℚ) : weigh env rubric (before ++ row :: after) acc totalW =
      weigh env rubric (before ++ after) acc totalW := by
  induction before generalizing acc totalW with
  | nil =>
      rw [List.nil_append, weigh_cons, h]
      rfl
  | cons first before ih =>
      rw [List.cons_append, List.cons_append, weigh_cons, weigh_cons]
      cases criterionOf rubric first with
      | error e => rfl
      | ok found =>
          cases found with
          | none => exact ih acc totalW
          | some c =>
              cases hscore : scoreOf env first with
              | error e => rfl
              | ok score => simpa [bind, Except.bind, hscore] using ih _ _

/-- The rounded mean of weights and scores. -/
def meanOf (ps : List (ℚ × PyFloat)) : PyFloat :=
  if scoredWeight ps ≠ 0 then
    PyFloat.round 3 (PyFloat.scale (1 / scoredWeight ps) (ps.foldl addScored (.finite 0)))
  else .finite 0

theorem weightedOverall_eq_ok_iff {rows : List Json} {x : PyFloat} :
    weightedOverall env rubric rows = .ok x ↔
      (∀ row ∈ rows, Readable env rubric row) ∧ x = meanOf (scored env rubric rows) := by
  have hvalue {acc : PyFloat} {totalW : ℚ}
      (h : weigh env rubric rows (.finite 0) 0 = .ok (acc, totalW)) :
      weightedOverall env rubric rows = .ok (meanOf (scored env rubric rows)) := by
    obtain ⟨rfl, rfl⟩ := weigh_eq h
    unfold weightedOverall meanOf
    rw [h, zero_add]
    simp only [bind, Except.bind]
    split <;> rfl
  constructor
  · intro hx
    obtain ⟨⟨acc, totalW⟩, hweigh, -⟩ := bind_eq_ok.mp hx
    have heq := (hvalue hweigh).symm.trans hx
    exact ⟨weigh_returns_iff.mp ⟨_, hweigh⟩, (Except.ok.inj heq).symm⟩
  · rintro ⟨hread, rfl⟩
    obtain ⟨⟨acc, totalW⟩, hweigh⟩ := weigh_returns_iff.mpr hread
    exact hvalue hweigh

theorem meanOf_perm {ps qs : List (ℚ × PyFloat)} (h : ps.Perm qs) : meanOf ps = meanOf qs := by
  have hweight : scoredWeight ps = scoredWeight qs := (h.map Prod.fst).sum_eq
  have hfold : ps.foldl addScored (.finite 0) = qs.foldl addScored (.finite 0) := by
    refine h.foldl_eq' (fun p _ q _ acc ↦ ?_) _
    exact PyFloat.add_swap _ _ _
  unfold meanOf
  rw [hweight, hfold]

/-- Finite scores with their weights. -/
def lift (qs : List (ℚ × ℚ)) : List (ℚ × PyFloat) :=
  qs.map fun p ↦ (p.1, .finite p.2)

theorem scoredWeight_lift (qs : List (ℚ × ℚ)) :
    scoredWeight (lift qs) = WeightedMean.weight qs := by
  simp [scoredWeight, lift, WeightedMean.weight, Function.comp_def]

theorem foldl_lift (qs : List (ℚ × ℚ)) (acc : ℚ) :
    (lift qs).foldl addScored (.finite acc) = .finite (acc + WeightedMean.total qs) := by
  induction qs generalizing acc with
  | nil => simp [lift, WeightedMean.total]
  | cons p qs ih =>
      have htotal : WeightedMean.total (p :: qs) = p.1 * p.2 + WeightedMean.total qs := by
        simp [WeightedMean.total]
      rw [htotal, ← add_assoc]
      exact ih (acc + p.1 * p.2)

theorem meanOf_lift (qs : List (ℚ × ℚ)) :
    meanOf (lift qs) = PyFloat.round 3 (.finite (WeightedMean.mean qs)) := by
  unfold meanOf
  rw [scoredWeight_lift, foldl_lift, PyFloat.scale_finite, zero_add]
  unfold WeightedMean.mean
  by_cases hzero : WeightedMean.weight qs = 0
  · have hround : PyFloat.round 3 (.finite 0) = .finite 0 := by
      norm_num [PyFloat.round, PyFloat.roundHalfEven]
    rw [if_neg (not_not.mpr hzero), hzero, div_zero, hround]
  · rw [if_pos hzero, one_div, inv_mul_eq_div]

theorem exists_lift {ps : List (ℚ × PyFloat)} (h : ∀ p ∈ ps, ∃ q : ℚ, p.2 = .finite q) :
    ∃ qs, ps = lift qs := by
  induction ps with
  | nil => exact ⟨[], rfl⟩
  | cons p ps ih =>
      obtain ⟨q, hq⟩ := h p List.mem_cons_self
      obtain ⟨qs, rfl⟩ := ih fun p' hp' ↦ h p' (List.mem_cons_of_mem p hp')
      exact ⟨(p.1, q) :: qs, by simp [lift, ← hq]⟩

/-- Where the scored rows come from. -/
theorem mem_scored_iff {rows : List Json} {p : ℚ × PyFloat} :
    p ∈ scored env rubric rows ↔ ∃ row ∈ rows, ∃ c, criterionOf rubric row = .ok (some c) ∧
      scoreOf env row = .ok p.2 ∧ p.1 = c.weight := by
  obtain ⟨w, s⟩ := p
  unfold scored
  rw [List.mem_filterMap]
  refine exists_congr fun row ↦ and_congr_right fun _ ↦ ?_
  constructor
  · intro h
    unfold scoredRow at h
    split at h
    · rename_i c hc
      split at h
      · rename_i score hscore
        obtain ⟨rfl, rfl⟩ := Prod.mk.inj (Option.some.inj h)
        exact ⟨c, hc, hscore, rfl⟩
      · cases h
    · cases h
  · rintro ⟨c, hc, hscore, rfl⟩
    unfold criterionOf at hc
    unfold scoreOf at hscore
    simp only [scoredRow, hc, hscore]

theorem criterionOf_mem {row : Json} {c : Criterion} (h : criterionOf rubric row = .ok (some c)) :
    c ∈ rubric.criteria := by
  obtain ⟨key, -, hfound⟩ := bind_eq_ok.mp h
  -- only a string key names a criterion
  cases key with
  | str k => exact List.mem_reverse.mp (List.mem_of_find?_eq_some (Except.ok.inj hfound))
  | _ => simp [criterionFor] at hfound

variable (env rubric) in
/-- What makes the overall score a mean. -/
structure ProperMean : Prop where
  unknown : ∀ before row after, criterionOf rubric row = .ok none →
    weightedOverall env rubric (before ++ row :: after) =
      weightedOverall env rubric (before ++ after)
  order : ∀ rows rows' : List Json, rows.Perm rows' → ∀ x,
    weightedOverall env rubric rows = .ok x ↔ weightedOverall env rubric rows' = .ok x
  returns : ∀ rows, (∃ x, weightedOverall env rubric rows = .ok x) ↔
    ∀ row ∈ rows, Readable env rubric row
  between : ∀ rows x (lo hi : ℤ), weightedOverall env rubric rows = .ok x →
    (∃ row ∈ rows, ∃ c, criterionOf rubric row = .ok (some c)) →
    (∀ row ∈ rows, ∀ c, criterionOf rubric row = .ok (some c) →
      ∃ z : ℤ, scoreOf env row = .ok (.finite z) ∧ lo ≤ z ∧ z ≤ hi) →
    ∃ q : ℚ, x = .finite q ∧ lo ≤ q ∧ q ≤ hi
  mono : ∀ before row row' after c (s s' : ℚ) x x',
    criterionOf rubric row = .ok (some c) → criterionOf rubric row' = .ok (some c) →
    scoreOf env row = .ok (.finite s) → scoreOf env row' = .ok (.finite s') → s ≤ s' →
    (∀ other ∈ before ++ after, ∀ d, criterionOf rubric other = .ok (some d) →
      ∃ q : ℚ, scoreOf env other = .ok (.finite q)) →
    weightedOverall env rubric (before ++ row :: after) = .ok x →
    weightedOverall env rubric (before ++ row' :: after) = .ok x' → x.le x' = true

theorem between_of_positive (hweights : ∀ c ∈ rubric.criteria, 0 < c.weight) {rows : List Json}
    {x : PyFloat} {lo hi : ℤ} (hx : weightedOverall env rubric rows = .ok x)
    (hsome : ∃ row ∈ rows, ∃ c, criterionOf rubric row = .ok (some c))
    (hscores : ∀ row ∈ rows, ∀ c, criterionOf rubric row = .ok (some c) →
      ∃ z : ℤ, scoreOf env row = .ok (.finite z) ∧ lo ≤ z ∧ z ≤ hi) :
    ∃ q : ℚ, x = .finite q ∧ lo ≤ q ∧ q ≤ hi := by
  have hmem : ∀ p ∈ scored env rubric rows,
      0 < p.1 ∧ ∃ z : ℤ, p.2 = .finite z ∧ lo ≤ z ∧ z ≤ hi := by
    intro p hp
    obtain ⟨row, hrow, c, hc, hscore, hweight⟩ := mem_scored_iff.mp hp
    obtain ⟨z, hz, hrange⟩ := hscores row hrow c hc
    rw [hweight]
    exact ⟨hweights c (criterionOf_mem hc), z, Except.ok.inj (hscore.symm.trans hz), hrange⟩
  have hne : scored env rubric rows ≠ [] := by
    obtain ⟨row, hrow, c, hc⟩ := hsome
    obtain ⟨z, hz, -⟩ := hscores row hrow c hc
    exact List.ne_nil_of_mem ((mem_scored_iff (p := (c.weight, .finite z))).mpr
      ⟨row, hrow, c, hc, hz, rfl⟩)
  obtain ⟨qs, hqs⟩ := exists_lift fun p hp ↦ by
    obtain ⟨-, z, hz, -⟩ := hmem p hp
    exact ⟨z, hz⟩
  rw [hqs] at hmem hne
  have hbounds : ∀ p ∈ qs, 0 < p.1 ∧ (lo : ℚ) ≤ p.2 ∧ p.2 ≤ hi := by
    intro p hp
    obtain ⟨hpos, z, hz, hlo, hhi⟩ := hmem _ (List.mem_map_of_mem hp)
    rw [PyFloat.finite.inj hz]
    exact ⟨hpos, by exact_mod_cast hlo, by exact_mod_cast hhi⟩
  have hmean := WeightedMean.mean_mem (by rintro rfl; exact hne rfl) hbounds
  obtain ⟨-, hvalue⟩ := weightedOverall_eq_ok_iff.mp hx
  rw [hqs, meanOf_lift] at hvalue
  rw [hvalue]
  exact PyFloat.round_mem hmean 3

theorem scored_changed {before after : List Json} {row : Json} {c : Criterion} {score : PyFloat}
    (hc : criterionOf rubric row = .ok (some c)) (hscore : scoreOf env row = .ok score) :
    scored env rubric (before ++ row :: after) =
      scored env rubric before ++ (c.weight, score) :: scored env rubric after := by
  have hrow : scoredRow env rubric row = some (c.weight, score) := by
    unfold criterionOf at hc
    unfold scoreOf at hscore
    simp only [scoredRow, hc, hscore]
  simp [scored, hrow]

theorem mono_of_positive (hweights : ∀ c ∈ rubric.criteria, 0 < c.weight) {before after : List Json}
    {row row' : Json} {c : Criterion} {s s' : ℚ} {x x' : PyFloat}
    (hc : criterionOf rubric row = .ok (some c)) (hc' : criterionOf rubric row' = .ok (some c))
    (hscore : scoreOf env row = .ok (.finite s)) (hscore' : scoreOf env row' = .ok (.finite s'))
    (hle : s ≤ s')
    (hothers : ∀ other ∈ before ++ after, ∀ d, criterionOf rubric other = .ok (some d) →
      ∃ q : ℚ, scoreOf env other = .ok (.finite q))
    (hx : weightedOverall env rubric (before ++ row :: after) = .ok x)
    (hx' : weightedOverall env rubric (before ++ row' :: after) = .ok x') : x.le x' = true := by
  have hfinite {rows : List Json} (hrows : ∀ other ∈ rows, other ∈ before ++ after) :
      ∃ qs, scored env rubric rows = lift qs ∧ ∀ p ∈ qs, 0 < p.1 := by
    obtain ⟨qs, hqs⟩ : ∃ qs, scored env rubric rows = lift qs := exists_lift fun p hp ↦ by
      obtain ⟨other, hother, d, hd, hvalue, -⟩ := mem_scored_iff.mp hp
      obtain ⟨q, hq⟩ := hothers other (hrows other hother) d hd
      exact ⟨q, Except.ok.inj (hvalue.symm.trans hq)⟩
    refine ⟨qs, hqs, fun p hp ↦ ?_⟩
    have hmem : (p.1, PyFloat.finite p.2) ∈ scored env rubric rows :=
      hqs ▸ List.mem_map_of_mem hp
    obtain ⟨other, -, d, hd, -, hweight⟩ := mem_scored_iff.mp hmem
    rw [show p.1 = d.weight from hweight]
    exact hweights d (criterionOf_mem hd)
  obtain ⟨left, hleft, hleftpos⟩ := hfinite fun other ↦ List.mem_append_left after
  obtain ⟨right, hright, hrightpos⟩ := hfinite fun other ↦ List.mem_append_right before
  have hlift (z : ℚ) : lift left ++ (c.weight, .finite z) :: lift right =
      lift (left ++ (c.weight, z) :: right) := by
    simp [lift]
  obtain ⟨-, rfl⟩ := weightedOverall_eq_ok_iff.mp hx
  obtain ⟨-, rfl⟩ := weightedOverall_eq_ok_iff.mp hx'
  rw [scored_changed hc hscore, scored_changed hc' hscore', hleft, hright, hlift, hlift,
    meanOf_lift, meanOf_lift]
  refine PyFloat.round_mono (WeightedMean.mean_mono (fun p hp ↦ ?_) hle) 3
  rcases List.mem_append.mp hp with hp | hp
  · exact hleftpos p hp
  · rcases List.mem_cons.mp hp with rfl | hp
    · exact hweights c (criterionOf_mem hc)
    · exact hrightpos p hp

/-- Under positive weights the overall score is a mean of the rows with known
criteria. -/
theorem weightedOverall_properMean (env : Env) {rubric : Rubric}
    (hweights : ∀ c ∈ rubric.criteria, 0 < c.weight) : ProperMean env rubric where
  unknown before row after h := by
    unfold weightedOverall
    rw [weigh_unknown h]
  order rows rows' hperm x := by
    have hscored : meanOf (scored env rubric rows) = meanOf (scored env rubric rows') :=
      meanOf_perm (hperm.filterMap _)
    rw [weightedOverall_eq_ok_iff, weightedOverall_eq_ok_iff, hscored]
    exact and_congr_left fun _ ↦ forall_congr' fun row ↦ by rw [hperm.mem_iff]
  returns rows := by
    simp only [weightedOverall_eq_ok_iff, exists_and_left, exists_eq, and_true]
  between _ _ _ _ := between_of_positive hweights
  mono _ _ _ _ _ _ _ _ _ := mono_of_positive hweights

theorem properMean_finSft : ProperMean Development.env Rubrics.finSft :=
  weightedOverall_properMean Development.env (by decide +kernel)

end AutoReviewer

end HumanDataFactory
