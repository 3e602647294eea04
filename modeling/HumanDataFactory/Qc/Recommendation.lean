import HumanDataFactory.Qc.Counters

/-!
# The sampling recommendation

The recommendation is taken on rates that are rounded to three decimals, while
the thresholds are meant for the rates themselves.  The two agree on all counts
but those whose rate lies between a threshold and the point from which on it is
rounded to the other side.
-/

namespace HumanDataFactory

namespace Calibration

open PyFloat

/-! ## Rounded rates -/

/-- From here on a rate is rounded to more than 0.05: halfway between the two
binary64 numbers next to 0.0505. -/
def raisedFrom : ℚ := (2 * 7277816997830722 - 1) / 2 ^ 58

/-- Behind here a rate is rounded to at least 0.9: halfway between the two
binary64 numbers next to 0.8995. -/
def consideredAbove : ℚ := (2 * 8101975729639522 + 1) / 2 ^ 54

theorem lt_nearest_iff {q : ℚ} (hq : 0 ≤ q) : 101 / 2000 < nearest q ↔ raisedFrom ≤ q := by
  unfold raisedFrom
  by_cases hlow : q < 2 ^ (-5 : ℤ)
  · have hround := nearest_le_pow (e := -5) (by norm_num) hq hlow.le
    norm_num at hlow hround
    constructor
    · intro h
      linarith
    · intro h
      linarith
  by_cases hhigh : 2 ^ (-4 : ℤ) ≤ q
  · have hround := pow_le_nearest (e := -4) (by norm_num) hhigh
    norm_num at hhigh hround
    exact iff_of_true (by linarith) (by linarith)
  · rw [nearest_of_binade (e := -5) (by norm_num) (not_lt.mp hlow) (not_le.mp hhigh),
      (grid_iff (m := 7277816997830721) (by norm_num) (by norm_num) (by norm_num)).1,
      Int.lt_iff_add_one_le, le_roundHalfEven_iff (by decide)]
    norm_num
    constructor
    · intro h
      linarith
    · intro h
      linarith

theorem le_nearest_iff {q : ℚ} (hq : 0 ≤ q) : 1799 / 2000 ≤ nearest q ↔ consideredAbove < q := by
  unfold consideredAbove
  by_cases hlow : q < 2 ^ (-1 : ℤ)
  · have hround := nearest_le_pow (e := -1) (by norm_num) hq hlow.le
    norm_num at hlow hround
    constructor
    · intro h
      linarith
    · intro h
      linarith
  by_cases hhigh : 2 ^ (0 : ℤ) ≤ q
  · have hround := pow_le_nearest (e := 0) (by norm_num) hhigh
    norm_num at hhigh hround
    exact iff_of_true (by linarith) (by linarith)
  · rw [nearest_of_binade (e := -1) (by norm_num) (not_lt.mp hlow) (by simpa using hhigh),
      (grid_iff (m := 8101975729639522) (by norm_num) (by norm_num) (by norm_num)).2,
      ← not_le, roundHalfEven_le_iff (by decide), not_le]
    norm_num
    constructor
    · intro h
      linarith
    · intro h
      linarith

/-- For all but astronomic counts the rounding turns at 0.0505 itself. -/
theorem raisedFrom_le_iff {k n : ℕ} (hpos : 0 < n) (hn : n ≤ 10 ^ 13) :
    raisedFrom ≤ (k / n : ℚ) ↔ 101 * n ≤ 2000 * k := by
  have hcast : (0 : ℚ) < n := by exact_mod_cast hpos
  have hbound : (n : ℚ) ≤ 10 ^ 13 := by exact_mod_cast hn
  unfold raisedFrom
  rw [le_div_iff₀ hcast]
  constructor
  · intro h
    by_contra hlt
    have hstep : (2000 * k + 1 : ℚ) ≤ 101 * n := by exact_mod_cast not_le.mp hlt
    norm_num at h
    linarith
  · intro h
    have hle : (101 * n : ℚ) ≤ 2000 * k := by exact_mod_cast h
    norm_num
    linarith

/-- The same at 0.8995. -/
theorem consideredAbove_lt_iff {k n : ℕ} (hpos : 0 < n) (hn : n ≤ 10 ^ 13) :
    consideredAbove < (k / n : ℚ) ↔ 1799 * n < 2000 * k := by
  have hcast : (0 : ℚ) < n := by exact_mod_cast hpos
  have hbound : (n : ℚ) ≤ 10 ^ 13 := by exact_mod_cast hn
  unfold consideredAbove
  rw [lt_div_iff₀ hcast]
  constructor
  · intro h
    by_contra hle
    have hstep : (2000 * k : ℚ) ≤ 1799 * n := by exact_mod_cast not_lt.mp hle
    norm_num at h
    linarith
  · intro h
    have hstep : (1799 * n + 1 : ℚ) ≤ 2000 * k := by exact_mod_cast h
    norm_num
    linarith

theorem rate_of_pos {n : ℕ} (hn : 0 < n) (k : ℕ) :
    rate k n = some (.finite (roundHalfEven (nearest (k / n) * 1000) / 1000)) := by
  have hthousand : (10 : ℚ) ^ 3 = 1000 := by norm_num
  rw [rate, if_neg hn.ne', PyFloat.round, trueDiv, hthousand]

/-- Where the rounded rate is above the tolerance. -/
theorem tolerance_lt_iff (k n : ℕ) :
    FALSE_PASS_TOLERANCE.lt (.finite (roundHalfEven (nearest (k / n) * 1000) / 1000)) = true ↔
      raisedFrom ≤ (k / n : ℚ) := by
  have hround := roundHalfEven_le_iff (q := nearest (k / n) * 1000) (m := 50) (by decide)
  have hcast (r : ℤ) : (1 / 20 : ℚ) < r / 1000 ↔ ¬r ≤ 50 := by
    rw [lt_div_iff₀ (by norm_num), not_le]
    norm_num
    exact_mod_cast Iff.rfl
  rw [FALSE_PASS_TOLERANCE, lt_finite, decide_eq_true_iff, hcast, hround,
    ← lt_nearest_iff (by positivity), not_le]
  push_cast
  constructor
  · intro h
    linarith
  · intro h
    linarith

/-- Where the rounded rate counts as strong agreement. -/
theorem strong_le_iff (k n : ℕ) :
    STRONG_AGREEMENT.le (.finite (roundHalfEven (nearest (k / n) * 1000) / 1000)) = true ↔
      consideredAbove < (k / n : ℚ) := by
  have hround := le_roundHalfEven_iff (q := nearest (k / n) * 1000) (m := 900) (by decide)
  have hcast (r : ℤ) : (9 / 10 : ℚ) ≤ r / 1000 ↔ 900 ≤ r := by
    rw [le_div_iff₀ (by norm_num)]
    norm_num
    exact_mod_cast Iff.rfl
  rw [STRONG_AGREEMENT, le_finite, decide_eq_true_iff, hcast, hround,
    ← le_nearest_iff (by positivity)]
  push_cast
  constructor
  · intro h
    linarith
  · intro h
    linarith

/-- The recommendation, by the counts. -/
theorem recommend_rates (b : Bucket) : (recommend (rates b)).1 =
    if b.pairs = 0 then .hold
    else if raisedFrom ≤ (b.falsePass / b.pairs : ℚ) then .raiseSampling
    else if b.pairs < MIN_PAIRS_FOR_CONFIDENCE then .hold
    else if consideredAbove < (b.agree / b.pairs : ℚ) then .considerLower
    else .hold := by
  unfold recommend rates
  by_cases hzero : b.pairs = 0
  · simp [hzero]
  · have hpos : 0 < b.pairs := Nat.pos_of_ne_zero hzero
    simp only [if_neg hzero, rate_of_pos hpos, Option.filter, tolerance_lt_iff, strong_le_iff]
    by_cases hraised : raisedFrom ≤ (b.falsePass / b.pairs : ℚ)
    · simp [hraised]
    · by_cases hfew : b.pairs < MIN_PAIRS_FOR_CONFIDENCE
      · simp [hraised, hfew]
      · by_cases hstrong : consideredAbove < (b.agree / b.pairs : ℚ)
        · simp [hraised, hfew, hstrong]
        · simp [hraised, hfew, hstrong]

/-! ## The counts of the pairs -/

def autoPass (p : Pair) : Prop :=
  p.auto.verdict = .pass

def humanPass (p : Pair) : Prop :=
  p.human.verdict = .pass

instance (p : Pair) : Decidable (autoPass p) :=
  inferInstanceAs (Decidable (_ = _))

instance (p : Pair) : Decidable (humanPass p) :=
  inferInstanceAs (Decidable (_ = _))

/-- The pairs that the model passed and the reviewer did not. -/
def falsePasses (ps : List Pair) : ℕ :=
  ps.countP fun p ↦ autoPass p ∧ ¬humanPass p

/-- The pairs on which both agree whether to pass. -/
def agreements (ps : List Pair) : ℕ :=
  ps.countP fun p ↦ autoPass p ↔ humanPass p

/-- A counter over the marks is a count of the pairs. -/
theorem sum_weight_eq {ps : List Pair} {ms : List Mark}
    (h : List.Forall₂ (fun p m ↦ markOf p = .ok m) ps ms) {c : Counter} {q : Pair → Bool}
    (hq : ∀ p m, markOf p = .ok m → m.weight c = if q p = true then 1 else 0) :
    (ms.map (Mark.weight c)).sum = ps.countP q := by
  induction h with
  | nil => rfl
  | cons hm _ ih => rw [List.map_cons, List.sum_cons, ih, hq _ _ hm, List.countP_cons, Nat.add_comm]

theorem markOf_passes {p : Pair} {m : Mark} (h : markOf p = .ok m) :
    (m.autoPass = true ↔ autoPass p) ∧ (m.humanPass = true ↔ humanPass p) := by
  obtain ⟨grader, _, h⟩ := bind_eq_ok.mp h
  obtain ⟨diff, _, h⟩ := bind_eq_ok.mp h
  obtain rfl := Except.ok.inj h
  simp [autoPass, humanPass]

theorem weight_falsePass (m : Mark) : m.weight .falsePass =
    if m.autoPass = true ∧ ¬m.humanPass = true then 1 else 0 := by
  obtain ⟨track, grader, autoPass, humanPass, diff⟩ := m
  cases autoPass <;> cases humanPass <;> cases diff <;> rfl

theorem weight_agree (m : Mark) : m.weight .agree =
    if m.autoPass = true ↔ m.humanPass = true then 1 else 0 := by
  obtain ⟨track, grader, autoPass, humanPass, diff⟩ := m
  cases autoPass <;> cases humanPass <;> cases diff <;> rfl

/-- What the counters of the report count. -/
theorem counts_tallyOf {ps : List Pair} {t : Tally} (h : tallyOf ps = .ok t) :
    t.overall.pairs = ps.length ∧ t.overall.falsePass = falsePasses ps ∧
      t.overall.agree = agreements ps := by
  obtain ⟨ms, hms, rfl⟩ := tallyOf_eq_ok_iff.mp h
  have hcount (c : Counter) : (tallyOfMarks ms).overall.get c = (ms.map (Mark.weight c)).sum := by
    rw [tallyOfMarks, get_foldl_add, get_bucket, Nat.zero_add]
  refine ⟨(pairs_tallyOfMarks ms).trans hms.length_eq.symm, ?_, ?_⟩
  · refine (hcount .falsePass).trans (sum_weight_eq hms fun p m hm ↦ ?_)
    simp only [weight_falsePass, markOf_passes hm, decide_eq_true_eq]
  · refine (hcount .agree).trans (sum_weight_eq hms fun p m hm ↦ ?_)
    simp only [weight_agree, markOf_passes hm, decide_eq_true_eq]

/-! ## The recommendation by the true rates -/

def trueRecommendation (ps : List Pair) : Recommendation :=
  if 1 ≤ ps.length ∧ (5 / 100 : ℚ) < falsePasses ps / ps.length then .raiseSampling
  else if 50 ≤ ps.length ∧ (90 / 100 : ℚ) ≤ agreements ps / ps.length then .considerLower
  else .hold

/-- No rate that decides lies between its threshold and where it is rounded
across. -/
def Unambiguous (ps : List Pair) : Prop :=
  ¬((5 / 100 : ℚ) < falsePasses ps / ps.length ∧ (falsePasses ps / ps.length : ℚ) < raisedFrom) ∧
    ((falsePasses ps / ps.length : ℚ) ≤ 5 / 100 → 50 ≤ ps.length →
      ¬(consideredAbove < (agreements ps / ps.length : ℚ) ∧
        (agreements ps / ps.length : ℚ) < 90 / 100))

instance (ps : List Pair) : Decidable (Unambiguous ps) :=
  inferInstanceAs (Decidable (_ ∧ _))

theorem report_of_sorted (track : Option String) {t : Tally} {rows : List (GraderKey × Bucket)}
    (h : sortedGraders t.byGrader = .ok rows) : ∃ r, t.report track = .ok r ∧
      r.samplingRecommendation = (recommend (rates t.overall)).1 := by
  unfold Tally.report
  rw [h]
  exact ⟨_, rfl, rfl⟩

theorem recommendation_of_report {track : Option String} {ps : List Pair} {r : Report}
    (h : reportOf track ps = .ok r) : r.samplingRecommendation =
      if ps.length = 0 then .hold
      else if raisedFrom ≤ (falsePasses ps / ps.length : ℚ) then .raiseSampling
      else if ps.length < MIN_PAIRS_FOR_CONFIDENCE then .hold
      else if consideredAbove < (agreements ps / ps.length : ℚ) then .considerLower
      else .hold := by
  obtain ⟨t, ht, hreport⟩ := bind_eq_ok.mp h
  obtain ⟨rows, _, hreport⟩ := bind_eq_ok.mp hreport
  obtain rfl := Except.ok.inj hreport
  obtain ⟨hpairs, hfalse, hagree⟩ := counts_tallyOf ht
  rw [← hpairs, ← hfalse, ← hagree]
  exact recommend_rates t.overall

theorem thresholds_lt : 5 / 100 < raisedFrom ∧ consideredAbove < 90 / 100 := by
  norm_num [raisedFrom, consideredAbove]

theorem recommendation_iff {track : Option String} {ps : List Pair} {r : Report}
    (h : reportOf track ps = .ok r) :
    r.samplingRecommendation = trueRecommendation ps ↔ Unambiguous ps := by
  obtain ⟨hraised, hconsidered⟩ := thresholds_lt
  rw [recommendation_of_report h]
  unfold trueRecommendation Unambiguous MIN_PAIRS_FOR_CONFIDENCE
  by_cases hzero : ps.length = 0
  · norm_num [hzero]
  have hone : 1 ≤ ps.length := Nat.pos_of_ne_zero hzero
  simp only [hzero, if_false, hone, true_and]
  by_cases hfalse : (5 / 100 : ℚ) < falsePasses ps / ps.length
  · rw [if_pos hfalse]
    by_cases hfrom : raisedFrom ≤ (falsePasses ps / ps.length : ℚ)
    · rw [if_pos hfrom]
      exact iff_of_true rfl ⟨fun h ↦ absurd hfrom h.2.not_ge, fun h ↦ absurd hfalse h.not_gt⟩
    · rw [if_neg hfrom]
      refine iff_of_false ?_ fun h ↦ h.1 ⟨hfalse, not_le.mp hfrom⟩
      split_ifs <;> decide
  have hbelow : ¬raisedFrom ≤ (falsePasses ps / ps.length : ℚ) := by linarith
  rw [if_neg hfalse, if_neg hbelow]
  by_cases hfew : ps.length < 50
  · rw [if_pos hfew, if_neg fun h ↦ absurd hfew h.1.not_gt]
    exact iff_of_true rfl ⟨fun h ↦ hfalse h.1, fun _ h ↦ absurd hfew h.not_gt⟩
  have hmany : 50 ≤ ps.length := not_lt.mp hfew
  simp only [hfew, if_false, hmany, true_and]
  by_cases hstrong : (90 / 100 : ℚ) ≤ agreements ps / ps.length
  · rw [if_pos hstrong, if_pos (hconsidered.trans_le hstrong)]
    exact iff_of_true rfl ⟨fun h ↦ hfalse h.1, fun _ _ h ↦ absurd hstrong h.2.not_ge⟩
  · rw [if_neg hstrong]
    by_cases habove : consideredAbove < (agreements ps / ps.length : ℚ)
    · rw [if_pos habove]
      refine iff_of_false (by decide) fun h ↦ ?_
      exact h.2 (not_lt.mp hfalse) trivial ⟨habove, not_le.mp hstrong⟩
    · rw [if_neg habove]
      exact iff_of_true rfl ⟨fun h ↦ hfalse h.1, fun _ _ h ↦ habove h.1⟩

/-- The report recommends what the true rates of the pairs call for exactly if no
rate is rounded across its threshold. -/
theorem calibration_recommends_iff {env : Env} {s : Db} {track : Option String} {r : Report}
    (h : (calibrationReport env track).answer s = some (.ok r)) :
    r.samplingRecommendation = trueRecommendation (pairs env s track) ↔
      Unambiguous (pairs env s track) := by
  rw [answer_calibrationReport, Option.some.injEq] at h
  exact recommendation_iff h

/-- The report on the one pair of a desk, a false pass. -/
def deskReport : Report where
  trackFilter := none
  rates := ⟨1, some (.finite 0), some (.finite 1), some (.finite 0), some (.finite 0),
    some (.finite 1)⟩
  byTrack := [(.tax, ⟨1, some (.finite 0), some (.finite 1), some (.finite 0), some (.finite 0),
    some (.finite 1)⟩)]
  byGraderVersion := [(.str "qc-prompt-v2/fin-sft-v1/model", ⟨1, some (.finite 0),
    some (.finite 1), some (.finite 0), some (.finite 0), some (.finite 1)⟩)]
  falsePassTolerance := .finite (1 / 20)
  minPairsForConfidence := 50
  strongAgreement := .finite (9 / 10)
  samplingRecommendation := .raiseSampling
  recommendationReason := "false-pass rate 100.0% exceeds tolerance 5% — widen human review"

theorem deskReport_recommends : deskReport.samplingRecommendation =
    trueRecommendation (pairs Development.env reviewedDesk none) := by
  have hanswer : (calibrationReport Development.env none).answer reviewedDesk =
      some (.ok deskReport) := by
    rw [answer_calibrationReport]
    decide +kernel
  exact (calibration_recommends_iff hanswer).mpr (by decide +kernel)

/-! ## Panels

Any verdicts are those of some database. -/

section Panel

open Development

variable (v : ℕ → Verdict × Verdict)

theorem identifier_injective : Function.Injective identifier := by
  intro m n h
  have hlength := congrArg String.length h
  simpa [identifier] using hlength

def submissionAt (i : ℕ) : Submission :=
  { deskSubmission with id := identifier i }

def autoAt (i : ℕ) : Review :=
  ⟨"auto-" ++ identifier i, identifier i, .autoLlm, "auto-qc/claude", (v i).1, none, .null, 0⟩

def humanAt (i : ℕ) : Review :=
  ⟨"human-" ++ identifier i, identifier i, .human, "rae", (v i).2, none, .null, 1⟩

theorem nodup_ids {mark : String} {f : ℕ → Review} (h : ∀ i, (f i).id = mark ++ identifier i)
    (n : ℕ) : (((List.range n).map f).map Review.id).Nodup := by
  rw [List.map_map]
  refine List.nodup_range.map fun i j hij ↦ identifier_injective ?_
  rwa [Function.comp_apply, Function.comp_apply, h, h, String.append_right_inj] at hij

/-- So many submissions with these verdicts of the model and of a reviewer. -/
def panel (n : ℕ) : Db :=
  { desk with
    submissions := ⟨(List.range n).map submissionAt, by
      rw [List.map_map]
      exact List.nodup_range.map identifier_injective⟩
    reviews := ⟨(List.range n).map (autoAt v) ++ (List.range n).map (humanAt v), by
      rw [List.map_append, List.nodup_append]
      refine ⟨nodup_ids (fun _ ↦ rfl) n, nodup_ids (fun _ ↦ rfl) n, fun a ha b hb hab ↦ ?_⟩
      obtain ⟨i, -, rfl⟩ : ∃ i < n, (autoAt v i).id = a := by simpa using ha
      obtain ⟨j, -, rfl⟩ : ∃ j < n, (humanAt v j).id = b := by simpa using hb
      have hhead := congrArg (fun s : String ↦ s.toList.head?) hab
      simp [autoAt, humanAt] at hhead⟩ }

def pairAt (i : ℕ) : Pair :=
  ⟨submissionAt i, autoAt v i, humanAt v i, .tax⟩

def markAt (i : ℕ) : Mark :=
  ⟨.tax, .str "unversioned", decide ((v i).1 = .pass), decide ((v i).2 = .pass), none⟩

variable {v} {env : Env}

theorem mem_reviews_panel {n i : ℕ} {r : Review} :
    r ∈ reviewsOf env (panel v n) (submissionAt i) ↔
      i < n ∧ (r = autoAt v i ∨ r = humanAt v i) := by
  rw [mem_reviewsOf, Table.mem_def]
  simp only [panel, List.mem_append, List.mem_map, List.mem_range]
  constructor
  · rintro ⟨⟨j, hj, rfl⟩ | ⟨j, hj, rfl⟩, hid⟩
    · obtain rfl := identifier_injective hid
      exact ⟨hj, Or.inl rfl⟩
    · obtain rfl := identifier_injective hid
      exact ⟨hj, Or.inr rfl⟩
  · rintro ⟨hi, rfl | rfl⟩
    · exact ⟨Or.inl ⟨i, hi, rfl⟩, rfl⟩
    · exact ⟨Or.inr ⟨i, hi, rfl⟩, rfl⟩

theorem lastOf_eq_some {kind : ReviewKind} {reviews : List Review} {r : Review} (hr : r ∈ reviews)
    (hkind : r.kind = kind) (honly : ∀ r' ∈ reviews, r'.kind = kind → r' = r) :
    lastOf kind reviews = some r := by
  obtain ⟨r', hr'⟩ := Option.isSome_iff_exists.mp (isSome_lastOf.mpr ⟨r, hr, hkind⟩)
  have hmem := List.mem_reverse.mp (List.mem_of_find?_eq_some hr')
  have hsame := List.find?_some hr'
  rw [hr', honly r' hmem (of_decide_eq_true hsame)]

theorem pairFor_panel {n i : ℕ} (hi : i < n) :
    pairFor env (panel v n) none (submissionAt i) = some (pairAt v i) := by
  have hauto :
      lastOf .autoLlm (reviewsOf env (panel v n) (submissionAt i)) = some (autoAt v i) := by
    refine lastOf_eq_some (mem_reviews_panel.mpr ⟨hi, Or.inl rfl⟩) rfl fun r hr hkind ↦ ?_
    rcases (mem_reviews_panel.mp hr).2 with rfl | rfl
    · rfl
    · cases hkind
  have hhuman :
      lastOf .human (reviewsOf env (panel v n) (submissionAt i)) = some (humanAt v i) := by
    refine lastOf_eq_some (mem_reviews_panel.mpr ⟨hi, Or.inr rfl⟩) rfl fun r hr hkind ↦ ?_
    rcases (mem_reviews_panel.mp hr).2 with rfl | rfl
    · cases hkind
    · rfl
  have hproject : projectOf (panel v n) none (submissionAt i) = some deskProject := by
    simp only [projectOf]
    rfl
  simp only [pairFor, pairOf, hproject, hauto, hhuman, Option.bind_eq_bind, Option.bind_some]
  rfl

/-- The pairs of a panel. -/
theorem pairs_panel (n : ℕ) : pairs env (panel v n) none = (List.range n).map (pairAt v) := by
  rw [pairs_eq]
  change ((List.range n).map submissionAt).filterMap _ = _
  rw [List.filterMap_map, ← List.filterMap_eq_map]
  refine List.filterMap_congr fun i hi ↦ ?_
  exact pairFor_panel (List.mem_range.mp hi)

theorem markOf_pairAt (i : ℕ) : markOf (pairAt v i) = .ok (markAt v i) :=
  rfl

variable (env) in
theorem tallyOf_panel (n : ℕ) : tallyOf (pairs env (panel v n) none) =
    .ok (tallyOfMarks ((List.range n).map (markAt v))) := by
  refine tallyOf_eq_ok_iff.mpr ⟨_, ?_, rfl⟩
  rw [pairs_panel, List.forall₂_map_left_iff, List.forall₂_map_right_iff]
  exact List.forall₂_same.mpr fun i _ ↦ markOf_pairAt i

variable (env) in
/-- The report on a panel, which has one slice of either kind. -/
theorem report_panel (n : ℕ) : ∃ r, (calibrationReport env none).answer (panel v n) = some (.ok r) ∧
    r.samplingRecommendation =
      (recommend (rates (tallyOfMarks ((List.range n).map (markAt v))).overall)).1 := by
  have hstr : ∀ row ∈ (tallyOfMarks ((List.range n).map (markAt v))).byGrader,
      row.1.isStr = true := by
    intro row hrow
    obtain ⟨m, hm, hkey⟩ := (slices Mark.grader).exists_item hrow
    obtain ⟨i, -, rfl⟩ := List.mem_map.mp hm
    rw [show row.1 = .str "unversioned" from hkey.symm]
    rfl
  have hsorted : ∃ rows, sortedGraders (tallyOfMarks ((List.range n).map (markAt v))).byGrader =
      .ok rows := by
    have hnone : ((tallyOfMarks ((List.range n).map (markAt v))).byGrader.any
        fun row ↦ !row.1.isStr) = false := by
      refine List.any_eq_false.mpr fun row hrow ↦ ?_
      rw [hstr row hrow]
      decide
    exact ⟨_, if_neg (by rw [hnone]; simp)⟩
  obtain ⟨rows, hrows⟩ := hsorted
  obtain ⟨r, hr, hrecommended⟩ := report_of_sorted none hrows
  refine ⟨r, ?_, hrecommended⟩
  rw [answer_calibrationReport, reportOf, tallyOf_panel]
  exact congrArg some hr

theorem trueRecommendation_panel (n : ℕ) {b : Bucket}
    (h : (tallyOfMarks ((List.range n).map (markAt v))).overall = b) :
    trueRecommendation (pairs env (panel v n) none) =
      if 1 ≤ b.pairs ∧ (5 / 100 : ℚ) < b.falsePass / b.pairs then .raiseSampling
      else if 50 ≤ b.pairs ∧ (90 / 100 : ℚ) ≤ b.agree / b.pairs then .considerLower
      else .hold := by
  obtain ⟨hpairs, hfalse, hagree⟩ := counts_tallyOf (tallyOf_panel (v := v) env n)
  rw [← h, hpairs, hfalse, hagree]
  rfl

end Panel

/-- Six of 119 pairs are false passes, one in twenty and a little more. -/
def sixFalse (i : ℕ) : Verdict × Verdict :=
  (.pass, if i < 6 then .revise else .pass)

/-- On 188 of 209 pairs both agree, nine in ten and a little less. -/
def mostAgree (i : ℕ) : Verdict × Verdict :=
  (if i < 21 then .revise else .pass, .pass)

theorem sixFalse_overall : (tallyOfMarks ((List.range 119).map (markAt sixFalse))).overall =
    ⟨119, 113, 6, 0, 0, 0, 0⟩ := by
  decide +kernel

theorem mostAgree_overall : (tallyOfMarks ((List.range 209).map (markAt mostAgree))).overall =
    ⟨209, 188, 0, 21, 0, 0, 0⟩ := by
  decide +kernel

/-- The first panel calls for more sampling and the second for none of the two
changes; both are taken for strong agreement. -/
theorem rounded_across :
    (∃ r, (calibrationReport Development.env none).answer (panel sixFalse 119) = some (.ok r) ∧
      r.samplingRecommendation = .considerLower ∧
        trueRecommendation (pairs Development.env (panel sixFalse 119) none) = .raiseSampling) ∧
      ∃ r, (calibrationReport Development.env none).answer (panel mostAgree 209) = some (.ok r) ∧
        r.samplingRecommendation = .considerLower ∧
          trueRecommendation (pairs Development.env (panel mostAgree 209) none) = .hold := by
  obtain ⟨r, hr, hrecommended⟩ := report_panel (v := sixFalse) Development.env 119
  obtain ⟨r', hr', hrecommended'⟩ := report_panel (v := mostAgree) Development.env 209
  refine ⟨⟨r, hr, hrecommended.trans ?_, ?_⟩, ⟨r', hr', hrecommended'.trans ?_, ?_⟩⟩
  · rw [sixFalse_overall]
    decide +kernel
  · rw [trueRecommendation_panel 119 sixFalse_overall]
    norm_num
  · rw [mostAgree_overall]
    decide +kernel
  · rw [trueRecommendation_panel 209 mostAgree_overall]
    norm_num

end Calibration

end HumanDataFactory
