import HumanDataFactory.RateLimit.History
import Mathlib.Algebra.Order.Floor.Semiring

/-!
# The limit over a sliding interval

The limiter counts by the minute of the clock.  An interval that does not start
with a minute meets one window more than it has minutes, and each of them has
the whole limit to give: over any span the least bound is that many limits, a
burst around the turn of a minute gets twice the limit through.
-/

namespace HumanDataFactory

namespace RateLimit

variable (env : Env)

/-- The requests that pass, with their times. -/
def timedPassed (limit : ℤ) : FixedWindow → List (ℚ × Arrival) → List (ℚ × Arrival)
  | _, [] => []
  | fw, (now, a) :: rest =>
      let (outcome, fw') := dispatch env limit fw now a.request
      if outcome.isCallNext then (now, a) :: timedPassed limit fw' rest
      else timedPassed limit fw' rest

/-- The request counts for the identity. -/
def Charged (key : String) (x : ℚ × Arrival) : Prop :=
  ¬Exempt x.2 ∧ identity env x.2.request = key

instance (key : String) (x : ℚ × Arrival) : Decidable (Charged env key x) :=
  inferInstanceAs (Decidable (_ ∧ _))

/-- How many requests of the identity pass from `start` on for `span` seconds. -/
def passedWithin (limit : ℤ) (fw : FixedWindow) (arrivals : List (ℚ × Arrival)) (key : String)
    (start span : ℚ) : ℕ :=
  (timedPassed env limit fw arrivals).countP fun x ↦
    Charged env key x ∧ start ≤ x.1 ∧ x.1 < start + span

/-- One request after the other, by the clock. -/
def Arriving (arrivals : List (ℚ × Arrival)) : Prop :=
  arrivals.Pairwise fun x y ↦ x.1 ≤ y.1

/-- From any table on and whatever arrives, no interval of this length lets
more than `m` requests of an identity through. -/
def MostWithin (limit : ℤ) (span : ℚ) (m : ℕ) : Prop :=
  ∀ fw arrivals, Arriving arrivals → ∀ key start,
    passedWithin env limit fw arrivals key start span ≤ m

variable {env} {limit : ℤ} {fw : FixedWindow} {arrivals : List (ℚ × Arrival)}

theorem timedPassed_cons (now : ℚ) (a : Arrival) :
    timedPassed env limit fw ((now, a) :: arrivals) =
      if (dispatch env limit fw now a.request).1.isCallNext = true then
        (now, a) :: timedPassed env limit (dispatch env limit fw now a.request).2 arrivals
      else timedPassed env limit (dispatch env limit fw now a.request).2 arrivals :=
  rfl

theorem map_timedPassed :
    (timedPassed env limit fw arrivals).map Prod.snd = passed env limit fw arrivals := by
  induction arrivals generalizing fw with
  | nil => rfl
  | cons x arrivals ih =>
      obtain ⟨now, a⟩ := x
      rw [timedPassed_cons, passed]
      by_cases hpass : (dispatch env limit fw now a.request).1.isCallNext = true
      · simp [hpass, ih]
      · simp [hpass, ih]

theorem timedPassed_sublist : (timedPassed env limit fw arrivals).Sublist arrivals := by
  induction arrivals generalizing fw with
  | nil => exact .slnil
  | cons x arrivals ih =>
      obtain ⟨now, a⟩ := x
      rw [timedPassed_cons]
      by_cases hpass : (dispatch env limit fw now a.request).1.isCallNext = true
      · simpa [hpass] using ih
      · simpa [hpass] using ih.cons (now, a)

theorem countP_le_add {α : Type} {l : List α} {p q r : α → Prop} [DecidablePred p]
    [DecidablePred q] [DecidablePred r] (h : ∀ x, p x → q x ∨ r x) :
    l.countP (fun x ↦ p x) ≤ l.countP (fun x ↦ q x) + l.countP fun x ↦ r x := by
  induction l with
  | nil => exact Nat.zero_le _
  | cons x l ih =>
      simp only [List.countP_cons, decide_eq_true_eq]
      by_cases hp : p x
      · rcases h x hp with hq | hr
        · simp only [hp, hq, if_true]
          omega
        · simp only [hp, hr, if_true]
          omega
      · simp only [hp, if_false]
        omega

section Upper

variable (hlimit : 0 < limit) {key : String} {window : ℤ}
include hlimit

/-- What is left of a window that the clock has reached. -/
theorem countP_reached_le (horder : Arriving arrivals)
    (h : ∀ x ∈ arrivals, window ≤ windowOf x.1) :
    ((timedPassed env limit fw arrivals).countP fun x ↦
      Charged env key x ∧ windowOf x.1 = window) ≤ limit.toNat - fw.spent window key := by
  induction arrivals generalizing fw with
  | nil => simp [timedPassed]
  | cons x arrivals ih =>
      obtain ⟨now, a⟩ := x
      obtain ⟨hfirst, horder⟩ := List.pairwise_cons.mp horder
      have hrest : ∀ x ∈ arrivals, window ≤ windowOf x.1 :=
        fun x hx ↦ h x (List.mem_cons_of_mem _ hx)
      rcases (h (now, a) List.mem_cons_self).eq_or_lt with hnow | hnow
      · have hnow : windowOf now = window := hnow.symm
        by_cases hexempt : Exempt a
        · have hhead : ¬(Charged env key (now, a) ∧ windowOf now = window) :=
            fun hc ↦ hc.1.1 hexempt
          rw [timedPassed_cons, dispatch_exempt limit fw now hexempt]
          simpa [Outcome.isCallNext, List.countP_cons, hhead] using ih horder hrest
        · obtain ⟨hpass, hspent⟩ := dispatch_counted env hlimit fw now hexempt
          have hbound := @ih (dispatch env limit fw now a.request).2 horder hrest
          rw [hnow] at hpass hspent
          rw [hspent] at hbound
          rw [timedPassed_cons]
          by_cases hkey : identity env a.request = key
          · subst hkey
            rw [Quota.charge_self] at hbound
            by_cases hlt : fw.spent window (identity env a.request) < limit.toNat
            · rw [if_pos (hpass.mpr hlt), List.countP_cons]
              split <;> omega
            · rw [if_neg (mt hpass.mp hlt)]
              omega
          · rw [Quota.charge_of_ne _ (Ne.symm hkey)] at hbound
            have hhead : ¬(Charged env key (now, a) ∧ windowOf now = window) :=
              fun hc ↦ hkey hc.1.2
            split
            · simpa [List.countP_cons, hhead] using hbound
            · exact hbound
      · refine le_of_eq_of_le (List.countP_eq_zero.mpr ?_) (Nat.zero_le _)
        intro x hx
        have hlt : window < windowOf x.1 := by
          rcases List.mem_cons.mp (timedPassed_sublist.subset hx) with rfl | hx
          · exact hnow
          · exact hnow.trans_le (windowOf_mono (hfirst x hx))
        simp [hlt.ne']

/-- Each window of the clock gives the limit at most. -/
theorem countP_window_le (horder : Arriving arrivals) :
    ((timedPassed env limit fw arrivals).countP fun x ↦
      Charged env key x ∧ windowOf x.1 = window) ≤ limit.toNat := by
  induction arrivals generalizing fw with
  | nil => simp [timedPassed]
  | cons x arrivals ih =>
      obtain ⟨now, a⟩ := x
      by_cases hnow : windowOf now < window
      · have hhead : ¬(Charged env key (now, a) ∧ windowOf now = window) :=
          fun hc ↦ hnow.ne hc.2
        have hbound := @ih (dispatch env limit fw now a.request).2
          (List.pairwise_cons.mp horder).2
        rw [timedPassed_cons]
        split
        · simpa [List.countP_cons, hhead] using hbound
        · exact hbound
      · refine (countP_reached_le hlimit horder ?_).trans (Nat.sub_le _ _)
        intro x hx
        rcases List.mem_cons.mp hx with rfl | hx
        · exact not_lt.mp hnow
        · exact (not_lt.mp hnow).trans
            (windowOf_mono ((List.pairwise_cons.mp horder).1 x hx))

theorem countP_windows_le (horder : Arriving arrivals) (n : ℕ) :
    ((timedPassed env limit fw arrivals).countP fun x ↦
      Charged env key x ∧ window ≤ windowOf x.1 ∧ windowOf x.1 < window + n) ≤
        n * limit.toNat := by
  induction n with
  | zero =>
      refine le_of_eq_of_le (List.countP_eq_zero.mpr fun x _ ↦ ?_) (Nat.zero_le _)
      simp only [decide_eq_true_eq]
      omega
  | succ n ih =>
      have hlast : ((timedPassed env limit fw arrivals).countP fun x ↦
          Charged env key x ∧ windowOf x.1 = window + n) ≤ limit.toNat :=
        countP_window_le hlimit horder
      rw [Nat.succ_mul]
      refine (countP_le_add ?_).trans (Nat.add_le_add ih hlast)
      rintro x ⟨hcharged, hle, hlt⟩
      rcases (show windowOf x.1 < window + n ∨ windowOf x.1 = window + n by omega) with h | h
      · exact Or.inl ⟨hcharged, hle, h⟩
      · exact Or.inr ⟨hcharged, h⟩

end Upper

/-- The windows that an interval of `n` minutes meets. -/
theorem windowOf_within {start now span : ℚ} {n : ℕ} (hn : span ≤ 60 * n) (hle : start ≤ now)
    (hlt : now < start + span) :
    windowOf start ≤ windowOf now ∧ windowOf now < windowOf start + (n + 1 : ℕ) := by
  refine ⟨windowOf_mono hle, ?_⟩
  have hnow : windowOf now ≤ ⌊start / 60 + n⌋ := by
    apply Int.floor_mono
    linarith
  rw [Int.floor_add_natCast] at hnow
  unfold windowOf at hnow ⊢
  omega

theorem passedWithin_le (hlimit : 0 < limit) (horder : Arriving arrivals) {span : ℚ} {n : ℕ}
    (hn : span ≤ 60 * n) (key : String) (start : ℚ) :
    passedWithin env limit fw arrivals key start span ≤ (n + 1) * limit.toNat := by
  have hwindows : ((timedPassed env limit fw arrivals).countP fun x ↦ Charged env key x ∧
      windowOf start ≤ windowOf x.1 ∧ windowOf x.1 < windowOf start + (n + 1 : ℕ)) ≤
        (n + 1) * limit.toNat := countP_windows_le hlimit horder (n + 1)
  refine le_trans (List.countP_mono_left ?_) hwindows
  intro x _ hx
  obtain ⟨hcharged, hle, hlt⟩ := of_decide_eq_true hx
  exact decide_eq_true ⟨hcharged, windowOf_within hn hle hlt⟩

section Lower

/-- The same request at each of these times, as often as the limit allows. -/
def bursts (a : Arrival) (count : ℕ) (times : List ℚ) : List (ℚ × Arrival) :=
  times.flatMap fun t ↦ List.replicate count (t, a)

variable {a : Arrival} (ha : ¬Exempt a) (hlimit : 0 < limit)
include ha hlimit

theorem dispatch_snd {now : ℚ} :
    (dispatch env limit fw now a.request).2 =
      (fw.hit now (identity env a.request) limit).2 := by
  have hcounted : ¬(limit ≤ 0 ∨ a.request.path ∈ EXEMPT_PATHS) := by
    rintro (hle | hexempt)
    · omega
    · exact ha hexempt
  unfold dispatch
  rw [if_neg hcounted]
  cases hhit : (fw.hit now (identity env a.request) limit).1.allowed with
  | true => simp [hhit]
  | false => simp [hhit]

/-- A burst in one window passes as far as the limit goes, and leaves nothing
counted for other windows. -/
theorem timedPassed_burst {now : ℚ} {count : ℕ}
    (hcount : fw.spent (windowOf now) (identity env a.request) + (count + 1) ≤ limit.toNat)
    (rest : List (ℚ × Arrival)) :
    ∃ fw' : FixedWindow, (∀ w, w ≠ windowOf now → fw'.spent w (identity env a.request) = 0) ∧
      timedPassed env limit fw (List.replicate (count + 1) (now, a) ++ rest) =
        List.replicate (count + 1) (now, a) ++ timedPassed env limit fw' rest := by
  induction count generalizing fw with
  | zero =>
      have hpass := (dispatch_counted env hlimit fw now ha).1.mpr (by omega)
      refine ⟨(dispatch env limit fw now a.request).2, ?_, ?_⟩
      · intro w hw
        rw [dispatch_snd ha hlimit]
        exact spent_hit_self limit fw now _ hw
      · rw [List.replicate_one, List.singleton_append, timedPassed_cons, if_pos hpass,
          List.singleton_append]
  | succ count ih =>
      obtain ⟨hpass, hspent⟩ := dispatch_counted env hlimit fw now ha
      have hleft : (dispatch env limit fw now a.request).2.spent (windowOf now)
          (identity env a.request) + (count + 1) ≤ limit.toNat := by
        rw [hspent, Quota.charge_self]
        omega
      obtain ⟨fw', hclean', hrest⟩ := ih hleft
      refine ⟨fw', hclean', ?_⟩
      rw [List.replicate_succ, List.cons_append, timedPassed_cons, if_pos (hpass.mpr (by omega)),
        hrest, List.cons_append]

/-- Bursts in different windows all pass. -/
theorem timedPassed_bursts {times : List ℚ}
    (hwindows : times.Pairwise fun s t ↦ windowOf s ≠ windowOf t)
    (hclean : ∀ t ∈ times, fw.spent (windowOf t) (identity env a.request) = 0) :
    timedPassed env limit fw (bursts a limit.toNat times) = bursts a limit.toNat times := by
  induction times generalizing fw with
  | nil => rfl
  | cons now times ih =>
      obtain ⟨hne, hwindows⟩ := List.pairwise_cons.mp hwindows
      obtain ⟨count, hcount⟩ : ∃ count, limit.toNat = count + 1 := ⟨limit.toNat - 1, by omega⟩
      have hcons : bursts a limit.toNat (now :: times) =
          List.replicate (count + 1) (now, a) ++ bursts a limit.toNat times := by
        rw [bursts, List.flatMap_cons, ← hcount]
        rfl
      have hroom : fw.spent (windowOf now) (identity env a.request) + (count + 1) ≤
          limit.toNat := by
        rw [hclean now List.mem_cons_self]
        omega
      obtain ⟨fw', hclean', hpassed⟩ :=
        timedPassed_burst ha hlimit hroom (bursts a limit.toNat times)
      rw [hcons, hpassed, ih hwindows fun t ht ↦ hclean' _ (hne t ht).symm]

/-- All of the requests of the bursts pass in any interval that holds their
times. -/
theorem passedWithin_bursts {times : List ℚ} {start span : ℚ}
    (hwindows : times.Pairwise fun s t ↦ windowOf s ≠ windowOf t)
    (hwithin : ∀ t ∈ times, start ≤ t ∧ t < start + span) :
    passedWithin env limit fresh (bursts a limit.toNat times) (identity env a.request) start span =
      times.length * limit.toNat := by
  have hclean : ∀ t ∈ times, fresh.spent (windowOf t) (identity env a.request) = 0 :=
    fun _ _ ↦ rfl
  unfold passedWithin
  rw [timedPassed_bursts ha hlimit hwindows hclean, List.countP_eq_length.mpr ?_]
  · simp [bursts, List.length_flatMap]
  · intro x hx
    obtain ⟨t, ht, hx⟩ := List.mem_flatMap.mp hx
    obtain rfl := List.eq_of_mem_replicate hx
    exact decide_eq_true ⟨⟨ha, rfl⟩, hwithin t ht⟩

end Lower

/-- The last moments of one minute and the first of the `n` next. -/
def turns (δ : ℚ) (n : ℕ) : List ℚ :=
  (60 - δ) :: (List.range n).map fun j : ℕ ↦ (60 * (j + 1) : ℚ)

theorem arriving_bursts {a : Arrival} {count : ℕ} {times : List ℚ}
    (h : times.Pairwise fun s t ↦ s ≤ t) : Arriving (bursts a count times) := by
  refine List.pairwise_flatMap.mpr ⟨?_, ?_⟩
  · intro t _
    exact List.pairwise_replicate.mpr (Or.inr le_rfl)
  · refine h.imp ?_
    intro s t hst x hx y hy
    obtain rfl := List.eq_of_mem_replicate hx
    obtain rfl := List.eq_of_mem_replicate hy
    exact hst

section Turns

variable {δ : ℚ} (hpos : 0 < δ) (hle : δ ≤ 60)
include hpos hle

theorem pairwise_turns (n : ℕ) : (turns δ n).Pairwise fun s t ↦ windowOf s < windowOf t := by
  have hnext (j : ℕ) : windowOf (60 * (j + 1 : ℚ)) = j + 1 := by
    refine windowOf_eq_iff.mpr ⟨?_, ?_⟩
    · push_cast
      linarith
    · push_cast
      linarith
  have hfirst : windowOf (60 - δ) = 0 := by
    refine windowOf_eq_iff.mpr ⟨?_, ?_⟩
    · push_cast
      linarith
    · push_cast
      linarith
  refine List.pairwise_cons.mpr ⟨?_, ?_⟩
  · intro t ht
    obtain ⟨j, _, rfl⟩ := List.mem_map.mp ht
    rw [hfirst, hnext]
    omega
  · refine List.pairwise_map.mpr (List.pairwise_lt_range.imp ?_)
    intro i j hij
    rw [hnext, hnext]
    omega

end Turns

/-- A request without headers or a known address. -/
def idle : Arrival :=
  ⟨⟨"/", none, none, none⟩, Db.empty⟩

theorem idle_counted : ¬Exempt idle := by
  decide

/-- The sliding limit, exactly: an interval of a given length lets as many
limits through as it has minutes, begun ones included, and one more. -/
theorem mostWithin_iff (hlimit : 0 < limit) {span : ℚ} (hspan : 0 < span) (m : ℕ) :
    MostWithin env limit span m ↔ (⌈span / 60⌉₊ + 1) * limit.toNat ≤ m := by
  have hceil : span ≤ 60 * (⌈span / 60⌉₊ : ℚ) := by
    have h := Nat.le_ceil (span / 60)
    linarith
  constructor
  · intro hmost
    have hlast : (⌈span / 60⌉₊ : ℚ) < span / 60 + 1 := Nat.ceil_lt_add_one (by positivity)
    -- half of what the interval reaches into its last minute
    obtain ⟨δ, hδ⟩ : ∃ δ : ℚ, 2 * δ = span + 60 - 60 * ⌈span / 60⌉₊ :=
      ⟨_, mul_div_cancel₀ _ two_ne_zero⟩
    have hpos : 0 < δ := by linarith
    have hsmall : δ ≤ 60 := by linarith
    have hwindows := pairwise_turns hpos hsmall ⌈span / 60⌉₊
    have hwithin : ∀ t ∈ turns δ ⌈span / 60⌉₊, 60 - δ ≤ t ∧ t < 60 - δ + span := by
      intro t ht
      rcases List.mem_cons.mp ht with rfl | ht
      · exact ⟨le_rfl, by linarith⟩
      · obtain ⟨j, hj, rfl⟩ := List.mem_map.mp ht
        have hj : ((j + 1 : ℕ) : ℚ) ≤ (⌈span / 60⌉₊ : ℚ) := by
          exact_mod_cast List.mem_range.mp hj
        push_cast at hj
        have hzero : (0 : ℚ) ≤ j := Nat.cast_nonneg j
        constructor <;> linarith
    have horder : Arriving (bursts idle limit.toNat (turns δ ⌈span / 60⌉₊)) := by
      refine arriving_bursts (hwindows.imp ?_)
      intro s t hst
      by_contra hlt
      exact absurd (windowOf_mono (not_le.mp hlt).le) (not_le.mpr hst)
    have hreached := hmost fresh _ horder (identity env idle.request) (60 - δ)
    rw [passedWithin_bursts idle_counted hlimit (hwindows.imp fun h ↦ h.ne) hwithin] at hreached
    simpa [turns] using hreached
  · intro hle fw arrivals horder key start
    exact (passedWithin_le hlimit horder hceil key start).trans hle

/-- With the default limit of 120, up to 240 requests pass in a minute, and they
can pass within a second. -/
theorem twice_the_limit :
    MostWithin Development.env 120 60 240 ∧ ¬MostWithin Development.env 120 1 239 ∧
      (passed Development.env 120 fresh (bursts idle 120 (turns (1 / 2) 1))).length = 240 := by
  have hminute : ⌈(60 / 60 : ℚ)⌉₊ = 1 := by norm_num
  have hsecond : ⌈(1 / 60 : ℚ)⌉₊ = 1 := by
    refine (Nat.ceil_eq_iff one_ne_zero).mpr ?_
    norm_num
  refine ⟨(mostWithin_iff (by decide) (by norm_num) 240).mpr ?_, fun h ↦ ?_, ?_⟩
  · rw [hminute]
    decide
  · have hle := (mostWithin_iff (by decide) (by norm_num) 239).mp h
    rw [hsecond] at hle
    exact absurd hle (by decide)
  · have hhalf : (0 : ℚ) < 1 / 2 := by norm_num
    have hwindows := (pairwise_turns hhalf (by norm_num) 1).imp fun h ↦ h.ne
    have hpassed : timedPassed Development.env 120 fresh (bursts idle 120 (turns (1 / 2) 1)) =
        bursts idle 120 (turns (1 / 2) 1) :=
      timedPassed_bursts idle_counted (by decide) hwindows fun _ _ ↦ rfl
    rw [← map_timedPassed, List.length_map, hpassed, bursts, List.length_flatMap]
    simp only [List.length_replicate]
    rfl

end RateLimit

end HumanDataFactory
