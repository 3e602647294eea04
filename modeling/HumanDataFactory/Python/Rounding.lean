import HumanDataFactory.Python.Float
import Mathlib.Data.Int.Log
import Mathlib.Tactic.Linarith
import Mathlib.Tactic.NormNum
import Mathlib.Tactic.Positivity

/-!
# Rounding

What `round` does to the order of numbers, and the division of integers, whose
result is rounded to a binary64 number.
-/

namespace HumanDataFactory
namespace PyFloat

theorem roundHalfEven_intCast (z : ℤ) : roundHalfEven (z : ℚ) = z := by
  simp [roundHalfEven]

theorem roundHalfEven_near (q : ℚ) :
    (roundHalfEven q : ℚ) - 1 / 2 ≤ q ∧ q ≤ (roundHalfEven q : ℚ) + 1 / 2 := by
  have hle := Int.floor_le q
  have hlt := Int.lt_floor_add_one q
  unfold roundHalfEven
  simp only
  split_ifs
  all_goals
    push_cast
    constructor <;> linarith

/-- Up to an even number goes what lies at most halfway behind it. -/
theorem roundHalfEven_le_iff {q : ℚ} {m : ℤ} (hm : m % 2 = 0) :
    roundHalfEven q ≤ m ↔ q ≤ m + 1 / 2 := by
  constructor
  · intro h
    have hcast : (roundHalfEven q : ℚ) ≤ m := by exact_mod_cast h
    exact (roundHalfEven_near q).2.trans (by linarith)
  · intro h
    have hfloor : ⌊q⌋ < m + 1 := by
      apply Int.floor_lt.mpr
      push_cast
      linarith
    rcases Int.lt_add_one_iff.mp hfloor |>.lt_or_eq with hlt | heq
    · unfold roundHalfEven
      simp only
      split_ifs <;> omega
    · -- a tie at most, which goes to the even side
      have hrest : ¬1 / 2 < q - ⌊q⌋ := by
        rw [heq]
        linarith
      unfold roundHalfEven
      simp only [heq] at hrest ⊢
      rw [if_neg hrest, if_pos hm]
      split_ifs <;> omega

theorem le_roundHalfEven_iff {q : ℚ} {m : ℤ} (hm : m % 2 = 0) :
    m ≤ roundHalfEven q ↔ (m : ℚ) - 1 / 2 ≤ q := by
  constructor
  · intro h
    have hcast : (m : ℚ) ≤ roundHalfEven q := by exact_mod_cast h
    exact le_trans (by linarith) (roundHalfEven_near q).1
  · intro h
    have hfloor : m - 1 ≤ ⌊q⌋ := by
      apply Int.le_floor.mpr
      push_cast
      linarith
    rcases hfloor.lt_or_eq with hlt | heq
    · unfold roundHalfEven
      simp only
      split_ifs <;> omega
    · have hrest : ¬q - ⌊q⌋ < 1 / 2 := by
        rw [← heq]
        push_cast
        linarith
      have hodd : ¬⌊q⌋ % 2 = 0 := by omega
      unfold roundHalfEven
      simp only
      rw [if_neg hrest, if_neg hodd]
      split_ifs <;> omega

theorem roundHalfEven_le {q : ℚ} {n : ℤ} (h : q ≤ n) : roundHalfEven q ≤ n := by
  have hfloor : (⌊q⌋ : ℚ) ≤ q := Int.floor_le q
  have hle : ⌊q⌋ ≤ n := by exact_mod_cast hfloor.trans h
  rcases hle.lt_or_eq with hlt | heq
  · unfold roundHalfEven
    simp only
    split_ifs <;> omega
  · -- nothing is left to round
    have hsame : q = ((n : ℤ) : ℚ) := le_antisymm h (heq ▸ hfloor)
    rw [hsame, roundHalfEven_intCast]

theorem le_roundHalfEven {q : ℚ} {n : ℤ} (h : (n : ℚ) ≤ q) : n ≤ roundHalfEven q := by
  have hle : n ≤ ⌊q⌋ := Int.le_floor.mpr h
  unfold roundHalfEven
  simp only
  split_ifs <;> omega

theorem roundHalfEven_mono {p q : ℚ} (h : p ≤ q) : roundHalfEven p ≤ roundHalfEven q := by
  by_contra hlt
  have hstep : roundHalfEven q + 1 ≤ roundHalfEven p := by omega
  have hcast : (roundHalfEven q : ℚ) + 1 ≤ roundHalfEven p := by exact_mod_cast hstep
  have hp := (roundHalfEven_near p).1
  have hq := (roundHalfEven_near q).2
  -- both are the same tie
  have heq : p = q := le_antisymm h (by linarith)
  exact hlt (heq ▸ le_refl _)

/-- The exponent of the last bit of the binary64 numbers around `q`. -/
def lastBit (q : ℚ) : ℤ :=
  max (Int.log 2 |q| - 52) (-1074)

/-- The binary64 number nearest to `q`, ties to even, as long as it does not
overflow. -/
def nearest (q : ℚ) : ℚ :=
  roundHalfEven (q / 2 ^ lastBit q) * 2 ^ lastBit q

/-- `m / n` of integers: the quotient, rounded once. -/
def trueDiv (m n : ℕ) : ℚ :=
  nearest (m / n)

theorem two_zpow_pos (e : ℤ) : (0 : ℚ) < 2 ^ e :=
  zpow_pos (by norm_num) e

/-- Between two powers of two the numbers are equally spaced. -/
theorem nearest_of_binade {q : ℚ} {e : ℤ} (he : -1022 ≤ e) (hlow : 2 ^ e ≤ q)
    (hhigh : q < 2 ^ (e + 1)) :
    nearest q = roundHalfEven (q / 2 ^ (e - 52)) * 2 ^ (e - 52) := by
  have hpos : 0 < q := (two_zpow_pos e).trans_le hlow
  have hlog : Int.log 2 |q| = e := by
    rw [abs_of_pos hpos]
    apply le_antisymm
    · have hlt := (Int.lt_zpow_iff_log_lt (b := 2) one_lt_two hpos).mp hhigh
      omega
    · exact (Int.zpow_le_iff_le_log (b := 2) one_lt_two hpos).mp hlow
  have hbit : lastBit q = e - 52 := by
    rw [lastBit, hlog]
    omega
  rw [nearest, hbit]

theorem zpow_toNat {e b : ℤ} (h : b ≤ e) : ((2 ^ (e - b).toNat : ℤ) : ℚ) = 2 ^ e / 2 ^ b := by
  rw [← zpow_sub₀ (by norm_num), Int.cast_pow, ← zpow_natCast, Int.toNat_of_nonneg (by omega)]
  rfl

/-- Multiples of `u` against a number between two of them. -/
theorem grid_iff {u x : ℚ} (hu : 0 < u) {m r : ℤ} (hlow : m * u < x) (hhigh : x < (m + 1) * u) :
    (x < r * u ↔ m < r) ∧ (x ≤ r * u ↔ m < r) := by
  by_cases h : m < r
  · have hcast : (m : ℚ) + 1 ≤ r := by exact_mod_cast h
    have hlt := hhigh.trans_le (mul_le_mul_of_nonneg_right hcast hu.le)
    exact ⟨iff_of_true hlt h, iff_of_true hlt.le h⟩
  · have hcast : (r : ℚ) ≤ m := by exact_mod_cast not_lt.mp h
    have hlt := (mul_le_mul_of_nonneg_right hcast hu.le).trans_lt hlow
    exact ⟨iff_of_false hlt.not_gt h, iff_of_false hlt.not_ge h⟩

theorem nearest_zero : nearest 0 = 0 := by
  simp [nearest, roundHalfEven]

theorem nearest_le_pow {q : ℚ} {e : ℤ} (he : -1022 ≤ e) (hq : 0 ≤ q) (h : q ≤ 2 ^ e) :
    nearest q ≤ 2 ^ e := by
  rcases hq.lt_or_eq with hq | rfl
  swap
  · rw [nearest_zero]
    exact (two_zpow_pos e).le
  have hlog : Int.log 2 q ≤ e := by
    have hmono := Int.log_mono_right (b := 2) hq h
    rwa [show (2 : ℚ) ^ e = ((2 : ℕ) : ℚ) ^ e from rfl, Int.log_zpow one_lt_two] at hmono
  have hbit : lastBit q ≤ e := by
    rw [lastBit, abs_of_pos hq]
    omega
  have hscaled : q / 2 ^ lastBit q ≤ ((2 ^ (e - lastBit q).toNat : ℤ) : ℚ) := by
    rw [zpow_toNat hbit]
    exact div_le_div_of_nonneg_right h (two_zpow_pos _).le
  have hround : (roundHalfEven (q / 2 ^ lastBit q) : ℚ) ≤ 2 ^ e / 2 ^ lastBit q := by
    rw [← zpow_toNat hbit]
    exact_mod_cast roundHalfEven_le hscaled
  exact (le_div_iff₀ (two_zpow_pos _)).mp hround

theorem pow_le_nearest {q : ℚ} {e : ℤ} (he : -1022 ≤ e) (h : 2 ^ e ≤ q) : 2 ^ e ≤ nearest q := by
  have hq : 0 < q := (two_zpow_pos e).trans_le h
  have hlog : e ≤ Int.log 2 q := (Int.zpow_le_iff_le_log (b := 2) one_lt_two hq).mp h
  have hbit : lastBit q ≤ Int.log 2 q := by
    rw [lastBit, abs_of_pos hq]
    omega
  have hscaled : ((2 ^ (Int.log 2 q - lastBit q).toNat : ℤ) : ℚ) ≤ q / 2 ^ lastBit q := by
    rw [zpow_toNat hbit]
    exact div_le_div_of_nonneg_right (Int.zpow_log_le_self one_lt_two hq) (two_zpow_pos _).le
  have hround : (2 : ℚ) ^ Int.log 2 q / 2 ^ lastBit q ≤ roundHalfEven (q / 2 ^ lastBit q) := by
    rw [← zpow_toNat hbit]
    exact_mod_cast le_roundHalfEven hscaled
  calc
    (2 : ℚ) ^ e ≤ 2 ^ Int.log 2 q := zpow_le_zpow_right₀ (by norm_num) hlog
    _ ≤ nearest q := (div_le_iff₀ (two_zpow_pos _)).mp hround

end PyFloat
end HumanDataFactory
