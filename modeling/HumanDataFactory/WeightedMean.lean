import Mathlib.Algebra.Order.BigOperators.Group.List
import Mathlib.Algebra.Order.Field.Basic
import Mathlib.Tactic.Linarith

/-!
# Weighted means

Lists of weights with values.  With positive weights the mean lies between any
bounds of the values, and grows with each of them.
-/

namespace HumanDataFactory
namespace WeightedMean

variable {K : Type*} [Field K]

def weight (ps : List (K × K)) : K :=
  (ps.map Prod.fst).sum

def total (ps : List (K × K)) : K :=
  (ps.map fun p ↦ p.1 * p.2).sum

def mean (ps : List (K × K)) : K :=
  total ps / weight ps

theorem total_append (ps qs : List (K × K)) : total (ps ++ qs) = total ps + total qs := by
  simp [total]

variable [LinearOrder K] [IsStrictOrderedRing K] {ps : List (K × K)}

theorem weight_nonneg (h : ∀ p ∈ ps, 0 < p.1) : 0 ≤ weight ps := by
  apply List.sum_nonneg
  intro w hw
  obtain ⟨p, hp, rfl⟩ := List.mem_map.mp hw
  exact (h p hp).le

theorem weight_pos (h : ∀ p ∈ ps, 0 < p.1) (hne : ps ≠ []) : 0 < weight ps := by
  obtain ⟨p, ps, rfl⟩ := List.exists_cons_of_ne_nil hne
  have hp := h p List.mem_cons_self
  have hrest := weight_nonneg fun q hq ↦ h q (List.mem_cons_of_mem p hq)
  have hcons : weight (p :: ps) = p.1 + weight ps := by simp [weight]
  linarith

/-- With bounds on the values, the total is bounded by the weight. -/
theorem total_bounds {lo hi : K} (h : ∀ p ∈ ps, 0 < p.1 ∧ lo ≤ p.2 ∧ p.2 ≤ hi) :
    lo * weight ps ≤ total ps ∧ total ps ≤ hi * weight ps := by
  induction ps with
  | nil => simp [weight, total]
  | cons p ps ih =>
      obtain ⟨hpos, hlo, hhi⟩ := h p List.mem_cons_self
      obtain ⟨ihlo, ihhi⟩ := ih fun q hq ↦ h q (List.mem_cons_of_mem p hq)
      have hweight : weight (p :: ps) = p.1 + weight ps := by simp [weight]
      have htotal : total (p :: ps) = p.1 * p.2 + total ps := by simp [total]
      have hlow : lo * p.1 ≤ p.1 * p.2 := by
        rw [mul_comm]
        exact mul_le_mul_of_nonneg_left hlo hpos.le
      have hhigh : p.1 * p.2 ≤ hi * p.1 := by
        rw [mul_comm hi]
        exact mul_le_mul_of_nonneg_left hhi hpos.le
      rw [hweight, htotal, mul_add, mul_add]
      exact ⟨add_le_add hlow ihlo, add_le_add hhigh ihhi⟩

theorem mean_mem {lo hi : K} (hne : ps ≠ []) (h : ∀ p ∈ ps, 0 < p.1 ∧ lo ≤ p.2 ∧ p.2 ≤ hi) :
    lo ≤ mean ps ∧ mean ps ≤ hi := by
  have hpos := weight_pos (fun p hp ↦ (h p hp).1) hne
  obtain ⟨hlo, hhi⟩ := total_bounds h
  exact ⟨(le_div_iff₀ hpos).mpr hlo, (div_le_iff₀ hpos).mpr hhi⟩

/-- A larger value in one place makes a larger mean. -/
theorem mean_mono {before after : List (K × K)} {w x y : K}
    (h : ∀ p ∈ before ++ (w, x) :: after, 0 < p.1) (hxy : x ≤ y) :
    mean (before ++ (w, x) :: after) ≤ mean (before ++ (w, y) :: after) := by
  have hw : 0 < w := h (w, x) (by simp)
  have hpos := weight_pos h (by simp)
  have hcons (z : K) : total ((w, z) :: after) = w * z + total after := by simp [total]
  have hweight : weight (before ++ (w, y) :: after) = weight (before ++ (w, x) :: after) := by
    simp [weight]
  have htotal : total (before ++ (w, x) :: after) ≤ total (before ++ (w, y) :: after) := by
    rw [total_append, total_append, hcons, hcons]
    have hstep := mul_le_mul_of_nonneg_left hxy hw.le
    linarith
  unfold mean
  rw [hweight]
  exact div_le_div_of_nonneg_right htotal hpos.le

end WeightedMean
end HumanDataFactory
