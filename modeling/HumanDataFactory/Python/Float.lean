import Mathlib.Algebra.BigOperators.Group.List.Basic
import Mathlib.Algebra.Order.Floor.Ring
import Mathlib.Data.Rat.Floor
import Mathlib.Data.Rat.Defs

/-!
# Python floats

Finite values are taken as exact rationals; the infinities and `nan` are kept,
with the comparisons and the arithmetic they have in Python.
-/

namespace HumanDataFactory

inductive PyFloat
  | finite (q : ℚ)
  | posInf
  | negInf
  | nan
  deriving DecidableEq, Repr

namespace PyFloat

instance : Inhabited PyFloat := ⟨finite 0⟩

instance : Coe ℚ PyFloat := ⟨finite⟩

def add : PyFloat → PyFloat → PyFloat
  | finite p, finite q => finite (p + q)
  | nan, _ => nan
  | _, nan => nan
  | posInf, negInf => nan
  | negInf, posInf => nan
  | posInf, _ => posInf
  | _, posInf => posInf
  | negInf, _ => negInf
  | _, negInf => negInf

/-- `q * x` for a finite `q`; a zero times an infinity is not a number. -/
def scale (q : ℚ) : PyFloat → PyFloat
  | finite p => finite (q * p)
  | nan => nan
  | posInf => if q = 0 then nan else if 0 < q then posInf else negInf
  | negInf => if q = 0 then nan else if 0 < q then negInf else posInf

def sub (x y : PyFloat) : PyFloat :=
  add x (scale (-1) y)

def abs : PyFloat → PyFloat
  | finite q => finite |q|
  | nan => nan
  | _ => posInf

/-- `x < y`; false whenever `nan` takes part. -/
def lt : PyFloat → PyFloat → Bool
  | finite p, finite q => p < q
  | finite _, posInf => true
  | negInf, finite _ => true
  | negInf, posInf => true
  | _, _ => false

/-- `x <= y`; false whenever `nan` takes part. -/
def le : PyFloat → PyFloat → Bool
  | nan, _ => false
  | _, nan => false
  | x, y => !lt y x

/-- `bool(x)`: only the zeros are falsy. -/
def truthy : PyFloat → Bool
  | finite q => q ≠ 0
  | _ => true

/-- The nearest integer, ties to even. -/
def roundHalfEven (q : ℚ) : ℤ :=
  let f := ⌊q⌋
  if q - f < 1 / 2 then f
  else if 1 / 2 < q - f then f + 1
  else if f % 2 = 0 then f else f + 1

/-- `round(x, d)`, which leaves the infinities and `nan` alone. -/
def round (d : ℕ) : PyFloat → PyFloat
  | finite q => finite (roundHalfEven (q * 10 ^ d) / 10 ^ d)
  | x => x

@[simp] theorem add_finite (p q : ℚ) : add (finite p) (finite q) = finite (p + q) := rfl

@[simp] theorem scale_finite (p q : ℚ) : scale p (finite q) = finite (p * q) := rfl

@[simp] theorem lt_finite (p q : ℚ) : lt (finite p) (finite q) = decide (p < q) := rfl

@[simp] theorem le_finite (p q : ℚ) : le (finite p) (finite q) = decide (p ≤ q) := by
  by_cases h : p ≤ q <;> simp [le, h, not_lt.mpr, not_le.mp]

theorem add_eq_finite {x y : PyFloat} {q : ℚ} :
    x.add y = finite q ↔ ∃ p r, x = finite p ∧ y = finite r ∧ p + r = q := by
  cases x <;> cases y <;> simp [add]

theorem sub_eq_finite {x y : PyFloat} {q : ℚ} :
    x.sub y = finite q ↔ ∃ p r, x = finite p ∧ y = finite r ∧ p - r = q := by
  have hneg : ¬(0 : ℚ) < -1 := by norm_num
  rw [sub, add_eq_finite]
  cases y <;> simp [scale, hneg, sub_eq_add_neg]

/-- `sum(xs)` of floats. -/
def total (xs : List PyFloat) : PyFloat :=
  xs.foldl add (finite 0)

theorem start_of_foldl_add {xs : List PyFloat} {y : PyFloat} {q : ℚ}
    (h : xs.foldl add y = finite q) : ∃ p, y = finite p := by
  induction xs generalizing y with
  | nil => exact ⟨q, h⟩
  | cons x xs ih =>
      obtain ⟨r, hr⟩ := ih h
      obtain ⟨p, _, hp, _⟩ := add_eq_finite.mp hr
      exact ⟨p, hp⟩

theorem foldl_add_eq_finite {xs : List PyFloat} {p q : ℚ} :
    xs.foldl add (finite p) = finite q ↔ ∃ qs : List ℚ, xs = qs.map finite ∧ p + qs.sum = q := by
  induction xs generalizing p with
  | nil => simp
  | cons x xs ih =>
      rw [List.foldl_cons]
      constructor
      · intro h
        obtain ⟨_, hstart⟩ := start_of_foldl_add h
        obtain ⟨_, r, _, rfl, _⟩ := add_eq_finite.mp hstart
        rw [add_finite, ih] at h
        obtain ⟨qs, rfl, hsum⟩ := h
        exact ⟨r :: qs, rfl, by rw [List.sum_cons, ← hsum, add_assoc]⟩
      · rintro ⟨qs, hqs, hsum⟩
        cases qs with
        | nil => simp at hqs
        | cons r qs =>
            obtain ⟨rfl, rfl⟩ := List.cons.inj hqs
            rw [add_finite, ih]
            exact ⟨qs, rfl, by rw [← hsum, List.sum_cons, add_assoc]⟩

theorem total_eq_finite {xs : List PyFloat} {q : ℚ} :
    total xs = finite q ↔ ∃ qs : List ℚ, xs = qs.map finite ∧ qs.sum = q := by
  simp only [total, foldl_add_eq_finite, zero_add]

/-- `abs(x) > t` is false for `nan` too. -/
theorem lt_abs_eq_false {t : ℚ} {x : PyFloat} :
    (finite t).lt x.abs = false ↔ x = nan ∨ ∃ q, x = finite q ∧ |q| ≤ t := by
  cases x <;> simp [abs, lt]

end PyFloat

end HumanDataFactory
