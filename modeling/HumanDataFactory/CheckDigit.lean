import Mathlib.Data.List.Basic
import Mathlib.Data.Nat.ModEq
import Mathlib.Logic.Function.Iterate

/-!
# Check digits

A word is valid if its weights, two in turn counted from the last letter, add up
to a multiple of the modulus.  Which changes of a word such a check detects is
decided by the weights of the letters concerned.
-/

namespace HumanDataFactory
namespace CheckDigit

variable {α : Type} (weight : Bool → α → ℕ)

/-- The weights of the letters, the first one under the weight `b`. -/
def total : Bool → List α → ℕ
  | _, [] => 0
  | b, x :: xs => weight b x + total (!b) xs

/-- The weight that is next after so many letters. -/
def turn (b : Bool) (n : ℕ) : Bool :=
  Bool.not^[n] b

theorem total_append (b : Bool) (xs ys : List α) :
    total weight b (xs ++ ys) = total weight b xs + total weight (turn b xs.length) ys := by
  induction xs generalizing b with
  | nil => simp [total, turn]
  | cons x xs ih =>
      have hturn : turn b (x :: xs).length = turn (!b) xs.length :=
        Function.iterate_succ_apply _ _ _
      rw [List.cons_append, total, total, ih, hturn, Nat.add_assoc]

def Valid (m : ℕ) (word : List α) : Prop :=
  total weight false word.reverse ≡ 0 [MOD m]

variable (m : ℕ)

/-- A word around some letters, by what these letters add. -/
theorem valid_iff (before letters after : List α) : ∃ b rest, ∀ letters' : List α,
    letters'.length = letters.length → (Valid weight m (before ++ letters' ++ after) ↔
      total weight b letters'.reverse + rest ≡ 0 [MOD m]) := by
  refine ⟨turn false after.length,
    total weight false after.reverse +
      total weight (turn (turn false after.length) letters.length) before.reverse, ?_⟩
  intro letters' hlength
  have hsplit : total weight false (before ++ letters' ++ after).reverse =
      total weight (turn false after.length) letters'.reverse +
        (total weight false after.reverse +
          total weight (turn (turn false after.length) letters.length) before.reverse) := by
    rw [List.reverse_append, List.reverse_append, total_append, total_append,
      List.length_reverse, List.length_reverse, hlength]
    omega
  rw [Valid, hsplit]

variable {weight m} {before after : List α} {x y : α}

/-- Two words that differ in some letters are not both valid if what these
letters add differs. -/
theorem not_valid_of_replaced {letters letters' : List α}
    (hlength : letters'.length = letters.length)
    (hweight : ∀ b, ¬total weight b letters'.reverse ≡ total weight b letters.reverse [MOD m])
    (hvalid : Valid weight m (before ++ letters ++ after)) :
    ¬Valid weight m (before ++ letters' ++ after) := by
  obtain ⟨b, rest, hiff⟩ := valid_iff weight m before letters after
  intro hvalid'
  have hsum := (hiff letters rfl).mp hvalid
  have hsum' := (hiff letters' hlength).mp hvalid'
  exact hweight b (Nat.ModEq.add_right_cancel' rest (hsum'.trans hsum.symm))

/-- One letter for another. -/
theorem not_valid_of_substituted (hweight : ∀ b, ¬weight b y ≡ weight b x [MOD m])
    (hvalid : Valid weight m (before ++ x :: after)) :
    ¬Valid weight m (before ++ y :: after) := by
  have hone : ∀ b z, total weight b [z] = weight b z := fun b z ↦ by simp [total]
  have h : Valid weight m (before ++ [x] ++ after) → ¬Valid weight m (before ++ [y] ++ after) :=
    not_valid_of_replaced rfl fun b ↦ by simpa [hone] using hweight b
  simpa using h (by simpa using hvalid)

/-- Two letters exchanged. -/
theorem not_valid_of_transposed
    (hweight : ∀ b, ¬weight b x + weight (!b) y ≡ weight b y + weight (!b) x [MOD m])
    (hvalid : Valid weight m (before ++ x :: y :: after)) :
    ¬Valid weight m (before ++ y :: x :: after) := by
  have htwo : ∀ b z w, total weight b [z, w] = weight b z + weight (!b) w :=
    fun b z w ↦ by simp [total]
  have h : Valid weight m (before ++ [x, y] ++ after) →
      ¬Valid weight m (before ++ [y, x] ++ after) :=
    not_valid_of_replaced rfl fun b ↦ by simpa [htwo] using hweight b
  simpa using h (by simpa using hvalid)

end CheckDigit
end HumanDataFactory
