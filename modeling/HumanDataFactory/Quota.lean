import Mathlib.Algebra.Order.Group.Nat
import Mathlib.Data.List.Basic
import Mathlib.Data.Set.Basic
import Mathlib.Logic.Function.Basic

/-!
# Quotas

A quota lets each key through a fixed number of times.  Its elements also have
owners, and it holds for each owner as well as for each key precisely if the
owner determines the key.
-/

namespace HumanDataFactory
namespace Quota

variable {α κ ω : Type} [DecidableEq κ] [DecidableEq ω]

/-- One more use of the key. -/
def charge (used : κ → ℕ) (k : κ) : κ → ℕ :=
  Function.update used k (used k + 1)

@[simp] theorem charge_self (used : κ → ℕ) (k : κ) : charge used k k = used k + 1 :=
  Function.update_self ..

theorem charge_of_ne (used : κ → ℕ) {k l : κ} (h : l ≠ k) : charge used k l = used l :=
  Function.update_of_ne h ..

variable (key : α → κ) (limit : ℕ)

/-- The elements a quota of `limit` lets through, when each key has been used
this often before. -/
def admitted : (κ → ℕ) → List α → List α
  | _, [] => []
  | used, x :: xs =>
      if used (key x) < limit then x :: admitted (charge used (key x)) xs
      else admitted (charge used (key x)) xs

theorem admitted_sublist (used : κ → ℕ) (xs : List α) :
    (admitted key limit used xs).Sublist xs := by
  induction xs generalizing used with
  | nil => exact List.Sublist.refl _
  | cons x xs ih =>
      rw [admitted]
      split
      · exact (ih _).cons_cons x
      · exact (ih _).cons x

/-- What passes of one key: what comes, up to what is left of the limit. -/
theorem countP_admitted (used : κ → ℕ) (xs : List α) (k : κ) :
    (admitted key limit used xs).countP (fun x ↦ key x = k) =
      min (xs.countP fun x ↦ key x = k) (limit - used k) := by
  induction xs generalizing used with
  | nil => simp [admitted]
  | cons x xs ih =>
      have hrest := ih (charge used (key x))
      by_cases hk : key x = k
      · subst hk
        rw [charge_self] at hrest
        by_cases hused : used (key x) < limit
        · simp only [admitted, if_pos hused, List.countP_cons, decide_true, if_true, hrest]
          omega
        · simp only [admitted, if_neg hused, List.countP_cons, decide_true, if_true, hrest]
          omega
      · rw [charge_of_ne _ (Ne.symm hk)] at hrest
        have hfalse : decide (key x = k) = false := decide_eq_false hk
        by_cases hused : used (key x) < limit
        · simp [admitted, hused, hfalse, hrest]
        · simp [admitted, hused, hfalse, hrest]

theorem countP_key_le (used : κ → ℕ) (xs : List α) (k : κ) :
    (admitted key limit used xs).countP (fun x ↦ key x = k) ≤ limit := by
  rw [countP_admitted]
  omega

variable {key limit}

/-- Where no key goes over the limit, everything passes. -/
theorem admitted_eq_self {used : κ → ℕ} {xs : List α}
    (h : ∀ k, used k + (xs.countP fun x ↦ key x = k) ≤ limit) :
    admitted key limit used xs = xs := by
  induction xs generalizing used with
  | nil => rfl
  | cons x xs ih =>
      have hx := h (key x)
      simp only [List.countP_cons, decide_true, if_true] at hx
      have hused : used (key x) < limit := by omega
      rw [admitted, if_pos hused, ih]
      intro k
      have hk := h k
      by_cases hkey : key x = k
      · subst hkey
        rw [charge_self]
        omega
      · rw [charge_of_ne _ (Ne.symm hkey)]
        simpa [List.countP_cons, hkey] using hk

variable {owner : α → Option ω}

variable (key limit) in
/-- The quota holds for an owner whose elements all have one key. -/
theorem countP_owner_le (used : κ → ℕ) {xs : List α} {p : ω}
    (h : ∀ x ∈ xs, ∀ y ∈ xs, owner x = some p → owner y = some p → key x = key y) :
    (admitted key limit used xs).countP (fun x ↦ owner x = some p) ≤ limit := by
  by_cases hsome : ∃ x ∈ admitted key limit used xs, owner x = some p
  · obtain ⟨x, hx, hp⟩ := hsome
    have hmem := (admitted_sublist key limit used xs).subset
    refine le_trans (List.countP_mono_left fun y hy hyp ↦ ?_)
      (countP_key_le key limit used xs (key x))
    exact decide_eq_true (h y (hmem hy) x (hmem hx) (of_decide_eq_true hyp) hp)
  · have hnone : (admitted key limit used xs).countP (fun x ↦ owner x = some p) = 0 :=
      List.countP_eq_zero.mpr fun x hx ↦ by simpa using fun hp ↦ hsome ⟨x, hx, hp⟩
    omega

variable (key) in
/-- One element up to the limit, and then another of the same owner under a
key of its own: all of them pass. -/
theorem admitted_replicate_append {x y : α} (hlimit : 0 < limit) (h : key y ≠ key x) :
    admitted key limit (fun _ ↦ 0) (List.replicate limit x ++ [y]) =
      List.replicate limit x ++ [y] := by
  apply admitted_eq_self
  intro k
  rw [List.countP_append, List.countP_replicate]
  by_cases hx : key x = k
  · have hy : key y ≠ k := fun hy ↦ h (hy.trans hx.symm)
    simp [hx, hy]
  · by_cases hy : key y = k
    · simp [hx, hy]
      omega
    · simp [hx, hy]

theorem countP_owner_replicate_append {x y : α} {p : ω} (hx : owner x = some p)
    (hy : owner y = some p) :
    (List.replicate limit x ++ [y]).countP (fun z ↦ owner z = some p) = limit + 1 := by
  rw [List.countP_append, List.countP_replicate]
  simp [hx, hy]

end Quota
end HumanDataFactory
