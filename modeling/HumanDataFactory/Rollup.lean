import Mathlib.Algebra.BigOperators.Group.List.Basic
import Mathlib.Data.List.Basic
import Mathlib.Data.List.Induction

/-!
# Rolling items up by a key

The loop over a dictionary of rows: an item goes to the row of its group,
which the first item of a group opens.  The rows have different keys, cover
all groups, and every additive column of theirs sums up the items.
-/

namespace HumanDataFactory

section Parts

variable {κ α M : Type} [AddCommMonoid M]

/-- The weight of what two conditions cover that exclude each other. -/
theorem sum_filter_add {p q r : α → Prop} [DecidablePred p] [DecidablePred q] [DecidablePred r]
    (w : α → M) {xs : List α} (hr : ∀ x ∈ xs, r x ↔ p x ∨ q x) (hpq : ∀ x ∈ xs, p x → ¬q x) :
    ((xs.filter fun x ↦ r x).map w).sum =
      ((xs.filter fun x ↦ p x).map w).sum + ((xs.filter fun x ↦ q x).map w).sum := by
  induction xs with
  | nil => simp
  | cons x xs ih =>
      rw [List.forall_mem_cons] at hr hpq
      have hrest := ih hr.2 hpq.2
      by_cases hp : p x
      · have hq : ¬q x := hpq.1 hp
        have hx : r x := hr.1.mpr (Or.inl hp)
        simp [hp, hq, hx, hrest, add_assoc]
      · by_cases hq : q x
        · have hx : r x := hr.1.mpr (Or.inr hq)
          simp [hp, hq, hx, hrest, add_left_comm]
        · have hx : ¬r x := fun h ↦ (hr.1.mp h).elim hp hq
          simp [hp, hq, hx, hrest]

/-- The weights of the fibers of a function over different keys add up. -/
theorem sum_fibers [DecidableEq κ] {ks : List κ} (hnodup : ks.Nodup) (f : α → κ) (w : α → M)
    (xs : List α) :
    (ks.map fun k ↦ ((xs.filter fun x ↦ f x = k).map w).sum).sum =
      ((xs.filter fun x ↦ f x ∈ ks).map w).sum := by
  induction ks with
  | nil => simp
  | cons k ks ih =>
      rw [List.nodup_cons] at hnodup
      rw [List.map_cons, List.sum_cons, ih hnodup.2]
      refine (sum_filter_add w (fun x _ ↦ List.mem_cons) ?_).symm
      intro x _ hx hmem
      exact hnodup.1 (hx ▸ hmem)

end Parts

/-- What a roll-up does with one row: it opens it and adds items to it. -/
structure Rollup (κ α β : Type) where
  group : α → κ
  key : β → κ
  opened : κ → β
  add : β → α → β
  key_opened : ∀ k, key (opened k) = k
  key_add : ∀ b a, key (add b a) = key b

namespace Rollup

variable {κ α β : Type} [DecidableEq κ] (R : Rollup κ α β)

attribute [simp] key_opened key_add

/-- One round of the loop: `setdefault` and the additions. -/
def step (rows : List β) (a : α) : List β :=
  if ∃ b ∈ rows, R.key b = R.group a then
    rows.map fun b ↦ if R.key b = R.group a then R.add b a else b
  else rows ++ [R.add (R.opened (R.group a)) a]

def rows (items : List α) : List β :=
  items.foldl R.step []

@[simp] theorem rows_nil : R.rows [] = [] := rfl

theorem rows_concat (items : List α) (a : α) :
    R.rows (items ++ [a]) = R.step (R.rows items) a := by
  simp [rows]

theorem keys_step_of_exists {bs : List β} {a : α} (h : ∃ b ∈ bs, R.key b = R.group a) :
    (R.step bs a).map R.key = bs.map R.key := by
  unfold step
  rw [if_pos h, List.map_map]
  apply List.map_congr_left
  intro b _
  by_cases hb : R.key b = R.group a <;> simp [hb]

theorem keys_step_of_not_exists {bs : List β} {a : α} (h : ¬∃ b ∈ bs, R.key b = R.group a) :
    (R.step bs a).map R.key = bs.map R.key ++ [R.group a] := by
  unfold step
  rw [if_neg h]
  simp

theorem nodup_keys (items : List α) : ((R.rows items).map R.key).Nodup := by
  induction items using List.reverseRecOn with
  | nil => simp
  | append_singleton items a ih =>
      rw [rows_concat]
      by_cases h : ∃ b ∈ R.rows items, R.key b = R.group a
      · rwa [R.keys_step_of_exists h]
      · rw [R.keys_step_of_not_exists h, List.nodup_append]
        refine ⟨ih, by simp, ?_⟩
        intro k hk k' hk'
        obtain rfl : k' = R.group a := by simpa using hk'
        rintro rfl
        exact h (List.mem_map.mp hk)

/-- The groups that have a row are those of the items. -/
theorem mem_keys {items : List α} {k : κ} :
    k ∈ (R.rows items).map R.key ↔ ∃ a ∈ items, R.group a = k := by
  induction items using List.reverseRecOn generalizing k with
  | nil => simp
  | append_singleton items x ih =>
      rw [rows_concat]
      by_cases hx : ∃ b ∈ R.rows items, R.key b = R.group x
      · have hold : ∃ a ∈ items, R.group a = R.group x := ih.mp (List.mem_map.mpr hx)
        rw [R.keys_step_of_exists hx, ih]
        constructor
        · rintro ⟨a, ha, hk⟩
          exact ⟨a, List.mem_append_left _ ha, hk⟩
        · rintro ⟨a, ha, rfl⟩
          rcases List.mem_append.mp ha with ha | ha
          · exact ⟨a, ha, rfl⟩
          · rwa [List.mem_singleton.mp ha]
      · rw [R.keys_step_of_not_exists hx, List.mem_append, ih]
        simp [or_and_right, exists_or, eq_comm]

theorem exists_row {items : List α} {a : α} (h : a ∈ items) :
    ∃ b ∈ R.rows items, R.key b = R.group a :=
  List.mem_map.mp (R.mem_keys.mpr ⟨a, h, rfl⟩)

theorem exists_item {items : List α} {b : β} (h : b ∈ R.rows items) :
    ∃ a ∈ items, R.group a = R.key b :=
  R.mem_keys.mp (List.mem_map_of_mem h)

/-- What opening a row sets up and adding an item keeps holds of every row. -/
theorem forall_rows {P : β → Prop} (hopened : ∀ k, P (R.opened k))
    (hadd : ∀ b a, P b → P (R.add b a)) (items : List α) : ∀ b ∈ R.rows items, P b := by
  induction items using List.reverseRecOn with
  | nil => simp
  | append_singleton items a ih =>
      intro b hb
      rw [rows_concat] at hb
      unfold step at hb
      split at hb
      · obtain ⟨b', hb', rfl⟩ := List.mem_map.mp hb
        split
        · exact hadd b' a (ih b' hb')
        · exact ih b' hb'
      · rcases List.mem_append.mp hb with hb | hb
        · exact ih b hb
        · rw [List.mem_singleton.mp hb]
          exact hadd _ a (hopened _)

/-- A column of the rows that adds up a weight of the items. -/
structure Column (M : Type) [AddCommMonoid M] where
  value : β → M
  weight : α → M
  value_opened : ∀ k, value (R.opened k) = 0
  value_add : ∀ b a, value (R.add b a) = value b + weight a

variable {R} {M : Type} [AddCommMonoid M] (c : R.Column M)

omit [DecidableEq κ] in
theorem Column.value_first (a : α) : c.value (R.add (R.opened (R.group a)) a) = c.weight a := by
  rw [c.value_add, c.value_opened, zero_add]

/-- Exactly one row takes the item. -/
theorem Column.sum_map {bs : List β} {a : α} (hnodup : (bs.map R.key).Nodup)
    (h : ∃ b ∈ bs, R.key b = R.group a) :
    ((bs.map fun b ↦ if R.key b = R.group a then R.add b a else b).map c.value).sum =
      (bs.map c.value).sum + c.weight a := by
  induction bs with
  | nil => simp at h
  | cons b bs ih =>
      rw [List.map_cons, List.nodup_cons] at hnodup
      simp only [List.map_cons, List.sum_cons]
      by_cases hb : R.key b = R.group a
      · have hrest : (bs.map fun b ↦ if R.key b = R.group a then R.add b a else b) = bs := by
          conv_rhs => rw [← List.map_id bs]
          apply List.map_congr_left
          intro b' hb'
          refine if_neg fun hk ↦ hnodup.1 ?_
          rw [hb, ← hk]
          exact List.mem_map_of_mem hb'
        rw [hrest, if_pos hb, c.value_add]
        exact add_right_comm _ _ _
      · have hex : ∃ b ∈ bs, R.key b = R.group a := by
          obtain ⟨b', hb', hk⟩ := h
          rcases List.mem_cons.mp hb' with rfl | hb'
          · exact absurd hk hb
          · exact ⟨b', hb', hk⟩
        rw [if_neg hb, ih hnodup.2 hex, add_assoc]

/-- The column over all rows is the weight of all items. -/
theorem Column.sum_rows (items : List α) :
    ((R.rows items).map c.value).sum = (items.map c.weight).sum := by
  induction items using List.reverseRecOn with
  | nil => simp
  | append_singleton items a ih =>
      rw [rows_concat, List.map_append, List.sum_append, ← ih]
      unfold step
      split
      · rename_i h
        rw [c.sum_map (R.nodup_keys items) h]
        simp
      · simp [c.value_first]

/-- The column of a row is the weight of the items of its group. -/
theorem Column.value_row {items : List α} {b : β} (hb : b ∈ R.rows items) :
    c.value b = ((items.filter fun a ↦ R.key b = R.group a).map c.weight).sum := by
  induction items using List.reverseRecOn generalizing b with
  | nil => simp at hb
  | append_singleton items a ih =>
      rw [rows_concat] at hb
      unfold step at hb
      split at hb
      · obtain ⟨b', hb', rfl⟩ := List.mem_map.mp hb
        by_cases hk : R.key b' = R.group a
        · have hold := ih hb'
          simp only [hk] at hold
          simp [hk, c.value_add, hold]
        · simp [hk, ih hb']
      · rename_i hnone
        rcases List.mem_append.mp hb with hb | hb
        · have hk : R.key b ≠ R.group a := fun hk ↦ hnone ⟨b, hb, hk⟩
          simp [hk, ih hb]
        · obtain rfl : b = _ := by simpa using hb
          have hfresh : (items.filter fun x ↦ R.group a = R.group x) = [] := by
            refine List.filter_eq_nil_iff.mpr fun x hx hax ↦ hnone ?_
            obtain ⟨b, hb, hk⟩ := R.exists_row hx
            exact ⟨b, hb, hk.trans (of_decide_eq_true hax).symm⟩
          simp [c.value_first, hfresh]

end Rollup

end HumanDataFactory
