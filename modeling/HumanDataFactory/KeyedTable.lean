import Mathlib.Data.List.Nodup
import Mathlib.Data.List.Basic
import Mathlib.Data.Set.Insert

/-!
# Keyed tables

A table is a list of rows with pairwise distinct keys, the primary-key
constraint carried as a field.  Rows are appended and updated in place, never
removed, which is all the operations of an append-mostly schema need.
-/

namespace HumanDataFactory

/-- Rows in insertion order, no two with the same key. -/
structure Table (κ α : Type) (key : α → κ) where
  rows : List α
  nodup : (rows.map key).Nodup

namespace Table

variable {κ α : Type} {key : α → κ}

instance : Membership α (Table κ α key) where
  mem t a := a ∈ t.rows

theorem mem_def {t : Table κ α key} {a : α} : a ∈ t ↔ a ∈ t.rows := Iff.rfl

@[ext] theorem ext {t u : Table κ α key} (h : t.rows = u.rows) : t = u := by
  cases t
  cases u
  simpa using h

def empty : Table κ α key := ⟨[], by simp⟩

@[simp] theorem rows_empty : (empty : Table κ α key).rows = [] := rfl

@[simp] theorem not_mem_empty (a : α) : a ∉ (empty : Table κ α key) := by
  simp [mem_def]

/-- Rows with equal keys are equal: the key determines the row. -/
theorem eq_of_key {t : Table κ α key} {a b : α} (ha : a ∈ t) (hb : b ∈ t)
    (h : key a = key b) : a = b :=
  List.inj_on_of_nodup_map t.nodup ha hb h

/-- No row has the key `k` yet. -/
def Vacant (t : Table κ α key) (k : κ) : Prop :=
  ∀ a ∈ t.rows, key a ≠ k

/-- Rewrite every row, keeping its key. -/
def mapRows (t : Table κ α key) (f : α → α) (hf : ∀ a, key (f a) = key a) : Table κ α key :=
  ⟨t.rows.map f, by
    rw [List.map_map, show key ∘ f = key from funext hf]
    exact t.nodup⟩

section MapRows

variable {t : Table κ α key} {f : α → α} {hf : ∀ a, key (f a) = key a}

@[simp] theorem rows_mapRows : (t.mapRows f hf).rows = t.rows.map f := rfl

theorem vacant_mapRows {k : κ} : (t.mapRows f hf).Vacant k ↔ t.Vacant k := by
  simp [Vacant, hf]

theorem mem_mapRows {b : α} : b ∈ t.mapRows f hf ↔ ∃ a ∈ t, f a = b :=
  List.mem_map

end MapRows

variable [DecidableEq κ]

/-- The row with key `k`. -/
def find? (t : Table κ α key) (k : κ) : Option α :=
  t.rows.find? fun a ↦ key a = k

theorem find?_eq_some {t : Table κ α key} {k : κ} {a : α} :
    t.find? k = some a ↔ a ∈ t ∧ key a = k := by
  constructor
  · intro h
    exact ⟨List.mem_of_find?_eq_some h, by simpa using List.find?_some h⟩
  · rintro ⟨ha, hk⟩
    cases hf : t.find? k with
    | none =>
        have hnone := List.find?_eq_none.mp hf a ha
        simp [hk] at hnone
    | some b =>
        have hb : b ∈ t := List.mem_of_find?_eq_some hf
        have hkb : key b = k := by simpa using List.find?_some hf
        rw [eq_of_key hb ha (hkb.trans hk.symm)]

theorem find?_eq_none {t : Table κ α key} {k : κ} :
    t.find? k = none ↔ ∀ a ∈ t, key a ≠ k := by
  simp [find?, mem_def]

theorem mem_of_find? {t : Table κ α key} {k : κ} {a : α} (h : t.find? k = some a) :
    a ∈ t :=
  (find?_eq_some.mp h).1

theorem key_of_find? {t : Table κ α key} {k : κ} {a : α} (h : t.find? k = some a) :
    key a = k :=
  (find?_eq_some.mp h).2

/-- A row that was found is found under its own key. -/
theorem find?_key {t : Table κ α key} {k : κ} {a : α} (h : t.find? k = some a) :
    t.find? (key a) = some a := by
  rwa [key_of_find? h]

theorem find?_of_mem {t : Table κ α key} {a : α} (h : a ∈ t) : t.find? (key a) = some a :=
  find?_eq_some.mpr ⟨h, rfl⟩

/-- The rows with a key are the one that is found. -/
theorem filter_key (t : Table κ α key) (k : κ) :
    t.rows.filter (fun a ↦ key a = k) = (t.find? k).toList := by
  obtain ⟨rows, hnodup⟩ := t
  simp only [find?]
  induction rows with
  | nil => rfl
  | cons a rows ih =>
      rw [List.map_cons, List.nodup_cons] at hnodup
      by_cases hk : key a = k
      · have hrest : rows.filter (fun b ↦ key b = k) = [] := by
          refine List.filter_eq_nil_iff.mpr fun b hb hkey ↦ hnodup.1 ?_
          rw [hk, ← of_decide_eq_true hkey]
          exact List.mem_map_of_mem hb
        simp [hk, hrest]
      · simp [hk, ih hnodup.2]

instance (t : Table κ α key) (k : κ) : Decidable (t.Vacant k) :=
  inferInstanceAs (Decidable (∀ a ∈ t.rows, key a ≠ k))

/-- Append a row whose key is vacant; a row whose key is taken is refused. -/
def push (t : Table κ α key) (a : α) : Table κ α key :=
  if h : t.Vacant (key a) then
    ⟨t.rows ++ [a], by
      rw [List.map_append, List.nodup_append]
      refine ⟨t.nodup, by simp, ?_⟩
      intro x hx y hy
      obtain ⟨b, hb, rfl⟩ := List.mem_map.mp hx
      obtain rfl : y = key a := by simpa using hy
      exact h b hb⟩
  else t

theorem rows_push {t : Table κ α key} {a : α} (h : t.Vacant (key a)) :
    (t.push a).rows = t.rows ++ [a] := by
  simp [push, h]

theorem mem_push {t : Table κ α key} {a b : α} (h : t.Vacant (key a)) :
    b ∈ t.push a ↔ b ∈ t ∨ b = a := by
  simp [mem_def, rows_push h]

/-- Rewrite the row with key `k`, keeping its key. -/
def modify (t : Table κ α key) (k : κ) (f : α → α) (hf : ∀ a, key (f a) = key a) :
    Table κ α key :=
  ⟨t.rows.map fun a ↦ if key a = k then f a else a, by
    rw [List.map_map]
    have hkey : (key ∘ fun a ↦ if key a = k then f a else a) = key := by
      funext a
      by_cases h : key a = k <;> simp [h, hf]
    rw [hkey]
    exact t.nodup⟩

section Modify

variable {t : Table κ α key} {k : κ} {f : α → α} {hf : ∀ a, key (f a) = key a}

@[simp] theorem rows_modify :
    (t.modify k f hf).rows = t.rows.map fun a ↦ if key a = k then f a else a := rfl

theorem mem_modify {b : α} :
    b ∈ t.modify k f hf ↔ ∃ a ∈ t, b = if key a = k then f a else a := by
  simp only [mem_def, rows_modify, List.mem_map]
  constructor
  · rintro ⟨a, ha, rfl⟩
    exact ⟨a, ha, rfl⟩
  · rintro ⟨a, ha, rfl⟩
    exact ⟨a, ha, rfl⟩

/-- A row of the new table is an old row with another key, or the rewritten
row with key `k`. -/
theorem mem_modify_cases {b : α} (h : b ∈ t.modify k f hf) :
    (b ∈ t ∧ key b ≠ k) ∨ ∃ a ∈ t, key a = k ∧ b = f a := by
  obtain ⟨a, ha, rfl⟩ := mem_modify.mp h
  by_cases hk : key a = k
  · exact Or.inr ⟨a, ha, hk, by simp [hk]⟩
  · exact Or.inl (by simpa [hk] using ha)

theorem mem_modify_of_ne {b : α} (hb : b ∈ t) (hk : key b ≠ k) :
    b ∈ t.modify k f hf :=
  mem_modify.mpr ⟨b, hb, by simp [hk]⟩

theorem mem_modify_self {a : α} (ha : a ∈ t) (hk : key a = k) :
    f a ∈ t.modify k f hf :=
  mem_modify.mpr ⟨a, ha, by simp [hk]⟩

theorem vacant_modify {k' : κ} : (t.modify k f hf).Vacant k' ↔ t.Vacant k' := by
  constructor
  · intro h a ha
    by_cases hk : key a = k
    · have hfa : f a ∈ t.modify k f hf := mem_modify_self ha hk
      simpa [hf] using h _ hfa
    · exact h a (mem_modify_of_ne ha hk)
  · intro h b hb
    obtain ⟨hb, _⟩ | ⟨a, ha, _, rfl⟩ := mem_modify_cases hb
    · exact h b hb
    · rw [hf]
      exact h a ha

theorem find?_modify {k' : κ} :
    (t.modify k f hf).find? k' =
      (t.find? k').map fun a ↦ if key a = k then f a else a := by
  cases h : t.find? k' with
  | none =>
      rw [Option.map_none, find?_eq_none]
      intro b hb
      have hv : t.Vacant k' := find?_eq_none.mp h
      exact vacant_modify.mpr hv b hb
  | some a =>
      obtain ⟨ha, hk⟩ := find?_eq_some.mp h
      rw [Option.map_some, find?_eq_some]
      refine ⟨mem_modify.mpr ⟨a, ha, rfl⟩, ?_⟩
      by_cases hka : key a = k <;> simp [hka, hf, ← hk]

/-- Rewriting a row leaves a projection of the rows alone if it leaves that
row's projection alone. -/
theorem map_modify {β : Type} (g : α → β) (hg : ∀ a ∈ t, key a = k → g (f a) = g a) :
    (t.modify k f hf).rows.map g = t.rows.map g := by
  rw [rows_modify, List.map_map]
  apply List.map_congr_left
  intro a ha
  by_cases hk : key a = k
  · simpa [hk] using hg a ha hk
  · simp [hk]

/-- Rewrite the rows with the given keys, one after the other. -/
def modifyAll (t : Table κ α key) (ks : List κ) (f : α → α) (hf : ∀ a, key (f a) = key a) :
    Table κ α key :=
  ks.foldl (fun t k ↦ t.modify k f hf) t

theorem key_ite_mem (hf : ∀ a, key (f a) = key a) (ks : List κ) (a : α) :
    key (if key a ∈ ks then f a else a) = key a := by
  split <;> simp [hf]

/-- When rewriting twice is rewriting once, the order of the keys and their
repetitions do not matter. -/
theorem modifyAll_eq (hidem : ∀ a, f (f a) = f a) (ks : List κ) :
    t.modifyAll ks f hf =
      t.mapRows (fun a ↦ if key a ∈ ks then f a else a) (key_ite_mem hf ks) := by
  induction ks generalizing t with
  | nil =>
      ext1
      simp [modifyAll]
  | cons k ks ih =>
      rw [modifyAll, List.foldl_cons, ← modifyAll, ih]
      ext1
      rw [rows_mapRows, rows_mapRows, rows_modify, List.map_map]
      apply List.map_congr_left
      intro a _
      by_cases hk : key a = k <;> by_cases hks : key a ∈ ks <;>
        simp_all

end Modify

theorem find?_push {t : Table κ α key} {a : α} {k : κ} (h : t.Vacant (key a)) :
    (t.push a).find? k = if key a = k then some a else t.find? k := by
  by_cases hk : key a = k
  · rw [if_pos hk, find?_eq_some]
    exact ⟨(mem_push h).mpr (Or.inr rfl), hk⟩
  · rw [if_neg hk, find?, rows_push h, List.find?_append]
    simp [find?, hk]

/-- Put `a` in the place of the row with its key. -/
def replace (t : Table κ α key) (a : α) : Table κ α key :=
  ⟨t.rows.map fun b ↦ if key b = key a then a else b, by
    rw [List.map_map]
    have hkey : (key ∘ fun b ↦ if key b = key a then a else b) = key := by
      funext b
      by_cases h : key b = key a <;> simp [h]
    rw [hkey]
    exact t.nodup⟩

section Replace

variable {t : Table κ α key} {a : α}

@[simp] theorem rows_replace :
    (t.replace a).rows = t.rows.map fun b ↦ if key b = key a then a else b := rfl

theorem modify_eq_replace {k : κ} {f : α → α} {hf : ∀ b, key (f b) = key b}
    (h : t.find? k = some a) : t.modify k f hf = t.replace (f a) := by
  obtain ⟨ha, rfl⟩ := find?_eq_some.mp h
  ext1
  rw [rows_modify, rows_replace]
  apply List.map_congr_left
  intro b hb
  by_cases hk : key b = key a
  · rw [eq_of_key hb ha hk]
    simp [hf]
  · simp [hk, hf]

theorem replace_self (h : t.find? (key a) = some a) : t.replace a = t := by
  ext1
  conv_rhs => rw [← List.map_id t.rows]
  rw [rows_replace]
  apply List.map_congr_left
  intro b hb
  by_cases hk : key b = key a
  · rw [eq_of_key hb (mem_of_find? h) hk]
    simp
  · simp [hk]

theorem replace_replace {b : α} (hk : key b = key a) :
    (t.replace a).replace b = t.replace b := by
  ext1
  rw [rows_replace, rows_replace, rows_replace, List.map_map]
  apply List.map_congr_left
  intro c _
  by_cases hc : key c = key a <;> simp [hc, hk]

theorem replace_modify {k : κ} {f : α → α} {hf : ∀ b, key (f b) = key b} (hk : key a = k) :
    (t.replace a).modify k f hf = t.replace (f a) := by
  subst hk
  ext1
  rw [rows_modify, rows_replace, rows_replace, List.map_map]
  apply List.map_congr_left
  intro b _
  by_cases hb : key b = key a <;> simp [hb, hf]

theorem push_modify {k : κ} {f : α → α} {hf : ∀ b, key (f b) = key b}
    (hv : t.Vacant (key a)) (hk : key a = k) :
    (t.push a).modify k f hf = t.push (f a) := by
  subst hk
  ext1
  rw [rows_modify, rows_push hv, rows_push (by rwa [hf]), List.map_append]
  congr 1
  · conv_rhs => rw [← List.map_id t.rows]
    apply List.map_congr_left
    intro b hb
    simp [hv b hb]
  · simp

theorem push_replace {b : α} (hv : t.Vacant (key b)) (hk : key a = key b) :
    (t.push b).replace a = t.push a := by
  ext1
  rw [rows_replace, rows_push hv, rows_push (by rwa [hk]), List.map_append]
  congr 1
  · conv_rhs => rw [← List.map_id t.rows]
    apply List.map_congr_left
    intro c hc
    simp [hk, hv c hc]
  · simp [hk]

/-- A filter that treats the new row like the old one finds the same places. -/
theorem filter_replace {p : α → Bool} {a₀ : α} (h : t.find? (key a) = some a₀) (hp : p a = p a₀) :
    (t.replace a).rows.filter p =
      (t.rows.filter p).map fun b ↦ if key b = key a then a else b := by
  obtain ⟨ha₀, hk₀⟩ := find?_eq_some.mp h
  rw [rows_replace, List.filter_map]
  congr 1
  apply List.filter_congr
  intro b hb
  by_cases hk : key b = key a
  · obtain rfl := eq_of_key hb ha₀ (hk.trans hk₀.symm)
    simp [hk, hp]
  · simp [hk]

/-- A row of the new table is the new row, or an old row with another key. -/
theorem mem_replace {b : α} (hb : b ∈ t.replace a) : b = a ∨ (b ∈ t ∧ key b ≠ key a) := by
  obtain ⟨c, hc, rfl⟩ := List.mem_map.mp hb
  by_cases hk : key c = key a
  · exact Or.inl (by simp [hk])
  · exact Or.inr (by simpa [hk, mem_def] using hc)

theorem mem_replace_of_ne {b : α} (hb : b ∈ t) (hk : key b ≠ key a) : b ∈ t.replace a :=
  List.mem_map.mpr ⟨b, hb, by simp [hk]⟩

theorem mem_replace_self {a₀ : α} (ha : a₀ ∈ t) (hk : key a₀ = key a) : a ∈ t.replace a :=
  List.mem_map.mpr ⟨a₀, ha, by simp [hk]⟩

theorem vacant_replace {k : κ} : (t.replace a).Vacant k ↔ t.Vacant k := by
  have hmap : (t.replace a).rows.map key = t.rows.map key := by
    rw [rows_replace, List.map_map]
    apply List.map_congr_left
    intro b _
    by_cases hb : key b = key a <;> simp [hb]
  have hvac : ∀ u : Table κ α key, u.Vacant k ↔ k ∉ u.rows.map key := by
    intro u
    simp [Vacant]
  rw [hvac, hvac, hmap]

theorem find?_replace {a₀ : α} {k : κ} (ha : t.find? (key a) = some a₀) :
    (t.replace a).find? k = if key a = k then some a else t.find? k := by
  obtain ⟨ha₀, hk₀⟩ := find?_eq_some.mp ha
  by_cases hk : key a = k
  · rw [if_pos hk, find?_eq_some]
    exact ⟨mem_replace_self ha₀ hk₀, hk⟩
  · rw [if_neg hk]
    cases h : t.find? k with
    | none => exact find?_eq_none.mpr (vacant_replace.mpr (find?_eq_none.mp h))
    | some b =>
        obtain ⟨hb, rfl⟩ := find?_eq_some.mp h
        exact find?_eq_some.mpr ⟨mem_replace_of_ne hb fun h ↦ hk h.symm, rfl⟩

/-- Replacing a row leaves a projection of the rows alone if the new row has
the old one's projection. -/
theorem map_replace {β : Type} {a₀ : α} (g : α → β) (ha : t.find? (key a) = some a₀)
    (hg : g a = g a₀) : (t.replace a).rows.map g = t.rows.map g := by
  obtain ⟨ha₀, hk₀⟩ := find?_eq_some.mp ha
  rw [rows_replace, List.map_map]
  apply List.map_congr_left
  intro b hb
  by_cases hk : key b = key a
  · rw [eq_of_key hb ha₀ (hk.trans hk₀.symm)]
    simp [hk₀, hg]
  · simp [hk]

end Replace

/-! ## Tables that agree in part -/

section Agree

variable {t u : Table κ α key} {p q r : α → Bool}

omit [DecidableEq κ] in
/-- Parts of equal parts are equal. -/
theorem filter_eq_of_filter_eq (h : t.rows.filter p = u.rows.filter q)
    (hp : ∀ a ∈ t, r a = true → p a = true) (hq : ∀ a ∈ u, r a = true → q a = true) :
    t.rows.filter r = u.rows.filter r := by
  have hpart : ∀ (v : Table κ α key) (p : α → Bool), (∀ a ∈ v, r a = true → p a = true) →
      v.rows.filter r = (v.rows.filter p).filter r := by
    intro v p hv
    rw [List.filter_filter]
    apply List.filter_congr
    intro a ha
    cases hr : r a with
    | false => rfl
    | true => exact (hv a ha hr).symm
  rw [hpart t p hp, hpart u q hq, h]

omit [DecidableEq κ] in
theorem mem_of_filter_eq (h : t.rows.filter p = u.rows.filter q) {a : α} (ha : a ∈ t)
    (hp : p a = true) : a ∈ u ∧ q a = true := by
  have hmem : a ∈ u.rows.filter q := h ▸ List.mem_filter.mpr ⟨ha, hp⟩
  exact List.mem_filter.mp hmem

theorem find?_of_filter_eq (h : t.rows.filter p = u.rows.filter q) {k : κ} {a : α}
    (ha : t.find? k = some a) (hp : p a = true) : u.find? k = some a := by
  obtain ⟨hmem, hk⟩ := find?_eq_some.mp ha
  exact find?_eq_some.mpr ⟨(mem_of_filter_eq h hmem hp).1, hk⟩

end Agree

/-! ## What a table says

A partial reading of the rows, and the set of all that it reads. -/

section Gather

variable {β : Type} {t : Table κ α key} {g : α → Option β}

def gather (t : Table κ α key) (g : α → Option β) : Set β :=
  {y | ∃ a ∈ t, g a = some y}

omit [DecidableEq κ] in
theorem mem_gather {y : β} : y ∈ t.gather g ↔ ∃ a ∈ t, g a = some y := Iff.rfl

omit [DecidableEq κ] in
@[simp] theorem gather_empty : (empty : Table κ α key).gather g = ∅ := by
  ext y
  simp [gather]

theorem gather_push_some {a : α} {y : β} (h : t.Vacant (key a)) (hy : g a = some y) :
    (t.push a).gather g = insert y (t.gather g) := by
  ext z
  simp only [mem_gather, mem_push h, Set.mem_insert_iff]
  constructor
  · rintro ⟨b, hb | rfl, hz⟩
    · exact Or.inr ⟨b, hb, hz⟩
    · exact Or.inl (Option.some.inj (hz.symm.trans hy))
  · rintro (rfl | ⟨b, hb, hz⟩)
    · exact ⟨a, Or.inr rfl, hy⟩
    · exact ⟨b, Or.inl hb, hz⟩

theorem gather_push_none {a : α} (h : t.Vacant (key a)) (hy : g a = none) :
    (t.push a).gather g = t.gather g := by
  ext z
  simp only [mem_gather, mem_push h]
  constructor
  · rintro ⟨b, hb | rfl, hz⟩
    · exact ⟨b, hb, hz⟩
    · simp [hy] at hz
  · rintro ⟨b, hb, hz⟩
    exact ⟨b, Or.inl hb, hz⟩

theorem gather_replace {a a₀ : α} (ha : t.find? (key a) = some a₀) (hg : g a = g a₀) :
    (t.replace a).gather g = t.gather g := by
  have hmap := map_replace g ha hg
  ext z
  have hmem : ∀ u : Table κ α key, z ∈ u.gather g ↔ some z ∈ u.rows.map g :=
    fun u ↦ List.mem_map.symm
  rw [hmem, hmem, hmap]

theorem gather_replace_some {a a₀ : α} {y : β} (ha : t.find? (key a) = some a₀)
    (h₀ : g a₀ = none) (hy : g a = some y) :
    (t.replace a).gather g = insert y (t.gather g) := by
  obtain ⟨ha₀, hk₀⟩ := find?_eq_some.mp ha
  ext z
  simp only [mem_gather, Set.mem_insert_iff]
  constructor
  · rintro ⟨b, hb, hz⟩
    rcases mem_replace hb with rfl | ⟨hb, _⟩
    · exact Or.inl (Option.some.inj (hz.symm.trans hy))
    · exact Or.inr ⟨b, hb, hz⟩
  · rintro (rfl | ⟨b, hb, hz⟩)
    · exact ⟨a, mem_replace_self ha₀ hk₀, hy⟩
    · have hk : key b ≠ key a := by
        intro hk
        obtain rfl := eq_of_key hb ha₀ (hk.trans hk₀.symm)
        simp [h₀] at hz
      exact ⟨b, mem_replace_of_ne hb hk, hz⟩

omit [DecidableEq κ] in
theorem gather_mapRows {f : α → α} (hf : ∀ a, key (f a) = key a) (h : ∀ a, g (f a) = g a) :
    (t.mapRows f hf).gather g = t.gather g := by
  ext z
  simp only [mem_gather, mem_mapRows]
  constructor
  · rintro ⟨_, ⟨a, ha, rfl⟩, hz⟩
    exact ⟨a, ha, (h a).symm.trans hz⟩
  · rintro ⟨a, ha, hz⟩
    exact ⟨f a, ⟨a, ha, rfl⟩, (h a).trans hz⟩

theorem gather_modify {k : κ} {f : α → α} (hf : ∀ a, key (f a) = key a)
    (h : ∀ a, g (f a) = g a) : (t.modify k f hf).gather g = t.gather g := by
  have hrows : (t.modify k f hf).rows.map g = t.rows.map g := map_modify g fun a _ _ ↦ h a
  ext z
  have hmem : ∀ u : Table κ α key, z ∈ u.gather g ↔ some z ∈ u.rows.map g :=
    fun u ↦ List.mem_map.symm
  rw [hmem, hmem, hrows]

end Gather

/-! ## Reading a table by key -/

section Read

variable {β : Type} {t : Table κ α key} {g : α → β} {a a₀ : α}

/-- What `g` says of the row with a key. -/
def read (t : Table κ α key) (g : α → β) : κ → Option β :=
  fun k ↦ (t.find? k).map g

@[simp] theorem read_empty : (empty : Table κ α key).read g = fun _ ↦ none := by
  funext k
  simp [read, find?]

theorem read_key (h : t.find? (key a) = some a) : t.read g (key a) = some (g a) := by
  rw [read, h, Option.map_some]

theorem read_push (h : t.Vacant (key a)) :
    (t.push a).read g = Function.update (t.read g) (key a) (some (g a)) := by
  funext k
  by_cases hk : k = key a
  · simp [read, find?_push h, hk]
  · simp [read, find?_push h, hk, Ne.symm hk]

theorem read_replace (h : t.find? (key a) = some a₀) :
    (t.replace a).read g = Function.update (t.read g) (key a) (some (g a)) := by
  funext k
  by_cases hk : k = key a
  · simp [read, find?_replace h, hk]
  · simp [read, find?_replace h, hk, Ne.symm hk]

/-- A new row that reads the same changes nothing. -/
theorem read_replace_of_eq (h : t.find? (key a) = some a₀) (hg : g a = g a₀) :
    (t.replace a).read g = t.read g := by
  rw [read_replace h, hg, Function.update_eq_self_iff, read, h, Option.map_some]

end Read

end Table

end HumanDataFactory
