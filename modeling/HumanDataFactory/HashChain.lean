import Mathlib.Data.List.Basic
import Mathlib.Data.List.Forall2
import Mathlib.Data.List.Induction

/-!
# Hash chains

A list of entries each of which carries the hash of its predecessor and a
hash of its own body on top of it.
-/

namespace HumanDataFactory

/-- What an entry of a chain carries, and the hash it should carry. -/
structure ChainScheme (α η : Type) where
  prev : α → η
  hash : α → η
  digest : η → α → η

namespace ChainScheme

variable {α η : Type} (C : ChainScheme α η)

/-- `a` extends a chain whose last hash is `g`. -/
def Extends (g : η) (a : α) : Prop :=
  C.prev a = g ∧ C.hash a = C.digest g a

instance [DecidableEq η] (g : η) (a : α) : Decidable (C.Extends g a) :=
  inferInstanceAs (Decidable (_ ∧ _))

/-- The entries form a chain on top of `g`. -/
def Linked : η → List α → Prop
  | _, [] => True
  | g, a :: as => C.Extends g a ∧ Linked (C.hash a) as

/-- The last hash of a chain on top of `g`. -/
def head : η → List α → η
  | g, [] => g
  | _, a :: as => head (C.hash a) as

@[simp] theorem linked_nil (g : η) : C.Linked g [] := trivial

@[simp] theorem linked_cons (g : η) (a : α) (as : List α) :
    C.Linked g (a :: as) ↔ C.Extends g a ∧ C.Linked (C.hash a) as := Iff.rfl

@[simp] theorem head_nil (g : η) : C.head g [] = g := rfl

@[simp] theorem head_cons (g : η) (a : α) (as : List α) :
    C.head g (a :: as) = C.head (C.hash a) as := rfl

theorem linked_append (g : η) (as bs : List α) :
    C.Linked g (as ++ bs) ↔ C.Linked g as ∧ C.Linked (C.head g as) bs := by
  induction as generalizing g with
  | nil => simp
  | cons a as ih => simp [ih, and_assoc]

/-- One more entry keeps the chain exactly if it extends the last hash. -/
theorem linked_concat (g : η) (as : List α) (a : α) :
    C.Linked g (as ++ [a]) ↔ C.Linked g as ∧ C.Extends (C.head g as) a := by
  simp [linked_append]

theorem head_eq_getLast (g : η) (as : List α) :
    C.head g as = (as.getLast?.map C.hash).getD g := by
  induction as generalizing g with
  | nil => rfl
  | cons a as ih =>
      rw [head_cons, ih, List.getLast?_cons]
      cases as.getLast? <;> rfl

@[simp] theorem head_concat (g : η) (as : List α) (a : α) : C.head g (as ++ [a]) = C.hash a := by
  simp [head_eq_getLast]

theorem head_mem {g : η} {as : List α} (h : as ≠ []) : C.head g as ∈ as.map C.hash := by
  obtain ⟨front, a, rfl⟩ := (List.eq_nil_or_concat as).resolve_left h
  simp

/-- Along a chain the predecessors' hashes are the hashes, one place later. -/
theorem map_prev_concat {g : η} {as : List α} (h : C.Linked g as) :
    as.map C.prev ++ [C.head g as] = g :: as.map C.hash := by
  induction as generalizing g with
  | nil => rfl
  | cons a as ih =>
      obtain ⟨⟨hprev, _⟩, htail⟩ := h
      rw [List.map_cons, List.cons_append, head_cons, ih htail, hprev, List.map_cons]

/-- Every entry of a chain carries its own digest. -/
theorem hash_of_linked {g : η} {as : List α} (h : C.Linked g as) {a : α} (ha : a ∈ as) :
    C.hash a = C.digest (C.prev a) a := by
  induction as generalizing g with
  | nil => simp at ha
  | cons b as ih =>
      obtain ⟨⟨hprev, hhash⟩, htail⟩ := h
      rcases List.mem_cons.mp ha with rfl | ha
      · rw [hprev, hhash]
      · exact ih htail ha

/-- Entries that carry the same and are digested alike may replace each other. -/
theorem linked_of_forall₂ {R : α → α → Prop}
    (hR : ∀ a b, R a b → C.prev a = C.prev b ∧ C.hash a = C.hash b ∧
      C.digest (C.prev a) a = C.digest (C.prev b) b)
    {g : η} {as bs : List α} (hab : List.Forall₂ R as bs) (has : C.Linked g as) :
    C.Linked g bs := by
  induction hab generalizing g with
  | nil => trivial
  | @cons a b as bs h _ ih =>
      obtain ⟨⟨hprev, hhash⟩, htail⟩ := has
      obtain ⟨hprevs, hhashes, hdigests⟩ := hR a b h
      refine ⟨⟨hprevs ▸ hprev, ?_⟩, hhashes ▸ ih htail⟩
      calc C.hash b = C.digest g a := by rw [← hhashes, hhash]
        _ = C.digest (C.prev a) a := by rw [hprev]
        _ = C.digest g b := by rw [hdigests, ← hprevs, hprev]

section Binding

variable {C} {R : α → α → Prop} {g : η} {as bs : List α}

/-- Chains that end in the same hash agree from their ends backwards, until one
of them is used up; what the longer one has in front returns to the start. -/
theorem aligned_of_head
    (hR : ∀ a ∈ as, ∀ b ∈ bs, C.hash a = C.hash b → C.prev a = C.prev b ∧ R a b)
    (has : C.Linked g as) (hbs : C.Linked g bs) (hhead : C.head g as = C.head g bs) :
    (∃ front mid, as = front ++ mid ∧ C.head g front = g ∧ List.Forall₂ R mid bs) ∨
      ∃ front mid, bs = front ++ mid ∧ C.head g front = g ∧ List.Forall₂ R as mid := by
  induction as using List.reverseRecOn generalizing bs with
  | nil => exact Or.inr ⟨bs, [], by simp, hhead.symm, .nil⟩
  | append_singleton as a ih =>
      cases bs using List.reverseRecOn with
      | nil => exact Or.inl ⟨as ++ [a], [], by simp, hhead, .nil⟩
      | append_singleton bs b =>
          rw [head_concat, head_concat] at hhead
          rw [linked_concat] at has hbs
          obtain ⟨hprev, hab⟩ := hR a (by simp) b (by simp) hhead
          have hbefore : C.head g as = C.head g bs := by
            rw [← has.2.1, ← hbs.2.1, hprev]
          have haligned := ih (fun a' ha' b' hb' ↦ hR a' (by simp [ha']) b' (by simp [hb']))
            has.1 hbs.1 hbefore
          rcases haligned with ⟨front, mid, rfl, hfront, hmid⟩ | ⟨front, mid, rfl, hfront, hmid⟩
          · exact Or.inl ⟨front, mid ++ [a], by simp, hfront,
              List.rel_append hmid (.cons hab .nil)⟩
          · exact Or.inr ⟨front, mid ++ [b], by simp, hfront,
              List.rel_append hmid (.cons hab .nil)⟩

/-- Chains of the same length with the same end agree everywhere. -/
theorem forall₂_of_length
    (hR : ∀ a ∈ as, ∀ b ∈ bs, C.hash a = C.hash b → C.prev a = C.prev b ∧ R a b)
    (has : C.Linked g as) (hbs : C.Linked g bs) (hhead : C.head g as = C.head g bs)
    (hlen : as.length = bs.length) : List.Forall₂ R as bs := by
  rcases aligned_of_head hR has hbs hhead with
    ⟨front, mid, rfl, _, hmid⟩ | ⟨front, mid, rfl, _, hmid⟩
  · have hcount := hmid.length_eq
    rw [List.length_append] at hlen
    have hfront : front = [] := List.length_eq_zero_iff.mp (by omega)
    rwa [hfront, List.nil_append]
  · have hcount := hmid.length_eq
    rw [List.length_append] at hlen
    have hfront : front = [] := List.length_eq_zero_iff.mp (by omega)
    rwa [hfront, List.nil_append]

/-- If no hash returns to the start, the last hash determines the whole chain. -/
theorem forall₂_of_head
    (hR : ∀ a ∈ as, ∀ b ∈ bs, C.hash a = C.hash b → C.prev a = C.prev b ∧ R a b)
    (has : C.Linked g as) (hbs : C.Linked g bs) (hhead : C.head g as = C.head g bs)
    (hfresh : ∀ a ∈ as ++ bs, C.hash a ≠ g) : List.Forall₂ R as bs := by
  have hempty (front : List α) (hsub : ∀ a ∈ front, C.hash a ≠ g) (hfront : C.head g front = g) :
      front = [] := by
    by_contra hne
    obtain ⟨a, ha, hhash⟩ := List.mem_map.mp (C.head_mem (g := g) hne)
    exact hsub a ha (hhash.trans hfront)
  rcases aligned_of_head hR has hbs hhead with
    ⟨front, mid, rfl, hfront, hmid⟩ | ⟨front, mid, rfl, hfront, hmid⟩
  · rwa [hempty front (fun a ha ↦ hfresh a (by simp [ha])) hfront, List.nil_append]
  · rwa [hempty front (fun a ha ↦ hfresh a (by simp [ha])) hfront, List.nil_append]

end Binding

end ChainScheme

end HumanDataFactory
