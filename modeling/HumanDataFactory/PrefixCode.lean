import Mathlib.Data.Set.Insert

/-!
# Codes that are read one word at a time

A word is decoded if no other word, whatever follows it, spells the same text.
What follows may be restricted to start with a delimiter.
-/

namespace HumanDataFactory

namespace PrefixCode

variable {α β χ : Type}

/-- The text is over, or goes on with a delimiter. -/
def Delimited (S : Set χ) (u : List χ) : Prop :=
  ∀ c ∈ u.head?, c ∈ S

theorem delimited_nil (S : Set χ) : Delimited S [] := by
  intro c hc
  simp at hc

theorem delimited_cons {S : Set χ} {c : χ} (h : c ∈ S) (u : List χ) : Delimited S (c :: u) := by
  intro d hd
  simp only [List.head?_cons, Option.mem_some_iff] at hd
  exact hd ▸ h

theorem delimited_univ (u : List χ) : Delimited Set.univ u :=
  fun c _ ↦ Set.mem_univ c

/-- Among texts that go on with a delimiter, the word of `a` is read as `a`. -/
def Decodes (S : Set χ) (f : α → List χ) (a : α) : Prop :=
  ∀ ⦃b : α⦄ ⦃u v : List χ⦄, Delimited S u → Delimited S v → f a ++ u = f b ++ v → a = b ∧ u = v

/-- What a reader takes off the front of any text is decoded. -/
theorem decodes_of_reader {f : α → List χ} (read : List χ → Option (α × List χ))
    (hread : ∀ a u, read (f a ++ u) = some (a, u)) (a : α) : Decodes Set.univ f a := by
  intro b u v _ _ h
  have hsame : some (a, u) = some (b, v) := by
    rw [← hread a u, ← hread b v, h]
  simpa using hsame

/-- A word without delimiters ends at the first one. -/
theorem append_inj_of_delimited {S : Set χ} {xs ys u v : List χ} (hxs : ∀ c ∈ xs, c ∉ S)
    (hys : ∀ c ∈ ys, c ∉ S) (hu : Delimited S u) (hv : Delimited S v)
    (h : xs ++ u = ys ++ v) : xs = ys ∧ u = v := by
  induction xs generalizing ys with
  | nil =>
      cases ys with
      | nil => exact ⟨rfl, h⟩
      | cons y ys =>
          have hy : y ∈ S := hu y (by rw [List.nil_append] at h; simp [h])
          exact absurd hy (hys y (by simp))
  | cons x xs ih =>
      cases ys with
      | nil =>
          have hx : x ∈ S := hv x (by rw [List.nil_append] at h; simp [← h])
          exact absurd hx (hxs x (by simp))
      | cons y ys =>
          rw [List.cons_append, List.cons_append, List.cons.injEq] at h
          obtain ⟨rfl, h⟩ := h
          have hrest := ih (fun c hc ↦ hxs c (by simp [hc])) (fun c hc ↦ hys c (by simp [hc])) h
          exact ⟨by rw [hrest.1], hrest.2⟩

/-- Two words in a row, the first one read whatever follows. -/
theorem Decodes.append {S : Set χ} {f : α → List χ} {g : β → List χ} {a : α} {b : β}
    (ha : Decodes Set.univ f a) (hb : Decodes S g b) :
    Decodes S (fun p : α × β ↦ f p.1 ++ g p.2) (a, b) := by
  rintro ⟨a', b'⟩ u v hu hv h
  rw [List.append_assoc, List.append_assoc] at h
  obtain ⟨rfl, hsecond⟩ := ha (delimited_univ _) (delimited_univ _) h
  obtain ⟨rfl, hend⟩ := hb hu hv hsecond
  exact ⟨rfl, hend⟩

theorem Decodes.append_left {S : Set χ} {f : α → List χ} {a : α} (h : Decodes S f a)
    (w : List χ) : Decodes S (fun b ↦ w ++ f b) a := by
  intro b u v hu hv heq
  simp only [List.append_assoc] at heq
  exact h hu hv (List.append_cancel_left heq)

/-- Words one after the other up to a closing character none of them starts with. -/
theorem decodes_flatMap {f : α → List χ} {close : χ} {as bs : List α} {u v : List χ}
    (has : ∀ a ∈ as, Decodes Set.univ f a) (hopen : ∀ a, ∃ c w, f a = c :: w ∧ c ≠ close)
    (h : as.flatMap f ++ close :: u = bs.flatMap f ++ close :: v) : as = bs ∧ u = v := by
  induction as generalizing bs with
  | nil =>
      cases bs with
      | nil => exact ⟨rfl, (List.cons.inj h).2⟩
      | cons b bs =>
          obtain ⟨c, w, hb, hc⟩ := hopen b
          simp only [List.flatMap_nil, List.nil_append, List.flatMap_cons, hb,
            List.cons_append, List.cons.injEq] at h
          exact absurd h.1.symm hc
  | cons a as ih =>
      cases bs with
      | nil =>
          obtain ⟨c, w, ha, hc⟩ := hopen a
          simp only [List.flatMap_nil, List.nil_append, List.flatMap_cons, ha,
            List.cons_append, List.cons.injEq] at h
          exact absurd h.1 hc
      | cons b bs =>
          rw [List.flatMap_cons, List.flatMap_cons, List.append_assoc, List.append_assoc] at h
          obtain ⟨rfl, hmore⟩ := has a (by simp) (delimited_univ _) (delimited_univ _) h
          have hrest := ih (fun a' ha' ↦ has a' (by simp [ha'])) hmore
          exact ⟨by rw [hrest.1], hrest.2⟩

section Separated

variable (f : α → List χ) (lead sep close shut : List χ)

/-- The text after the first word of a separated list. -/
def tailOf : List α → List χ
  | [] => close
  | a :: as => sep ++ (f a ++ tailOf as)

/-- Words between `lead` and `close` with `sep` between them, or `shut` alone. -/
def listOf : List α → List χ
  | [] => shut
  | a :: as => lead ++ (f a ++ tailOf f sep close as)

variable {f lead sep close shut}

theorem listOf_cons (a : α) (as : List α) :
    listOf f lead sep close shut (a :: as) =
      lead ++ (sep.intercalate ((a :: as).map f) ++ close) := by
  rw [listOf]
  congr 1
  induction as generalizing a with
  | nil => simp [tailOf]
  | cons b as ih =>
      rw [tailOf, ih b]
      simp [List.intercalate]

variable {S : Set χ} {c d : χ} {sep' close' : List χ}

theorem delimited_tailOf (hc : c ∈ S) (hd : d ∈ S) (as : List α) (u : List χ) :
    Delimited S (tailOf f (c :: sep') (d :: close') as ++ u) := by
  cases as with
  | nil => exact delimited_cons hd _
  | cons a as => exact delimited_cons hc _

theorem decodes_tailOf (hc : c ∈ S) (hd : d ∈ S) (hne : c ≠ d) {as bs : List α} {u v : List χ}
    (has : ∀ a ∈ as, Decodes S f a)
    (h : tailOf f (c :: sep') (d :: close') as ++ u =
      tailOf f (c :: sep') (d :: close') bs ++ v) : as = bs ∧ u = v := by
  induction as generalizing bs with
  | nil =>
      cases bs with
      | nil => exact ⟨rfl, List.append_cancel_left h⟩
      | cons b bs => exact absurd (List.cons.inj h).1.symm hne
  | cons a as ih =>
      cases bs with
      | nil => exact absurd (List.cons.inj h).1 hne
      | cons b bs =>
          simp only [tailOf, List.append_assoc] at h
          have hword := List.append_cancel_left h
          obtain ⟨rfl, htail⟩ := has a (by simp) (delimited_tailOf hc hd as u)
            (delimited_tailOf hc hd bs v) hword
          have hrest := ih (fun a' ha' ↦ has a' (by simp [ha'])) htail
          exact ⟨by rw [hrest.1], hrest.2⟩

/-- A separated list is read back word by word. -/
theorem decodes_listOf (hc : c ∈ S) (hd : d ∈ S) (hne : c ≠ d) {e : χ} {shut' : List χ}
    (hopen : ∀ a, ∃ c' w, lead ++ f a = c' :: w ∧ c' ≠ e) {as bs : List α} {u v : List χ}
    (has : ∀ a ∈ as, Decodes S f a)
    (h : listOf f lead (c :: sep') (d :: close') (e :: shut') as ++ u =
      listOf f lead (c :: sep') (d :: close') (e :: shut') bs ++ v) : as = bs ∧ u = v := by
  have hapart (a : α) (as : List α) (u v : List χ) :
      e :: shut' ++ u ≠ listOf f lead (c :: sep') (d :: close') (e :: shut') (a :: as) ++ v := by
    intro heq
    obtain ⟨c', w, ha, hc'⟩ := hopen a
    rw [listOf, ← List.append_assoc, ha] at heq
    exact hc' (List.cons.inj heq).1.symm
  cases as with
  | nil =>
      cases bs with
      | nil => exact ⟨rfl, List.append_cancel_left h⟩
      | cons b bs => exact absurd h (hapart b bs u v)
  | cons a as =>
      cases bs with
      | nil => exact absurd h.symm (hapart a as v u)
      | cons b bs =>
          simp only [listOf, List.append_assoc] at h
          have hword := List.append_cancel_left h
          obtain ⟨rfl, htail⟩ := has a (by simp) (delimited_tailOf hc hd as u)
            (delimited_tailOf hc hd bs v) hword
          have hrest := decodes_tailOf hc hd hne (fun a' ha' ↦ has a' (by simp [ha'])) htail
          exact ⟨by rw [hrest.1], hrest.2⟩

end Separated

end PrefixCode

end HumanDataFactory
