import HumanDataFactory.Regex.Scan

/-!
# Scanning for the longest match

Where backtracking prefers the longer of two matches, a scan reads the text from
left to right, takes the longest occurrence at the first place that has one, and
goes on behind it.
-/

namespace HumanDataFactory

namespace Regex

open Cursor

/-! ## Reading from left to right -/

section Taken

variable {M : List Char → List Char → List Char → Prop}

/-- `M` says what occurs between the text before, last character first, and the
text after.  Of the rest of a text these occurrences are taken. -/
inductive Taken (M : List Char → List Char → List Char → Prop) :
    List Char → List Char → List (List Char) → Prop
  | none {before rest : List Char}
      (hnone : ∀ skipped read after, rest = skipped ++ (read ++ after) →
        ¬M (skipped.reverse ++ before) read after) : Taken M before rest []
  | take {before skipped read after : List Char} {reads : List (List Char)}
      (h : M (skipped.reverse ++ before) read after)
      (hfirst : ∀ skipped' read' after',
        skipped ++ (read ++ after) = skipped' ++ (read' ++ after') →
        M (skipped'.reverse ++ before) read' after' → skipped.length ≤ skipped'.length)
      (hlongest : ∀ read' after', read ++ after = read' ++ after' →
        M (skipped.reverse ++ before) read' after' → read'.length ≤ read.length)
      (htail : Taken M (read.reverse ++ (skipped.reverse ++ before)) after reads) :
      Taken M before (skipped ++ (read ++ after)) (read :: reads)

/-- Everything taken occurs. -/
theorem Taken.occurs {before rest : List Char} {reads : List (List Char)}
    (h : Taken M before rest reads) {read : List Char} (hread : read ∈ reads) :
    ∃ before' after', M before' read after' := by
  induction h with
  | none hnone => cases hread
  | take h hfirst hlongest htail ih =>
      rcases List.mem_cons.mp hread with rfl | hread
      · exact ⟨_, _, h⟩
      · exact ih hread

/-- There is only one way to read a text. -/
theorem Taken.unique {before rest : List Char} {reads reads' : List (List Char)}
    (h : Taken M before rest reads) (h' : Taken M before rest reads') : reads = reads' := by
  induction h generalizing reads' with
  | none hnone =>
      cases h' with
      | none => rfl
      | take hread => exact absurd hread (hnone _ _ _ rfl)
  | @take before skipped read after reads h hfirst hlongest htail ih =>
      generalize hrest : skipped ++ (read ++ after) = rest at h'
      cases h' with
      | none hnone => exact absurd h (hnone _ _ _ hrest.symm)
      | @take _ skipped' read' after' reads' h' hfirst' hlongest' htail' =>
          have hstart : skipped.length = skipped'.length :=
            Nat.le_antisymm (hfirst _ _ _ hrest h') (hfirst' _ _ _ hrest.symm h)
          obtain ⟨rfl, hread⟩ := List.append_inj hrest hstart
          have hlength : read.length = read'.length :=
            Nat.le_antisymm (hlongest' _ _ hread.symm h) (hlongest _ _ hread h')
          obtain ⟨rfl, rfl⟩ := List.append_inj hread hlength
          rw [ih htail']

/-- An occurrence is taken if none that starts before it reaches into it and none
that starts with it is longer. -/
theorem Taken.mem {before rest : List Char} {reads : List (List Char)}
    (h : Taken M before rest reads) {skipped read after : List Char}
    (hrest : rest = skipped ++ (read ++ after)) (hM : M (skipped.reverse ++ before) read after)
    (hclear : ∀ skipped' read' after', rest = skipped' ++ (read' ++ after') →
      M (skipped'.reverse ++ before) read' after' →
        (skipped' ++ read').length ≤ skipped.length ∨ skipped.length ≤ skipped'.length)
    (hlongest : ∀ read' after', read ++ after = read' ++ after' →
      M (skipped.reverse ++ before) read' after' → read'.length ≤ read.length) : read ∈ reads := by
  induction h generalizing skipped with
  | none hnone => exact absurd hM (hnone _ _ _ hrest)
  | @take before skipped' read' after' reads h hfirst hlongest' htail ih =>
      rcases hclear _ _ _ rfl h with hends | hstarts
      · -- the occurrence lies behind the one taken here
        obtain ⟨more, rfl⟩ : skipped' ++ read' <+: skipped := by
          refine List.prefix_of_prefix_length_le ?_ ⟨read ++ after, hrest.symm⟩ hends
          exact ⟨after', List.append_assoc _ _ _⟩
        have hreverse (tail : List Char) : (skipped' ++ read' ++ tail).reverse ++ before =
            tail.reverse ++ (read'.reverse ++ (skipped'.reverse ++ before)) := by
          simp
        obtain rfl : after' = more ++ (read ++ after) := by simpa using hrest
        rw [hreverse] at hM hlongest
        refine List.mem_cons_of_mem _ (ih rfl hM (fun tail read'' after'' htext hM' ↦ ?_) hlongest)
        rw [← hreverse] at hM'
        have hside := hclear _ _ _ (by simp [htext]) hM'
        simp only [List.length_append] at hside ⊢
        omega
      · have hstart : skipped'.length = skipped.length :=
          Nat.le_antisymm (hfirst _ _ _ hrest hM) hstarts
        obtain ⟨rfl, hread⟩ := List.append_inj hrest hstart
        have hlength : read.length = read'.length :=
          Nat.le_antisymm (hlongest' _ _ hread hM) (hlongest _ _ hread.symm h)
        obtain ⟨rfl, -⟩ := List.append_inj hread hlength.symm
        exact List.mem_cons_self

/-- Where nothing starts with the next character, an occurrence lies behind it. -/
theorem behind_of_occurs {x : Char} (hx : ∀ before read after, M before (x :: read) after → False)
    (hne : ∀ before after, ¬M before [] after) {before rest skipped read after : List Char}
    (hrest : x :: rest = skipped ++ (read ++ after))
    (hM : M (skipped.reverse ++ before) read after) :
    ∃ skipped', skipped = x :: skipped' ∧ rest = skipped' ++ (read ++ after) ∧
      M (skipped'.reverse ++ (x :: before)) read after := by
  cases skipped with
  | nil =>
      cases read with
      | nil => exact absurd hM (hne _ _)
      | cons y read =>
          obtain ⟨rfl, -⟩ := List.cons.inj hrest
          exact (hx _ _ _ hM).elim
  | cons y skipped =>
      obtain ⟨rfl, htail⟩ := List.cons.inj hrest
      refine ⟨skipped, rfl, htail, ?_⟩
      simpa using hM

/-- A character with which nothing starts can be skipped. -/
theorem Taken.skip {x : Char} (hx : ∀ before read after, M before (x :: read) after → False)
    (hne : ∀ before after, ¬M before [] after) {before rest : List Char}
    {reads : List (List Char)} (h : Taken M (x :: before) rest reads) :
    Taken M before (x :: rest) reads := by
  cases h with
  | none hnone =>
      refine .none fun skipped read after hrest hM ↦ ?_
      obtain ⟨skipped, rfl, htail, hM⟩ := behind_of_occurs hx hne hrest hM
      exact hnone _ _ _ htail hM
  | @take _ skipped read after reads h hfirst hlongest htail =>
      have hcons : (x :: skipped).reverse ++ before = skipped.reverse ++ (x :: before) := by simp
      have hrest : x :: (skipped ++ (read ++ after)) = (x :: skipped) ++ (read ++ after) := rfl
      rw [← hcons] at h hlongest htail
      rw [hrest]
      refine .take h ?_ hlongest htail
      intro skipped' read' after' hrest hM
      obtain ⟨skipped', rfl, hbehind, hM⟩ := behind_of_occurs hx hne hrest hM
      exact Nat.succ_le_succ (hfirst _ _ _ hbehind hM)

end Taken

/-! ## Expressions that prefer the longest match -/

section Greedy

variable {word : Char → Bool} {r s : Regex}

/-- Of two ends of a match the one found first is not the shorter one. -/
def Greedy (word : Char → Bool) (r : Regex) : Prop :=
  ∀ c, (ends word r c).Pairwise fun c₁ c₂ ↦ c₁.after.length ≤ c₂.after.length

/-- The preferred match is the longest one. -/
theorem Greedy.longest (h : Greedy word r) {c c₁ c₂ : Cursor}
    (hhead : (ends word r c).head? = some c₁) (hmatch : Matches word r c c₂) :
    c₁.after.length ≤ c₂.after.length := by
  have hmem := mem_ends.mpr hmatch
  have hpairwise := h c
  cases hends : ends word r c with
  | nil => simp [hends] at hmem
  | cons d ds =>
      rw [hends] at hhead hmem hpairwise
      obtain rfl := Option.some.inj hhead
      rcases List.mem_cons.mp hmem with rfl | hmem
      · exact Nat.le_refl _
      · exact (List.pairwise_cons.mp hpairwise).1 c₂ hmem

theorem Matches.after_le {c c' : Cursor} (h : Matches word r c c') :
    c'.after.length ≤ c.after.length := by
  obtain ⟨read, hreads, -⟩ := h.reads
  rw [hreads.1, List.length_append]
  omega

theorem greedy_eps : Greedy word eps := fun _ ↦ List.pairwise_singleton _ _

theorem Greedy.opt (h : Greedy word r) : Greedy word (opt r) := by
  intro c
  refine List.pairwise_append.mpr ⟨h c, List.pairwise_singleton _ _, fun a ha b hb ↦ ?_⟩
  obtain rfl := List.mem_singleton.mp hb
  exact (mem_ends.mp ha).after_le

theorem Greedy.boundary_seq (h : Greedy word r) : Greedy word (seq boundary r) := by
  intro c
  unfold ends
  by_cases hb : c.atBoundary word = true
  · simpa [ends, hb] using h c
  · simp [ends, hb]

theorem Greedy.seq_boundary (h : Greedy word r) : Greedy word (seq r boundary) := by
  intro c
  have hsub (cs : List Cursor) : List.Sublist (cs.flatMap (ends word boundary)) cs := by
    induction cs with
    | nil => exact List.Sublist.refl []
    | cons d ds ih =>
        rw [List.flatMap_cons]
        by_cases hb : d.atBoundary word = true
        · simpa [ends, hb] using ih
        · simpa [ends, hb] using ih.cons d
  exact (h c).sublist (hsub _)

/-- `r` reads this between the text before and the text after. -/
def Occurs (word : Char → Bool) (r : Regex) (before read after : List Char) : Prop :=
  ∃ c', Matches word r ⟨before, read ++ after, []⟩ c' ∧ c'.before = read.reverse ++ before ∧
    c'.after = after

/-- The search finds the longest match at the first place that has one. -/
theorem Greedy.searchFrom_eq_some (hgreedy : Greedy word r) {before after : List Char}
    {d d' : Cursor} (hsearch : searchFrom word r before after = some (d, d')) :
    ∃ skipped read, after = skipped ++ (read ++ d'.after) ∧ d.upTo d' = read ∧
      d'.before = read.reverse ++ (skipped.reverse ++ before) ∧
      Occurs word r (skipped.reverse ++ before) read d'.after ∧
      (∀ skipped' read' after', skipped ++ (read ++ d'.after) = skipped' ++ (read' ++ after') →
        Occurs word r (skipped'.reverse ++ before) read' after' →
          skipped.length ≤ skipped'.length) ∧
      ∀ read' after', read ++ d'.after = read' ++ after' →
        Occurs word r (skipped.reverse ++ before) read' after' → read'.length ≤ read.length := by
  obtain ⟨dbefore, dafter, dgroups⟩ := d
  obtain ⟨⟨skipped, rfl, hd⟩, hhead, hfirst⟩ := Regex.searchFrom_eq_some hsearch
  obtain ⟨rfl, -, rfl⟩ := Cursor.mk.inj hd
  have hmatch := matches_of_head? hhead
  obtain ⟨read, ⟨rfl, hbefore⟩, -⟩ := hmatch.reads
  refine ⟨skipped, read, rfl, Cursor.Reads.upTo ⟨rfl, hbefore⟩, hbefore,
    ⟨d', hmatch, hbefore, rfl⟩, ?_, ?_⟩
  · rintro skipped' read' after' heq ⟨c', hmatch', -⟩
    obtain ⟨more, hmore⟩ := hfirst _ c' ⟨skipped', heq, rfl⟩ hmatch'
    have hlength := congrArg List.length heq
    have hlength' := congrArg List.length hmore
    simp only [List.length_append] at hlength hlength'
    omega
  · rintro read' after' heq ⟨c', hmatch', -, rfl⟩
    rw [← heq] at hmatch'
    have hle := hgreedy.longest hhead hmatch'
    have hlength := congrArg List.length heq
    simp only [List.length_append] at hlength
    omega

/-- A scan takes the longest match at the first place that has one. -/
theorem taken_scanFrom (hgreedy : Greedy word r)
    (hne : ∀ before after, ¬Occurs word r before [] after) {n : ℕ} {before after : List Char}
    (hn : after.length ≤ n) : Taken (Occurs word r) before after
      ((scanFrom word r before after n).map fun m ↦ m.1.upTo m.2) := by
  induction n generalizing before after with
  | zero =>
      obtain rfl := List.length_eq_zero_iff.mp (Nat.le_zero.mp hn)
      refine .none fun skipped read after hrest hoccurs ↦ ?_
      obtain ⟨-, hrest⟩ := List.append_eq_nil_iff.mp hrest.symm
      obtain ⟨rfl, rfl⟩ := List.append_eq_nil_iff.mp hrest
      exact hne _ _ hoccurs
  | succ n ih =>
      unfold scanFrom
      cases hsearch : searchFrom word r before after with
      | none =>
          refine .none fun skipped read after' hrest hoccurs ↦ ?_
          obtain ⟨groups, hmatch⟩ := hoccurs
          exact searchFrom_eq_none hsearch ⟨skipped, hrest, rfl⟩ hmatch.1
      | some found =>
          obtain ⟨d, d'⟩ := found
          obtain ⟨skipped, read, rfl, hread, hbefore, hoccurs, hfirst, hlongest⟩ :=
            hgreedy.searchFrom_eq_some hsearch
          have htail : d'.after.length ≤ n := by
            have hpos : 0 < read.length :=
              List.length_pos_iff.mpr fun hnil ↦ hne _ _ (hnil ▸ hoccurs)
            simp only [List.length_append] at hn
            omega
          rw [List.map_cons, hread]
          exact .take hoccurs hfirst hlongest (hbefore ▸ ih htail)

end Greedy

/-! ## Characters with separators -/

section Items

variable {word p sep : Char → Bool} {s : Regex}

/-- A character of a kind, and perhaps a separator behind it. -/
def item (p sep : Char → Bool) : Regex := seq (char p) (opt (char sep))

/-- So many characters of a kind, each perhaps with a separator behind it. -/
inductive Items (p sep : Char → Bool) : ℕ → List Char → Prop
  | nil : Items p sep 0 []
  | next {x : Char} {n : ℕ} {read : List Char} (hx : p x = true) (h : Items p sep n read) :
      Items p sep (n + 1) (x :: read)
  | apart {x y : Char} {n : ℕ} {read : List Char} (hx : p x = true) (hy : sep y = true)
      (h : Items p sep n read) : Items p sep (n + 1) (x :: y :: read)

theorem Items.append {m n : ℕ} {read read' : List Char} (h : Items p sep m read)
    (h' : Items p sep n read') : Items p sep (m + n) (read ++ read') := by
  induction h with
  | nil => simpa using h'
  | @next x m read hx h ih =>
      rw [Nat.add_right_comm]
      exact .next hx ih
  | @apart x y m read hx hy h ih =>
      rw [Nat.add_right_comm]
      exact .apart hx hy ih

theorem Items.split {m n : ℕ} {read : List Char} (h : Items p sep (m + n) read) :
    ∃ left right, read = left ++ right ∧ Items p sep m left ∧ Items p sep n right := by
  induction m generalizing read with
  | zero => exact ⟨[], read, rfl, .nil, by simpa using h⟩
  | succ m ih =>
      rw [Nat.add_right_comm] at h
      cases h with
      | @next x _ read hx h =>
          obtain ⟨left, right, rfl, hleft, hright⟩ := ih h
          exact ⟨x :: left, right, rfl, .next hx hleft, hright⟩
      | @apart x y _ read hx hy h =>
          obtain ⟨left, right, rfl, hleft, hright⟩ := ih h
          exact ⟨x :: y :: left, right, rfl, .apart hx hy hleft, hright⟩

/-- The separators can be told from the items. -/
theorem Items.length_filter (hsep : ∀ x, sep x = true → p x = false) {n : ℕ} {read : List Char}
    (h : Items p sep n read) : (read.filter p).length = n := by
  induction h with
  | nil => rfl
  | next hx h ih => simp [hx, ih]
  | apart hx hy h ih => simp [hx, hsep _ hy, ih]

theorem getLast?_any_cons {x : Char} {read : List Char} (h : read.getLast?.any p = true) :
    (x :: read).getLast?.any p = true := by
  cases hget : read.getLast? with
  | none => simp [hget] at h
  | some z => simpa [List.getLast?_cons, hget] using h

theorem Items.head {n : ℕ} {read : List Char} (h : Items p sep n read) :
    read = [] ∨ read.head?.any p = true := by
  cases h with
  | nil => exact Or.inl rfl
  | next hx h => exact Or.inr (by simpa using hx)
  | apart hx hy h => exact Or.inr (by simpa using hx)

/-- A character that is no item is a separator between two items or behind the last. -/
theorem Items.around {n : ℕ} {left right : List Char} {y : Char}
    (h : Items p sep n (left ++ y :: right)) (hy : p y = false) :
    sep y = true ∧ left.getLast?.any p = true ∧ (right = [] ∨ right.head?.any p = true) := by
  generalize hread : left ++ y :: right = read at h
  induction h generalizing left with
  | nil => simp at hread
  | @next x n read hx h ih =>
      rcases left with _ | ⟨z, left⟩
      · obtain ⟨rfl, -⟩ := List.cons.inj hread
        rw [hx] at hy
        cases hy
      · obtain ⟨rfl, htail⟩ := List.cons.inj hread
        obtain ⟨hsep, hlast, hright⟩ := ih htail
        exact ⟨hsep, getLast?_any_cons hlast, hright⟩
  | @apart x s n read hx hs h ih =>
      rcases left with _ | ⟨z, _ | ⟨w, left⟩⟩
      · obtain ⟨rfl, -⟩ := List.cons.inj hread
        rw [hx] at hy
        cases hy
      · obtain ⟨rfl, htail⟩ := List.cons.inj hread
        obtain ⟨rfl, rfl⟩ := List.cons.inj htail
        exact ⟨hs, by simpa using hx, h.head⟩
      · obtain ⟨rfl, htail⟩ := List.cons.inj hread
        obtain ⟨rfl, hrest⟩ := List.cons.inj htail
        obtain ⟨hsep, hlast, hright⟩ := ih hrest
        exact ⟨hsep, getLast?_any_cons (getLast?_any_cons hlast), hright⟩

/-- The last item has a separator behind it or has none. -/
theorem Items.last {n : ℕ} {read : List Char} (h : Items p sep n read) (hn : 0 < n) :
    read.getLast?.any p = true ∨ ∃ read' y, read = read' ++ [y] ∧ sep y = true ∧
      Items p sep n read' ∧ read'.getLast?.any p = true := by
  induction h with
  | nil => cases hn
  | @next x n read hx h ih =>
      cases h with
      | nil => exact Or.inl (by simpa using hx)
      | next | apart =>
          rcases ih (Nat.succ_pos _) with hlast | ⟨read', y, heq, hy, hitems, hlast⟩
          · exact Or.inl (getLast?_any_cons hlast)
          · exact Or.inr ⟨x :: read', y, by rw [heq]; rfl, hy, .next hx hitems,
              getLast?_any_cons hlast⟩
  | @apart x z n read hx hz h ih =>
      cases h with
      | nil => exact Or.inr ⟨[x], z, rfl, hz, .next hx .nil, by simpa using hx⟩
      | next | apart =>
          rcases ih (Nat.succ_pos _) with hlast | ⟨read', y, heq, hy, hitems, hlast⟩
          · exact Or.inl (getLast?_any_cons (getLast?_any_cons hlast))
          · exact Or.inr ⟨x :: z :: read', y, by rw [heq]; rfl, hy, .apart hx hz hitems,
              getLast?_any_cons (getLast?_any_cons hlast)⟩

theorem matches_item {c c' : Cursor} : Matches word (item p sep) c c' ↔
    ∃ read, Items p sep 1 read ∧ Reads read c c' ∧ c'.groups = c.groups := by
  rw [item, opt, matches_seq]
  simp only [matches_alt, matches_eps, matches_char]
  constructor
  · rintro ⟨c₁, ⟨x, hx⟩, ⟨y, hy⟩ | rfl⟩
    · exact ⟨[x, y], .apart (hx.all x List.mem_cons_self) (hy.all y List.mem_cons_self) .nil,
        hx.reads.append hy.reads, hy.groups.trans hx.groups⟩
    · exact ⟨[x], .next (hx.all x List.mem_cons_self) .nil, hx.reads, hx.groups⟩
  · rintro ⟨read, hitems, ⟨hafter, hbefore⟩, hgroups⟩
    cases hitems with
    | @next x _ _ hx h =>
        cases h
        exact ⟨c', ⟨x, ⟨hafter, hbefore⟩, hgroups, by simpa using hx⟩, Or.inr rfl⟩
    | @apart x y _ _ hx hy h =>
        cases h
        refine ⟨⟨x :: c.before, y :: c'.after, c.groups⟩,
          ⟨x, ⟨hafter, rfl⟩, rfl, by simpa using hx⟩,
          Or.inl ⟨y, ⟨rfl, hbefore⟩, hgroups, by simpa using hy⟩⟩

theorem matches_times_item {n : ℕ} {c c' : Cursor} : Matches word (times (item p sep) n) c c' ↔
    ∃ read, Items p sep n read ∧ Reads read c c' ∧ c'.groups = c.groups := by
  induction n generalizing c with
  | zero =>
      rw [times, matches_eps]
      constructor
      · rintro rfl
        exact ⟨[], .nil, reads_nil _, rfl⟩
      · rintro ⟨read, hitems, ⟨hafter, hbefore⟩, hgroups⟩
        cases hitems
        exact Cursor.ext hbefore hafter.symm hgroups
  | succ n ih =>
      rw [times, matches_seq]
      constructor
      · rintro ⟨c₁, h, h'⟩
        obtain ⟨read, hitems, hreads, hgroups⟩ := matches_item.mp h
        obtain ⟨read', hitems', hreads', hgroups'⟩ := ih.mp h'
        refine ⟨read ++ read', ?_, hreads.append hreads', hgroups'.trans hgroups⟩
        rw [Nat.add_comm]
        exact hitems.append hitems'
      · rintro ⟨read, hitems, hreads, hgroups⟩
        rw [Nat.add_comm] at hitems
        obtain ⟨left, right, rfl, hleft, hright⟩ := hitems.split
        obtain ⟨c₁, hread, hread'⟩ := hreads.split
        exact ⟨⟨c₁.before, c₁.after, c.groups⟩, matches_item.mpr ⟨left, hleft, hread, rfl⟩,
          ih.mpr ⟨right, hright, hread', hgroups⟩⟩

theorem matches_atMost_item {n : ℕ} {c c' : Cursor} : Matches word (atMost (item p sep) n) c c' ↔
    ∃ m ≤ n, ∃ read, Items p sep m read ∧ Reads read c c' ∧ c'.groups = c.groups := by
  have htimes (m : ℕ) : (∃ read, Items p sep m read ∧ Reads read c c' ∧ c'.groups = c.groups) ↔
      Matches word (times (item p sep) m) c c' := matches_times_item.symm
  simp only [htimes]
  clear htimes
  induction n generalizing c with
  | zero => simp [atMost, times]
  | succ n ih =>
      rw [atMost, opt, matches_alt, matches_seq, matches_eps]
      constructor
      · rintro (⟨c₁, h, h'⟩ | rfl)
        · obtain ⟨m, hm, hmatch⟩ := ih.mp h'
          exact ⟨m + 1, Nat.succ_le_succ hm, .seq h hmatch⟩
        · exact ⟨0, Nat.zero_le _, .eps _⟩
      · rintro ⟨m, hm, hmatch⟩
        cases m with
        | zero => exact Or.inr (matches_eps.mp hmatch)
        | succ m =>
            obtain ⟨c₁, h, h'⟩ := matches_seq.mp hmatch
            exact Or.inl ⟨c₁, h, ih.mpr ⟨m, Nat.le_of_succ_le_succ hm, h'⟩⟩

theorem matches_between_item {m n : ℕ} (hmn : m ≤ n) {c c' : Cursor} :
    Matches word (between (item p sep) m n) c c' ↔ ∃ k, (m ≤ k ∧ k ≤ n) ∧
      ∃ read, Items p sep k read ∧ Reads read c c' ∧ c'.groups = c.groups := by
  rw [between, matches_seq]
  constructor
  · rintro ⟨c₁, h, h'⟩
    obtain ⟨read, hitems, hreads, hgroups⟩ := matches_times_item.mp h
    obtain ⟨k, hk, read', hitems', hreads', hgroups'⟩ := matches_atMost_item.mp h'
    exact ⟨m + k, by omega, read ++ read', hitems.append hitems', hreads.append hreads',
      hgroups'.trans hgroups⟩
  · rintro ⟨k, ⟨hle, hle'⟩, read, hitems, hreads, hgroups⟩
    obtain ⟨i, rfl⟩ := Nat.exists_eq_add_of_le hle
    obtain ⟨left, right, rfl, hleft, hright⟩ := hitems.split
    obtain ⟨c₁, hread, hread'⟩ := hreads.split
    exact ⟨⟨c₁.before, c₁.after, c.groups⟩, matches_times_item.mpr ⟨left, hleft, hread, rfl⟩,
      matches_atMost_item.mpr ⟨i, by omega, right, hright, hread', hgroups⟩⟩

/-- Nothing is read at a separator. -/
def Stops (word sep : Char → Bool) (r : Regex) : Prop :=
  ∀ c c', c.after.head?.any sep = true → Matches word r c c' → c.after.length ≤ c'.after.length

theorem stops_item_seq (hsep : ∀ x, sep x = true → p x = false) :
    Stops word sep (seq (item p sep) s) := by
  intro c c' hc h
  obtain ⟨c₁, hitem, -⟩ := matches_seq.mp h
  obtain ⟨c₂, hchar, -⟩ := matches_seq.mp hitem
  obtain ⟨x, hx⟩ := matches_char.mp hchar
  have hp : p x = true := hx.all x List.mem_cons_self
  rw [hx.reads.1] at hc
  rw [hsep x (by simpa using hc)] at hp
  cases hp

/-- With the separator the match goes further than without it. -/
theorem Greedy.item_seq (h : Greedy word s) (hstops : Stops word sep s) :
    Greedy word (seq (item p sep) s) := by
  rintro ⟨before, after, groups⟩
  rcases after with _ | ⟨x, after⟩
  · simp [ends, item]
  by_cases hx : p x = true
  · rcases after with _ | ⟨y, after⟩
    · simpa [ends, item, Regex.opt, hx] using h _
    · by_cases hy : sep y = true
      · have hends : ends word (seq (item p sep) s) ⟨before, x :: y :: after, groups⟩ =
            ends word s ⟨y :: x :: before, after, groups⟩ ++
              ends word s ⟨x :: before, y :: after, groups⟩ := by
          simp [ends, item, Regex.opt, hx, hy]
        rw [hends]
        refine List.pairwise_append.mpr ⟨h _, h _, fun a ha b hb ↦ ?_⟩
        have hle : a.after.length ≤ after.length := (mem_ends.mp ha).after_le
        have hge : after.length + 1 ≤ b.after.length :=
          hstops _ b (by simpa using hy) (mem_ends.mp hb)
        omega
      · simpa [ends, item, Regex.opt, hx, hy] using h _
  · simp [ends, item, hx]

theorem greedy_atMost_item (hsep : ∀ x, sep x = true → p x = false) (n : ℕ) :
    Greedy word (atMost (item p sep) n) ∧ Stops word sep (atMost (item p sep) n) := by
  induction n with
  | zero =>
      refine ⟨greedy_eps, fun c c' _ h ↦ ?_⟩
      obtain rfl := matches_eps.mp h
      exact Nat.le_refl _
  | succ n ih =>
      refine ⟨(ih.1.item_seq ih.2).opt, fun c c' hc h ↦ ?_⟩
      rcases matches_alt.mp h with h | h
      · exact stops_item_seq hsep c c' hc h
      · obtain rfl := matches_eps.mp h
        exact Nat.le_refl _

theorem greedy_times_seq (hsep : ∀ x, sep x = true → p x = false) (h : Greedy word s)
    (hstops : Stops word sep s) (n : ℕ) :
    Greedy word (seq (times (item p sep) n) s) ∧ Stops word sep (seq (times (item p sep) n) s) := by
  induction n with
  | zero =>
      refine ⟨fun c ↦ by simpa [ends, times] using h c, fun c c' hc hmatch ↦ ?_⟩
      obtain ⟨c₁, heps, hrest⟩ := matches_seq.mp hmatch
      obtain rfl := matches_eps.mp heps
      exact hstops _ _ hc hrest
  | succ n ih =>
      -- the first item is read before the others
      have hassoc (c : Cursor) : ends word (seq (times (item p sep) (n + 1)) s) c =
          ends word (seq (item p sep) (seq (times (item p sep) n) s)) c :=
        List.flatMap_assoc
      refine ⟨fun c ↦ ?_, fun c c' hc hmatch ↦ ?_⟩
      · rw [hassoc]
        exact ih.1.item_seq ih.2 c
      · have hmem := mem_ends.mpr hmatch
        rw [hassoc] at hmem
        exact stops_item_seq hsep c c' hc (mem_ends.mp hmem)

theorem greedy_between_item (hsep : ∀ x, sep x = true → p x = false) (m n : ℕ) :
    Greedy word (between (item p sep) m n) := by
  obtain ⟨hgreedy, hstops⟩ := greedy_atMost_item hsep (n - m)
  exact (greedy_times_seq hsep hgreedy hstops m).1

end Items

end Regex

end HumanDataFactory
