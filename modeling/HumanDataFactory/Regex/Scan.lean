import HumanDataFactory.Regex

/-!
# What a scan finds

A match reads a stretch of the text.  Where a match starts with a character that
it does not read again, no match starts inside another one, and a scan finds
the preferred match at every place where there is one.
-/

namespace HumanDataFactory

namespace Cursor

/-- From the first place one comes to the second by reading these characters. -/
def Reads (read : List Char) (c c' : Cursor) : Prop :=
  c.after = read ++ c'.after ∧ c'.before = read.reverse ++ c.before

theorem reads_nil (c : Cursor) : Reads [] c c := ⟨rfl, rfl⟩

theorem Reads.append {read read' : List Char} {c c₁ c₂ : Cursor} (h : Reads read c c₁)
    (h' : Reads read' c₁ c₂) : Reads (read ++ read') c c₂ := by
  refine ⟨?_, ?_⟩
  · rw [h.1, h'.1, List.append_assoc]
  · rw [h'.2, h.2, List.reverse_append, List.append_assoc]

/-- Reading can be interrupted. -/
theorem Reads.split {read read' : List Char} {c c₂ : Cursor} (h : Reads (read ++ read') c c₂) :
    ∃ c₁, Reads read c c₁ ∧ Reads read' c₁ c₂ := by
  refine ⟨⟨read.reverse ++ c.before, read' ++ c₂.after, c.groups⟩, ⟨?_, rfl⟩, rfl, ?_⟩
  · rw [h.1, List.append_assoc]
  · rw [h.2, List.reverse_append, List.append_assoc]

theorem Reads.upTo {read : List Char} {c c' : Cursor} (h : Reads read c c') :
    c.upTo c' = read := by
  simp [Cursor.upTo, h.2]

end Cursor

namespace Regex

open Cursor

/-- Whether a match can read this character. -/
def allows : Regex → Char → Bool
  | eps, _ => false
  | char p, x => p x
  | boundary, _ => false
  | seq r s, x => r.allows x || s.allows x
  | alt r s, x => r.allows x || s.allows x
  | star r, x => r.allows x
  | group _ r, x => r.allows x

/-- Nothing is captured. -/
def groupless : Regex → Bool
  | eps => true
  | char _ => true
  | boundary => true
  | seq r s => r.groupless && s.groupless
  | alt r s => r.groupless && s.groupless
  | star r => r.groupless
  | group _ _ => false

variable {word : Char → Bool}

theorem Matches.reads {r : Regex} {c c' : Cursor} (h : Matches word r c c') :
    ∃ read, Reads read c c' ∧ ∀ x ∈ read, r.allows x = true := by
  induction h with
  | eps c => exact ⟨[], reads_nil c, by simp⟩
  | @char p x h before after groups =>
      exact ⟨[x], ⟨rfl, rfl⟩, fun y hy ↦ List.mem_singleton.mp hy ▸ h⟩
  | boundary h => exact ⟨[], reads_nil _, by simp⟩
  | @seq r s c c₁ c₂ h h' ih ih' =>
      obtain ⟨read, hread, hall⟩ := ih
      obtain ⟨read', hread', hall'⟩ := ih'
      refine ⟨read ++ read', hread.append hread', fun x hx ↦ Bool.or_eq_true_iff.mpr ?_⟩
      rcases List.mem_append.mp hx with hx | hx
      · exact Or.inl (hall x hx)
      · exact Or.inr (hall' x hx)
  | altLeft h ih =>
      obtain ⟨read, hread, hall⟩ := ih
      exact ⟨read, hread, fun x hx ↦ Bool.or_eq_true_iff.mpr (Or.inl (hall x hx))⟩
  | altRight h ih =>
      obtain ⟨read, hread, hall⟩ := ih
      exact ⟨read, hread, fun x hx ↦ Bool.or_eq_true_iff.mpr (Or.inr (hall x hx))⟩
  | done c => exact ⟨[], reads_nil c, by simp⟩
  | @more r c c₁ c₂ h hread h' ih ih' =>
      obtain ⟨read, hread, hall⟩ := ih
      obtain ⟨read', hread', hall'⟩ := ih'
      refine ⟨read ++ read', hread.append hread', fun x hx ↦ ?_⟩
      rcases List.mem_append.mp hx with hx | hx
      · exact hall x hx
      · exact hall' x hx
  | group h ih => exact ih

theorem Matches.groups_eq {r : Regex} {c c' : Cursor} (h : Matches word r c c')
    (hr : r.groupless = true) : c'.groups = c.groups := by
  induction h with
  | eps c => rfl
  | char h before after groups => rfl
  | boundary h => rfl
  | seq h h' ih ih' =>
      obtain ⟨hr, hs⟩ := Bool.and_eq_true_iff.mp hr
      exact (ih' hs).trans (ih hr)
  | altLeft h ih => exact ih (Bool.and_eq_true_iff.mp hr).1
  | altRight h ih => exact ih (Bool.and_eq_true_iff.mp hr).2
  | done c => rfl
  | more h hread h' ih ih' => exact (ih' hr).trans (ih hr)
  | group h ih => cases hr

/-! ## The parts of an expression -/

theorem matches_seq {r s : Regex} {c c' : Cursor} :
    Matches word (seq r s) c c' ↔ ∃ c₁, Matches word r c c₁ ∧ Matches word s c₁ c' := by
  constructor
  · rintro (_ | _ | _ | ⟨h, h'⟩)
    exact ⟨_, h, h'⟩
  · rintro ⟨c₁, h, h'⟩
    exact .seq h h'

theorem matches_boundary {c c' : Cursor} :
    Matches word boundary c c' ↔ c' = c ∧ c.atBoundary word = true := by
  constructor
  · rintro (_ | _ | h)
    exact ⟨rfl, h⟩
  · rintro ⟨rfl, h⟩
    exact .boundary h

theorem matches_group {n : ℕ} {r : Regex} {c c' : Cursor} :
    Matches word (group n r) c c' ↔ ∃ c₁, Matches word r c c₁ ∧ c' = c.capture n c₁ := by
  constructor
  · intro h
    cases h with
    | group h => exact ⟨_, h, rfl⟩
  · rintro ⟨c₁, h, rfl⟩
    exact .group h

theorem matches_eps {c c' : Cursor} : Matches word eps c c' ↔ c' = c := by
  constructor
  · rintro (_ | _)
    rfl
  · rintro rfl
    exact .eps _

theorem matches_alt {r s : Regex} {c c' : Cursor} :
    Matches word (alt r s) c c' ↔ Matches word r c c' ∨ Matches word s c c' := by
  constructor
  · intro h
    cases h with
    | altLeft h => exact Or.inl h
    | altRight h => exact Or.inr h
  · rintro (h | h)
    · exact .altLeft h
    · exact .altRight h

/-! ## Runs of one kind of character -/

/-- Reading a run of characters of one kind, and capturing nothing. -/
structure Run (p : Char → Bool) (run : List Char) (c c' : Cursor) : Prop where
  reads : Reads run c c'
  groups : c'.groups = c.groups
  all : ∀ x ∈ run, p x = true

theorem run_nil {p : Char → Bool} {c c' : Cursor} : Run p [] c c' ↔ c' = c := by
  constructor
  · rintro ⟨⟨hafter, hbefore⟩, hgroups, -⟩
    exact Cursor.ext hbefore hafter.symm hgroups
  · rintro rfl
    exact ⟨reads_nil _, rfl, by simp⟩

theorem run_singleton {p : Char → Bool} {x : Char} {c c' : Cursor} (h : Run p [x] c c') :
    Matches word (char p) c c' := by
  obtain ⟨before, after, groups⟩ := c
  obtain ⟨before', after', groups'⟩ := c'
  obtain ⟨⟨hafter, hbefore⟩, hgroups, hall⟩ := h
  obtain rfl : after = x :: after' := hafter
  obtain rfl : before' = x :: before := hbefore
  obtain rfl : groups' = groups := hgroups
  exact .char (hall x List.mem_cons_self) _ _ _

theorem matches_char {p : Char → Bool} {c c' : Cursor} :
    Matches word (char p) c c' ↔ ∃ x, Run p [x] c c' := by
  constructor
  · intro h
    cases h with
    | @char p x h before after groups =>
        exact ⟨x, ⟨rfl, rfl⟩, rfl, fun y hy ↦ List.mem_singleton.mp hy ▸ h⟩
  · rintro ⟨x, h⟩
    exact run_singleton h

theorem Run.append {p : Char → Bool} {run run' : List Char} {c c₁ c₂ : Cursor}
    (h : Run p run c c₁) (h' : Run p run' c₁ c₂) : Run p (run ++ run') c c₂ where
  reads := h.reads.append h'.reads
  groups := h'.groups.trans h.groups
  all x hx := (List.mem_append.mp hx).elim (h.all x) (h'.all x)

/-- A run can be interrupted. -/
theorem Run.split {p : Char → Bool} {run run' : List Char} {c c₂ : Cursor}
    (h : Run p (run ++ run') c c₂) : ∃ c₁, Run p run c c₁ ∧ Run p run' c₁ c₂ := by
  refine ⟨⟨run.reverse ++ c.before, run' ++ c₂.after, c.groups⟩, ⟨⟨?_, rfl⟩, rfl, ?_⟩,
    ⟨⟨rfl, ?_⟩, h.groups, ?_⟩⟩
  · rw [h.reads.1, List.append_assoc]
  · exact fun x hx ↦ h.all x (List.mem_append_left _ hx)
  · rw [h.reads.2, List.reverse_append, List.append_assoc]
  · exact fun x hx ↦ h.all x (List.mem_append_right _ hx)

theorem Run.uncons {p : Char → Bool} {x : Char} {run : List Char} {c c₂ : Cursor}
    (h : Run p (x :: run) c c₂) : ∃ c₁, Run p [x] c c₁ ∧ Run p run c₁ c₂ := by
  have happend : Run p ([x] ++ run) c c₂ := h
  exact happend.split

theorem matches_times_char {p : Char → Bool} {n : ℕ} {c c' : Cursor} :
    Matches word (times (char p) n) c c' ↔ ∃ run, run.length = n ∧ Run p run c c' := by
  induction n generalizing c with
  | zero =>
      rw [times, matches_eps]
      constructor
      · intro h
        exact ⟨[], rfl, run_nil.mpr h⟩
      · rintro ⟨run, hlength, h⟩
        obtain rfl := List.length_eq_zero_iff.mp hlength
        exact run_nil.mp h
  | succ n ih =>
      rw [times, matches_seq]
      constructor
      · rintro ⟨c₁, h, h'⟩
        obtain ⟨x, hx⟩ := matches_char.mp h
        obtain ⟨run, hlength, hrun⟩ := ih.mp h'
        exact ⟨x :: run, by simp [hlength], hx.append hrun⟩
      · rintro ⟨run, hlength, h⟩
        cases run with
        | nil => simp at hlength
        | cons x run =>
            obtain ⟨c₁, hx, hrun⟩ := Run.uncons h
            exact ⟨c₁, matches_char.mpr ⟨x, hx⟩, ih.mpr ⟨run, by simpa using hlength, hrun⟩⟩

theorem matches_atMost_char {p : Char → Bool} {n : ℕ} {c c' : Cursor} :
    Matches word (atMost (char p) n) c c' ↔ ∃ run, run.length ≤ n ∧ Run p run c c' := by
  induction n generalizing c with
  | zero =>
      rw [atMost, matches_eps]
      constructor
      · intro h
        exact ⟨[], Nat.le_refl _, run_nil.mpr h⟩
      · rintro ⟨run, hlength, h⟩
        obtain rfl := List.length_eq_zero_iff.mp (Nat.le_zero.mp hlength)
        exact run_nil.mp h
  | succ n ih =>
      rw [atMost, opt, matches_alt, matches_seq, matches_eps]
      constructor
      · rintro (⟨c₁, h, h'⟩ | h)
        · obtain ⟨x, hx⟩ := matches_char.mp h
          obtain ⟨run, hlength, hrun⟩ := ih.mp h'
          exact ⟨x :: run, by simpa using hlength, hx.append hrun⟩
        · exact ⟨[], Nat.zero_le _, run_nil.mpr h⟩
      · rintro ⟨run, hlength, h⟩
        cases run with
        | nil => exact Or.inr (run_nil.mp h)
        | cons x run =>
            obtain ⟨c₁, hx, hrun⟩ := Run.uncons h
            exact Or.inl ⟨c₁, matches_char.mpr ⟨x, hx⟩, ih.mpr ⟨run, by simpa using hlength, hrun⟩⟩

theorem matches_between_char {p : Char → Bool} {m n : ℕ} (hmn : m ≤ n) {c c' : Cursor} :
    Matches word (between (char p) m n) c c' ↔
      ∃ run, m ≤ run.length ∧ run.length ≤ n ∧ Run p run c c' := by
  rw [between, matches_seq]
  constructor
  · rintro ⟨c₁, h, h'⟩
    obtain ⟨run, hlength, hrun⟩ := matches_times_char.mp h
    obtain ⟨run', hlength', hrun'⟩ := matches_atMost_char.mp h'
    refine ⟨run ++ run', ?_, ?_, hrun.append hrun'⟩
    · rw [List.length_append]
      omega
    · rw [List.length_append]
      omega
  · rintro ⟨run, hle, hle', h⟩
    rw [← List.take_append_drop m run] at h
    obtain ⟨c₁, hrun, hrun'⟩ := h.split
    refine ⟨c₁, matches_times_char.mpr ⟨_, ?_, hrun⟩, matches_atMost_char.mpr ⟨_, ?_, hrun'⟩⟩
    · rw [List.length_take]
      omega
    · rw [List.length_drop]
      omega

theorem matches_star_char {p : Char → Bool} {c c' : Cursor} :
    Matches word (star (char p)) c c' ↔ ∃ run, Run p run c c' := by
  constructor
  · intro h
    obtain ⟨run, hreads, hall⟩ := h.reads
    exact ⟨run, hreads, h.groups_eq rfl, hall⟩
  · rintro ⟨run, h⟩
    induction run generalizing c with
    | nil =>
        obtain rfl := run_nil.mp h
        exact .done _
    | cons x run ih =>
        obtain ⟨c₁, hx, hrun⟩ := Run.uncons h
        refine .more (run_singleton hx) ?_ (ih hrun)
        rw [hx.reads.1]
        simp

theorem matches_plus_char {p : Char → Bool} {c c' : Cursor} :
    Matches word (plus (char p)) c c' ↔ ∃ run, run ≠ [] ∧ Run p run c c' := by
  rw [plus, matches_seq]
  constructor
  · rintro ⟨c₁, h, h'⟩
    obtain ⟨x, hx⟩ := matches_char.mp h
    obtain ⟨run, hrun⟩ := matches_star_char.mp h'
    exact ⟨x :: run, List.cons_ne_nil _ _, hx.append hrun⟩
  · rintro ⟨run, hne, h⟩
    cases run with
    | nil => exact absurd rfl hne
    | cons x run =>
        obtain ⟨c₁, hx, hrun⟩ := Run.uncons h
        exact ⟨c₁, matches_char.mpr ⟨x, hx⟩, matches_star_char.mpr ⟨run, hrun⟩⟩

/-- A given text is read literally. -/
theorem matches_text {s : String} {c c' : Cursor} :
    Matches word (text s) c c' ↔ Reads s.toList c c' ∧ c'.groups = c.groups := by
  unfold text
  induction s.toList generalizing c with
  | nil =>
      rw [chars, matches_eps]
      constructor
      · rintro rfl
        exact ⟨reads_nil _, rfl⟩
      · rintro ⟨⟨hafter, hbefore⟩, hgroups⟩
        exact Cursor.ext hbefore hafter.symm hgroups
  | cons x cs ih =>
      rw [chars, matches_seq]
      constructor
      · rintro ⟨c₁, h, h'⟩
        obtain ⟨y, hy⟩ := matches_char.mp h
        obtain ⟨hreads, hgroups⟩ := ih.mp h'
        obtain rfl : y = x := by simpa using hy.all y
        exact ⟨hy.reads.append hreads, hgroups.trans hy.groups⟩
      · rintro ⟨⟨hafter, hbefore⟩, hgroups⟩
        refine ⟨⟨x :: c.before, cs ++ c'.after, c.groups⟩, ?_, ih.mpr ⟨⟨rfl, ?_⟩, hgroups⟩⟩
        · exact run_singleton ⟨⟨hafter, rfl⟩, rfl, by simp⟩
        · rw [hbefore, List.reverse_cons, List.append_assoc]
          rfl

/-! ## Scanning -/

/-- The place lies in this text, behind what was skipped, and nothing is captured. -/
def PlaceIn (before after : List Char) (c : Cursor) : Prop :=
  ∃ skipped, after = skipped ++ c.after ∧ c = ⟨skipped.reverse ++ before, c.after, []⟩

theorem PlaceIn.groups_eq {before after : List Char} {c : Cursor} (h : PlaceIn before after c) :
    c.groups = [] := by
  obtain ⟨skipped, -, hc⟩ := h
  rw [hc]

/-- A place behind what was read is a place of the text. -/
theorem PlaceIn.of_reads {before after read : List Char} {c d d' : Cursor}
    (hd : PlaceIn before after d) (hread : Reads read d d') (hc : PlaceIn d'.before d'.after c) :
    PlaceIn before after c := by
  obtain ⟨skipped, hafter, hd⟩ := hd
  obtain ⟨more, hmore, hc⟩ := hc
  refine ⟨skipped ++ read ++ more, ?_, ?_⟩
  · rw [hafter, hread.1, hmore]
    simp
  · rw [hread.2, hd] at hc
    rw [hc]
    simp

theorem placeIn_nil {txt : List Char} {c : Cursor} :
    PlaceIn [] txt c ↔ txt = c.before.reverse ++ c.after ∧ c.groups = [] := by
  constructor
  · rintro ⟨skipped, rfl, hc⟩
    rw [hc]
    simp
  · rintro ⟨rfl, hgroups⟩
    exact ⟨c.before.reverse, rfl, Cursor.ext (by simp) rfl hgroups⟩

/-- Where there is a match, one of them is preferred. -/
theorem exists_head?_ends {r : Regex} {c c' : Cursor} (h : Matches word r c c') :
    ∃ c₁, (ends word r c).head? = some c₁ ∧ Matches word r c c₁ := by
  cases hends : ends word r c with
  | nil =>
      have hmem := mem_ends.mpr h
      simp [hends] at hmem
  | cons c₁ cs => exact ⟨c₁, rfl, mem_ends.mp (hends ▸ List.mem_cons_self)⟩

theorem matches_of_head? {r : Regex} {c c' : Cursor} (h : (ends word r c).head? = some c') :
    Matches word r c c' :=
  mem_ends.mp (List.mem_of_head? h)

theorem searchFrom_eq_none {r : Regex} {before after : List Char}
    (h : searchFrom word r before after = none) {c c' : Cursor} (hc : PlaceIn before after c) :
    ¬Matches word r c c' := by
  intro hmatch
  obtain ⟨skipped, hafter, hc⟩ := hc
  rw [hc] at hmatch
  have hsome := isSome_searchFrom.mpr ⟨skipped, c.after, c', hafter, hmatch⟩
  simp [h] at hsome

/-- The search stops at the first place with a match. -/
theorem searchFrom_eq_some {r : Regex} {before after : List Char} {d d' : Cursor}
    (h : searchFrom word r before after = some (d, d')) :
    PlaceIn before after d ∧ (ends word r d).head? = some d' ∧
      ∀ c c', PlaceIn before after c → Matches word r c c' → ∃ more, d.after = more ++ c.after := by
  induction after generalizing before with
  | nil =>
      obtain ⟨c₁, hhead, heq⟩ := Option.map_eq_some_iff.mp h
      obtain ⟨rfl, rfl⟩ := Prod.mk.inj heq
      refine ⟨⟨[], rfl, rfl⟩, hhead, fun c c' hc _ ↦ ?_⟩
      obtain ⟨skipped, hafter, -⟩ := hc
      exact ⟨skipped, hafter⟩
  | cons x after ih =>
      unfold searchFrom at h
      cases hhead : (ends word r ⟨before, x :: after, []⟩).head? with
      | some c₁ =>
          rw [hhead] at h
          obtain ⟨rfl, rfl⟩ := Prod.mk.inj (Option.some.inj h)
          refine ⟨⟨[], rfl, rfl⟩, hhead, fun c c' hc _ ↦ ?_⟩
          obtain ⟨skipped, hafter, -⟩ := hc
          exact ⟨skipped, hafter⟩
      | none =>
          rw [hhead] at h
          obtain ⟨hd, hd', hfirst⟩ := ih h
          obtain ⟨skipped, rfl, hd⟩ := hd
          refine ⟨⟨x :: skipped, rfl, by rw [hd]; simp⟩, hd', fun c c' hc hmatch ↦ ?_⟩
          obtain ⟨skipped', hafter, hc⟩ := hc
          cases skipped' with
          | nil =>
              -- there is no match at the first place
              obtain rfl : c = ⟨before, x :: (skipped ++ d.after), []⟩ := by
                rw [hc, hafter]
                rfl
              have hmem := mem_ends.mpr hmatch
              rw [List.head?_eq_none_iff] at hhead
              simp [hhead] at hmem
          | cons y skipped' =>
              obtain ⟨rfl, htail⟩ := List.cons.inj hafter
              exact hfirst c c' ⟨skipped', htail, by rw [hc]; simp⟩ hmatch

/-- A match starts with a character of a kind that it does not read again. -/
def FirstOnly (word : Char → Bool) (first : Char → Bool) (r : Regex) : Prop :=
  ∀ c c', Matches word r c c' → ∃ x read, first x = true ∧ (∀ y ∈ read, first y = false) ∧
    Reads (x :: read) c c'

variable {first : Char → Bool} {r : Regex}

/-- No match starts strictly inside another one. -/
theorem FirstOnly.after_le (h : FirstOnly word first r) {c c' d' : Cursor}
    {read skipped : List Char} (hread : ∀ y ∈ read, first y = false)
    (hafter : read ++ d'.after = skipped ++ c.after) (hc : Matches word r c c') :
    ∃ more, skipped = read ++ more ∧ d'.after = more ++ c.after := by
  obtain ⟨z, read', hz, -, hreads, -⟩ := h c c' hc
  rcases List.append_eq_append_iff.mp hafter with ⟨more, hskip, hd'⟩ | ⟨inside, hskip, hc⟩
  · exact ⟨more, hskip, hd'⟩
  · cases inside with
    | nil => exact ⟨[], by simpa using hskip.symm, by simpa using hc.symm⟩
    | cons w inside =>
        -- the match would start with a character read before
        rw [hreads] at hc
        obtain ⟨rfl, -⟩ := List.cons.inj hc
        have hmem : z ∈ read := by simp [hskip]
        rw [hread z hmem] at hz
        cases hz

/-- Behind the match that the search found there are all the others. -/
theorem FirstOnly.eq_or_placeIn (h : FirstOnly word first r) {before after : List Char}
    {d d' : Cursor} (hsearch : searchFrom word r before after = some (d, d')) {c c' : Cursor}
    (hc : PlaceIn before after c) (hmatch : Matches word r c c') :
    c = d ∨ PlaceIn d'.before d'.after c := by
  obtain ⟨hd, hhead, hfirst⟩ := searchFrom_eq_some hsearch
  obtain ⟨x, read, -, hread, hreads⟩ := h d d' (matches_of_head? hhead)
  obtain ⟨more, hmore⟩ := hfirst c c' hc hmatch
  have hbefore : c = ⟨more.reverse ++ d.before, c.after, []⟩ := by
    obtain ⟨skipped, hafter, hc⟩ := hc
    obtain ⟨skipped', hafter', hd⟩ := hd
    rw [hafter', hmore, ← List.append_assoc] at hafter
    obtain rfl := List.append_cancel_right hafter
    rw [hd]
    simpa using hc
  cases more with
  | nil =>
      refine Or.inl (hbefore.trans ?_)
      exact Cursor.ext rfl (by simpa using hmore.symm) hd.groups_eq.symm
  | cons y more =>
      rw [hreads.1] at hmore
      obtain ⟨rfl, htail⟩ := List.cons.inj hmore
      obtain ⟨rest, rfl, hd'⟩ := h.after_le hread htail hmatch
      refine Or.inr ⟨rest, hd', hbefore.trans ?_⟩
      rw [hreads.2]
      simp

theorem mem_scanFrom (h : FirstOnly word first r) {n : ℕ} {before after : List Char}
    (hn : after.length ≤ n) {c c' : Cursor} :
    (c, c') ∈ scanFrom word r before after n ↔
      PlaceIn before after c ∧ (ends word r c).head? = some c' := by
  induction n generalizing before after with
  | zero =>
      obtain rfl := List.length_eq_zero_iff.mp (Nat.le_zero.mp hn)
      refine iff_of_false List.not_mem_nil ?_
      rintro ⟨⟨skipped, hafter, -⟩, hhead⟩
      obtain ⟨x, read, -, -, hreads, -⟩ := h c c' (matches_of_head? hhead)
      rw [hreads] at hafter
      simp at hafter
  | succ n ih =>
      unfold scanFrom
      cases hsearch : searchFrom word r before after with
      | none =>
          refine iff_of_false List.not_mem_nil ?_
          rintro ⟨hc, hhead⟩
          exact searchFrom_eq_none hsearch hc (matches_of_head? hhead)
      | some found =>
          obtain ⟨d, d'⟩ := found
          obtain ⟨hd, hhead, -⟩ := searchFrom_eq_some hsearch
          obtain ⟨x, read, -, -, hreads⟩ := h d d' (matches_of_head? hhead)
          have hlength : d'.after.length ≤ n := by
            obtain ⟨skipped, hafter, -⟩ := hd
            rw [hafter, hreads.1] at hn
            simp only [List.length_append, List.length_cons] at hn
            omega
          simp only [List.mem_cons, ih hlength, Prod.mk.injEq]
          constructor
          · rintro (⟨rfl, rfl⟩ | ⟨hc, hc'⟩)
            · exact ⟨hd, hhead⟩
            · exact ⟨hd.of_reads hreads hc, hc'⟩
          · rintro ⟨hc, hc'⟩
            rcases h.eq_or_placeIn hsearch hc (matches_of_head? hc') with rfl | hplace
            · exact Or.inl ⟨rfl, Option.some.inj (hc'.symm.trans hhead)⟩
            · exact Or.inr ⟨hplace, hc'⟩

/-- The scan finds the preferred match at every place of the text. -/
theorem mem_scan (h : FirstOnly word first r) {txt : List Char} {c c' : Cursor} :
    (c, c') ∈ scan word r txt ↔
      (txt = c.before.reverse ++ c.after ∧ c.groups = []) ∧
        (ends word r c).head? = some c' := by
  unfold scan
  rw [mem_scanFrom h (Nat.le_refl _), placeIn_nil]

end Regex

end HumanDataFactory
