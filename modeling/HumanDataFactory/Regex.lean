import Mathlib.Data.List.Basic

/-!
# Regular expressions with word boundaries

Matching as a relation between two places of a text, and a backtracking matcher
that lists the places a match can end in, the preferred one first.  A match in a
part of a text is a match in the whole text if the part is set off by
characters that are not word characters.
-/

namespace HumanDataFactory

/-- A place in a text: the characters before it, last one first, those after
it, and the groups captured so far. -/
@[ext] structure Cursor where
  before : List Char
  after : List Char
  groups : List (ℕ × List Char)
  deriving DecidableEq, Repr

namespace Cursor

/-- What lies between two places. -/
def upTo (c c' : Cursor) : List Char :=
  (c'.before.take (c'.before.length - c.before.length)).reverse

/-- Keep what was read since `c` as group `n`. -/
def capture (n : ℕ) (c c' : Cursor) : Cursor :=
  { c' with groups := (n, c.upTo c') :: c'.groups }

def group (c : Cursor) (n : ℕ) : Option (List Char) :=
  (c.groups.find? fun g ↦ g.1 = n).map Prod.snd

/-- Exactly one of the neighbours is a word character. -/
def atBoundary (word : Char → Bool) (c : Cursor) : Bool :=
  c.before.head?.any word != c.after.head?.any word

/-- The same place in a text that is longer on both sides. -/
def within (l r : List Char) (c : Cursor) : Cursor :=
  ⟨c.before ++ l, c.after ++ r, c.groups⟩

theorem upTo_within (l r : List Char) (c c' : Cursor) :
    (c.within l r).upTo (c'.within l r) = c.upTo c' := by
  have hlength : (c'.before ++ l).length - (c.before ++ l).length =
      c'.before.length - c.before.length := by
    simp only [List.length_append]
    omega
  have hle : c'.before.length - c.before.length ≤ c'.before.length := by omega
  simp only [upTo, within, hlength, List.take_append_of_le_length hle]

theorem capture_within (n : ℕ) (l r : List Char) (c c' : Cursor) :
    (c.within l r).capture n (c'.within l r) = (c.capture n c').within l r := by
  have hread := upTo_within l r c c'
  simp only [capture, hread]
  rfl

theorem any_head?_append {word : Char → Bool} {l : List Char} (h : l.head?.any word = false)
    (xs : List Char) : (xs ++ l).head?.any word = xs.head?.any word := by
  cases xs with
  | nil => simpa using h
  | cons x xs => simp

theorem atBoundary_within {word : Char → Bool} {l r : List Char} (hl : l.head?.any word = false)
    (hr : r.head?.any word = false) (c : Cursor) :
    (c.within l r).atBoundary word = c.atBoundary word := by
  simp only [atBoundary, within, any_head?_append hl, any_head?_append hr]

end Cursor

inductive Regex
  | eps
  | char (p : Char → Bool)
  | boundary
  | seq (r s : Regex)
  | alt (r s : Regex)
  | star (r : Regex)
  | group (n : ℕ) (r : Regex)

namespace Regex

def lit (c : Char) : Regex := char fun x ↦ x == c

/-- The characters of a list one after the other. -/
def chars (one : Char → Regex) : List Char → Regex
  | [] => eps
  | c :: cs => seq (one c) (chars one cs)

def text (s : String) : Regex := chars lit s.toList

def oneOf (s : String) : Regex := char fun x ↦ s.toList.contains x

def opt (r : Regex) : Regex := alt r eps

def plus (r : Regex) : Regex := seq r (star r)

/-- `r{n}`. -/
def times (r : Regex) : ℕ → Regex
  | 0 => eps
  | n + 1 => seq r (times r n)

/-- `r{0,n}`. -/
def atMost (r : Regex) : ℕ → Regex
  | 0 => eps
  | n + 1 => opt (seq r (atMost r n))

/-- `r{m,n}`. -/
def between (r : Regex) (m n : ℕ) : Regex := seq (times r m) (atMost r (n - m))

/-- The alternatives in their order; without any there is no match. -/
def anyOf : List Regex → Regex
  | [] => char fun _ ↦ false
  | [r] => r
  | r :: rs => alt r (anyOf rs)

def sequence : List Regex → Regex
  | [] => eps
  | [r] => r
  | r :: rs => seq r (sequence rs)

section Matching

variable (word : Char → Bool)

/-- `r` matches what lies between two places.  Each round of a star reads
something. -/
inductive Matches : Regex → Cursor → Cursor → Prop
  | eps (c : Cursor) : Matches eps c c
  | char {p : Char → Bool} {x : Char} (h : p x = true) (before after : List Char)
      (groups : List (ℕ × List Char)) :
      Matches (char p) ⟨before, x :: after, groups⟩ ⟨x :: before, after, groups⟩
  | boundary {c : Cursor} (h : c.atBoundary word = true) : Matches boundary c c
  | seq {r s : Regex} {c c₁ c₂ : Cursor} (h : Matches r c c₁) (h' : Matches s c₁ c₂) :
      Matches (seq r s) c c₂
  | altLeft {r s : Regex} {c c' : Cursor} (h : Matches r c c') : Matches (alt r s) c c'
  | altRight {r s : Regex} {c c' : Cursor} (h : Matches s c c') : Matches (alt r s) c c'
  | done {r : Regex} (c : Cursor) : Matches (star r) c c
  | more {r : Regex} {c c₁ c₂ : Cursor} (h : Matches r c c₁)
      (hread : c₁.after.length < c.after.length) (h' : Matches (star r) c₁ c₂) :
      Matches (star r) c c₂
  | group {n : ℕ} {r : Regex} {c c' : Cursor} (h : Matches r c c') :
      Matches (group n r) c (c.capture n c')

/-- The rounds of a star that read something, as many as possible first. -/
def rounds (step : Cursor → List Cursor) : ℕ → Cursor → List Cursor
  | 0, c => [c]
  | n + 1, c =>
      ((step c).filter fun c' ↦ c'.after.length < c.after.length).flatMap (rounds step n) ++ [c]

/-- The ends of the matches that start at a place, in the order in which
backtracking finds them. -/
def ends : Regex → Cursor → List Cursor
  | eps, c => [c]
  | char p, c =>
      match c.after with
      | [] => []
      | x :: after => if p x then [⟨x :: c.before, after, c.groups⟩] else []
  | boundary, c => if c.atBoundary word then [c] else []
  | seq r s, c => (ends r c).flatMap (ends s)
  | alt r s, c => ends r c ++ ends s c
  | star r, c => rounds (ends r) c.after.length c
  | group n r, c => (ends r c).map (c.capture n)

variable {word}

theorem matches_of_mem_rounds {r : Regex} (hends : ∀ c, ∀ c' ∈ ends word r c, Matches word r c c')
    {n : ℕ} {c c' : Cursor} (h : c' ∈ rounds (ends word r) n c) : Matches word (star r) c c' := by
  induction n generalizing c with
  | zero =>
      obtain rfl := List.mem_singleton.mp h
      exact .done _
  | succ n ih =>
      rcases List.mem_append.mp h with h | h
      · obtain ⟨c₁, hc₁, h⟩ := List.mem_flatMap.mp h
        obtain ⟨hc₁, hread⟩ := List.mem_filter.mp hc₁
        exact .more (hends c c₁ hc₁) (of_decide_eq_true hread) (ih h)
      · obtain rfl := List.mem_singleton.mp h
        exact .done _

theorem matches_of_mem_ends {r : Regex} {c c' : Cursor} (h : c' ∈ ends word r c) :
    Matches word r c c' := by
  induction r generalizing c c' with
  | eps =>
      obtain rfl := List.mem_singleton.mp h
      exact .eps _
  | char p =>
      obtain ⟨before, after, groups⟩ := c
      cases after with
      | nil => simp [ends] at h
      | cons x after =>
          by_cases hp : p x = true
          · obtain rfl : c' = ⟨x :: before, after, groups⟩ := by simpa [ends, hp] using h
            exact .char hp _ _ _
          · simp [ends, hp] at h
  | boundary =>
      by_cases hb : c.atBoundary word = true
      · obtain rfl : c' = c := by simpa [ends, hb] using h
        exact .boundary hb
      · simp [ends, hb] at h
  | seq r s ihr ihs =>
      obtain ⟨c₁, hc₁, h⟩ := List.mem_flatMap.mp h
      exact .seq (ihr hc₁) (ihs h)
  | alt r s ihr ihs =>
      rcases List.mem_append.mp h with h | h
      · exact .altLeft (ihr h)
      · exact .altRight (ihs h)
  | star r ih => exact matches_of_mem_rounds (fun _ _ ↦ ih) h
  | group n r ih =>
      obtain ⟨c₁, hc₁, rfl⟩ := List.mem_map.mp h
      exact .group (ih hc₁)

theorem mem_rounds_self (step : Cursor → List Cursor) (n : ℕ) (c : Cursor) :
    c ∈ rounds step n c := by
  cases n <;> simp [rounds]

/-- The matcher finds every match; a star needs no more rounds than there are
characters. -/
theorem mem_ends_of_matches {r : Regex} {c c' : Cursor} (h : Matches word r c c') :
    c' ∈ ends word r c ∧ ∀ s, r = star s → ∀ n, c.after.length ≤ n →
      c' ∈ rounds (ends word s) n c := by
  induction h with
  | eps c => exact ⟨List.mem_singleton_self c, by simp⟩
  | char h => exact ⟨by simp [ends, h], by simp⟩
  | boundary h => exact ⟨by simp [ends, h], by simp⟩
  | seq h h' ih ih' => exact ⟨List.mem_flatMap.mpr ⟨_, ih.1, ih'.1⟩, by simp⟩
  | altLeft h ih => exact ⟨List.mem_append_left _ ih.1, by simp⟩
  | altRight h ih => exact ⟨List.mem_append_right _ ih.1, by simp⟩
  | done c => exact ⟨mem_rounds_self _ _ _, fun s _ n _ ↦ mem_rounds_self _ _ _⟩
  | @more r c c₁ c₂ h hread h' ih ih' =>
      have hrounds : ∀ n, c.after.length ≤ n → c₂ ∈ rounds (ends word r) n c := by
        intro n hn
        cases n with
        | zero => omega
        | succ n =>
            apply List.mem_append_left
            exact List.mem_flatMap.mpr ⟨c₁, List.mem_filter.mpr ⟨ih.1, decide_eq_true hread⟩,
              ih'.2 r rfl n (by omega)⟩
      refine ⟨hrounds _ (Nat.le_refl _), fun s hs n hn ↦ ?_⟩
      obtain rfl := star.inj hs
      exact hrounds n hn
  | group h ih => exact ⟨List.mem_map_of_mem ih.1, by simp⟩

theorem mem_ends {r : Regex} {c c' : Cursor} : c' ∈ ends word r c ↔ Matches word r c c' :=
  ⟨matches_of_mem_ends, fun h ↦ (mem_ends_of_matches h).1⟩

/-- A match stays one in a longer text. -/
theorem Matches.within {r : Regex} {c c' : Cursor} (h : Matches word r c c')
    {before after : List Char} (hbefore : before.head?.any word = false)
    (hafter : after.head?.any word = false) :
    Matches word r (c.within before after) (c'.within before after) := by
  induction h with
  | eps c => exact .eps _
  | char h => exact .char h _ _ _
  | boundary h =>
      apply Matches.boundary
      rwa [Cursor.atBoundary_within hbefore hafter]
  | seq h h' ih ih' => exact .seq ih ih'
  | altLeft h ih => exact .altLeft ih
  | altRight h ih => exact .altRight ih
  | done c => exact .done _
  | more h hread h' ih ih' =>
      refine .more ih ?_ ih'
      simp only [Cursor.within, List.length_append]
      omega
  | group h ih =>
      rw [← Cursor.capture_within]
      exact .group ih

end Matching

section Searching

variable (word : Char → Bool) (r : Regex)

/-- The first place from here on where a match starts, and where it ends. -/
def searchFrom (before : List Char) : List Char → Option (Cursor × Cursor)
  | [] => (ends word r ⟨before, [], []⟩).head?.map fun c ↦ (⟨before, [], []⟩, c)
  | x :: after =>
      match (ends word r ⟨before, x :: after, []⟩).head? with
      | some c => some (⟨before, x :: after, []⟩, c)
      | none => searchFrom (x :: before) after

def search (text : List Char) : Option (Cursor × Cursor) :=
  searchFrom word r [] text

/-- The matches one after the other, each search starting where the match
before ended; for expressions that do not match the empty text. -/
def scanFrom (before after : List Char) : ℕ → List (Cursor × Cursor)
  | 0 => []
  | n + 1 =>
      match searchFrom word r before after with
      | some (c, c') => (c, c') :: scanFrom c'.before c'.after n
      | none => []

def scan (text : List Char) : List (Cursor × Cursor) :=
  scanFrom word r [] text text.length

variable {word r}

theorem isSome_searchFrom {before after : List Char} :
    (searchFrom word r before after).isSome = true ↔ ∃ read rest c, after = read ++ rest ∧
      Matches word r ⟨read.reverse ++ before, rest, []⟩ c := by
  induction after generalizing before with
  | nil =>
      have hnone : ∀ read rest : List Char, [] = read ++ rest → read = [] ∧ rest = [] :=
        fun read rest h ↦ List.append_eq_nil_iff.mp h.symm
      simp only [searchFrom, Option.isSome_map, List.isSome_head?]
      constructor
      · intro h
        obtain ⟨c, hc⟩ := List.exists_mem_of_ne_nil _ h
        exact ⟨[], [], c, rfl, matches_of_mem_ends hc⟩
      · rintro ⟨read, rest, c, htext, h⟩
        obtain ⟨rfl, rfl⟩ := hnone read rest htext
        exact List.ne_nil_of_mem (mem_ends.mpr h)
  | cons x after ih =>
      unfold searchFrom
      cases hhead : (ends word r ⟨before, x :: after, []⟩).head? with
      | some c =>
          have hc := List.mem_of_head? hhead
          exact iff_of_true rfl ⟨[], x :: after, c, rfl, matches_of_mem_ends hc⟩
      | none =>
          rw [List.head?_eq_none_iff] at hhead
          simp only [ih]
          constructor
          · rintro ⟨read, rest, c, rfl, h⟩
            exact ⟨x :: read, rest, c, rfl, by simpa using h⟩
          · rintro ⟨read, rest, c, htext, h⟩
            cases read with
            | nil =>
                obtain rfl : x :: after = rest := htext
                have hc := mem_ends.mpr h
                simp [hhead] at hc
            | cons y read =>
                obtain ⟨rfl, rfl⟩ := List.cons.inj htext
                exact ⟨read, rest, c, rfl, by simpa using h⟩

theorem isSome_search {text : List Char} : (search word r text).isSome = true ↔
    ∃ before after c, text = before.reverse ++ after ∧ Matches word r ⟨before, after, []⟩ c := by
  unfold search
  rw [isSome_searchFrom]
  constructor
  · rintro ⟨read, rest, c, rfl, h⟩
    exact ⟨read.reverse, rest, c, by simp, by simpa using h⟩
  · rintro ⟨before, after, c, rfl, h⟩
    exact ⟨before.reverse, after, c, rfl, by simpa using h⟩

/-- What is found in a part is found in the whole. -/
theorem isSome_search_append {text : List Char} (h : (search word r text).isSome = true)
    (before after : List Char) (hbefore : before.getLast?.any word = false)
    (hafter : after.head?.any word = false) :
    (search word r (before ++ text ++ after)).isSome = true := by
  obtain ⟨left, right, c, rfl, hmatch⟩ := isSome_search.mp h
  have hlast : before.reverse.head?.any word = false := by
    rwa [List.head?_reverse]
  refine isSome_search.mpr ⟨left ++ before.reverse, right ++ after, _, ?_,
    hmatch.within hlast hafter⟩
  simp

/-- Where parts are joined by a separator that is no word character, each part
is set off from the rest. -/
theorem exists_intercalate {sep : Char} (hsep : word sep = false) {parts : List (List Char)}
    {part : List Char} (hpart : part ∈ parts) :
    ∃ before after, [sep].intercalate parts = before ++ part ++ after ∧
      before.getLast?.any word = false ∧ after.head?.any word = false := by
  induction parts with
  | nil => cases hpart
  | cons p parts ih =>
      cases parts with
      | nil =>
          obtain rfl := List.mem_singleton.mp hpart
          exact ⟨[], [], by simp [List.intercalate], rfl, rfl⟩
      | cons q parts =>
          have hjoined : [sep].intercalate (p :: q :: parts) =
              p ++ sep :: [sep].intercalate (q :: parts) := by
            simp [List.intercalate]
          rw [hjoined]
          rcases List.mem_cons.mp hpart with rfl | hpart
          · exact ⟨[], sep :: [sep].intercalate (q :: parts), rfl, rfl, by simpa using hsep⟩
          · obtain ⟨before, after, hrest, hbefore, hafter⟩ := ih hpart
            refine ⟨p ++ sep :: before, after, by simp [hrest], ?_, hafter⟩
            cases hget : before.getLast? with
            | none =>
                obtain rfl := List.getLast?_eq_none_iff.mp hget
                simpa using hsep
            | some x => simpa [List.getLast?_cons, hget] using hbefore

/-- What is found in one of several parts is found in the parts joined. -/
theorem isSome_search_intercalate {sep : Char} (hsep : word sep = false) {parts : List (List Char)}
    {part : List Char} (hpart : part ∈ parts) (h : (search word r part).isSome = true) :
    (search word r ([sep].intercalate parts)).isSome = true := by
  obtain ⟨before, after, hjoined, hbefore, hafter⟩ := exists_intercalate hsep hpart
  rw [hjoined]
  exact isSome_search_append h before after hbefore hafter

end Searching

end Regex

end HumanDataFactory
