import HumanDataFactory.CheckDigit
import HumanDataFactory.Development
import HumanDataFactory.Regex.Longest
import HumanDataFactory.Validators.Citations
import HumanDataFactory.Validators.Findings

/-!
# Card numbers

The Luhn check of `_luhn`, and which card numbers of a text it is applied to:
`_CARD` reads from left to right, takes as many digits as it can, and goes on
behind what it took.
-/

namespace HumanDataFactory

namespace Validators

open Regex

variable {u : Unicode}

/-! ## The check digit -/

/-- What a digit adds to the Luhn sum, as it is and doubled. -/
def luhnWeight (doubled : Bool) (n : ℕ) : ℕ :=
  if doubled then (if 9 < n * 2 then n * 2 - 9 else n * 2) else n

theorem foldl_luhnStep (ns : List ℕ) (acc : ℕ × Bool) :
    (ns.foldl luhnStep acc).1 = acc.1 + CheckDigit.total luhnWeight acc.2 ns := by
  induction ns generalizing acc with
  | nil => rfl
  | cons n ns ih =>
      rw [List.foldl_cons, ih, CheckDigit.total, ← Nat.add_assoc]
      rfl

variable (u) in
/-- `int(d)` of a digit. -/
def valueOf (d : Char) : ℕ :=
  (u.decimal d).getD 0

theorem luhn_iff {digits : List Char} :
    luhn u digits = true ↔ CheckDigit.Valid luhnWeight 10 (digits.map (valueOf u)) := by
  have hsum := foldl_luhnStep (digits.map (valueOf u)).reverse (0, false)
  rw [Nat.zero_add] at hsum
  unfold CheckDigit.Valid Nat.ModEq
  rw [← hsum]
  exact decide_eq_true_iff

theorem valueOf_lt (d : Char) : valueOf u d < 10 := by
  unfold valueOf
  cases h : u.decimal d with
  | none => exact Nat.zero_lt_succ 9
  | some n => exact u.decimal_lt d n h

/-- Doubling permutes the digits. -/
theorem luhnWeight_injective : ∀ b, ∀ m < 10, ∀ n < 10, m ≠ n →
    ¬luhnWeight b m ≡ luhnWeight b n [MOD 10] := by
  decide

/-- Of two digits, one doubled, only 0 and 9 add the same either way. -/
theorem luhnWeight_swap : ∀ b, ∀ m < 10, ∀ n < 10,
    m ≠ n ∧ ¬(m = 0 ∧ n = 9) ∧ ¬(m = 9 ∧ n = 0) →
      ¬luhnWeight b m + luhnWeight (!b) n ≡ luhnWeight b n + luhnWeight (!b) m [MOD 10] := by
  intro b m hm n hn h
  unfold Nat.ModEq luhnWeight
  cases b with
  | false =>
      simp only [Bool.not_false, Bool.false_eq_true, if_false, if_true]
      split <;> split <;> omega
  | true =>
      simp only [Bool.not_true, Bool.false_eq_true, if_false, if_true]
      split <;> split <;> omega

theorem decimal_eq {d : Char} (h : u.isDecimal d = true) : u.decimal d = some (valueOf u d) := by
  obtain ⟨n, hn⟩ := Option.isSome_iff_exists.mp h
  simp [valueOf, hn]

theorem luhn_substituted {before after : List Char} {d e : Char}
    (h : luhn u (before ++ d :: after) = true) (hne : valueOf u e ≠ valueOf u d) :
    luhn u (before ++ e :: after) = false := by
  have hweight (b : Bool) := luhnWeight_injective b _ (valueOf_lt e) _ (valueOf_lt d) hne
  rw [luhn_iff, List.map_append, List.map_cons] at h
  apply Bool.eq_false_iff.mpr
  rw [ne_eq, luhn_iff, List.map_append, List.map_cons]
  exact CheckDigit.not_valid_of_substituted hweight h

theorem luhn_transposed {before after : List Char} {d e : Char}
    (h : luhn u (before ++ d :: e :: after) = true) (hne : valueOf u d ≠ valueOf u e)
    (hleft : ¬(valueOf u d = 0 ∧ valueOf u e = 9)) (hright : ¬(valueOf u d = 9 ∧ valueOf u e = 0)) :
    luhn u (before ++ e :: d :: after) = false := by
  have hweight (b : Bool) :=
    luhnWeight_swap b _ (valueOf_lt d) _ (valueOf_lt e) ⟨hne, hleft, hright⟩
  simp only [luhn_iff, List.map_append, List.map_cons] at h
  apply Bool.eq_false_iff.mpr
  rw [ne_eq, luhn_iff]
  simpa only [List.map_append, List.map_cons] using CheckDigit.not_valid_of_transposed hweight h

/-- The check detects one wrong digit, and two neighbours exchanged unless they
are 0 and 9. -/
theorem luhn_detects {digits : List Char} (hdigits : ∀ d ∈ digits, u.isDecimal d = true)
    (h : luhn u digits = true) :
    (∀ before d after e, digits = before ++ d :: after → u.isDecimal e = true →
        u.decimal e ≠ u.decimal d → luhn u (before ++ e :: after) = false) ∧
      ∀ before d e after, digits = before ++ d :: e :: after → u.decimal d ≠ u.decimal e →
        ¬(u.decimal d = some 0 ∧ u.decimal e = some 9) →
        ¬(u.decimal d = some 9 ∧ u.decimal e = some 0) →
          luhn u (before ++ e :: d :: after) = false := by
  constructor
  · intro before d after e hsplit he hne
    have hd : u.isDecimal d = true := hdigits d (by simp [hsplit])
    rw [hsplit] at h
    rw [decimal_eq he, decimal_eq hd] at hne
    exact luhn_substituted h fun heq ↦ hne (congrArg some heq)
  · intro before d e after hsplit hne hleft hright
    have hd : u.isDecimal d = true := hdigits d (by simp [hsplit])
    have he : u.isDecimal e = true := hdigits e (by simp [hsplit])
    rw [hsplit] at h
    rw [decimal_eq hd, decimal_eq he] at hne hleft hright
    simp only [Option.some.injEq] at hleft hright
    exact luhn_transposed h (fun heq ↦ hne (congrArg some heq)) hleft hright

theorem luhn_of_visa : luhn .ascii "4111111111111112".toList = false ∧
    luhn .ascii "1411111111111111".toList = false := by
  have hdigits : ∀ d ∈ "4111111111111111".toList, Unicode.ascii.isDecimal d = true := by
    refine List.all_eq_true.mp ?_
    decide
  have hdetects := luhn_detects (u := .ascii) hdigits (by decide)
  exact ⟨hdetects.1 "411111111111111".toList '1' [] '2' (by decide) (by decide) (by decide),
    hdetects.2 [] '4' '1' "11111111111111".toList (by decide) (by decide) (by decide) (by decide)⟩

/-! ## Stretches that look like a card number -/

/-- `[ -]`. -/
def gap (c : Char) : Bool := " -".toList.contains c

/-- 13 to 19 digits, each perhaps with one space or hyphen behind it, of which the
last one has none, and no word character next to them.  The text before is given
last character first. -/
structure CardLike (u : Unicode) (before read after : List Char) : Prop where
  apart_before : before.head?.any u.isWord = false
  items : ∃ n, (13 ≤ n ∧ n ≤ 19) ∧ Items u.isDecimal gap n read
  last : read.getLast?.any u.isDecimal = true
  apart_after : after.head?.any u.isWord = false

theorem gap_iff {c : Char} : gap c = true ↔ c = ' ' ∨ c = '-' := by
  simp [gap]

theorem isWord_of_gap {c : Char} (h : gap c = true) : u.isWord c = false := by
  rcases gap_iff.mp h with rfl | rfl
  · simp [Unicode.isWord, u.isAlnum_ascii ' ' (by decide)]
  · simp [Unicode.isWord, u.isAlnum_ascii '-' (by decide)]

theorem isDecimal_of_not_isWord {c : Char} (h : u.isWord c = false) : u.isDecimal c = false := by
  by_contra hdecimal
  rw [isWord_of_isDecimal (by simpa using hdecimal)] at h
  cases h

theorem isDecimal_of_gap {c : Char} (h : gap c = true) : u.isDecimal c = false :=
  isDecimal_of_not_isWord (isWord_of_gap h)

theorem CARD_eq : CARD u = seq boundary (seq (between (item u.isDecimal gap) 13 19) boundary) :=
  rfl

theorem greedy_CARD : Greedy u.isWord (CARD u) := by
  rw [CARD_eq]
  exact (greedy_between_item (fun _ ↦ isDecimal_of_gap) 13 19).seq_boundary.boundary_seq

theorem head?_any_of_items {n : ℕ} {read : List Char} (h : Items u.isDecimal gap n read)
    (hn : 0 < n) (after : List Char) : (read ++ after).head?.any u.isWord = true := by
  cases h with
  | nil => cases hn
  | next hx h => simpa using isWord_of_isDecimal hx
  | apart hx hy h => simpa using isWord_of_isDecimal hx

theorem head?_reverse_any {read : List Char} (h : read.getLast?.any u.isDecimal = true)
    (before : List Char) : (read.reverse ++ before).head?.any u.isWord = true := by
  cases hget : read.getLast? with
  | none => simp [hget] at h
  | some x =>
      have hx : u.isDecimal x = true := by simpa [hget] using h
      simpa [List.head?_append, hget] using isWord_of_isDecimal hx

/-- What `_CARD` reads: as many digits, and a boundary on each side. -/
theorem occurs_CARD {before read after : List Char} : Occurs u.isWord (CARD u) before read after ↔
    before.head?.any u.isWord = false ∧ ∃ n, (13 ≤ n ∧ n ≤ 19) ∧ Items u.isDecimal gap n read ∧
      (read.reverse ++ before).head?.any u.isWord ≠ after.head?.any u.isWord := by
  simp only [Occurs, CARD_eq, matches_seq, matches_boundary,
    matches_between_item (show 13 ≤ 19 by decide)]
  constructor
  · rintro ⟨c', ⟨c₁, ⟨rfl, hstart⟩, c₂, ⟨n, hn, read', hitems, hreads, -⟩, rfl, hend⟩, hbefore,
      rfl⟩
    obtain rfl : read = read' := List.append_cancel_right hreads.1
    have hword := head?_any_of_items hitems (by omega) c'.after
    refine ⟨?_, n, hn, hitems, ?_⟩
    · simpa only [Cursor.atBoundary, hword, bne_iff_ne, ne_eq, Bool.not_eq_true] using hstart
    · simpa only [Cursor.atBoundary, hbefore, bne_iff_ne] using hend
  · rintro ⟨hbefore, n, hn, hitems, hend⟩
    have hword := head?_any_of_items hitems (by omega) after
    refine ⟨⟨read.reverse ++ before, after, []⟩, ⟨⟨before, read ++ after, []⟩, ⟨rfl, ?_⟩,
      ⟨read.reverse ++ before, after, []⟩, ⟨n, hn, read, hitems, ⟨rfl, rfl⟩, rfl⟩, rfl, ?_⟩,
      rfl, rfl⟩
    · simp only [Cursor.atBoundary, hbefore, hword, bne_iff_ne, ne_eq, Bool.false_eq_true,
        not_false_eq_true]
    · simpa only [Cursor.atBoundary, bne_iff_ne] using hend

theorem CardLike.occurs {before read after : List Char} (h : CardLike u before read after) :
    Occurs u.isWord (CARD u) before read after := by
  obtain ⟨n, hn, hitems⟩ := h.items
  refine occurs_CARD.mpr ⟨h.apart_before, n, hn, hitems, ?_⟩
  rw [head?_reverse_any h.last, h.apart_after]
  decide

/-- The pattern also reads the space or hyphen behind the last digit. -/
theorem cardLike_of_occurs {before read after : List Char}
    (h : Occurs u.isWord (CARD u) before read after) : CardLike u before read after ∨
      ∃ read' y, read = read' ++ [y] ∧ gap y = true ∧ CardLike u before read' (y :: after) := by
  obtain ⟨hbefore, n, hn, hitems, hend⟩ := occurs_CARD.mp h
  rcases hitems.last (by omega) with hlast | ⟨read', y, rfl, hy, hitems', hlast⟩
  · rw [head?_reverse_any hlast] at hend
    exact Or.inl ⟨hbefore, ⟨n, hn, hitems⟩, hlast, by simpa using hend.symm⟩
  · exact Or.inr ⟨read', y, rfl, hy, hbefore, ⟨n, hn, hitems'⟩, hlast,
      by simpa using isWord_of_gap hy⟩

/-! ## Which of them are checked -/

theorem CardLike.ne_cons_of_gap {before read after : List Char} {y : Char} (hy : gap y = true)
    (h : CardLike u before (y :: read) after) : False := by
  obtain ⟨n, hn, hitems⟩ := h.items
  have hdecimal : u.isDecimal y = true := by
    cases hitems with
    | next hx h => exact hx
    | apart hx hy h => exact hx
  rw [isDecimal_of_gap hy] at hdecimal
  cases hdecimal

theorem CardLike.ne_nil {before after : List Char} : ¬CardLike u before [] after := by
  intro h
  have hlast := h.last
  cases hlast

/-- It ends with a digit, so not with a space or hyphen behind another one. -/
theorem CardLike.length_le_of_gap {before read after read' after' : List Char} {y : Char}
    (h : CardLike u before read' after') (hy : gap y = true)
    (htext : read ++ (y :: after) = read' ++ after')
    (hle : read'.length ≤ (read ++ [y]).length) : read'.length ≤ read.length := by
  by_contra hlt
  have hlength : (read ++ [y]).length = read'.length := by
    rw [List.length_append, List.length_singleton] at hle ⊢
    omega
  have hsplit : read ++ [y] ++ after = read' ++ after' := by simpa using htext
  obtain ⟨rfl, -⟩ := List.append_inj hsplit hlength
  have hlast : u.isDecimal y = true := by simpa using h.last
  rw [isDecimal_of_gap hy] at hlast
  cases hlast

/-- What the scan reads is, up to a space or hyphen behind it, what is taken of the
stretches. -/
theorem exists_taken_cardLike {before rest : List Char} {reads : List (List Char)}
    (h : Taken (Occurs u.isWord (CARD u)) before rest reads) :
    ∃ reads', Taken (CardLike u) before rest reads' ∧
      reads'.map (List.filter u.isDecimal) = reads.map (List.filter u.isDecimal) := by
  induction h with
  | none hnone =>
      exact ⟨[], .none fun skipped read after hrest h ↦ hnone _ _ _ hrest h.occurs, rfl⟩
  | @take before skipped read after reads h hfirst hlongest htail ih =>
      obtain ⟨reads', htaken, hmap⟩ := ih
      have hfirst' (skipped' read' after' : List Char)
          (hrest : skipped ++ (read ++ after) = skipped' ++ (read' ++ after'))
          (h' : CardLike u (skipped'.reverse ++ before) read' after') :
          skipped.length ≤ skipped'.length :=
        hfirst _ _ _ hrest h'.occurs
      rcases cardLike_of_occurs h with hcard | ⟨read₀, y, rfl, hy, hcard⟩
      · refine ⟨read :: reads', .take hcard hfirst' ?_ htaken, ?_⟩
        · exact fun read' after' hread h' ↦ hlongest _ _ hread h'.occurs
        · simp only [List.map_cons, hmap]
      · -- the space or hyphen is left to the rest, where nothing starts with it
        have hsplit : read₀ ++ [y] ++ after = read₀ ++ (y :: after) := by simp
        rw [hsplit] at hfirst' hlongest ⊢
        have hskip : Taken (CardLike u) (read₀.reverse ++ (skipped.reverse ++ before)) (y :: after)
            reads' := by
          refine Taken.skip (fun _ _ _ ↦ CardLike.ne_cons_of_gap hy) (fun _ _ ↦ CardLike.ne_nil) ?_
          simpa using htaken
        refine ⟨read₀ :: reads', .take hcard hfirst' ?_ hskip, ?_⟩
        · intro read' after' hread h'
          exact h'.length_le_of_gap hy hread (hlongest _ _ hread h'.occurs)
        · simp [hmap, isDecimal_of_gap hy]

theorem mem_checkPii_card {text : String} :
    (∃ f ∈ checkPii u text, f.code = "PII_CARD") ↔
      (u.finditer (CARD u) text).any (isCard u) = true := by
  have hreport (r : Regex) (finding f : Finding) (hcode : finding.code ≠ "PII_CARD")
      (hf : f ∈ reportMatch u r text finding) : f.code ≠ "PII_CARD" := by
    obtain ⟨-, hf⟩ := List.mem_ite_nil_right.mp hf
    rwa [List.mem_singleton.mp hf]
  unfold checkPii
  simp only [List.mem_append]
  constructor
  · rintro ⟨f, (((hf | hf) | hf) | hf) | hf, hcode⟩
    · exact absurd hcode (hreport _ _ f (by decide) hf)
    · exact absurd hcode (hreport _ _ f (by decide) hf)
    · exact absurd hcode (hreport _ _ f (by decide) hf)
    · exact absurd hcode (hreport _ _ f (by decide) hf)
    · exact (List.mem_ite_nil_right.mp hf).1
  · intro h
    exact ⟨_, Or.inr (List.mem_ite_nil_right.mpr ⟨h, List.mem_singleton_self _⟩), rfl⟩

/-- A match has as many digits as the check asks for. -/
theorem isCard_iff {m : Cursor × Cursor} {before after : List Char}
    (h : Occurs u.isWord (CARD u) before (m.1.upTo m.2) after) :
    isCard u m = true ↔ luhn u ((m.1.upTo m.2).filter u.isDecimal) = true := by
  obtain ⟨-, n, hn, hitems, -⟩ := occurs_CARD.mp h
  have hlength := hitems.length_filter fun _ ↦ isDecimal_of_gap
  simp only [isCard, hlength, hn, and_self, decide_true, Bool.true_and]

variable (u) in
/-- One of the matches is reported if and only if one of the stretches taken is valid. -/
theorem exists_taken_finditer (text : String) : ∃ reads, Taken (CardLike u) [] text.toList reads ∧
    ((u.finditer (CARD u) text).any (isCard u) = true ↔
      ∃ read ∈ reads, luhn u (read.filter u.isDecimal) = true) := by
  have hne (before after : List Char) : ¬Occurs u.isWord (CARD u) before [] after := by
    intro h
    obtain ⟨-, n, hn, hitems, -⟩ := occurs_CARD.mp h
    cases hitems
    omega
  have hscan : Taken (Occurs u.isWord (CARD u)) [] text.toList
      ((u.finditer (CARD u) text).map fun m ↦ m.1.upTo m.2) :=
    taken_scanFrom greedy_CARD hne (Nat.le_refl _)
  obtain ⟨reads, htaken, hmap⟩ := exists_taken_cardLike hscan
  refine ⟨reads, htaken, ?_⟩
  calc (u.finditer (CARD u) text).any (isCard u) = true
      ↔ ∃ m ∈ u.finditer (CARD u) text, luhn u ((m.1.upTo m.2).filter u.isDecimal) = true := by
        rw [List.any_eq_true]
        refine exists_congr fun m ↦ and_congr_right fun hm ↦ ?_
        obtain ⟨before, after, hoccurs⟩ := hscan.occurs (List.mem_map_of_mem hm)
        exact isCard_iff hoccurs
    _ ↔ ∃ digits ∈ reads.map (List.filter u.isDecimal), luhn u digits = true := by
        rw [hmap, List.map_map]
        simp only [List.mem_map, exists_exists_and_eq_and, Function.comp_apply]
    _ ↔ ∃ read ∈ reads, luhn u (read.filter u.isDecimal) = true := by
        simp only [List.mem_map, exists_exists_and_eq_and]

theorem any_isCard_iff {text : String} : (u.finditer (CARD u) text).any (isCard u) = true ↔
    ∃ reads, Taken (CardLike u) [] text.toList reads ∧
      ∃ read ∈ reads, luhn u (read.filter u.isDecimal) = true := by
  obtain ⟨reads, htaken, hany⟩ := exists_taken_finditer u text
  rw [hany]
  constructor
  · intro h
    exact ⟨reads, htaken, h⟩
  · rintro ⟨reads', htaken', h⟩
    rwa [htaken.unique htaken']

/-! ## Whether a card number is found -/

/-- The text holds a valid card number. -/
def HoldsCard (u : Unicode) (text : String) : Prop :=
  ∃ before read after, text.toList = before ++ (read ++ after) ∧
    CardLike u before.reverse read after ∧ luhn u (read.filter u.isDecimal) = true

def ReportsCard (u : Unicode) (content : List (String × Json)) : Prop :=
  ∃ f ∈ checkPii u (textBlob content), f.code = "PII_CARD"

variable (u) in
/-- Card numbers in the strings of the content are reported exactly if there are
none, or one of the stretches taken when the text is read from left to right, the
longest at each place, is valid. -/
theorem reportsCard_iff (content : List (String × Json)) :
    ((∃ k text, (k, Json.str text) ∈ content ∧ HoldsCard u text) → ReportsCard u content) ↔
      (∀ k text, (k, Json.str text) ∈ content → ¬HoldsCard u text) ∨
        ∃ reads, Taken (CardLike u) [] (textBlob content).toList reads ∧
          ∃ read ∈ reads, luhn u (read.filter u.isDecimal) = true := by
  rw [ReportsCard, mem_checkPii_card, any_isCard_iff, imp_iff_not_or]
  refine or_congr_left ⟨fun hnone k text hmem hcard ↦ hnone ⟨k, text, hmem, hcard⟩, ?_⟩
  rintro hnone ⟨k, text, hmem, hcard⟩
  exact hnone k text hmem hcard

/-- A card number and the month it expires. -/
def receipt : List (String × Json) :=
  [("response", .str "Paid with card 4111 1111 1111 1111 12/27.")]

theorem holdsCard_receipt : HoldsCard .ascii "Paid with card 4111 1111 1111 1111 12/27." := by
  refine ⟨"Paid with card ".toList, "4111 1111 1111 1111".toList, " 12/27.".toList, by decide,
    ⟨by decide, ⟨16, by decide, ?_⟩, by decide, by decide⟩, by decide⟩
  repeat first
    | exact .nil
    | refine .apart (by decide) (by decide) ?_
    | refine .next (by decide) ?_

theorem receipt_unreported : ¬((∃ k text, (k, Json.str text) ∈ receipt ∧ HoldsCard .ascii text) →
    ReportsCard .ascii receipt) := by
  intro h
  have hreports := h ⟨_, _, List.mem_singleton_self _, holdsCard_receipt⟩
  rw [ReportsCard, mem_checkPii_card] at hreports
  revert hreports
  decide +kernel

/-- On this side, nearest character first, no digit is one space or hyphen away. -/
def Clear (u : Unicode) (side : List Char) : Prop :=
  ∀ y x rest, side = y :: x :: rest → gap y = true → u.isDecimal x = false

/-- Inside a stretch only single spaces and hyphens stand between the digits. -/
theorem CardLike.digits_around {before left right after : List Char} {y : Char}
    (h : CardLike u before (left ++ y :: right) after) (hy : u.isWord y = false) :
    gap y = true ∧ left.getLast?.any u.isDecimal = true ∧ right.head?.any u.isDecimal = true := by
  obtain ⟨n, hn, hitems⟩ := h.items
  obtain ⟨hgap, hleft, rfl | hright⟩ := hitems.around (isDecimal_of_not_isWord hy)
  · have hlast : u.isDecimal y = true := by simpa using h.last
    rw [isDecimal_of_gap hgap] at hlast
    cases hlast
  · exact ⟨hgap, hleft, hright⟩

/-- No stretch that starts before this one reaches into it. -/
theorem CardLike.apart_of_clear {before read after : List Char}
    (h : CardLike u before.reverse read after) (hclear : Clear u before.reverse)
    {skipped' read' after' : List Char}
    (htext : before ++ (read ++ after) = skipped' ++ (read' ++ after'))
    (h' : CardLike u (skipped'.reverse ++ []) read' after') :
    (skipped' ++ read').length ≤ before.length ∨ before.length ≤ skipped'.length := by
  by_contra hinto
  rw [not_or, not_le, not_le, List.length_append] at hinto
  -- it would reach over the character before this one
  obtain ⟨mid, rfl⟩ : skipped' <+: before :=
    List.prefix_of_prefix_length_le ⟨read' ++ after', htext.symm⟩ ⟨read ++ after, rfl⟩ hinto.2.le
  rw [List.append_assoc, List.append_cancel_left_eq] at htext
  rw [List.length_append] at hinto
  rcases mid.eq_nil_or_concat' with rfl | ⟨left, y, rfl⟩
  · simp at hinto
  obtain ⟨right, rfl⟩ : left ++ [y] <+: read' :=
    List.prefix_of_prefix_length_le ⟨read ++ after, htext⟩ ⟨after', rfl⟩ (by omega)
  have hy : u.isWord y = false := by simpa using h.apart_before
  rw [List.append_assoc] at h'
  obtain ⟨hgap, hleft, -⟩ := h'.digits_around hy
  rcases left.eq_nil_or_concat' with rfl | ⟨left, x, rfl⟩
  · simp at hleft
  have hx := hclear y x (left.reverse ++ skipped'.reverse) (by simp) hgap
  simp [hx] at hleft

/-- No stretch that starts with this one is longer. -/
theorem CardLike.length_le_of_clear {before read after : List Char}
    (h : CardLike u before read after) (hclear : Clear u after) {read' after' : List Char}
    (htext : read ++ after = read' ++ after') (h' : CardLike u before read' after') :
    read'.length ≤ read.length := by
  by_contra hlonger
  rw [not_le] at hlonger
  -- it would reach over the character behind this one
  obtain ⟨more, rfl⟩ : read <+: read' :=
    List.prefix_of_prefix_length_le ⟨after, htext⟩ ⟨after', rfl⟩ hlonger.le
  rw [List.append_assoc, List.append_cancel_left_eq] at htext
  rcases more with _ | ⟨y, right⟩
  · simp at hlonger
  have hy : u.isWord y = false := by simpa [htext] using h.apart_after
  obtain ⟨hgap, -, hright⟩ := h'.digits_around hy
  rcases right with _ | ⟨x, right⟩
  · simp at hright
  have hx := hclear y x (right ++ after') htext hgap
  simp [hx] at hright

/-- A stretch that could not be longer on either side is taken. -/
theorem CardLike.taken_of_clear {before read after : List Char}
    (h : CardLike u before.reverse read after) (hbefore : Clear u before.reverse)
    (hafter : Clear u after) {reads : List (List Char)}
    (htaken : Taken (CardLike u) [] (before ++ (read ++ after)) reads) : read ∈ reads := by
  have hplace : CardLike u (before.reverse ++ []) read after := by simpa using h
  refine htaken.mem rfl hplace (fun _ _ _ htext h' ↦ h.apart_of_clear hbefore htext h') ?_
  intro read' after' htext h'
  exact hplace.length_le_of_clear hafter htext h'

/-- A valid card number with no other digits next to it is reported. -/
theorem reportsCard_of_clear {content : List (String × Json)} {before read after : List Char}
    (htext : (textBlob content).toList = before ++ (read ++ after))
    (h : CardLike u before.reverse read after) (hluhn : luhn u (read.filter u.isDecimal) = true)
    (hbefore : Clear u before.reverse) (hafter : Clear u after) : ReportsCard u content := by
  obtain ⟨reads, htaken, hany⟩ := exists_taken_finditer u (textBlob content)
  rw [ReportsCard, mem_checkPii_card, hany]
  rw [htext] at htaken
  exact ⟨read, h.taken_of_clear hbefore hafter htaken, hluhn⟩

end Validators

end HumanDataFactory
