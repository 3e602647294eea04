import HumanDataFactory.Development
import HumanDataFactory.PrefixCode
import HumanDataFactory.Regex.Scan
import HumanDataFactory.Validators.Findings

/-!
# Fabricated citations

A citation is a series name, whitespace and a run of digits.  The patterns of
the citation check ask for three digits of an ASC topic and for one or two of an
IFRS or IAS number, and take digits of any script; what they find is compared
with the citations in the text.
-/

namespace HumanDataFactory

/-- No whitespace counts as a letter or a digit. -/
def Unicode.SpacesApart (u : Unicode) : Prop :=
  ∀ c, u.isSpace c = true → u.isAlnum c = false

theorem Unicode.spacesApart_ascii : Unicode.ascii.SpacesApart := by
  intro c hc
  have hrange : 9 ≤ c.toNat ∧ c.toNat ≤ 13 ∨ 28 ≤ c.toNat ∧ c.toNat ≤ 32 := of_decide_eq_true hc
  have hnot : ¬c.isAlphanum = true := by
    intro h
    delta Char.isAlphanum Char.isAlpha Char.isUpper Char.isLower Char.isDigit at h
    simp [UInt32.le_iff_toNat_le] at h
    omega
  exact Bool.eq_false_iff.mpr hnot

namespace Validators

open Regex

inductive Series
  | asc
  | ifrs
  | ias
  deriving DecidableEq, Repr

namespace Series

variable (u : Unicode)

def name : Series → String
  | asc => "ASC"
  | ifrs => "IFRS"
  | ias => "IAS"

def pattern : Series → Regex
  | asc => ASC u
  | ifrs => IFRS u
  | ias => IAS u

def valid : Series → ℕ → Bool
  | asc, n => decide (n ∈ VALID_ASC_TOPICS)
  | ifrs, n => validIfrs n
  | ias, n => validIas n

/-- The numbers of digits that the pattern takes. -/
def fits : Series → List Char → Prop
  | asc, digits => digits.length = 3
  | _, digits => 1 ≤ digits.length ∧ digits.length ≤ 2

/-- The number as the finding shows it. -/
def label : Series → List Char → String
  | asc, digits => toString (u.int digits)
  | _, digits => String.ofList digits

/-- The finding about an invalid number. -/
def report (series : Series) (digits : List Char) : Finding :=
  match series with
  | asc => ⟨"CITATION_INVALID_ASC", .error,
      s!"ASC {u.int digits} is not a valid codification topic"⟩
  | ifrs => ⟨"CITATION_INVALID_IFRS", .error, s!"IFRS {String.ofList digits} does not exist"⟩
  | ias => ⟨"CITATION_INVALID_IAS", .error, s!"IAS {String.ofList digits} is not in the IAS series"⟩

/-- `(\d{3})` and `(\d{1,2})`, without the group. -/
def number : Series → Regex
  | asc => times u.digit 3
  | _ => between u.digit 1 2

/-- What the pattern asks for behind the number. -/
def tail : Series → Regex
  | asc => seq (star (seq (lit '-') (between u.digit 1 3))) boundary
  | _ => boundary

theorem pattern_eq (series : Series) : series.pattern u =
    seq boundary (seq (text series.name) (seq (plus u.space)
      (seq (group 1 (series.number u)) (series.tail u)))) := by
  cases series <;> rfl

end Series

variable {u : Unicode}

/-- The text holds the name of the series as a whole word, and behind it
whitespace and a run of digits that ends at a word boundary. -/
def Cites (u : Unicode) (digit : Char → Bool) (series : Series) (txt digits : List Char) : Prop :=
  ∃ before blanks after, txt = before ++ series.name.toList ++ blanks ++ digits ++ after ∧
    before.getLast?.any u.isWord = false ∧
    (blanks ≠ [] ∧ ∀ c ∈ blanks, u.isSpace c = true) ∧
    (digits ≠ [] ∧ ∀ c ∈ digits, digit c = true) ∧
    after.head?.any u.isWord = false

/-! ## What the patterns match -/

theorem isWord_of_isDecimal {c : Char} (h : u.isDecimal c = true) : u.isWord c = true := by
  simp [Unicode.isWord, u.isAlnum_of_decimal c h]

theorem isSpace_of_isDecimal (hu : u.SpacesApart) {c : Char} (h : u.isDecimal c = true) :
    u.isSpace c = false := by
  by_contra hspace
  have halnum := hu c (by simpa using hspace)
  rw [u.isAlnum_of_decimal c h] at halnum
  cases halnum

theorem isDecimal_of_isDigit {c : Char} (h : c.isDigit = true) : u.isDecimal c = true := by
  have hrange := Unicode.toNat_of_isDigit h
  simp [Unicode.isDecimal, u.decimal_ascii c (by omega), h]

/-- A place behind a word character is a word boundary if no other one follows. -/
theorem atBoundary_iff_of_word {c : Cursor} (h : c.before.head?.any u.isWord = true) :
    c.atBoundary u.isWord = true ↔ c.after.head?.any u.isWord = false := by
  simp [Cursor.atBoundary, h]

theorem matches_number {series : Series} {c c' : Cursor} :
    Matches u.isWord (series.number u) c c' ↔
      ∃ digits, series.fits digits ∧ Run u.isDecimal digits c c' := by
  cases series with
  | asc => exact matches_times_char
  | ifrs =>
      exact (matches_between_char (show 1 ≤ 2 by decide)).trans
        (exists_congr fun _ ↦ and_assoc.symm)
  | ias =>
      exact (matches_between_char (show 1 ≤ 2 by decide)).trans
        (exists_congr fun _ ↦ and_assoc.symm)

/-- The tail of a pattern matches only where the run of digits is over, and at
such a place it need not read anything. -/
theorem word_after_of_tail {series : Series} {c c' : Cursor}
    (hword : c.before.head?.any u.isWord = true) (h : Matches u.isWord (series.tail u) c c') :
    c.after.head?.any u.isWord = false := by
  have hboundary {c' : Cursor} (h : Matches u.isWord boundary c c') :
      c.after.head?.any u.isWord = false :=
    (atBoundary_iff_of_word hword).mp (matches_boundary.mp h).2
  cases series with
  | asc =>
      obtain ⟨c₁, hstar, hend⟩ := matches_seq.mp h
      cases hstar with
      | done => exact hboundary hend
      | more hone _ _ =>
          obtain ⟨c₂, hlit, -⟩ := matches_seq.mp hone
          obtain ⟨x, hx⟩ := matches_char.mp hlit
          obtain rfl : x = '-' := by simpa using hx.all x
          rw [hx.reads.1]
          simp [Unicode.isWord, u.isAlnum_ascii '-' (by decide)]
  | ifrs => exact hboundary h
  | ias => exact hboundary h

theorem matches_tail {series : Series} {c : Cursor} (hword : c.before.head?.any u.isWord = true)
    (hafter : c.after.head?.any u.isWord = false) : Matches u.isWord (series.tail u) c c := by
  have hboundary : Matches u.isWord boundary c c :=
    .boundary ((atBoundary_iff_of_word hword).mpr hafter)
  cases series with
  | asc => exact .seq (.done c) hboundary
  | ifrs => exact hboundary
  | ias => exact hboundary

/-- The letter a citation starts with. -/
def Series.initial : Series → Char
  | .asc => 'A'
  | _ => 'I'

theorem name_eq (series : Series) :
    ∃ letters, series.name.toList = series.initial :: letters ∧ series.initial ∉ letters := by
  cases series with
  | asc => exact ⟨['S', 'C'], by decide, by decide⟩
  | ifrs => exact ⟨['F', 'R', 'S'], by decide, by decide⟩
  | ias => exact ⟨['A', 'S'], by decide, by decide⟩

variable (u) in
theorem initial_kinds (series : Series) : u.isWord series.initial = true ∧
    u.isSpace series.initial = false ∧ u.isDecimal series.initial = false := by
  have hascii : series.initial.toNat < 128 := by cases series <;> decide
  simp only [Unicode.isWord, Unicode.isDecimal, u.isAlnum_ascii _ hascii, u.isSpace_ascii _ hascii,
    u.decimal_ascii _ hascii]
  cases series <;> decide

/-- A match, up to where its number ends. -/
theorem matches_pattern {series : Series} {c c' : Cursor}
    (h : Matches u.isWord (series.pattern u) c c') :
    ∃ blanks digits c₁, c.before.head?.any u.isWord = false ∧
      (blanks ≠ [] ∧ ∀ x ∈ blanks, u.isSpace x = true) ∧
      (series.fits digits ∧ ∀ x ∈ digits, u.isDecimal x = true) ∧
      Cursor.Reads (series.name.toList ++ blanks ++ digits) c c₁ ∧
      c₁.groups = (1, digits) :: c.groups ∧ Matches u.isWord (series.tail u) c₁ c' := by
  rw [Series.pattern_eq, matches_seq] at h
  obtain ⟨c₀, hboundary, h⟩ := h
  obtain ⟨rfl, hboundary⟩ := matches_boundary.mp hboundary
  obtain ⟨c₁, htext, h⟩ := matches_seq.mp h
  obtain ⟨c₂, hblanks, h⟩ := matches_seq.mp h
  obtain ⟨c₃, hgroup, htail⟩ := matches_seq.mp h
  obtain ⟨hname, hgroups⟩ := matches_text.mp htext
  obtain ⟨blanks, hne, hblanks⟩ := matches_plus_char.mp hblanks
  obtain ⟨c₄, hnumber, rfl⟩ := matches_group.mp hgroup
  obtain ⟨digits, hfits, hdigits⟩ := matches_number.mp hnumber
  refine ⟨blanks, digits, c₂.capture 1 c₄, ?_, ⟨hne, hblanks.all⟩, ⟨hfits, hdigits.all⟩,
    (hname.append hblanks.reads).append hdigits.reads, ?_, htail⟩
  · obtain ⟨letters, hletters, -⟩ := name_eq series
    have hafter : c₀.after.head?.any u.isWord = true := by
      rw [hname.1, hletters]
      simp [(initial_kinds u series).1]
    simpa [Cursor.atBoundary, hafter] using hboundary
  · simp only [Cursor.capture, hdigits.reads.upTo, hdigits.groups, hblanks.groups, hgroups]

theorem matches_pattern_of_text {series : Series} (before : List Char)
    {blanks digits after : List Char} (hbefore : before.head?.any u.isWord = false)
    (hblanks : blanks ≠ [] ∧ ∀ x ∈ blanks, u.isSpace x = true)
    (hdigits : series.fits digits ∧ ∀ x ∈ digits, u.isDecimal x = true)
    (hlast : digits.getLast?.any u.isWord = true) (hafter : after.head?.any u.isWord = false) :
    ∃ c', Matches u.isWord (series.pattern u)
      ⟨before, series.name.toList ++ blanks ++ digits ++ after, []⟩ c' := by
  obtain ⟨letters, hletters, -⟩ := name_eq series
  let c₀ : Cursor := ⟨before, series.name.toList ++ blanks ++ digits ++ after, []⟩
  let c₁ : Cursor := ⟨series.name.toList.reverse ++ before, blanks ++ digits ++ after, []⟩
  let c₂ : Cursor := ⟨blanks.reverse ++ c₁.before, digits ++ after, []⟩
  let c₃ : Cursor := ⟨digits.reverse ++ c₂.before, after, []⟩
  have hboundary : Matches u.isWord boundary c₀ c₀ := by
    refine .boundary ?_
    simp [Cursor.atBoundary, c₀, hbefore, hletters, (initial_kinds u series).1]
  have htext : Matches u.isWord (text series.name) c₀ c₁ :=
    matches_text.mpr ⟨⟨by simp [c₀, c₁], rfl⟩, rfl⟩
  have hplus : Matches u.isWord (plus u.space) c₁ c₂ :=
    matches_plus_char.mpr ⟨blanks, hblanks.1, ⟨⟨by simp [c₁, c₂], rfl⟩, rfl, hblanks.2⟩⟩
  have hnumber : Matches u.isWord (series.number u) c₂ c₃ :=
    matches_number.mpr ⟨digits, hdigits.1, ⟨⟨rfl, rfl⟩, rfl, hdigits.2⟩⟩
  have hword : (c₂.capture 1 c₃).before.head?.any u.isWord = true := by
    obtain ⟨last, hget⟩ : ∃ last, digits.getLast? = some last := by
      cases hget : digits.getLast? with
      | none => simp [hget] at hlast
      | some last => exact ⟨last, rfl⟩
    simpa [Cursor.capture, c₃, List.head?_append, hget] using hlast
  rw [Series.pattern_eq]
  exact ⟨_, .seq hboundary (.seq htext (.seq hplus (.seq (.group hnumber)
    (matches_tail hword hafter))))⟩

/-! ## What a scan of the text finds -/

theorem allows_tail {series : Series} {x : Char} (h : (series.tail u).allows x = true) :
    x = '-' ∨ u.isDecimal x = true := by
  cases series with
  | asc =>
      simp [Series.tail, allows, lit, between, times, atMost, opt, Unicode.digit] at h
      tauto
  | ifrs => cases h
  | ias => cases h

/-- The initial of a series is nowhere else in a match of its pattern. -/
theorem firstOnly_pattern (series : Series) :
    FirstOnly u.isWord (fun x ↦ x == series.initial) (series.pattern u) := by
  intro c c' h
  obtain ⟨blanks, digits, c₁, -, hblanks, hdigits, hreads, -, htail⟩ := matches_pattern h
  obtain ⟨read, hread, hallows⟩ := htail.reads
  obtain ⟨letters, hletters, hnot⟩ := name_eq series
  obtain ⟨-, hspace, hdecimal⟩ := initial_kinds u series
  have hinitial : series.initial ≠ '-' := by cases series <;> decide
  refine ⟨series.initial, letters ++ blanks ++ digits ++ read, by simp, fun x hx ↦ ?_, ?_⟩
  · refine beq_eq_false_iff_ne.mpr ?_
    rintro rfl
    simp only [List.mem_append] at hx
    rcases hx with ((hx | hx) | hx) | hx
    · exact hnot hx
    · simp [hblanks.2 _ hx] at hspace
    · simp [hdigits.2 _ hx] at hdecimal
    · rcases allows_tail (hallows _ hx) with h | h
      · exact hinitial h
      · simp [h] at hdecimal
  · simpa [hletters] using hreads.append hread

theorem groupless_tail (series : Series) : (series.tail u).groupless = true := by
  cases series <;> rfl

/-- One number is read from one place. -/
theorem digits_unique (hu : u.SpacesApart) {blanks blanks' digits digits' rest rest' : List Char}
    (hblanks : ∀ x ∈ blanks, u.isSpace x = true) (hblanks' : ∀ x ∈ blanks', u.isSpace x = true)
    (hdigits : digits ≠ [] ∧ ∀ x ∈ digits, u.isDecimal x = true)
    (hdigits' : digits' ≠ [] ∧ ∀ x ∈ digits', u.isDecimal x = true)
    (hrest : rest.head?.any u.isWord = false) (hrest' : rest'.head?.any u.isWord = false)
    (h : blanks ++ (digits ++ rest) = blanks' ++ (digits' ++ rest')) : digits = digits' := by
  have hend {rest : List Char} (hrest : rest.head?.any u.isWord = false) :
      PrefixCode.Delimited {c | u.isDecimal c = false} rest := by
    intro c hc
    rw [Option.mem_def.mp hc] at hrest
    by_contra hdecimal
    have hword := isWord_of_isDecimal (u := u) (Bool.not_eq_false _ ▸ hdecimal)
    simp [hword] at hrest
  have hstart {digits : List Char} (hdigits : digits ≠ [] ∧ ∀ x ∈ digits, u.isDecimal x = true)
      (rest : List Char) : PrefixCode.Delimited {c | u.isSpace c = false} (digits ++ rest) := by
    obtain ⟨d, ds, rfl⟩ := List.exists_cons_of_ne_nil hdigits.1
    have hd : d ∈ {c | u.isSpace c = false} :=
      isSpace_of_isDecimal hu (hdigits.2 d List.mem_cons_self)
    exact PrefixCode.delimited_cons hd _
  have hskip := PrefixCode.append_inj_of_delimited (fun c hc ↦ by simp [hblanks c hc])
    (fun c hc ↦ by simp [hblanks' c hc]) (hstart hdigits rest) (hstart hdigits' rest') h
  exact (PrefixCode.append_inj_of_delimited (fun c hc ↦ by simp [hdigits.2 c hc])
    (fun c hc ↦ by simp [hdigits'.2 c hc]) (hend hrest) (hend hrest') hskip.2).1

theorem ne_nil_of_fits {series : Series} {digits : List Char} (h : series.fits digits) :
    digits ≠ [] := by
  rintro rfl
  cases series with
  | asc => cases h
  | ifrs => exact absurd h.1 (by decide)
  | ias => exact absurd h.1 (by decide)

theorem getLast?_any_isWord {digits : List Char}
    (h : digits ≠ [] ∧ ∀ x ∈ digits, u.isDecimal x = true) :
    digits.getLast?.any u.isWord = true := by
  rw [List.getLast?_eq_getLast_of_ne_nil h.1]
  exact isWord_of_isDecimal (h.2 _ (List.getLast_mem h.1))

theorem word_before {c c₁ : Cursor} {pre digits : List Char}
    (h : digits ≠ [] ∧ ∀ x ∈ digits, u.isDecimal x = true)
    (hreads : Cursor.Reads (pre ++ digits) c c₁) : c₁.before.head?.any u.isWord = true := by
  have hlast := getLast?_any_isWord h
  rw [hreads.2, List.reverse_append, List.append_assoc, List.head?_append, List.head?_reverse]
  cases hget : digits.getLast? with
  | none => simp [hget] at hlast
  | some d => simpa [hget] using hlast

/-- A match, from its start to the place where its number ends. -/
theorem number_of_matches {series : Series} {c c' : Cursor}
    (h : Matches u.isWord (series.pattern u) c c') :
    ∃ blanks after, c.before.head?.any u.isWord = false ∧
      c.after = series.name.toList ++ blanks ++ numberOf (c, c') ++ after ∧
      (blanks ≠ [] ∧ ∀ x ∈ blanks, u.isSpace x = true) ∧ series.fits (numberOf (c, c')) ∧
      (numberOf (c, c') ≠ [] ∧ ∀ x ∈ numberOf (c, c'), u.isDecimal x = true) ∧
      after.head?.any u.isWord = false := by
  obtain ⟨blanks, digits, c₁, hbefore, hblanks, hdigits, hreads, hcapture, htail⟩ :=
    matches_pattern h
  have hnumber : numberOf (c, c') = digits := by
    have hkept := htail.groups_eq (groupless_tail series)
    simp [numberOf, Cursor.group, hkept, hcapture]
  have hne : digits ≠ [] ∧ ∀ x ∈ digits, u.isDecimal x = true :=
    ⟨ne_nil_of_fits hdigits.1, hdigits.2⟩
  rw [hnumber]
  exact ⟨blanks, c₁.after, hbefore, hreads.1, hblanks, hdigits.1, hne,
    word_after_of_tail (word_before hne hreads) htail⟩

/-- The numbers found with a pattern are those of the citations that fit it. -/
theorem mem_numbers_iff (hu : u.SpacesApart) {series : Series} {txt : String}
    {digits : List Char} : digits ∈ (u.finditer (series.pattern u) txt).map numberOf ↔
      Cites u u.isDecimal series txt.toList digits ∧ series.fits digits := by
  rw [List.mem_map]
  constructor
  · rintro ⟨⟨c, c'⟩, hmem, rfl⟩
    obtain ⟨⟨htxt, -⟩, hhead⟩ := (mem_scan (firstOnly_pattern series)).mp hmem
    obtain ⟨blanks, after, hbefore, hread, hblanks, hfits, hdigits, hafter⟩ :=
      number_of_matches (matches_of_head? hhead)
    refine ⟨⟨c.before.reverse, blanks, after, ?_, ?_, hblanks, hdigits, hafter⟩, hfits⟩
    · rw [htxt, hread]
      simp
    · rwa [List.getLast?_reverse]
  · rintro ⟨⟨before, blanks, after, htxt, hbefore, hblanks, hdigits, hafter⟩, hfits⟩
    obtain ⟨c', hmatch⟩ := matches_pattern_of_text before.reverse (by rwa [List.head?_reverse])
      hblanks ⟨hfits, hdigits.2⟩ (getLast?_any_isWord hdigits) hafter
    obtain ⟨c₁, hhead, hmatch⟩ := exists_head?_ends hmatch
    refine ⟨(_, c₁), (mem_scan (firstOnly_pattern series)).mpr ⟨⟨?_, rfl⟩, hhead⟩, ?_⟩
    · rw [htxt]
      simp
    · obtain ⟨blanks', after', -, hread, hblanks', -, hdigits', hafter'⟩ :=
        number_of_matches hmatch
      simp only [List.append_assoc, List.append_cancel_left_eq] at hread
      exact (digits_unique hu hblanks.2 hblanks'.2 hdigits hdigits' hafter hafter' hread).symm

/-! ## Parts and the joined text -/

/-- The texts of the content: its strings and the strings in its lists. -/
def texts (content : List (String × Json)) : List String :=
  content.flatMap fun kv ↦ parts kv.2

theorem Cites.mono {digit digit' : Char → Bool} (hdigit : ∀ c, digit c = true → digit' c = true)
    {series : Series} {txt digits : List Char} (h : Cites u digit series txt digits) :
    Cites u digit' series txt digits := by
  obtain ⟨before, blanks, after, htxt, hbefore, hblanks, hdigits, hafter⟩ := h
  exact ⟨before, blanks, after, htxt, hbefore, hblanks,
    ⟨hdigits.1, fun c hc ↦ hdigit c (hdigits.2 c hc)⟩, hafter⟩

/-- A citation in a part of a text that is set off from the rest. -/
theorem Cites.within {digit : Char → Bool} {series : Series} {txt digits : List Char}
    (h : Cites u digit series txt digits) {l r : List Char}
    (hl : l.getLast?.any u.isWord = false) (hr : r.head?.any u.isWord = false) :
    Cites u digit series (l ++ txt ++ r) digits := by
  obtain ⟨before, blanks, after, rfl, hbefore, hblanks, hdigits, hafter⟩ := h
  refine ⟨l ++ before, blanks, after ++ r, by simp, ?_, hblanks, hdigits, ?_⟩
  · rw [List.getLast?_append]
    cases hget : before.getLast? with
    | none => simpa [hget] using hl
    | some x => simpa [hget] using hbefore
  · rw [Cursor.any_head?_append hr]
    exact hafter

theorem cites_textBlob {digit : Char → Bool} {series : Series} {content : List (String × Json)}
    {part : String} (hpart : part ∈ texts content) {digits : List Char}
    (h : Cites u digit series part.toList digits) :
    Cites u digit series (textBlob content).toList digits := by
  obtain ⟨l, r, hjoined, hl, hr⟩ :=
    exists_intercalate u.isWord_newline (List.mem_map_of_mem (f := String.toList) hpart)
  have hblob : (textBlob content).toList = l ++ part.toList ++ r := by
    rw [textBlob, String.toList_intercalate]
    exact hjoined
  rw [hblob]
  exact h.within hl hr

/-! ## The findings -/

/-- A citation of a number that the series does not have. -/
def Fabricated (u : Unicode) (digit : Char → Bool) (series : Series) (txt digits : List Char) :
    Prop :=
  Cites u digit series txt digits ∧ series.valid (u.int digits) = false

theorem report_eq_iff {series series' : Series} {digits digits' : List Char} :
    series.report u digits = series'.report u digits' ↔
      series = series' ∧ series.label u digits = series.label u digits' := by
  have htext (s : String) : toString s = s := rfl
  cases series <;> cases series' <;> simp [Series.report, Series.label, htext]

/-- The citation check reports the invalid numbers it finds, and perhaps that
nothing is cited. -/
theorem mem_checkCitations {content : List (String × Json)} {f : Finding} :
    f ∈ checkCitations u content ↔
      (∃ series digits,
        digits ∈ (u.finditer (Series.pattern u series) (textBlob content)).map numberOf ∧
          series.valid (u.int digits) = false ∧ f = series.report u digits) ∨
        f ∈ uncited content := by
  unfold checkCitations
  simp only [List.mem_append, List.mem_map, invalidAsc, invalidNumbers, List.mem_filter,
    Bool.not_eq_true', decide_eq_true_eq]
  constructor
  · rintro (((⟨topic, ⟨⟨m, hm, rfl⟩, hnot⟩, rfl⟩ | ⟨digits, ⟨hm, hnot⟩, rfl⟩) |
      ⟨digits, ⟨hm, hnot⟩, rfl⟩) | huncited)
    · exact Or.inl ⟨.asc, numberOf m, ⟨m, hm, rfl⟩, decide_eq_false hnot, rfl⟩
    · exact Or.inl ⟨.ifrs, digits, hm, hnot, rfl⟩
    · exact Or.inl ⟨.ias, digits, hm, hnot, rfl⟩
    · exact Or.inr huncited
  · rintro (⟨series, digits, ⟨m, hm, rfl⟩, hnot, rfl⟩ | huncited)
    · refine Or.inl ?_
      cases series with
      | asc =>
          exact Or.inl (Or.inl ⟨u.int (numberOf m), ⟨⟨m, hm, rfl⟩, of_decide_eq_false hnot⟩, rfl⟩)
      | ifrs => exact Or.inl (Or.inr ⟨numberOf m, ⟨⟨m, hm, rfl⟩, hnot⟩, rfl⟩)
      | ias => exact Or.inr ⟨numberOf m, ⟨⟨m, hm, rfl⟩, hnot⟩, rfl⟩
    · exact Or.inr huncited

/-- What the citation check reports is fabricated, as far as it fits the pattern. -/
theorem mem_checkCitations_iff (hu : u.SpacesApart) {content : List (String × Json)}
    {f : Finding} : f ∈ checkCitations u content ↔
      (∃ series digits, Fabricated u u.isDecimal series (textBlob content).toList digits ∧
        series.fits digits ∧ f = series.report u digits) ∨ f ∈ uncited content := by
  rw [mem_checkCitations]
  simp only [mem_numbers_iff hu, Fabricated, and_assoc]
  have hswap (series : Series) (digits : List Char) :
      (series.fits digits ∧ series.valid (u.int digits) = false ∧ f = series.report u digits) ↔
        (series.valid (u.int digits) = false ∧ series.fits digits ∧ f = series.report u digits) :=
    and_left_comm
  simp only [hswap]

theorem silent_checkCitations_iff (hu : u.SpacesApart) {content : List (String × Json)} :
    Silent (checkCitations u content) ↔ ¬∃ series digits,
      Fabricated u u.isDecimal series (textBlob content).toList digits ∧ series.fits digits := by
  constructor
  · rintro hsilent ⟨series, digits, hfab, hfits⟩
    have hmem := (mem_checkCitations_iff hu).mpr (Or.inl ⟨series, digits, hfab, hfits, rfl⟩)
    refine hsilent _ hmem ?_
    cases series <;> rfl
  · intro hnone f hf
    rcases (mem_checkCitations_iff hu).mp hf with ⟨series, digits, hfab, hfits, -⟩ | huncited
    · exact absurd ⟨series, digits, hfab, hfits⟩ hnone
    · exact silent_uncited content f huncited

def InvalidCitation (f : Finding) : Prop :=
  startsWith "CITATION_INVALID_" f.code = true

theorem invalidCitation_report (series : Series) (digits : List Char) :
    InvalidCitation (series.report u digits) := by
  cases series <;> simp only [InvalidCitation, Series.report] <;> decide

/-- The codes of all other findings. -/
def otherCodes : List String :=
  ["SCHEMA_MISSING_FIELD", "SCHEMA_TOO_SHORT", "PII_SSN", "PII_EIN", "PII_EMAIL", "PII_PHONE",
    "PII_CARD", "PLACEHOLDER_TEXT", "CITATION_NONE", "FIN_BALANCE_SHEET",
    "FIN_BALANCE_SHEET_SHAPE", "FIN_JE_UNBALANCED", "FIN_JE_SHAPE", "DUPLICATE_CONTENT"]

theorem not_invalidCitation_of_code {f : Finding} (h : f.code ∈ otherCodes) :
    ¬InvalidCitation f := by
  have hall : (otherCodes.all fun code ↦ !startsWith "CITATION_INVALID_" code) = true := by decide
  have hcode := List.all_eq_true.mp hall f.code h
  simpa [InvalidCitation] using hcode

theorem code_of_ite {p : Prop} [Decidable p] {finding f : Finding}
    (hcode : finding.code ∈ otherCodes) (hf : f ∈ if p then [finding] else []) :
    f.code ∈ otherCodes := by
  rw [List.mem_ite_nil_right, List.mem_singleton] at hf
  rwa [hf.2]

theorem code_of_checkSchema {content : List (String × Json)} {taskType : TaskType} {f : Finding}
    (hf : f ∈ checkSchema content taskType) : f.code ∈ otherCodes := by
  simp only [checkSchema, List.mem_append, List.mem_map] at hf
  rcases hf with ⟨k, _, rfl⟩ | hf
  · simp [otherCodes]
  · split at hf
    · exact code_of_ite (by simp [otherCodes]) hf
    · cases hf

theorem code_of_checkPii {txt : String} {f : Finding} (hf : f ∈ checkPii u txt) :
    f.code ∈ otherCodes := by
  simp only [checkPii, reportMatch, List.mem_append] at hf
  rcases hf with (((hf | hf) | hf) | hf) | hf
  all_goals exact code_of_ite (by simp [otherCodes]) hf

theorem code_of_checkPlaceholders {txt : String} {f : Finding}
    (hf : f ∈ checkPlaceholders u txt) : f.code ∈ otherCodes := by
  unfold checkPlaceholders at hf
  split at hf
  · obtain rfl := List.mem_singleton.mp hf
    simp [otherCodes]
  · cases hf

theorem code_of_uncited {content : List (String × Json)} {f : Finding}
    (hf : f ∈ uncited content) : f.code ∈ otherCodes :=
  code_of_ite (by simp [otherCodes]) hf

theorem code_of_checkFinancialConsistency {env : Env} {content : List (String × Json)}
    {financial : List Finding} (h : checkFinancialConsistency env content = .ok financial)
    {f : Finding} (hf : f ∈ financial) : f.code ∈ otherCodes := by
  have hcodes := (yields_checkFinancialConsistency content financial h f hf).2
  simp only [List.mem_cons, List.not_mem_nil, or_false] at hcodes
  rcases hcodes with hcode | hcode | hcode | hcode
  all_goals simp [otherCodes, hcode]

theorem code_of_checkDuplicate {env : Env} {content : List (String × Json)} {taskType : TaskType}
    {existing : List String} {f : Finding}
    (hf : f ∈ checkDuplicate u env content taskType existing) : f.code ∈ otherCodes :=
  code_of_ite (by simp [otherCodes]) hf

/-- The findings about citations come from the citation check. -/
theorem mem_findings_invalidCitation {env : Env} {content : List (String × Json)}
    {taskType : TaskType} {existing : List String} {v : ValidationResult}
    (h : runAll u env (.obj content) taskType existing = .ok v) {f : Finding}
    (hcite : InvalidCitation f) : f ∈ v.findings ↔ f ∈ checkCitations u content := by
  obtain ⟨financial, hfinancial, rfl⟩ := runAll_eq_ok_iff.mp h
  simp only [List.mem_append]
  constructor
  · rintro (((((hf | hf) | hf) | hf) | hf) | hf)
    · exact absurd hcite (not_invalidCitation_of_code (code_of_checkSchema hf))
    · exact absurd hcite (not_invalidCitation_of_code (code_of_checkPii hf))
    · exact absurd hcite (not_invalidCitation_of_code (code_of_checkPlaceholders hf))
    · exact hf
    · exact absurd hcite
        (not_invalidCitation_of_code (code_of_checkFinancialConsistency hfinancial hf))
    · exact absurd hcite (not_invalidCitation_of_code (code_of_checkDuplicate hf))
  · intro hf
    exact Or.inl (Or.inl (Or.inr hf))

/-! ## Fabricated citations and gate 1 -/

/-- No check but perhaps that of citations reports an error. -/
structure OtherwiseSound (u : Unicode) (env : Env) (content : List (String × Json))
    (taskType : TaskType) (existing : List String) : Prop where
  schema : checkSchema content taskType = []
  pii : Silent (checkPii u (textBlob content))
  placeholders : u.search PLACEHOLDER (textBlob content) = none
  financial : checkFinancialConsistency env content = .ok []
  fresh : fingerprint u env content taskType ∉ existing

def Passes (u : Unicode) (env : Env) (content : List (String × Json)) (taskType : TaskType)
    (existing : List String) : Prop :=
  ∃ v, runAll u env (.obj content) taskType existing = .ok v ∧ v.passed = true

/-- No content with a fabricated citation passes. -/
def Caught (u : Unicode) (env : Env) (content : List (String × Json)) (taskType : TaskType)
    (existing : List String) : Prop :=
  ∀ part ∈ texts content, ∀ series digits, Fabricated u Char.isDigit series part.toList digits →
    ¬Passes u env content taskType existing

/-- Every finding about a citation is about one in the text. -/
def Named (u : Unicode) (env : Env) (content : List (String × Json)) (taskType : TaskType)
    (existing : List String) : Prop :=
  ∀ v, runAll u env (.obj content) taskType existing = .ok v → ∀ f ∈ v.findings,
    InvalidCitation f → ∃ series digits,
      Fabricated u Char.isDigit series (textBlob content).toList digits ∧
        f = series.report u digits

variable {env : Env} {content : List (String × Json)} {taskType : TaskType}
variable {existing : List String}

theorem passes_iff : Passes u env content taskType existing ↔
    OtherwiseSound u env content taskType existing ∧ Silent (checkCitations u content) := by
  unfold Passes
  simp only [runAll_passed_iff]
  constructor
  · rintro ⟨v, hsound, hfresh, -⟩
    exact ⟨⟨hsound.schema, hsound.pii, hsound.placeholders, hsound.financial, hfresh⟩,
      hsound.citations⟩
  · rintro ⟨hsound, hcite⟩
    exact ⟨_, ⟨hsound.schema, hsound.pii, hsound.placeholders, hcite, hsound.financial⟩,
      hsound.fresh, rfl⟩

/-- Where no other check objects, a fabricated citation with a number of digits
that the pattern does not take comes with one that fits. -/
def DigitsFit (u : Unicode) (env : Env) (content : List (String × Json)) (taskType : TaskType)
    (existing : List String) : Prop :=
  OtherwiseSound u env content taskType existing →
    ∀ part ∈ texts content, ∀ series digits, Fabricated u Char.isDigit series part.toList digits →
      ¬series.fits digits → ∃ series' digits',
        Fabricated u u.isDecimal series' (textBlob content).toList digits' ∧ series'.fits digits'

/-- Unless the tie-out raises, a fabricated citation that fits the pattern is in
ASCII digits, or one in ASCII digits is shown like it. -/
def DigitsAscii (u : Unicode) (env : Env) (content : List (String × Json)) : Prop :=
  (∃ financial, checkFinancialConsistency env content = .ok financial) →
    ∀ series digits, Fabricated u u.isDecimal series (textBlob content).toList digits →
      series.fits digits → ∃ digits',
        Fabricated u Char.isDigit series (textBlob content).toList digits' ∧
          series.label u digits' = series.label u digits

theorem caught_iff (hu : u.SpacesApart) :
    Caught u env content taskType existing ↔ DigitsFit u env content taskType existing := by
  have hsilent : Silent (checkCitations u content) ↔ _ := silent_checkCitations_iff hu
  constructor
  · intro hcaught hsound part hpart series digits hfab _
    by_contra hnone
    exact hcaught part hpart series digits hfab (passes_iff.mpr ⟨hsound, hsilent.mpr hnone⟩)
  · intro hcond part hpart series digits hfab hpasses
    obtain ⟨hsound, hcite⟩ := passes_iff.mp hpasses
    by_cases hfits : series.fits digits
    · have hblob := (cites_textBlob hpart hfab.1).mono fun _ ↦ isDecimal_of_isDigit (u := u)
      exact hsilent.mp hcite ⟨series, digits, ⟨hblob, hfab.2⟩, hfits⟩
    · exact hsilent.mp hcite (hcond hsound part hpart series digits hfab hfits)

theorem named_iff (hu : u.SpacesApart) :
    Named u env content taskType existing ↔ DigitsAscii u env content := by
  constructor
  · rintro hnamed ⟨financial, hfinancial⟩ series digits hfab hfits
    have hrun : runAll u env (.obj content) taskType existing = .ok _ :=
      runAll_eq_ok_iff.mpr ⟨financial, hfinancial, rfl⟩
    have hcite : InvalidCitation (series.report u digits) := invalidCitation_report series digits
    have hmem := (mem_findings_invalidCitation hrun hcite).mpr
      ((mem_checkCitations_iff hu).mpr (Or.inl ⟨series, digits, hfab, hfits, rfl⟩))
    obtain ⟨series', digits', hfab', hsame⟩ := hnamed _ hrun _ hmem hcite
    obtain ⟨rfl, hlabel⟩ := report_eq_iff.mp hsame
    exact ⟨digits', hfab', hlabel.symm⟩
  · intro hcond v hrun f hf hcite
    obtain ⟨financial, hfinancial, -⟩ := runAll_eq_ok_iff.mp hrun
    rcases (mem_checkCitations_iff hu).mp ((mem_findings_invalidCitation hrun hcite).mp hf) with
      ⟨series, digits, hfab, hfits, rfl⟩ | huncited
    · obtain ⟨digits', hfab', hlabel⟩ := hcond ⟨financial, hfinancial⟩ series digits hfab hfits
      exact ⟨series, digits', hfab', report_eq_iff.mpr ⟨rfl, hlabel.symm⟩⟩
    · exact absurd hcite (not_invalidCitation_of_code (code_of_uncited huncited))

/-- Fabricated citations are caught, and the findings name them, exactly if the
digits fit the patterns and are ASCII digits. -/
theorem citations_iff (hu : u.SpacesApart) (env : Env) (content : List (String × Json))
    (taskType : TaskType) (existing : List String) :
    Caught u env content taskType existing ∧ Named u env content taskType existing ↔
      DigitsFit u env content taskType existing ∧ DigitsAscii u env content :=
  and_congr (caught_iff hu) (named_iff hu)

/-- A lease memo that cites this. -/
def memo (citation : String) : List (String × Json) :=
  [("response", .str ("The lessee recognizes a right-of-use asset and a lease liability at the " ++
      "commencement date, measures the liability at the present value of the payments, and " ++
      "discloses its maturities in the notes (" ++ citation ++ ").")),
    ("citations", .arr [.str citation])]

/-- A series and digits in a text of their own. -/
theorem cites_alone (u : Unicode) (series : Series) {digits : List Char} (hne : digits ≠ [])
    (hdigits : digits.all Char.isDigit = true) :
    Cites u Char.isDigit series (series.name.toList ++ ' ' :: digits) digits :=
  ⟨[], [' '], [], by simp, rfl, ⟨by simp, by simp [u.isSpace_ascii ' ' (by decide)]⟩,
    ⟨hne, List.all_eq_true.mp hdigits⟩, rfl⟩

/-- A topic of three digits that is not in the codification is caught. -/
theorem citations_of_memo :
    Caught .ascii Development.env (memo "ASC 999") .sft [] ∧
      Named .ascii Development.env (memo "ASC 999") .sft [] := by
  refine (citations_iff Unicode.spacesApart_ascii _ _ _ _).mpr ⟨?_, ?_⟩
  · have hpart : "ASC 999" ∈ texts (memo "ASC 999") := by decide
    have hcites : Cites .ascii Char.isDigit .asc "ASC 999".toList ['9', '9', '9'] :=
      cites_alone .ascii .asc (by decide) (by decide)
    intro _ _ _ _ _ _ _
    exact ⟨.asc, ['9', '9', '9'],
      ⟨(cites_textBlob hpart hcites).mono fun _ ↦ isDecimal_of_isDigit, by decide⟩, rfl⟩
  · intro _ series digits hfab _
    have hdigit (c : Char) (h : Unicode.ascii.isDecimal c = true) : c.isDigit = true := by
      simpa [Unicode.isDecimal, Unicode.ascii] using h
    exact ⟨digits, ⟨hfab.1.mono hdigit, hfab.2⟩, rfl⟩

/-- A topic of four digits passes gate 1. -/
theorem fourDigits_pass : ¬Caught .ascii Development.env (memo "ASC 9999") .sft [] := by
  intro hcaught
  have hpart : "ASC 9999" ∈ texts (memo "ASC 9999") := by decide
  have hcites : Cites .ascii Char.isDigit .asc "ASC 9999".toList ['9', '9', '9', '9'] :=
    cites_alone .ascii .asc (by decide) (by decide)
  have hrun : runAll .ascii Development.env (.obj (memo "ASC 9999")) .sft [] = .ok ⟨[]⟩ := by
    decide +kernel
  exact hcaught "ASC 9999" hpart .asc _ ⟨hcites, by decide⟩ ⟨_, hrun, by decide⟩

end Validators

end HumanDataFactory
