import HumanDataFactory.PrefixCode
import HumanDataFactory.Python.Json
import Mathlib.Tactic.IntervalCases

/-!
# What `json.dumps` with sorted keys determines

Two values are dumped to the same text exactly if they are the same up to the
order of their dictionaries' entries.
-/

namespace HumanDataFactory

namespace Json

open PrefixCode

/-! ## Strings -/

def hexValue (c : Char) : ℕ :=
  if c.toNat < 58 then c.toNat - 48 else c.toNat - 87

/-- The code unit of a `\u` escape. -/
def readUnit : List Char → Option (ℕ × List Char)
  | '\\' :: 'u' :: a :: b :: c :: d :: rest =>
      some (hexValue a * 4096 + hexValue b * 256 + hexValue c * 16 + hexValue d, rest)
  | _ => none

def readShort : Char → Option Char
  | '"' => some '"'
  | '\\' => some '\\'
  | 'n' => some '\n'
  | 'r' => some '\r'
  | 't' => some '\t'
  | 'b' => some (Char.ofNat 8)
  | 'f' => some (Char.ofNat 12)
  | _ => none

/-- One character of a JSON string, read off the front of the text. -/
def readChar (text : List Char) : Option (Char × List Char) :=
  match text with
  | '\\' :: e :: rest =>
      match readShort e with
      | some c => some (c, rest)
      | none =>
          match readUnit text with
          | none => none
          | some (n, rest) =>
              if 55296 ≤ n ∧ n < 56320 then
                match readUnit rest with
                | none => none
                | some (m, rest) =>
                    some (Char.ofNat (65536 + (n - 55296) * 1024 + (m - 56320)), rest)
              else some (Char.ofNat n, rest)
  | c :: rest => some (c, rest)
  | [] => none

theorem hexValue_hexDigit {n : ℕ} (h : n < 16) : hexValue (hexDigit n) = n := by
  interval_cases n <;> decide

theorem toList_unicodeEscape (n : ℕ) :
    (unicodeEscape n).toList = ['\\', 'u', hexDigit (n / 4096 % 16), hexDigit (n / 256 % 16),
      hexDigit (n / 16 % 16), hexDigit (n % 16)] := by
  simp [unicodeEscape]

theorem readUnit_unicodeEscape {n : ℕ} (h : n < 65536) (u : List Char) :
    readUnit ((unicodeEscape n).toList ++ u) = some (n, u) := by
  have hsplit : n / 4096 % 16 * 4096 + n / 256 % 16 * 256 + n / 16 % 16 * 16 + n % 16 = n := by
    omega
  simp only [toList_unicodeEscape, List.cons_append, List.nil_append, readUnit,
    hexValue_hexDigit (Nat.mod_lt _ (by norm_num : 16 > 0)), hsplit]

theorem readChar_unicodeEscape {n : ℕ} (h : n < 65536) (u : List Char) :
    readChar ((unicodeEscape n).toList ++ u) =
      if 55296 ≤ n ∧ n < 56320 then
        match readUnit u with
        | none => none
        | some (m, rest) => some (Char.ofNat (65536 + (n - 55296) * 1024 + (m - 56320)), rest)
      else some (Char.ofNat n, u) := by
  have hunit := readUnit_unicodeEscape h u
  rw [toList_unicodeEscape] at hunit ⊢
  have hshort : readShort 'u' = none := rfl
  simp only [List.cons_append, List.nil_append, readChar, hshort] at hunit ⊢
  rw [hunit]

theorem readChar_plain {c : Char} (h : c ≠ '\\') (u : List Char) :
    readChar (c :: u) = some (c, u) := by
  unfold readChar
  split
  · rename_i heq
    exact absurd (List.cons.inj heq).1 h
  · rename_i heq
    rw [(List.cons.inj heq).1, (List.cons.inj heq).2]
  · rename_i heq
    simp at heq

/-- Every escaped character is read back, whatever follows it. -/
theorem readChar_escapeChar (c : Char) (u : List Char) :
    readChar ((escapeChar true c).toList ++ u) = some (c, u) := by
  unfold escapeChar
  split
  · rename_i h
    simp [h, readChar, readShort]
  split
  · rename_i h
    simp [h, readChar, readShort]
  split
  · rename_i h
    simp [h, readChar, readShort]
  split
  · rename_i h
    simp [h, readChar, readShort]
  split
  · rename_i h
    simp [h, readChar, readShort]
  split
  · rename_i h
    have hc : c = Char.ofNat 8 := by rw [← h, Char.ofNat_toNat]
    simp [hc, readChar, readShort]
  split
  · rename_i h
    have hc : c = Char.ofNat 12 := by rw [← h, Char.ofNat_toNat]
    simp [hc, readChar, readShort]
  have hvalid : c.toNat < 55296 ∨ 57343 < c.toNat ∧ c.toNat < 1114112 := c.valid
  split
  · split
    · rename_i hbmp
      rw [readChar_unicodeEscape hbmp, if_neg (by omega), Char.ofNat_toNat]
    · -- the two halves of a surrogate pair
      rename_i hbeyond
      have hhigh : 55296 + (c.toNat - 65536) / 1024 < 65536 := by omega
      have hlow : 56320 + (c.toNat - 65536) % 1024 < 65536 := by omega
      have hpair : 65536 + (55296 + (c.toNat - 65536) / 1024 - 55296) * 1024 +
          (56320 + (c.toNat - 65536) % 1024 - 56320) = c.toNat := by omega
      rw [String.toList_append, List.append_assoc, readChar_unicodeEscape hhigh,
        if_pos (by omega), readUnit_unicodeEscape hlow]
      simp only [hpair, Char.ofNat_toNat]
  · rename_i hslash _ _ _ _ _ _
    simpa using readChar_plain hslash u

theorem toList_quote (s : String) :
    (quote true s).toList =
      '"' :: (s.toList.flatMap (fun c ↦ (escapeChar true c).toList) ++ ['"']) := by
  simp [quote, String.toList_join, List.flatMap_map]

/-- No escape starts with the closing quote. -/
theorem escapeChar_open (c : Char) :
    ∃ d w, (escapeChar true c).toList = d :: w ∧ d ≠ '"' := by
  have hread := readChar_escapeChar c []
  rw [List.append_nil] at hread
  cases hw : (escapeChar true c).toList with
  | nil =>
      rw [hw] at hread
      simp [readChar] at hread
  | cons d w =>
      refine ⟨d, w, rfl, ?_⟩
      rintro rfl
      rw [hw, readChar_plain (by decide)] at hread
      simp only [Option.some.injEq, Prod.mk.injEq] at hread
      have hquote : (escapeChar true '"').toList = ['\\', '"'] := by decide
      rw [← hread.1, hquote] at hw
      simp at hw

theorem decodes_quote (s : String) : Decodes Set.univ (fun s ↦ (quote true s).toList) s := by
  intro t u v _ _ h
  simp only [toList_quote, List.cons_append, List.append_assoc, List.nil_append,
    List.cons.injEq, true_and] at h
  have hchars := decodes_flatMap (fun c _ ↦ decodes_of_reader readChar readChar_escapeChar c)
    escapeChar_open h
  exact ⟨String.toList_inj.mp hchars.1, hchars.2⟩

/-! ## Numbers and constants -/

/-- `float.__repr__` and the names `json` has for what is not finite: different
floats read differently, in a notation that no integer has. -/
structure FloatNotation (floatRepr : PyFloat → String) : Prop where
  injective : Function.Injective floatRepr
  chars : ∀ x, ∀ c ∈ (floatRepr x).toList, c ∈ "0123456789.e+-NaInfity".toList
  marked : ∀ x, ∃ c ∈ (floatRepr x).toList, c ∈ ".eNI".toList

/-- Neither a string, nor a list, nor a dictionary. -/
def atomic : Json → Bool
  | str _ => false
  | arr _ => false
  | obj _ => false
  | _ => true

/-- The characters that end a value inside a list or a dictionary. -/
def closing : Set Char :=
  {',', ']', '\x7d', '\n'}

/-- `sort_keys=True` left to the value. -/
def asWritten : DumpOptions := ⟨false, true, ",", ":"⟩

section Text

variable (floatRepr : PyFloat → String)

def text (x : Json) : List Char :=
  (dumps floatRepr asWritten x).toList

/-- What the text of an atomic value is made of. -/
def atomChars : List Char :=
  "0123456789.e+-NaInfitynulltruefalse".toList

variable {floatRepr}

theorem chars_nat (n : ℕ) : ∀ c ∈ (Nat.repr n).toList, c ∈ "0123456789".toList := by
  intro c hc
  rw [Nat.toList_repr] at hc
  have hdigit := Nat.isDigit_of_mem_toDigits (by norm_num) (by norm_num) hc
  simp only [Char.isDigit, Bool.and_eq_true, decide_eq_true_eq] at hdigit
  have hlow : 48 ≤ c.toNat := hdigit.1
  have hhigh : c.toNat ≤ 57 := hdigit.2
  rw [← Char.ofNat_toNat c]
  interval_cases c.toNat <;> decide

theorem repr_nat_inj {m n : ℕ} (h : Nat.repr m = Nat.repr n) : m = n := by
  have hdigits : Nat.toDigits 10 m = Nat.toDigits 10 n := by
    rw [← Nat.toList_repr, ← Nat.toList_repr, h]
  rw [← Nat.ofDigitChars_ten_toDigits (n := m), hdigits, Nat.ofDigitChars_ten_toDigits]

theorem toList_repr_negSucc (n : ℕ) :
    (Int.repr (Int.negSucc n)).toList = '-' :: (Nat.repr (n + 1)).toList := by
  simp [Int.repr]

theorem chars_int (z : ℤ) : ∀ c ∈ (Int.repr z).toList, c ∈ "0123456789-".toList := by
  have hincl : "0123456789".toList ⊆ "0123456789-".toList := by decide
  intro c hc
  cases z with
  | ofNat n => exact hincl (chars_nat n c hc)
  | negSucc n =>
      rw [toList_repr_negSucc] at hc
      rcases List.mem_cons.mp hc with rfl | hc
      · decide
      · exact hincl (chars_nat _ c hc)

theorem repr_int_ne_nil (z : ℤ) : (Int.repr z).toList ≠ [] := by
  cases z with
  | ofNat n =>
      have hdigits : (Nat.repr n).toList ≠ [] := by
        rw [Nat.toList_repr]
        exact Nat.toDigits_ne_nil
      exact hdigits
  | negSucc n => simp [toList_repr_negSucc]

theorem repr_int_inj {z z' : ℤ} (h : Int.repr z = Int.repr z') : z = z' := by
  have hsign (m n : ℕ) : (Nat.repr m).toList ≠ (Int.repr (Int.negSucc n)).toList := by
    intro hsame
    have hminus : '-' ∈ "0123456789".toList := by
      refine chars_nat m '-' ?_
      rw [hsame, toList_repr_negSucc]
      exact List.mem_cons_self
    exact absurd hminus (by decide)
  cases z with
  | ofNat m =>
      cases z' with
      | ofNat n => rw [repr_nat_inj h]
      | negSucc n => exact absurd (congrArg String.toList h) (hsign m n)
  | negSucc m =>
      cases z' with
      | ofNat n => exact absurd (congrArg String.toList h).symm (hsign n m)
      | negSucc n =>
          have htail := congrArg String.toList h
          rw [toList_repr_negSucc, toList_repr_negSucc] at htail
          have hnat := repr_nat_inj (String.toList_inj.mp (List.cons.inj htail).2)
          rw [Nat.succ.inj hnat]

theorem closing_disjoint : ∀ c ∈ atomChars, c ∉ closing := by
  have hpunct : atomChars.all (fun c ↦ c ≠ ',' ∧ c ≠ ']' ∧ c ≠ '\x7d' ∧ c ≠ '\n') := by decide
  intro c hc
  simpa [closing] using List.all_eq_true.mp hpunct c hc

/-- The values that are written as a word of letters. -/
def keyword : Json → Option String
  | null => some "null"
  | bool b => some (if b then "true" else "false")
  | _ => none

theorem keyword_cases {x : Json} {w : String} (h : keyword x = some w) :
    (x, w) = (null, "null") ∨ (x, w) = (bool true, "true") ∨ (x, w) = (bool false, "false") := by
  cases x with
  | null => simpa [keyword, eq_comm] using h
  | bool b => cases b <;> simpa [keyword, eq_comm] using h
  | _ => cases h

theorem keyword_inj {x y : Json} {w : String} (hx : keyword x = some w)
    (hy : keyword y = some w) : x = y := by
  rcases keyword_cases hx with heq | heq | heq <;> obtain ⟨rfl, rfl⟩ := Prod.mk.inj heq <;>
    rcases keyword_cases hy with heq | heq | heq <;> simp_all

theorem text_keyword {x : Json} {w : String} (h : keyword x = some w) :
    text floatRepr x = w.toList := by
  rcases keyword_cases h with heq | heq | heq <;> obtain ⟨rfl, rfl⟩ := Prod.mk.inj heq <;> rfl

/-- No number is written with these letters alone. -/
theorem keyword_apart {x : Json} {w : String} (h : keyword x = some w) :
    ¬w.toList ⊆ "0123456789-".toList ∧ ¬w.toList ⊆ "0123456789.e+-NaInfity".toList := by
  rcases keyword_cases h with heq | heq | heq <;> obtain ⟨rfl, rfl⟩ := Prod.mk.inj heq <;> decide

variable (h : FloatNotation floatRepr)

include h

/-- An atomic value is a word without punctuation. -/
theorem chars_of_atomic {x : Json} (hx : atomic x = true) :
    text floatRepr x ≠ [] ∧ ∀ c ∈ text floatRepr x, c ∈ atomChars := by
  cases x with
  | null =>
      have htext : text floatRepr null = "null".toList := rfl
      have hincl : "null".toList ⊆ atomChars := by decide
      rw [htext]
      exact ⟨by decide, hincl⟩
  | bool b =>
      have htext : text floatRepr (bool b) = (if b then "true" else "false").toList := by
        cases b <;> rfl
      have hincl : (if b then "true" else "false").toList ⊆ atomChars := by
        cases b <;> decide
      rw [htext]
      exact ⟨by cases b <;> decide, hincl⟩
  | int z =>
      refine ⟨repr_int_ne_nil z, fun c hc ↦ ?_⟩
      have hdigit := chars_int z c hc
      have hincl : "0123456789-".toList ⊆ atomChars := by decide
      exact hincl hdigit
  | float y =>
      obtain ⟨c, hc, _⟩ := h.marked y
      refine ⟨List.ne_nil_of_mem hc, fun d hd ↦ ?_⟩
      have hfloat := h.chars y d hd
      have hincl : "0123456789.e+-NaInfity".toList ⊆ atomChars := by decide
      exact hincl hfloat
  | str s => simp [atomic] at hx
  | arr xs => simp [atomic] at hx
  | obj kvs => simp [atomic] at hx

theorem text_keyword_inj {x y : Json} {w : String} (hx : keyword x = some w) (hy : atomic y = true)
    (heq : text floatRepr x = text floatRepr y) : x = y := by
  obtain ⟨hint, hfloat⟩ := keyword_apart hx
  have hword {w' : String} (hy : keyword y = some w') : x = y := by
    rw [text_keyword hx, text_keyword hy] at heq
    rw [String.toList_inj.mp heq] at hx
    exact keyword_inj hx hy
  rw [text_keyword hx] at heq
  cases y with
  | null => exact hword rfl
  | bool b => exact hword rfl
  | int z =>
      refine absurd ?_ hint
      rw [heq]
      exact chars_int z
  | float q =>
      refine absurd ?_ hfloat
      rw [heq]
      exact h.chars q
  | str s => simp [atomic] at hy
  | arr xs => simp [atomic] at hy
  | obj kvs => simp [atomic] at hy

/-- A float has a mark that no integer has. -/
theorem repr_int_ne_floatRepr (z : ℤ) (q : PyFloat) :
    (Int.repr z).toList ≠ (floatRepr q).toList := by
  intro hsame
  obtain ⟨c, hc, hmark⟩ := h.marked q
  have hdigit : c ∈ "0123456789-".toList := chars_int z c (hsame ▸ hc)
  have hapart : ".eNI".toList.all (fun c ↦ c ∉ "0123456789-".toList) := by decide
  exact of_decide_eq_true (List.all_eq_true.mp hapart c hmark) hdigit

/-- Different atomic values read differently. -/
theorem eq_of_text_atomic {x y : Json} (hx : atomic x = true) (hy : atomic y = true)
    (heq : text floatRepr x = text floatRepr y) : x = y := by
  cases hkeyword : keyword x with
  | some w => exact text_keyword_inj h hkeyword hy heq
  | none =>
      cases hkeyword' : keyword y with
      | some w => exact (text_keyword_inj h hkeyword' hx heq.symm).symm
      | none =>
          cases x with
          | int z =>
              cases y with
              | int z' => rw [repr_int_inj (String.toList_inj.mp heq)]
              | float q => exact absurd heq (repr_int_ne_floatRepr h z q)
              | _ => simp [atomic, keyword] at hy hkeyword'
          | float q =>
              cases y with
              | int z => exact absurd heq.symm (repr_int_ne_floatRepr h z q)
              | float q' => rw [h.injective (String.toList_inj.mp heq)]
              | _ => simp [atomic, keyword] at hy hkeyword'
          | _ => simp [atomic, keyword] at hx hkeyword

end Text

/-! ## Layouts -/

/-- Nothing, or the rest of a line and some of the next. -/
def Gap (u : List Char) : Prop :=
  u = [] ∨ ∃ w, u = '\n' :: w

/-- `F n` writes values `n` levels deep: atoms and strings the one way there
is, lists and dictionaries with some white space. -/
structure Spelling (floatRepr : PyFloat → String) (F : ℕ → Json → List Char) : Prop where
  atom : ∀ n x, atomic x = true → F n x = text floatRepr x
  str : ∀ n s, F n (str s) = (quote true s).toList
  arr : ∀ n, ∃ lead sep d close, Gap lead ∧ d ∈ [']', '\n'] ∧ ∀ xs,
    F n (arr xs) = '[' :: listOf (F (n + 1)) lead (',' :: sep) (d :: close) [']'] xs
  obj : ∀ n, ∃ lead sep d close colon, Gap lead ∧ d ∈ ['\x7d', '\n'] ∧ ∀ kvs,
    F n (obj kvs) = '\x7b' :: listOf (fun kv ↦ (quote true kv.1).toList ++
      (colon ++ F (n + 1) kv.2)) lead (',' :: sep) (d :: close) ['\x7d'] kvs

section Spelling

variable {floatRepr : PyFloat → String} {F : ℕ → Json → List Char}
  (h : FloatNotation floatRepr) (hF : Spelling floatRepr F)

include hF

/-- A list, a dictionary or a string announces itself. -/
theorem Spelling.of_not_atomic (n : ℕ) {x : Json} (hx : atomic x = false) :
    ∃ c w, F n x = c :: w ∧ c ∉ atomChars ∧ c ∉ closing := by
  cases x with
  | str s =>
      rw [hF.str, toList_quote]
      exact ⟨'"', _, rfl, by decide, by simp [closing]⟩
  | arr xs =>
      obtain ⟨lead, sep, d, close, _, _, harr⟩ := hF.arr n
      exact ⟨'[', _, harr xs, by decide, by simp [closing]⟩
  | obj kvs =>
      obtain ⟨lead, sep, d, close, colon, _, _, hobj⟩ := hF.obj n
      exact ⟨'\x7b', _, hobj kvs, by decide, by simp [closing]⟩
  | null => simp [atomic] at hx
  | bool b => simp [atomic] at hx
  | int z => simp [atomic] at hx
  | float y => simp [atomic] at hx

include h

/-- The text of a value starts with a character that ends no other. -/
theorem Spelling.starts (n : ℕ) (x : Json) : ∃ c w, F n x = c :: w ∧ c ∉ closing := by
  cases hx : atomic x with
  | false =>
      obtain ⟨c, w, htext, _, hc⟩ := hF.of_not_atomic n hx
      exact ⟨c, w, htext, hc⟩
  | true =>
      obtain ⟨hne, hchars⟩ := chars_of_atomic h hx
      rw [hF.atom n x hx]
      cases htext : text floatRepr x with
      | nil => exact absurd htext hne
      | cons c w => exact ⟨c, w, rfl, closing_disjoint c (hchars c (by simp [htext]))⟩

theorem Spelling.decodes_of_atomic (n : ℕ) {x : Json} (hx : atomic x = true) :
    Decodes closing (F n) x := by
  intro y u v hu hv heq
  obtain ⟨hne, hchars⟩ := chars_of_atomic h hx
  rw [hF.atom n x hx] at heq
  cases hy : atomic y with
  | true =>
      rw [hF.atom n y hy] at heq
      have hword := append_inj_of_delimited (fun c hc ↦ closing_disjoint c (hchars c hc))
        (fun c hc ↦ closing_disjoint c ((chars_of_atomic h hy).2 c hc)) hu hv heq
      exact ⟨eq_of_text_atomic h hx hy hword.1, hword.2⟩
  | false =>
      obtain ⟨d, w, htext, hd, _⟩ := hF.of_not_atomic n hy
      obtain ⟨c, w', hfirst⟩ := List.exists_cons_of_ne_nil hne
      rw [htext, hfirst] at heq
      have hsame : c = d := (List.cons.inj heq).1
      exact absurd (hchars d (by simp [hfirst, hsame])) hd

theorem Spelling.not_atomic (n : ℕ) {y : Json} {c : Char} {w v : List Char}
    (hc : c ∉ atomChars) (heq : c :: w = F n y ++ v) : atomic y = false := by
  cases hy : atomic y with
  | false => rfl
  | true =>
      obtain ⟨hne, hchars⟩ := chars_of_atomic h hy
      obtain ⟨d, w', hfirst⟩ := List.exists_cons_of_ne_nil hne
      rw [hF.atom n y hy, hfirst] at heq
      have hsame : c = d := (List.cons.inj heq).1
      exact absurd (hchars c (by simp [hfirst, hsame])) hc

theorem Spelling.decodes_str (n : ℕ) (s : String) : Decodes closing (F n) (Json.str s) := by
  intro y u v hu hv heq
  rw [hF.str] at heq
  have hkind : atomic y = false := by
    rw [toList_quote] at heq
    exact hF.not_atomic h n (by decide) heq
  cases y with
  | str t =>
      rw [hF.str] at heq
      obtain ⟨rfl, hrest⟩ := decodes_quote s (delimited_univ u) (delimited_univ v) heq
      exact ⟨rfl, hrest⟩
  | arr ys =>
      obtain ⟨lead, sep, d, close, _, _, harr⟩ := hF.arr n
      simp [toList_quote, harr] at heq
  | obj kvs =>
      obtain ⟨lead, sep, d, close, colon, _, _, hobj⟩ := hF.obj n
      simp [toList_quote, hobj] at heq
  | null => simp [atomic] at hkind
  | bool b => simp [atomic] at hkind
  | int z => simp [atomic] at hkind
  | float q => simp [atomic] at hkind

theorem Spelling.decodes_arr (n : ℕ) {xs : List Json}
    (hxs : ∀ x ∈ xs, Decodes closing (F (n + 1)) x) : Decodes closing (F n) (Json.arr xs) := by
  intro y u v hu hv heq
  obtain ⟨lead, sep, d, close, hlead, hd, harr⟩ := hF.arr n
  rw [harr] at heq
  have hkind : atomic y = false := hF.not_atomic h n (by decide) heq
  have hdelim : d ∈ closing ∧ ',' ≠ d := by
    simp only [List.mem_cons, List.not_mem_nil, or_false] at hd
    rcases hd with rfl | rfl <;> simp [closing]
  cases y with
  | str t => simp [toList_quote, hF.str] at heq
  | arr ys =>
      rw [harr] at heq
      have hopen (x : Json) : ∃ c w, lead ++ F (n + 1) x = c :: w ∧ c ≠ ']' := by
        rcases hlead with rfl | ⟨w, rfl⟩
        · obtain ⟨c, w, htext, hc⟩ := hF.starts h (n + 1) x
          exact ⟨c, w, htext, fun heq ↦ hc (by simp [closing, heq])⟩
        · exact ⟨'\n', _, rfl, by decide⟩
      obtain ⟨rfl, hrest⟩ := decodes_listOf (by simp [closing]) hdelim.1 hdelim.2 hopen hxs
        (List.cons.inj heq).2
      exact ⟨rfl, hrest⟩
  | obj kvs =>
      obtain ⟨lead, sep, d, close, colon, _, _, hobj⟩ := hF.obj n
      simp [hobj] at heq
  | null => simp [atomic] at hkind
  | bool b => simp [atomic] at hkind
  | int z => simp [atomic] at hkind
  | float q => simp [atomic] at hkind

theorem Spelling.decodes_obj (n : ℕ) {kvs : List (String × Json)}
    (hkvs : ∀ kv ∈ kvs, Decodes closing (F (n + 1)) kv.2) :
    Decodes closing (F n) (Json.obj kvs) := by
  intro y u v hu hv heq
  obtain ⟨lead, sep, d, close, colon, hlead, hd, hobj⟩ := hF.obj n
  rw [hobj] at heq
  have hkind : atomic y = false := hF.not_atomic h n (by decide) heq
  have hdelim : d ∈ closing ∧ ',' ≠ d := by
    simp only [List.mem_cons, List.not_mem_nil, or_false] at hd
    rcases hd with rfl | rfl <;> simp [closing]
  cases y with
  | str t => simp [toList_quote, hF.str] at heq
  | arr ys =>
      obtain ⟨lead, sep, d, close, _, _, harr⟩ := hF.arr n
      simp [harr] at heq
  | obj kvs' =>
      rw [hobj] at heq
      have hopen (kv : String × Json) : ∃ c w, lead ++ ((quote true kv.1).toList ++
          (colon ++ F (n + 1) kv.2)) = c :: w ∧ c ≠ '\x7d' := by
        rcases hlead with rfl | ⟨w, rfl⟩
        · rw [toList_quote]
          exact ⟨'"', _, rfl, by decide⟩
        · exact ⟨'\n', _, rfl, by decide⟩
      have hentry (kv : String × Json) (hkv : kv ∈ kvs) : Decodes closing
          (fun kv : String × Json ↦ (quote true kv.1).toList ++ (colon ++ F (n + 1) kv.2)) kv :=
        (decodes_quote kv.1).append ((hkvs kv hkv).append_left colon)
      obtain ⟨rfl, hrest⟩ := decodes_listOf (by simp [closing]) hdelim.1 hdelim.2 hopen hentry
        (List.cons.inj heq).2
      exact ⟨rfl, hrest⟩
  | null => simp [atomic] at hkind
  | bool b => simp [atomic] at hkind
  | int z => simp [atomic] at hkind
  | float q => simp [atomic] at hkind

end Spelling

section Decoding

variable {floatRepr : PyFloat → String} {F : ℕ → Json → List Char}

mutual

theorem Spelling.decodes (h : FloatNotation floatRepr) (hF : Spelling floatRepr F) :
    ∀ (x : Json) (n : ℕ), Decodes closing (F n) x
  | .null, n => hF.decodes_of_atomic h n rfl
  | .bool _, n => hF.decodes_of_atomic h n rfl
  | .int _, n => hF.decodes_of_atomic h n rfl
  | .float _, n => hF.decodes_of_atomic h n rfl
  | .str s, n => hF.decodes_str h n s
  | .arr xs, n => hF.decodes_arr h n (Spelling.decodes_items h hF xs (n + 1))
  | .obj kvs, n => hF.decodes_obj h n (Spelling.decodes_entries h hF kvs (n + 1))

theorem Spelling.decodes_items (h : FloatNotation floatRepr) (hF : Spelling floatRepr F) :
    ∀ (xs : List Json) (n : ℕ), ∀ x ∈ xs, Decodes closing (F n) x
  | [], _ => by simp
  | x :: xs, n =>
      List.forall_mem_cons.mpr ⟨Spelling.decodes h hF x n, Spelling.decodes_items h hF xs n⟩

theorem Spelling.decodes_entries (h : FloatNotation floatRepr) (hF : Spelling floatRepr F) :
    ∀ (kvs : List (String × Json)) (n : ℕ), ∀ kv ∈ kvs, Decodes closing (F n) kv.2
  | [], _ => by simp
  | (_, x) :: kvs, n =>
      List.forall_mem_cons.mpr ⟨Spelling.decodes h hF x n, Spelling.decodes_entries h hF kvs n⟩

end

/-- Values that are spelled alike are equal. -/
theorem Spelling.injective (hF : Spelling floatRepr F) (h : FloatNotation floatRepr) (n : ℕ) :
    Function.Injective (F n) := by
  intro x y heq
  have hwhole := hF.decodes h x n (delimited_nil closing) (delimited_nil closing) (b := y)
  rw [List.append_nil, List.append_nil] at hwhole
  exact (hwhole heq).1

end Decoding

/-! ## The two layouts -/

section Layouts

variable (floatRepr : PyFloat → String)

theorem dumpsItems_eq (o : DumpOptions) (xs : List Json) :
    dumpsItems floatRepr o xs = xs.map (dumps floatRepr o) := by
  induction xs with
  | nil => rw [dumpsItems, List.map_nil]
  | cons x xs ih => rw [dumpsItems, ih, List.map_cons]

theorem dumpsPairs_eq (o : DumpOptions) (kvs : List (String × Json)) :
    dumpsPairs floatRepr o kvs = kvs.map fun kv ↦ (kv.1, dumps floatRepr o kv.2) := by
  induction kvs with
  | nil => rw [dumpsPairs, List.map_nil]
  | cons kv kvs ih =>
      obtain ⟨k, x⟩ := kv
      rw [dumpsPairs, ih, List.map_cons]

theorem dumpsIndentItems_eq (level : ℕ) (xs : List Json) :
    dumpsIndentItems floatRepr level xs = xs.map (dumpsIndent floatRepr level) := by
  induction xs with
  | nil => rw [dumpsIndentItems, List.map_nil]
  | cons x xs ih => rw [dumpsIndentItems, ih, List.map_cons]

theorem dumpsIndentPairs_eq (level : ℕ) (kvs : List (String × Json)) :
    dumpsIndentPairs floatRepr level kvs =
      kvs.map fun kv ↦ quote true kv.1 ++ ": " ++ dumpsIndent floatRepr level kv.2 := by
  induction kvs with
  | nil => rw [dumpsIndentPairs, List.map_nil]
  | cons kv kvs ih =>
      obtain ⟨k, x⟩ := kv
      rw [dumpsIndentPairs, ih, List.map_cons]

theorem spelling_text : Spelling floatRepr fun _ ↦ text floatRepr where
  atom _ _ _ := rfl
  str n s := by
    rw [text, dumps]
    rfl
  arr n := by
    refine ⟨[], [], ']', [], Or.inl rfl, by simp, fun xs ↦ ?_⟩
    have hitems : (xs.map (dumps floatRepr asWritten)).map String.toList =
        xs.map (text floatRepr) := by simp [text, Function.comp_def]
    have htext : text floatRepr (arr xs) = '[' :: ([','].intercalate
        (xs.map (text floatRepr)) ++ [']']) := by
      rw [text, dumps, dumpsItems_eq, ← hitems]
      simp [asWritten, String.toList_intercalate]
    rw [htext]
    cases xs with
    | nil => rfl
    | cons x xs => rw [listOf_cons, List.nil_append]
  obj n := by
    refine ⟨[], [], '\x7d', [], [':'], Or.inl rfl, by simp, fun kvs ↦ ?_⟩
    have hentries : (kvs.map fun kv ↦ quote true kv.1 ++ ":" ++
        dumps floatRepr asWritten kv.2).map String.toList =
          kvs.map fun kv ↦ (quote true kv.1).toList ++ ([':'] ++ text floatRepr kv.2) := by
      simp [text, Function.comp_def]
    have htext : text floatRepr (obj kvs) = '\x7b' :: ([','].intercalate (kvs.map fun kv ↦
        (quote true kv.1).toList ++ ([':'] ++ text floatRepr kv.2)) ++ ['\x7d']) := by
      rw [text, dumps, dumpsPairs_eq, ← hentries]
      simp [asWritten, String.toList_intercalate, Function.comp_def]
    rw [htext]
    cases kvs with
    | nil => rfl
    | cons kv kvs => rw [listOf_cons, List.nil_append]

theorem text_injective (h : FloatNotation floatRepr) : Function.Injective (text floatRepr) :=
  (spelling_text floatRepr).injective h 0

theorem spelling_indent :
    Spelling floatRepr fun n x ↦ (dumpsIndent floatRepr n x).toList where
  atom n x hx := by
    cases x with
    | null => rfl
    | bool b => cases b <;> rfl
    | int z => rfl
    | float y => rfl
    | str s => simp [atomic] at hx
    | arr xs => simp [atomic] at hx
    | obj kvs => simp [atomic] at hx
  str n s := rfl
  arr n := by
    refine ⟨'\n' :: List.replicate (2 * (n + 1)) ' ', '\n' :: List.replicate (2 * (n + 1)) ' ',
      '\n', List.replicate (2 * n) ' ' ++ [']'], Or.inr ⟨_, rfl⟩, by simp, fun xs ↦ ?_⟩
    cases xs with
    | nil => simp [dumpsIndent, listOf]
    | cons x xs =>
        rw [listOf_cons, dumpsIndent, dumpsIndentItems_eq]
        · simp [newline, String.toList_intercalate, Function.comp_def]
        · simp
  obj n := by
    refine ⟨'\n' :: List.replicate (2 * (n + 1)) ' ', '\n' :: List.replicate (2 * (n + 1)) ' ',
      '\n', List.replicate (2 * n) ' ' ++ ['\x7d'], [':', ' '], Or.inr ⟨_, rfl⟩, by simp,
      fun kvs ↦ ?_⟩
    cases kvs with
    | nil => simp [dumpsIndent, listOf]
    | cons kv kvs =>
        have hentries : ((kv :: kvs).map fun kv ↦ quote true kv.1 ++ ": " ++
            dumpsIndent floatRepr (n + 1) kv.2).map String.toList =
              (kv :: kvs).map fun kv ↦ (quote true kv.1).toList ++
                ([':', ' '] ++ (dumpsIndent floatRepr (n + 1) kv.2).toList) := by
          simp [Function.comp_def]
        rw [listOf_cons, ← hentries, dumpsIndent, dumpsIndentPairs_eq]
        · simp only [newline, String.toList_append, String.toList_intercalate, String.toList_ofList]
          simp
        · simp

theorem dumpsIndent_injective (h : FloatNotation floatRepr) (n : ℕ) :
    Function.Injective (dumpsIndent floatRepr n) := by
  intro x y heq
  exact (spelling_indent floatRepr).injective h n (congrArg String.toList heq)

end Layouts

/-! ## Values up to the order of dictionary entries -/

mutual

/-- The entries of every dictionary sorted by key. -/
def canon : Json → Json
  | arr xs => arr (canonItems xs)
  | obj kvs => obj ((canonPairs kvs).insertionSort fun a b ↦ a.1 ≤ b.1)
  | x => x

def canonItems : List Json → List Json
  | [] => []
  | x :: xs => canon x :: canonItems xs

def canonPairs : List (String × Json) → List (String × Json)
  | [] => []
  | (k, x) :: kvs => (k, canon x) :: canonPairs kvs

end

/-- The same value to Python, whose dictionaries do not compare by order. -/
def Same (x y : Json) : Prop :=
  canon x = canon y

theorem canonPairs_eq (kvs : List (String × Json)) :
    canonPairs kvs = kvs.map fun kv ↦ (kv.1, canon kv.2) := by
  induction kvs with
  | nil => rw [canonPairs, List.map_nil]
  | cons kv kvs ih =>
      obtain ⟨k, x⟩ := kv
      rw [canonPairs, ih, List.map_cons]

/-- In the same dictionaries a key that occurs once has the same value. -/
theorem Same.entry {kvs kvs' : List (String × Json)} (h : Same (obj kvs) (obj kvs'))
    {k : String} {x y : Json} (hx : (k, x) ∈ kvs) (hy : ∀ y', (k, y') ∈ kvs' → y' = y) :
    Same x y := by
  rw [Same, canon, canon, obj.injEq, canonPairs_eq, canonPairs_eq] at h
  have hsorted := List.perm_insertionSort (fun a b : String × Json ↦ a.1 ≤ b.1)
    (kvs.map fun kv ↦ (kv.1, canon kv.2))
  rw [h] at hsorted
  have hperm := hsorted.symm.trans (List.perm_insertionSort _ _)
  have hmem : (k, canon x) ∈ kvs'.map fun kv ↦ (kv.1, canon kv.2) :=
    hperm.mem_iff.mp (List.mem_map.mpr ⟨(k, x), hx, rfl⟩)
  obtain ⟨⟨k', y'⟩, hmem', heq⟩ := List.mem_map.mp hmem
  obtain ⟨rfl, hcanon⟩ := Prod.mk.inj heq
  rw [hy y' hmem'] at hcanon
  exact hcanon.symm

theorem Same.str_eq {s t : String} (h : Same (str s) (str t)) : s = t :=
  str.inj h

section Dumps

variable (floatRepr : PyFloat → String)

mutual

/-- Sorting while dumping or before comes to the same. -/
theorem dumps_compact : ∀ x : Json, dumps floatRepr compact x = dumps floatRepr asWritten (canon x)
  | null => rfl
  | bool true => rfl
  | bool false => rfl
  | int _ => rfl
  | float _ => rfl
  | str _ => rfl
  | arr xs => by
      rw [canon, dumps, dumps, dumps_compact_items xs]
      rfl
  | obj kvs => by
      have hsort : sortByKey (dumpsPairs floatRepr compact kvs) =
          dumpsPairs floatRepr asWritten
            ((canonPairs kvs).insertionSort fun a b ↦ a.1 ≤ b.1) := by
        rw [dumps_compact_pairs kvs, dumpsPairs_eq, dumpsPairs_eq, sortByKey]
        exact (List.map_insertionSort (fun a b : String × Json ↦ a.1 ≤ b.1)
          (fun a b : String × String ↦ a.1 ≤ b.1) _ _ fun _ _ _ _ ↦ Iff.rfl).symm
      rw [canon, dumps, dumps, ← hsort]
      rfl

theorem dumps_compact_items : ∀ xs : List Json,
    dumpsItems floatRepr compact xs = dumpsItems floatRepr asWritten (canonItems xs)
  | [] => rfl
  | x :: xs => by
      rw [canonItems, dumpsItems, dumpsItems, dumps_compact x, dumps_compact_items xs]

theorem dumps_compact_pairs : ∀ kvs : List (String × Json),
    dumpsPairs floatRepr compact kvs = dumpsPairs floatRepr asWritten (canonPairs kvs)
  | [] => rfl
  | (k, x) :: kvs => by
      rw [canonPairs, dumpsPairs, dumpsPairs, dumps_compact x, dumps_compact_pairs kvs]

end

theorem Same.dumps_eq {x y : Json} (h : Same x y) :
    dumps floatRepr compact x = dumps floatRepr compact y := by
  have hcanon : canon x = canon y := h
  rw [dumps_compact, dumps_compact, hcanon]

variable {floatRepr}

/-- The compact text determines the value. -/
theorem same_of_dumps (h : FloatNotation floatRepr) {x y : Json}
    (heq : dumps floatRepr compact x = dumps floatRepr compact y) : Same x y := by
  rw [dumps_compact, dumps_compact] at heq
  exact text_injective floatRepr h (congrArg String.toList heq)

end Dumps

end Json

end HumanDataFactory
