import HumanDataFactory.Python.Canonical

/-!
# `json.loads`

A reader of JSON texts that follows the decoder of Python's library: strings
with their escapes and surrogate pairs, numbers by the longest match, `NaN` and
the infinities, dictionaries whose last entry for a key counts.  Characters,
strings and numbers are read back from the text `json.dumps` gives them.
-/

namespace HumanDataFactory

namespace Json

open PrefixCode

/-! ## Strings -/

def hexValue? (c : Char) : Option ℕ :=
  if '0' ≤ c ∧ c ≤ '9' then some (c.toNat - 48)
  else if 'a' ≤ c ∧ c ≤ 'f' then some (c.toNat - 87)
  else if 'A' ≤ c ∧ c ≤ 'F' then some (c.toNat - 55)
  else none

/-- Four hexadecimal digits. -/
def readHex : List Char → Option (ℕ × List Char)
  | a :: b :: c :: d :: rest => do
      let a ← hexValue? a
      let b ← hexValue? b
      let c ← hexValue? c
      let d ← hexValue? d
      return (a * 4096 + b * 256 + c * 16 + d, rest)
  | _ => none

/-- The escapes of one letter. -/
def readEscape : Char → Option Char
  | '"' => some '"'
  | '\\' => some '\\'
  | '/' => some '/'
  | 'b' => some (Char.ofNat 8)
  | 'f' => some (Char.ofNat 12)
  | 'n' => some '\n'
  | 'r' => some '\r'
  | 't' => some '\t'
  | _ => none

/-- The second half of a surrogate pair. -/
def readLow (high : ℕ) : List Char → Option (Char × List Char)
  | '\\' :: 'u' :: text => do
      let (low, rest) ← readHex text
      if 56320 ≤ low ∧ low < 57344 then
        return (Char.ofNat (65536 + (high - 55296) * 1024 + (low - 56320)), rest)
      else none
  | _ => none

/-- One character of a string; half a surrogate pair is none. -/
def scanChar : List Char → Option (Char × List Char)
  | '\\' :: 'u' :: text => do
      let (unit, rest) ← readHex text
      if 55296 ≤ unit ∧ unit < 56320 then readLow unit rest
      else if 56320 ≤ unit ∧ unit < 57344 then none
      else return (Char.ofNat unit, rest)
  | '\\' :: e :: rest => do
      let c ← readEscape e
      return (c, rest)
  | ['\\'] => none
  | c :: rest => if c.toNat < 32 then none else some (c, rest)
  | [] => none

/-- The characters up to the closing quote. -/
def scanChars : ℕ → List Char → Option (List Char × List Char)
  | 0, _ => none
  | _ + 1, '"' :: rest => some ([], rest)
  | n + 1, text => do
      let (c, text) ← scanChar text
      let (cs, rest) ← scanChars n text
      return (c :: cs, rest)

/-- A string after its opening quote. -/
def scanString (text : List Char) : Option (String × List Char) :=
  (scanChars text.length text).map fun r ↦ (String.ofList r.1, r.2)

/-! ## Numbers -/

/-- `0|[1-9][0-9]*`. -/
def readWhole : List Char → Option (List Char × List Char)
  | '0' :: rest => some (['0'], rest)
  | c :: rest =>
      if c.isDigit then some (c :: rest.takeWhile Char.isDigit, rest.dropWhile Char.isDigit)
      else none
  | [] => none

/-- `(\.[0-9]+)?`. -/
def readFraction : List Char → List Char × List Char
  | '.' :: rest =>
      if rest.takeWhile Char.isDigit = [] then ([], '.' :: rest)
      else ('.' :: rest.takeWhile Char.isDigit, rest.dropWhile Char.isDigit)
  | text => ([], text)

/-- `-?`, or `[-+]?` where a plus sign is admitted. -/
def readSign (plus : Bool) : List Char → List Char × List Char
  | '-' :: rest => (['-'], rest)
  | '+' :: rest => if plus then (['+'], rest) else ([], '+' :: rest)
  | text => ([], text)

/-- `([eE][-+]?[0-9]+)?`. -/
def readExponent : List Char → List Char × List Char
  | [] => ([], [])
  | e :: text =>
      if e = 'e' ∨ e = 'E' then
        let (sign, rest) := readSign true text
        if rest.takeWhile Char.isDigit = [] then ([], e :: text)
        else (e :: sign ++ rest.takeWhile Char.isDigit, rest.dropWhile Char.isDigit)
      else ([], e :: text)

def natOf (digits : List Char) : ℕ :=
  Nat.ofDigitChars 10 digits 0

/-- `int(integer)`. -/
def intOf (sign digits : List Char) : ℤ :=
  if sign = ['-'] then -(natOf digits : ℤ) else natOf digits

section Reader

variable (readFloat : String → Option PyFloat)

def readNumber (text : List Char) : Option (Json × List Char) := do
  let (sign, text) := readSign false text
  let (whole, text) ← readWhole text
  let (fraction, text) := readFraction text
  let (exponent, rest) := readExponent text
  if fraction = [] ∧ exponent = [] then return (int (intOf sign whole), rest)
  else do
    let x ← readFloat (String.ofList (sign ++ whole ++ fraction ++ exponent))
    return (float x, rest)

/-- The values that are written as a word. -/
def words : List (String × Json) :=
  [("null", null), ("true", bool true), ("false", bool false), ("NaN", float .nan),
    ("Infinity", float .posInf), ("-Infinity", float .negInf)]

/-- The first word the text starts with, and what follows it. -/
def readWord (text : List Char) : List (String × Json) → Option (Json × List Char)
  | [] => none
  | (w, x) :: rest =>
      if w.toList <+: text then some (x, text.drop w.toList.length) else readWord text rest

def readAtom (text : List Char) : Option (Json × List Char) :=
  (readWord text words).or (readNumber readFloat text)

/-! ## Values -/

def isBlank (c : Char) : Bool :=
  c = ' ' ∨ c = '\t' ∨ c = '\n' ∨ c = '\r'

def skip (text : List Char) : List Char :=
  text.dropWhile isBlank

/-- `dict(pairs)`. -/
def asDict (pairs : List (String × Json)) : List (String × Json) :=
  pairs.foldl (fun kvs kv ↦ insert kvs kv.1 kv.2) []

mutual

def readValue : ℕ → List Char → Option (Json × List Char)
  | 0, _ => none
  | n + 1, text =>
      match text with
      | '"' :: rest => (scanString rest).map fun r ↦ (str r.1, r.2)
      | '[' :: rest =>
          match skip rest with
          | ']' :: rest => some (arr [], rest)
          | text => (readItems n text).map fun r ↦ (arr r.1, r.2)
      | '\x7b' :: rest =>
          match skip rest with
          | '\x7d' :: rest => some (obj [], rest)
          | text => (readEntries n text).map fun r ↦ (obj (asDict r.1), r.2)
      | text => readAtom readFloat text

/-- The items of a list from the first one on. -/
def readItems : ℕ → List Char → Option (List Json × List Char)
  | 0, _ => none
  | n + 1, text => do
      let (x, rest) ← readValue n text
      match skip rest with
      | ',' :: rest => do
          let (xs, rest) ← readItems n (skip rest)
          return (x :: xs, rest)
      | ']' :: rest => return ([x], rest)
      | _ => none

/-- The entries of a dictionary from the first key on. -/
def readEntries : ℕ → List Char → Option (List (String × Json) × List Char)
  | n + 1, '"' :: text => do
      let (k, rest) ← scanString text
      match skip rest with
      | ':' :: rest => do
          let (x, rest) ← readValue n (skip rest)
          match skip rest with
          | ',' :: rest => do
              let (kvs, rest) ← readEntries n (skip rest)
              return ((k, x) :: kvs, rest)
          | '\x7d' :: rest => return ([(k, x)], rest)
          | _ => none
      | _ => none
  | _, _ => none

end

/-- `json.loads`: one value with white space around it. -/
def loads (text : String) : Option Json :=
  match readValue readFloat (2 * text.toList.length) (skip text.toList) with
  | some (x, rest) => if skip rest = [] then some x else none
  | none => none

end Reader

example : (loads (fun _ ↦ none)
    " \x7b\"a\": [1, -20, \"\\u00e9\"], \"b\": null, \"a\": true\x7d\n").map
      (dumps (fun _ ↦ "0.0") readable) = some "\x7b\"a\": true, \"b\": null\x7d" := by
  decide +kernel

/-! ## Strings are read back -/

theorem hexValue?_hexDigit {n : ℕ} (h : n < 16) : hexValue? (hexDigit n) = some n := by
  interval_cases n <;> decide

theorem readHex_digits {n : ℕ} (h : n < 65536) (u : List Char) :
    readHex (hexDigit (n / 4096 % 16) :: hexDigit (n / 256 % 16) :: hexDigit (n / 16 % 16) ::
      hexDigit (n % 16) :: u) = some (n, u) := by
  have hsplit : n / 4096 % 16 * 4096 + n / 256 % 16 * 256 + n / 16 % 16 * 16 + n % 16 = n := by
    omega
  simp [readHex, hexValue?_hexDigit (Nat.mod_lt _ (by norm_num : 16 > 0)), hsplit]

theorem toList_unicodeEscape_append (n : ℕ) (u : List Char) :
    (unicodeEscape n).toList ++ u = '\\' :: 'u' :: hexDigit (n / 4096 % 16) ::
      hexDigit (n / 256 % 16) :: hexDigit (n / 16 % 16) :: hexDigit (n % 16) :: u := by
  rw [toList_unicodeEscape]
  rfl

/-- A character of the basic plane. -/
theorem scanChar_unit {n : ℕ} (h : n < 65536) (hnot : ¬(55296 ≤ n ∧ n < 57344)) (u : List Char) :
    scanChar ((unicodeEscape n).toList ++ u) = some (Char.ofNat n, u) := by
  have hhigh : ¬(55296 ≤ n ∧ n < 56320) := by omega
  have hlow : ¬(56320 ≤ n ∧ n < 57344) := by omega
  rw [toList_unicodeEscape_append, scanChar, readHex_digits h]
  simp [hhigh, hlow]

/-- A character beyond it, as two units. -/
theorem scanChar_pair {high low : ℕ} (hhigh : 55296 ≤ high ∧ high < 56320)
    (hlow : 56320 ≤ low ∧ low < 57344) (u : List Char) :
    scanChar ((unicodeEscape high).toList ++ ((unicodeEscape low).toList ++ u)) =
      some (Char.ofNat (65536 + (high - 55296) * 1024 + (low - 56320)), u) := by
  rw [toList_unicodeEscape_append, scanChar, readHex_digits (by omega)]
  simp only [Option.bind_eq_bind, Option.bind_some, if_pos hhigh]
  rw [toList_unicodeEscape_append, readLow, readHex_digits (by omega)]
  simp [hlow]

theorem scanChar_plain {c : Char} (hslash : c ≠ '\\') (hprintable : ¬c.toNat < 32)
    (u : List Char) : scanChar (c :: u) = some (c, u) := by
  unfold scanChar
  split
  · rename_i heq
    exact absurd (List.cons.inj heq).1 hslash
  · rename_i heq
    exact absurd (List.cons.inj heq).1 hslash
  · rename_i heq
    exact absurd (List.cons.inj heq).1 hslash
  · rename_i heq
    obtain ⟨rfl, rfl⟩ := List.cons.inj heq
    rw [if_neg hprintable]
  · rename_i heq
    simp at heq

/-- Every escaped character is read back, whatever follows it. -/
theorem scanChar_escapeChar (ascii : Bool) (c : Char) (u : List Char) :
    scanChar ((escapeChar ascii c).toList ++ u) = some (c, u) := by
  unfold escapeChar
  split
  · rename_i h
    simp [h, scanChar, readEscape]
  split
  · rename_i h
    simp [h, scanChar, readEscape]
  split
  · rename_i h
    simp [h, scanChar, readEscape]
  split
  · rename_i h
    simp [h, scanChar, readEscape]
  split
  · rename_i h
    simp [h, scanChar, readEscape]
  split
  · rename_i h
    have hc : c = Char.ofNat 8 := by rw [← h, Char.ofNat_toNat]
    simp [hc, scanChar, readEscape]
  split
  · rename_i h
    have hc : c = Char.ofNat 12 := by rw [← h, Char.ofNat_toNat]
    simp [hc, scanChar, readEscape]
  have hvalid : c.toNat < 55296 ∨ 57343 < c.toNat ∧ c.toNat < 1114112 := c.valid
  split
  · split
    · rename_i hbmp
      rw [scanChar_unit hbmp (by omega), Char.ofNat_toNat]
    · rename_i hbeyond
      have hpair : 65536 + (55296 + (c.toNat - 65536) / 1024 - 55296) * 1024 +
          (56320 + (c.toNat - 65536) % 1024 - 56320) = c.toNat := by omega
      rw [String.toList_append, List.append_assoc, scanChar_pair (by omega) (by omega), hpair,
        Char.ofNat_toNat]
  · rename_i hslash _ _ _ _ _ hescape
    simpa using scanChar_plain hslash (fun h ↦ hescape (Or.inl h)) u

theorem toList_quoted (ascii : Bool) (s : String) :
    (quote ascii s).toList =
      '"' :: (s.toList.flatMap (fun c ↦ (escapeChar ascii c).toList) ++ ['"']) := by
  simp [quote, String.toList_join, List.flatMap_map]

/-- No escape starts with the closing quote. -/
theorem escapeChar_opens (ascii : Bool) (c : Char) :
    ∃ d w, (escapeChar ascii c).toList = d :: w ∧ d ≠ '"' := by
  have hread := scanChar_escapeChar ascii c []
  cases hw : (escapeChar ascii c).toList with
  | nil =>
      rw [hw] at hread
      simp [scanChar] at hread
  | cons d w =>
      refine ⟨d, w, rfl, ?_⟩
      rintro rfl
      rw [hw] at hread
      have hplain := scanChar_plain (c := '"') (by decide) (by decide) (w ++ [])
      rw [List.cons_append, hplain] at hread
      obtain rfl := (Prod.mk.inj (Option.some.inj hread)).1
      have hquote : (escapeChar ascii '"').toList = ['\\', '"'] := by cases ascii <;> rfl
      rw [hquote] at hw
      simp at hw

theorem scanChars_escaped (ascii : Bool) {cs : List Char} {n : ℕ} (h : cs.length < n)
    (u : List Char) :
    scanChars n (cs.flatMap (fun c ↦ (escapeChar ascii c).toList) ++ '"' :: u) = some (cs, u) := by
  induction cs generalizing n with
  | nil =>
      obtain ⟨m, rfl⟩ := Nat.exists_eq_succ_of_ne_zero (Nat.ne_of_gt h)
      rfl
  | cons c cs ih =>
      obtain ⟨m, rfl⟩ := Nat.exists_eq_succ_of_ne_zero (Nat.ne_of_gt (Nat.lt_of_le_of_lt
        (Nat.zero_le _) h))
      obtain ⟨d, w, hopen, hd⟩ := escapeChar_opens ascii c
      have hchar := scanChar_escapeChar ascii c
        (cs.flatMap (fun c ↦ (escapeChar ascii c).toList) ++ '"' :: u)
      rw [List.flatMap_cons, List.append_assoc]
      rw [hopen, List.cons_append] at hchar ⊢
      have hrest := ih (n := m) (by simpa using h)
      rw [scanChars]
      · simp [hchar, hrest]
      · intro rest heq
        exact hd (List.cons.inj heq).1

theorem length_le_flatMap_escapes (ascii : Bool) (cs : List Char) :
    cs.length ≤ (cs.flatMap fun c ↦ (escapeChar ascii c).toList).length := by
  induction cs with
  | nil => simp
  | cons c cs ih =>
      obtain ⟨d, w, hopen, _⟩ := escapeChar_opens ascii c
      rw [List.flatMap_cons, hopen, List.length_append, List.length_cons, List.length_cons]
      omega

/-- What follows the opening quote of a quoted string is the string. -/
theorem scanString_quote (ascii : Bool) (s : String) {text : List Char}
    (h : (quote ascii s).toList = '"' :: text) (u : List Char) :
    scanString (text ++ u) = some (s, u) := by
  rw [toList_quoted] at h
  obtain rfl := (List.cons.inj h).2
  have hlength := length_le_flatMap_escapes ascii s.toList
  unfold scanString
  rw [List.append_assoc, List.singleton_append, scanChars_escaped ascii]
  · simp
  · simp only [List.length_append, List.length_cons]
    omega

/-! ## Numbers are read back -/

def Digits (w : List Char) : Prop :=
  ∀ c ∈ w, c.isDigit = true

/-- `0|[1-9][0-9]*`. -/
def Whole (w : List Char) : Prop :=
  w = ['0'] ∨ ∃ c ds, w = c :: ds ∧ c ≠ '0' ∧ Digits (c :: ds)

/-- `(\.[0-9]+)?`. -/
def Fraction (w : List Char) : Prop :=
  w = [] ∨ ∃ ds, w = '.' :: ds ∧ ds ≠ [] ∧ Digits ds

/-- `([eE][-+]?[0-9]+)?`. -/
def Exponent (w : List Char) : Prop :=
  w = [] ∨ ∃ e sign ds, w = e :: (sign ++ ds) ∧ (e = 'e' ∨ e = 'E') ∧
    (sign = [] ∨ sign = ['-'] ∨ sign = ['+']) ∧ ds ≠ [] ∧ Digits ds

/-- A number with a fraction or an exponent. -/
def FloatLiteral (w : List Char) : Prop :=
  ∃ sign whole fraction exponent, w = sign ++ (whole ++ (fraction ++ exponent)) ∧
    (sign = [] ∨ sign = ['-']) ∧ Whole whole ∧ Fraction fraction ∧ Exponent exponent ∧
      ¬(fraction = [] ∧ exponent = [])

/-- What may follow a value. -/
def following : Set Char :=
  {',', ']', '\x7d', ' ', '\t', '\n', '\r'}

/-- The text does not go on with a digit, a point or an exponent. -/
theorem following_apart {c : Char} (h : c ∈ following) :
    c.isDigit = false ∧ c ≠ '.' ∧ c ≠ 'e' ∧ c ≠ 'E' := by
  simp only [following, Set.mem_insert_iff, Set.mem_singleton_iff] at h
  rcases h with rfl | rfl | rfl | rfl | rfl | rfl | rfl <;> decide

/-- The text does not go on with a digit. -/
def NoDigit (u : List Char) : Prop :=
  ∀ c ∈ u.head?, c.isDigit = false

theorem noDigit_cons {c : Char} (h : c.isDigit = false) (u : List Char) : NoDigit (c :: u) := by
  intro d hd
  rw [List.head?_cons, Option.mem_some_iff] at hd
  exact hd ▸ h

theorem noDigit_of_delimited {u : List Char} (h : Delimited following u) : NoDigit u :=
  fun c hc ↦ (following_apart (h c hc)).1

theorem digits_split {ds u : List Char} (h : Digits ds) (hu : NoDigit u) :
    (ds ++ u).takeWhile Char.isDigit = ds ∧ (ds ++ u).dropWhile Char.isDigit = u := by
  have hnone : u.takeWhile Char.isDigit = [] ∧ u.dropWhile Char.isDigit = u := by
    cases u with
    | nil => exact ⟨rfl, rfl⟩
    | cons c u =>
        have hc : c.isDigit = false := hu c rfl
        simp [hc]
  rw [List.takeWhile_append_of_pos h, List.dropWhile_append_of_pos h, hnone.1, hnone.2]
  simp

theorem readWhole_append {w u : List Char} (h : Whole w) (hu : NoDigit u) :
    readWhole (w ++ u) = some (w, u) := by
  rcases h with rfl | ⟨c, ds, rfl, hzero, hdigits⟩
  · rfl
  · obtain ⟨hc, hds⟩ := List.forall_mem_cons.mp hdigits
    obtain ⟨htake, hdrop⟩ := digits_split hds hu
    rw [List.cons_append, readWhole]
    · rw [if_pos hc, htake, hdrop]
    · exact fun hc ↦ hzero hc

theorem readFraction_append {w u : List Char} (h : Fraction w) (hu : NoDigit u)
    (hpoint : ∀ c ∈ u.head?, c ≠ '.') : readFraction (w ++ u) = (w, u) := by
  rcases h with rfl | ⟨ds, rfl, hne, hdigits⟩
  · cases u with
    | nil => rfl
    | cons c u =>
        have hc : c ≠ '.' := hpoint c rfl
        rw [List.nil_append, readFraction]
        exact fun _ heq ↦ hc (List.cons.inj heq).1
  · obtain ⟨htake, hdrop⟩ := digits_split hdigits hu
    rw [List.cons_append, readFraction, htake, hdrop, if_neg hne]

theorem readSign_append (plus : Bool) {sign u : List Char}
    (h : sign = [] ∨ sign = ['-'] ∨ sign = ['+'] ∧ plus = true)
    (hu : ∀ c ∈ u.head?, c ≠ '-' ∧ c ≠ '+') : readSign plus (sign ++ u) = (sign, u) := by
  rcases h with rfl | rfl | ⟨rfl, rfl⟩
  · cases u with
    | nil => rfl
    | cons c u =>
        obtain ⟨hminus, hplus⟩ := hu c rfl
        rw [List.nil_append, readSign]
        · exact fun _ heq ↦ hminus (List.cons.inj heq).1
        · exact fun _ heq ↦ hplus (List.cons.inj heq).1
  · rfl
  · rfl

theorem not_sign_of_digits {w u : List Char} (hne : w ≠ []) (h : Digits w) :
    ∀ c ∈ (w ++ u).head?, c ≠ '-' ∧ c ≠ '+' := by
  cases w with
  | nil => exact absurd rfl hne
  | cons d w =>
      intro c hc
      rw [List.cons_append, List.head?_cons, Option.mem_some_iff] at hc
      have hdigit : c.isDigit = true := hc ▸ h d List.mem_cons_self
      constructor
      · rintro rfl
        exact absurd hdigit (by decide)
      · rintro rfl
        exact absurd hdigit (by decide)

theorem readExponent_append {w u : List Char} (h : Exponent w) (hu : Delimited following u) :
    readExponent (w ++ u) = (w, u) := by
  rcases h with rfl | ⟨e, sign, ds, rfl, he, hsign, hne, hdigits⟩
  · cases u with
    | nil => rfl
    | cons c u =>
        obtain ⟨_, _, he, hE⟩ := following_apart (hu c rfl)
        rw [List.nil_append, readExponent, if_neg (not_or.mpr ⟨he, hE⟩)]
  · have hreadSign : readSign true (sign ++ (ds ++ u)) = (sign, ds ++ u) :=
      readSign_append true (hsign.imp_right (Or.imp_right fun h ↦ ⟨h, rfl⟩))
        (not_sign_of_digits hne hdigits)
    obtain ⟨htake, hdrop⟩ := digits_split hdigits (noDigit_of_delimited hu)
    rw [List.cons_append, List.append_assoc, readExponent, if_pos he, hreadSign]
    simp only [htake, hdrop, if_neg hne, List.cons_append]

theorem whole_toDigits (n : ℕ) : Whole (Nat.toDigits 10 n) := by
  have hdigits : Digits (Nat.toDigits 10 n) := fun c hc ↦
    Nat.isDigit_of_mem_toDigits (by norm_num) (by norm_num) hc
  rcases Nat.eq_zero_or_pos n with rfl | hpos
  · exact Or.inl rfl
  · have hfirst : ∃ c ds, Nat.toDigits 10 n = c :: ds ∧ c ≠ '0' := by
      clear hdigits
      induction n using Nat.strong_induction_on with
      | h n ih =>
          by_cases hn : n < 10
          · rw [Nat.toDigits_of_lt_base hn]
            refine ⟨_, _, rfl, ?_⟩
            interval_cases n <;> decide
          · obtain ⟨c, ds, hinit, hc⟩ := ih (n / 10) (by omega) (by omega)
            rw [Nat.toDigits_of_base_le (by norm_num) (by omega), hinit]
            exact ⟨c, _, rfl, hc⟩
    obtain ⟨c, ds, heq, hc⟩ := hfirst
    exact Or.inr ⟨c, ds, heq, hc, heq ▸ hdigits⟩

theorem noDigit_fraction {w u : List Char} (h : Fraction w) (hu : NoDigit u) :
    NoDigit (w ++ u) := by
  rcases h with rfl | ⟨ds, rfl, _⟩
  · exact hu
  · exact noDigit_cons (by decide) _

theorem point_of_exponent {w u : List Char} (h : Exponent w) (hu : Delimited following u) :
    (∀ c ∈ (w ++ u).head?, c ≠ '.') ∧ NoDigit (w ++ u) := by
  rcases h with rfl | ⟨e, sign, ds, rfl, he, _⟩
  · exact ⟨fun c hc ↦ (following_apart (hu c hc)).2.1, noDigit_of_delimited hu⟩
  · have hletter : e ≠ '.' ∧ e.isDigit = false := by
      rcases he with rfl | rfl <;> decide
    refine ⟨?_, noDigit_cons hletter.2 _⟩
    intro c hc
    rw [List.cons_append, List.head?_cons, Option.mem_some_iff] at hc
    exact hc ▸ hletter.1

theorem not_sign_of_whole {w u : List Char} (h : Whole w) :
    ∀ c ∈ (w ++ u).head?, c ≠ '-' ∧ c ≠ '+' := by
  rcases h with rfl | ⟨c, ds, rfl, _, hdigits⟩
  · exact not_sign_of_digits (w := ['0']) (by simp) (by simp [Digits])
  · exact not_sign_of_digits (by simp) hdigits

variable {readFloat : String → Option PyFloat}

variable (readFloat) in
theorem readNumber_append {sign whole fraction exponent u : List Char}
    (hsign : sign = [] ∨ sign = ['-']) (hwhole : Whole whole) (hfraction : Fraction fraction)
    (hexponent : Exponent exponent) (hu : Delimited following u) :
    readNumber readFloat (sign ++ (whole ++ (fraction ++ (exponent ++ u)))) =
      if fraction = [] ∧ exponent = [] then some (int (intOf sign whole), u)
      else (readFloat (String.ofList (sign ++ whole ++ fraction ++ exponent))).map
        fun x ↦ (float x, u) := by
  obtain ⟨hpoint, hnodigit⟩ := point_of_exponent hexponent hu
  have hreadSign := readSign_append false (hsign.imp_right Or.inl)
    (not_sign_of_whole (u := fraction ++ (exponent ++ u)) hwhole)
  have hreadWhole := readWhole_append hwhole (noDigit_fraction hfraction hnodigit)
  unfold readNumber
  simp only [hreadSign, hreadWhole, readFraction_append hfraction hnodigit hpoint,
    readExponent_append hexponent hu, Option.bind_eq_bind, Option.bind_some]
  split
  · rfl
  · cases readFloat (String.ofList (sign ++ whole ++ fraction ++ exponent)) <;> rfl

theorem natOf_repr (n : ℕ) : natOf (Nat.repr n).toList = n := by
  rw [natOf, Nat.toList_repr, Nat.ofDigitChars_ten_toDigits]

variable (readFloat) in
/-- An integer is read back. -/
theorem readNumber_int (z : ℤ) {u : List Char} (hu : Delimited following u) :
    readNumber readFloat ((Int.repr z).toList ++ u) = some (int z, u) := by
  have hwhole (n : ℕ) : Whole (Nat.repr n).toList := Nat.toList_repr ▸ whole_toDigits n
  cases z with
  | ofNat n =>
      have hread := readNumber_append readFloat (Or.inl rfl) (hwhole n)
        (Or.inl rfl) (Or.inl rfl) hu
      rw [if_pos ⟨rfl, rfl⟩, intOf, if_neg (by decide), natOf_repr] at hread
      exact hread
  | negSucc n =>
      have hread := readNumber_append readFloat (Or.inr rfl) (hwhole (n + 1))
        (Or.inl rfl) (Or.inl rfl) hu
      rw [if_pos ⟨rfl, rfl⟩, intOf, if_pos rfl, natOf_repr] at hread
      rw [toList_repr_negSucc]
      exact hread

variable (readFloat) in
/-- `float.__repr__`, the names `json` has for what is not finite, and `float`:
the text of a finite number has a fraction or an exponent, and reads as it. -/
structure FloatsRead (floatRepr : PyFloat → String) : Prop where
  literal : ∀ q, FloatLiteral (floatRepr (.finite q)).toList
  back : ∀ q, readFloat (floatRepr (.finite q)) = some (.finite q)
  nan : floatRepr .nan = "NaN"
  posInf : floatRepr .posInf = "Infinity"
  negInf : floatRepr .negInf = "-Infinity"

/-- A finite float is read back. -/
theorem readNumber_float {floatRepr : PyFloat → String} (h : FloatsRead readFloat floatRepr)
    (q : ℚ) {u : List Char} (hu : Delimited following u) :
    readNumber readFloat ((floatRepr (.finite q)).toList ++ u) = some (float (.finite q), u) := by
  obtain ⟨sign, whole, fraction, exponent, htext, hsign, hwhole, hfraction, hexponent, hne⟩ :=
    h.literal q
  have hback : readFloat (String.ofList (sign ++ whole ++ fraction ++ exponent)) =
      some (.finite q) := by
    have hwritten : String.ofList (sign ++ whole ++ fraction ++ exponent) =
        floatRepr (.finite q) := by
      rw [← String.toList_inj, String.toList_ofList, htext]
      simp only [List.append_assoc]
    rw [hwritten, h.back q]
  have hread := readNumber_append readFloat hsign hwhole hfraction hexponent hu
  rw [if_neg hne, hback] at hread
  rw [htext]
  simp only [List.append_assoc]
  exact hread

/-! ## Atoms are read back -/

theorem readWord_digit {c : Char} (h : c.isDigit = true) (u : List Char) :
    readWord (c :: u) words = none := by
  have hne : c ≠ 'n' ∧ c ≠ 't' ∧ c ≠ 'f' ∧ c ≠ 'N' ∧ c ≠ 'I' ∧ c ≠ '-' := by
    refine ⟨?_, ?_, ?_, ?_, ?_, ?_⟩ <;> rintro rfl <;> exact absurd h (by decide)
  obtain ⟨hn, ht, hf, hN, hI, hminus⟩ := hne
  simp [readWord, words, hn.symm, ht.symm, hf.symm, hN.symm, hI.symm, hminus.symm]

theorem readWord_minus {c : Char} (h : c.isDigit = true) (u : List Char) :
    readWord ('-' :: c :: u) words = none := by
  have hne : c ≠ 'I' := by
    rintro rfl
    exact absurd h (by decide)
  simp [readWord, words, hne.symm]

/-- A number starts with a digit, after the sign if it has one. -/
theorem first_of_whole {w : List Char} (h : Whole w) (u : List Char) :
    ∃ c rest, w ++ u = c :: rest ∧ c.isDigit = true := by
  rcases h with rfl | ⟨c, ds, rfl, _, hdigits⟩
  · exact ⟨'0', u, rfl, by decide⟩
  · exact ⟨c, ds ++ u, rfl, hdigits c List.mem_cons_self⟩

/-- What a value begins with if it is an atom. -/
def Opens (c : Char) : Prop :=
  c ≠ '"' ∧ c ≠ '[' ∧ c ≠ '\x7b' ∧ c ≠ ']' ∧ isBlank c = false

instance (c : Char) : Decidable (Opens c) :=
  inferInstanceAs (Decidable (_ ∧ _))

theorem opens_of_digit {c : Char} (h : c.isDigit = true) : Opens c := by
  refine ⟨?_, ?_, ?_, ?_, ?_⟩
  · rintro rfl
    exact absurd h (by decide)
  · rintro rfl
    exact absurd h (by decide)
  · rintro rfl
    exact absurd h (by decide)
  · rintro rfl
    exact absurd h (by decide)
  · refine decide_eq_false ?_
    rintro (rfl | rfl | rfl | rfl) <;> exact absurd h (by decide)

/-- The text is an atom's: no word and no bracket is in the way of it. -/
structure AtomText (readFloat : String → Option PyFloat) (x : Json) (w : List Char) : Prop where
  read : ∀ u, Delimited following u → readAtom readFloat (w ++ u) = some (x, u)
  opens : ∃ c rest, w = c :: rest ∧ Opens c

theorem atomText_word {w : String} {x : Json} (h : (w, x) ∈ words) :
    AtomText readFloat x w.toList := by
  simp only [words, List.mem_cons, Prod.mk.injEq, List.not_mem_nil, or_false] at h
  rcases h with ⟨rfl, rfl⟩ | ⟨rfl, rfl⟩ | ⟨rfl, rfl⟩ | ⟨rfl, rfl⟩ | ⟨rfl, rfl⟩ | ⟨rfl, rfl⟩
  all_goals
    constructor
    · intro u _
      simp [readAtom, readWord, words]
    · exact ⟨_, _, rfl, by decide⟩

variable (readFloat) in
theorem atomText_number {x : Json} {sign whole : List Char} (rest : List Char)
    (hsign : sign = [] ∨ sign = ['-']) (hwhole : Whole whole)
    (hread : ∀ u, Delimited following u →
      readNumber readFloat (sign ++ (whole ++ (rest ++ u))) = some (x, u)) :
    AtomText readFloat x (sign ++ (whole ++ rest)) := by
  constructor
  · intro u hu
    obtain ⟨c, more, hfirst, hdigit⟩ := first_of_whole hwhole (rest ++ u)
    have hword : readWord (sign ++ (whole ++ (rest ++ u))) words = none := by
      rw [hfirst]
      rcases hsign with rfl | rfl
      · exact readWord_digit hdigit more
      · exact readWord_minus hdigit more
    unfold readAtom
    simp only [List.append_assoc]
    rw [hword, hread u hu]
    rfl
  · obtain ⟨c, more, hfirst, hdigit⟩ := first_of_whole hwhole rest
    rw [hfirst]
    rcases hsign with rfl | rfl
    · exact ⟨c, more, rfl, opens_of_digit hdigit⟩
    · exact ⟨'-', _, rfl, by decide⟩

theorem atomText_int (z : ℤ) : AtomText readFloat (int z) (Int.repr z).toList := by
  have hwhole (n : ℕ) : Whole (Nat.repr n).toList := Nat.toList_repr ▸ whole_toDigits n
  cases z with
  | ofNat n =>
      have hatom := atomText_number readFloat (x := int n) [] (Or.inl rfl) (hwhole n)
        fun u hu ↦ readNumber_int readFloat n hu
      rw [List.append_nil] at hatom
      exact hatom
  | negSucc n =>
      have hatom := atomText_number readFloat (x := int (Int.negSucc n)) [] (Or.inr rfl)
        (hwhole (n + 1)) fun u hu ↦ by
          have hread := readNumber_int readFloat (Int.negSucc n) hu
          rwa [toList_repr_negSucc] at hread
      rw [List.append_nil] at hatom
      rw [toList_repr_negSucc]
      exact hatom

theorem atomText_text {floatRepr : PyFloat → String} (h : FloatsRead readFloat floatRepr)
    {x : Json} (hx : atomic x = true) : AtomText readFloat x (text floatRepr x) := by
  cases x with
  | null => exact atomText_word (w := "null") (by simp [words])
  | bool b =>
      cases b
      · exact atomText_word (w := "false") (by simp [words])
      · exact atomText_word (w := "true") (by simp [words])
  | int z => exact atomText_int z
  | float y =>
      cases y with
      | finite q =>
          obtain ⟨sign, whole, fraction, exponent, htext, hsign, hwhole, _⟩ := h.literal q
          have hwritten : text floatRepr (float (.finite q)) =
              sign ++ (whole ++ (fraction ++ exponent)) := htext
          rw [hwritten]
          refine atomText_number readFloat _ hsign hwhole fun u hu ↦ ?_
          have hread := readNumber_float h q hu
          rw [htext] at hread
          simp only [List.append_assoc] at hread ⊢
          exact hread
      | posInf =>
          have hword : text floatRepr (float .posInf) = "Infinity".toList :=
            congrArg String.toList h.posInf
          exact hword ▸ atomText_word (by simp [words])
      | negInf =>
          have hword : text floatRepr (float .negInf) = "-Infinity".toList :=
            congrArg String.toList h.negInf
          exact hword ▸ atomText_word (by simp [words])
      | nan =>
          have hword : text floatRepr (float .nan) = "NaN".toList :=
            congrArg String.toList h.nan
          exact hword ▸ atomText_word (by simp [words])
  | _ => simp [atomic] at hx

end Json

end HumanDataFactory
