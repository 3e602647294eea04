import HumanDataFactory.Python.Json
import HumanDataFactory.Regex

/-!
# Python strings and `re`

The character classes of `re` rest on tables of the interpreter's Unicode
database.  Of these tables only what they say about ASCII is fixed here.
-/

namespace HumanDataFactory

structure Unicode where
  /-- The value of a decimal digit of any script. -/
  decimal : Char → Option ℕ
  isAlnum : Char → Bool
  isSpace : Char → Bool
  isPrintable : Char → Bool
  decimal_lt : ∀ c n, decimal c = some n → n < 10
  isAlnum_of_decimal : ∀ c, (decimal c).isSome = true → isAlnum c = true
  decimal_ascii : ∀ c, c.toNat < 128 →
    decimal c = if c.isDigit then some (c.toNat - 48) else none
  isAlnum_ascii : ∀ c, c.toNat < 128 → isAlnum c = c.isAlphanum
  isSpace_ascii : ∀ c, c.toNat < 128 →
    isSpace c = decide (9 ≤ c.toNat ∧ c.toNat ≤ 13 ∨ 28 ≤ c.toNat ∧ c.toNat ≤ 32)
  isPrintable_ascii : ∀ c, c.toNat < 128 →
    isPrintable c = decide (32 ≤ c.toNat ∧ c.toNat < 127)

namespace Unicode

theorem toNat_of_isDigit {c : Char} (h : c.isDigit = true) : 48 ≤ c.toNat ∧ c.toNat ≤ 57 := by
  simpa [Char.isDigit, UInt32.le_iff_toNat_le] using h

/-- Tables that know no character beyond ASCII. -/
def ascii : Unicode where
  decimal c := if c.isDigit then some (c.toNat - 48) else none
  isAlnum c := c.isAlphanum
  isSpace c := decide (9 ≤ c.toNat ∧ c.toNat ≤ 13 ∨ 28 ≤ c.toNat ∧ c.toNat ≤ 32)
  isPrintable c := decide (32 ≤ c.toNat ∧ c.toNat < 127)
  decimal_lt := by
    intro c n h
    obtain ⟨hdigit, heq⟩ := Option.ite_none_right_eq_some.mp h
    have hvalue := Option.some.inj heq
    have hrange := toNat_of_isDigit hdigit
    omega
  isAlnum_of_decimal := by
    intro c h
    have hdigit : c.isDigit = true := by simpa using h
    simp [Char.isAlphanum, hdigit]
  decimal_ascii := fun _ _ ↦ rfl
  isAlnum_ascii := fun _ _ ↦ rfl
  isSpace_ascii := fun _ _ ↦ rfl
  isPrintable_ascii := fun _ _ ↦ rfl

variable (u : Unicode)

def isDecimal (c : Char) : Bool := (u.decimal c).isSome

/-- `\w`, which also decides where `\b` matches. -/
def isWord (c : Char) : Bool := u.isAlnum c || c == '_'

theorem isWord_newline : u.isWord '\n' = false := by
  simp [isWord, u.isAlnum_ascii '\n' (by decide)]

/-- `int(s)` for a string of decimal digits. -/
def int (digits : List Char) : ℕ :=
  digits.foldl (fun n c ↦ 10 * n + (u.decimal c).getD 0) 0

def escape (mark : String) (width n : ℕ) : String :=
  mark ++ String.ofList ((List.range width).reverse.map fun i ↦ Json.hexDigit (n / 16 ^ i % 16))

def reprChar (quote c : Char) : String :=
  if c = quote ∨ c = '\\' then String.ofList ['\\', c]
  else if c = '\t' then "\\t"
  else if c = '\n' then "\\n"
  else if c = '\r' then "\\r"
  else if u.isPrintable c then String.ofList [c]
  else if c.toNat < 256 then escape "\\x" 2 c.toNat
  else if c.toNat < 65536 then escape "\\u" 4 c.toNat
  else escape "\\U" 8 c.toNat

/-- `repr(s)`: single quotes, unless the string holds some and no double ones. -/
def repr (s : List Char) : String :=
  let quote := if '\'' ∈ s ∧ '"' ∉ s then '"' else '\''
  String.ofList [quote] ++ String.join (s.map (reprChar u quote)) ++ String.ofList [quote]

example : ascii.repr "I'm sorry".toList = "\"I'm sorry\"" := by decide +kernel

/-- `\d`. -/
def digit : Regex := .char u.isDecimal

/-- `\s`. -/
def space : Regex := .char u.isSpace

/-- A letter as `re.IGNORECASE` compares it.  Four letters beyond ASCII count
as one of the alphabet. -/
def foldCase (c : Char) : Char :=
  if c = 'ı' ∨ c = 'İ' then 'i'
  else if c = 'ſ' then 's'
  else if c = '\u212a' then 'k'
  else c.toLower

/-- A literal under `re.IGNORECASE`. -/
def textIgnoringCase (s : String) : Regex :=
  .chars (fun c ↦ .char fun x ↦ foldCase x == foldCase c) s.toList

/-- `pattern.search(s)`. -/
def search (r : Regex) (s : String) : Option (Cursor × Cursor) :=
  r.search u.isWord s.toList

/-- `pattern.finditer(s)`. -/
def finditer (r : Regex) (s : String) : List (Cursor × Cursor) :=
  r.scan u.isWord s.toList

/-- What is found in one line is found in the lines joined. -/
theorem isSome_search_lines {r : Regex} {lines : List String} {line : String}
    (hline : line ∈ lines) (h : (u.search r line).isSome = true) :
    (u.search r ("\n".intercalate lines)).isSome = true := by
  have hfound := Regex.isSome_search_intercalate u.isWord_newline (List.mem_map_of_mem hline) h
  unfold search
  rwa [String.toList_intercalate]

end Unicode

end HumanDataFactory
