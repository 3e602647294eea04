import HumanDataFactory.Python.Float
import Mathlib.Data.List.Sort

/-!
# JSON values and Python exceptions

Request bodies, review details, manifests and audit payloads are JSON values.
The operations are the ones the code uses on them: truth tests, dictionary
access with its exceptions, `float()`, and `json.dumps`.
-/

namespace HumanDataFactory

/-- The exceptions that end a request. -/
inductive PyError
  | http (status : ℕ) (detail : String)
  | controlViolation (control message : String)
  | pipelineError (message : String)
  | billingError (message : String)
  | exportError (message : String)
  | keyError
  | typeError
  | valueError
  | attributeError
  | overflowError
  | multipleResultsFound
  | integrityError
  | statementError
  | outside (message : String)
  deriving DecidableEq, Repr

theorem bind_eq_ok {ε α β : Type} {x : Except ε α} {f : α → Except ε β} {b : β} :
    x >>= f = .ok b ↔ ∃ a, x = .ok a ∧ f a = .ok b := by
  cases x with
  | error e => simp [bind, Except.bind]
  | ok a => simp [bind, Except.bind]

inductive Json
  | null
  | bool (b : Bool)
  | int (z : ℤ)
  | float (x : PyFloat)
  | str (s : String)
  | arr (xs : List Json)
  | obj (kvs : List (String × Json))
  deriving Repr

namespace Json

instance : Inhabited Json := ⟨null⟩

/-- `bool(x)`. -/
def truthy : Json → Bool
  | null => false
  | bool b => b
  | int z => z ≠ 0
  | float x => x.truthy
  | str s => s ≠ ""
  | arr xs => !xs.isEmpty
  | obj kvs => !kvs.isEmpty

/-- `x or y`. -/
def orElse (x y : Json) : Json :=
  if x.truthy then x else y

/-- The entry for `k`; Python dictionaries have one entry a key. -/
def lookup (kvs : List (String × Json)) (k : String) : Option Json :=
  (kvs.find? fun kv ↦ kv.1 = k).map Prod.snd

@[simp] theorem lookup_nil (k : String) : lookup [] k = none := rfl

@[simp] theorem lookup_cons (a : String) (x : Json) (kvs : List (String × Json)) (k : String) :
    lookup ((a, x) :: kvs) k = if a = k then some x else lookup kvs k := by
  by_cases h : a = k <;> simp [lookup, h]

theorem lookup_append (kvs kvs' : List (String × Json)) (k : String) :
    lookup (kvs ++ kvs') k = (lookup kvs k).or (lookup kvs' k) := by
  simp [lookup, List.find?_append, Option.map_or]

theorem lookup_replace (kvs : List (String × Json)) (k k' : String) (v : Json) :
    lookup (kvs.map fun kv ↦ if kv.1 = k then (k, v) else kv) k' =
      if k' = k then (lookup kvs k).map fun _ ↦ v else lookup kvs k' := by
  induction kvs with
  | nil => simp
  | cons kv kvs ih =>
      obtain ⟨a, x⟩ := kv
      rw [List.map_cons, lookup_cons, lookup_cons]
      by_cases ha : a = k
      · by_cases hk : k' = k
        · simp [ha, hk]
        · have hne : ¬k = k' := fun h ↦ hk h.symm
          rw [if_pos ha, lookup_cons, if_neg hne, ih]
          simp [hk, ha, hne]
      · rw [if_neg ha, if_neg ha, lookup_cons, ih]
        by_cases hk : k' = k
        · have hne : ¬a = k' := fun h ↦ ha (h.trans hk)
          simp [hk, ha]
        · simp [hk]

/-- `x.get(k)`, with `None` for a missing key; only dictionaries have `get`. -/
def get (x : Json) (k : String) : Except PyError Json :=
  match x with
  | obj kvs => .ok ((lookup kvs k).getD null)
  | _ => .error .attributeError

/-- `x.get(k, d)`. -/
def getD (x : Json) (k : String) (d : Json) : Except PyError Json :=
  match x with
  | obj kvs => .ok ((lookup kvs k).getD d)
  | _ => .error .attributeError

/-- `x[k]` for a string `k`. -/
def index (x : Json) (k : String) : Except PyError Json :=
  match x with
  | obj kvs =>
      match lookup kvs k with
      | some v => .ok v
      | none => .error .keyError
  | _ => .error .typeError

/-- `d.get(k)` read off a dictionary without an exception. -/
def field (x : Json) (k : String) : Json :=
  match x with
  | obj kvs => (lookup kvs k).getD null
  | _ => null

/-- `x | {k: v}` on dictionaries: an old entry keeps its place. -/
def insert (kvs : List (String × Json)) (k : String) (v : Json) : List (String × Json) :=
  if (lookup kvs k).isSome then kvs.map fun kv ↦ if kv.1 = k then (k, v) else kv
  else kvs ++ [(k, v)]

theorem lookup_insert (kvs : List (String × Json)) (k k' : String) (v : Json) :
    lookup (insert kvs k v) k' = if k' = k then some v else lookup kvs k' := by
  unfold insert
  split
  · rename_i hk
    obtain ⟨x, hx⟩ := Option.isSome_iff_exists.mp hk
    simp [lookup_replace, hx]
  · rename_i hk
    have hnone : lookup kvs k = none := by simpa using hk
    by_cases hk' : k' = k
    · simp [lookup_append, hk', hnone]
    · have hne : ¬k = k' := fun h ↦ hk' h.symm
      simp [lookup_append, hk', hne]

/-- `iter(x)`: a list's items, a string's characters, a dictionary's keys. -/
def iter : Json → Except PyError (List Json)
  | arr xs => .ok xs
  | str s => .ok (s.toList.map fun c ↦ str (String.ofList [c]))
  | obj kvs => .ok (kvs.map fun kv ↦ str kv.1)
  | _ => .error .typeError

/-- `x == s`. -/
def isStr (x : Json) (s : String) : Bool :=
  match x with
  | str t => decide (t = s)
  | _ => false

/-- Lists and dictionaries cannot be put into a set. -/
def hashable : Json → Bool
  | arr _ => false
  | obj _ => false
  | _ => true

/-- `set(x)`, in the order of `iter(x)`. -/
def toSet (x : Json) : Except PyError (List Json) := do
  let xs ← x.iter
  if xs.all hashable then .ok xs else .error .typeError

/-- `x in ss` for a set of strings, which wants `x` hashable. -/
def memStrs (ss : List String) : Json → Except PyError Bool
  | str s => .ok (ss.contains s)
  | arr _ => .error .typeError
  | obj _ => .error .typeError
  | _ => .ok false

/-- `x < n`. -/
def ltInt (x : Json) (n : ℤ) : Except PyError Bool :=
  match x with
  | bool b => .ok (decide ((if b then 1 else 0 : ℤ) < n))
  | int z => .ok (decide (z < n))
  | float x => .ok (x.lt (.finite n))
  | _ => .error .typeError

def strs (xs : List String) : Json := arr (xs.map str)

def ofOption (f : α → Json) : Option α → Json
  | some a => f a
  | none => null

structure DumpOptions where
  sortKeys : Bool
  ensureAscii : Bool
  itemSep : String
  keySep : String

def hexDigit (n : ℕ) : Char :=
  if n < 10 then Char.ofNat (48 + n) else Char.ofNat (87 + n)

/-- The escape of one UTF-16 code unit. -/
def unicodeEscape (n : ℕ) : String :=
  "\\u" ++ String.ofList
    [hexDigit (n / 4096 % 16), hexDigit (n / 256 % 16), hexDigit (n / 16 % 16), hexDigit (n % 16)]

def escapeChar (ensureAscii : Bool) (c : Char) : String :=
  if c = '"' then "\\\""
  else if c = '\\' then "\\\\"
  else if c = '\n' then "\\n"
  else if c = '\r' then "\\r"
  else if c = '\t' then "\\t"
  else if c.toNat = 8 then "\\b"
  else if c.toNat = 12 then "\\f"
  else if c.toNat < 32 ∨ (ensureAscii ∧ 126 < c.toNat) then
    if c.toNat < 65536 then unicodeEscape c.toNat
    else
      -- beyond the basic plane: a surrogate pair
      let v := c.toNat - 65536
      unicodeEscape (55296 + v / 1024) ++ unicodeEscape (56320 + v % 1024)
  else String.ofList [c]

def quote (ensureAscii : Bool) (s : String) : String :=
  "\"" ++ String.join (s.toList.map (escapeChar ensureAscii)) ++ "\""

def sortByKey (kvs : List (String × String)) : List (String × String) :=
  kvs.insertionSort fun a b ↦ a.1 ≤ b.1

def newline (level : ℕ) : String :=
  "\n" ++ String.ofList (List.replicate (2 * level) ' ')

section Dumps

variable (floatRepr : PyFloat → String) (o : DumpOptions)

mutual

def dumps : Json → String
  | null => "null"
  | bool true => "true"
  | bool false => "false"
  | int z => toString z
  | float x => floatRepr x
  | str s => quote o.ensureAscii s
  | arr xs => "[" ++ o.itemSep.intercalate (dumpsItems xs) ++ "]"
  | obj kvs =>
      let pairs := if o.sortKeys then sortByKey (dumpsPairs kvs) else dumpsPairs kvs
      "\x7b" ++ o.itemSep.intercalate
        (pairs.map fun kv ↦ quote o.ensureAscii kv.1 ++ o.keySep ++ kv.2) ++ "\x7d"

def dumpsItems : List Json → List String
  | [] => []
  | x :: xs => dumps x :: dumpsItems xs

def dumpsPairs : List (String × Json) → List (String × String)
  | [] => []
  | (k, x) :: kvs => (k, dumps x) :: dumpsPairs kvs

end

mutual

/-- `json.dumps(x, indent=2)` of a value that starts `level` levels deep. -/
def dumpsIndent (level : ℕ) : Json → String
  | arr [] => "[]"
  | arr xs =>
      "[" ++ newline (level + 1) ++ ("," ++ newline (level + 1)).intercalate
        (dumpsIndentItems (level + 1) xs) ++ newline level ++ "]"
  | obj [] => "\x7b\x7d"
  | obj kvs =>
      "\x7b" ++ newline (level + 1) ++ ("," ++ newline (level + 1)).intercalate
        (dumpsIndentPairs (level + 1) kvs) ++ newline level ++ "\x7d"
  | x => dumps floatRepr ⟨false, true, ", ", ": "⟩ x

def dumpsIndentItems (level : ℕ) : List Json → List String
  | [] => []
  | x :: xs => dumpsIndent level x :: dumpsIndentItems level xs

def dumpsIndentPairs (level : ℕ) : List (String × Json) → List String
  | [] => []
  | (k, x) :: kvs =>
      (quote true k ++ ": " ++ dumpsIndent level x) :: dumpsIndentPairs level kvs

end

end Dumps

/-- `sort_keys=True, separators=(",", ":")`. -/
def compact : DumpOptions := ⟨true, true, ",", ":"⟩

/-- `ensure_ascii=False`. -/
def readable : DumpOptions := ⟨false, false, ", ", ": "⟩

example : dumps (fun _ ↦ "0.0") compact
    (obj [("b", arr [int 1, null]), ("a", str "x\n")]) =
      "\x7b\"a\":\"x\\n\",\"b\":[1,null]\x7d" := by decide +kernel

/-- Integers from here on do not round to a finite double. -/
def floatOverflow : ℕ := 2 ^ 1024 - 2 ^ 970

/-- `float(x)`; `parse` reads a string the way `float` does. -/
def toFloat (parse : String → Option PyFloat) : Json → Except PyError PyFloat
  | bool b => .ok (.finite (if b then 1 else 0))
  | int z => if z.natAbs < floatOverflow then .ok (.finite z) else .error .overflowError
  | float x => .ok x
  | str s =>
      match parse s with
      | some x => .ok x
      | none => .error .valueError
  | _ => .error .typeError

end Json

end HumanDataFactory
