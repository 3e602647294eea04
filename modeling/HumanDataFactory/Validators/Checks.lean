import HumanDataFactory.Python.Text
import HumanDataFactory.Settings

/-!
# The deterministic validators

`validators.py`, gate 1: schema, personal data, placeholders, citations,
tie-out of financials and duplicates, over content of any shape.
-/

namespace HumanDataFactory

namespace Validators

variable (u : Unicode) (env : Env)

section Patterns

open Regex

/-- `[A-Za-z]`. -/
def letter : Regex := char Char.isAlpha

def SSN : Regex :=
  sequence [boundary, times u.digit 3, lit '-', times u.digit 2, lit '-', times u.digit 4, boundary]

def EMAIL : Regex :=
  sequence [boundary, plus (char fun c ↦ c.isAlphanum || "._%+-".toList.contains c), lit '@',
    plus (char fun c ↦ c.isAlphanum || ".-".toList.contains c), lit '.',
    seq (times letter 2) (star letter), boundary]

/-- `[\s.-]`. -/
def separator : Regex := char fun c ↦ u.isSpace c || ".-".toList.contains c

def PHONE : Regex :=
  sequence [boundary, opt (sequence [opt (lit '+'), lit '1', opt (separator u)]), opt (lit '('),
    times u.digit 3, opt (lit ')'), separator u, times u.digit 3, separator u, times u.digit 4,
    boundary]

def CARD : Regex :=
  sequence [boundary, between (seq u.digit (opt (oneOf " -"))) 13 19, boundary]

def EIN : Regex :=
  sequence [boundary, times u.digit 2, lit '-', times u.digit 7, boundary]

def PLACEHOLDER : Regex :=
  let i := Unicode.textIgnoringCase
  anyOf [i "lorem ipsum", i "[insert", i "[your ", i "TODO:", seq (i "TBD") boundary,
    sequence [i "xx", plus (i "x"), boundary], seq (i "as an ai") boundary, i "i cannot assist",
    sequence [i "i'm sorry", opt (i ","), i " but i can"]]

def ASC : Regex :=
  sequence [boundary, text "ASC", plus u.space, group 1 (times u.digit 3),
    star (seq (lit '-') (between u.digit 1 3)), boundary]

/-- `\bIFRS\s+(\d{1,2})\b`, and the same for IAS. -/
def numbered (series : String) : Regex :=
  sequence [boundary, text series, plus u.space, group 1 (between u.digit 1 2), boundary]

def IFRS : Regex := numbered u "IFRS"

def IAS : Regex := numbered u "IAS"

end Patterns

def VALID_ASC_TOPICS : List ℕ :=
  [105, 205, 210, 215, 220, 225, 230, 235, 250, 255, 260, 270, 272, 274, 275, 280,
    305, 310, 320, 321, 323, 325, 326, 330, 340, 350, 360,
    405, 410, 420, 430, 440, 450, 460, 470, 480,
    505, 605, 606, 610, 705, 710, 712, 715, 718, 720, 730, 740,
    805, 808, 810, 815, 820, 825, 830, 832, 835, 840, 842, 845, 848, 850, 852, 853, 855, 860,
    905, 908, 910, 912, 915, 920, 922, 924, 926, 928, 930, 932, 940, 942, 944, 946, 948,
    950, 952, 954, 958, 960, 962, 965, 970, 972, 974, 976, 978, 980, 985, 995]

def validIfrs (n : ℕ) : Bool := decide (1 ≤ n ∧ n < 20)

def validIas (n : ℕ) : Bool := decide (1 ≤ n ∧ n < 42)

def BALANCE_TOL : PyFloat := .finite (1 / 100)

/-- The texts of one value: a string, or the strings of a list. -/
def parts : Json → List String
  | .str s => [s]
  | .arr xs => xs.filterMap fun
      | .str s => some s
      | _ => none
  | _ => []

/-- The dictionary behind `content`, which alone has `values` and `get`. -/
def dictionary : Json → Except PyError (List (String × Json))
  | .obj kvs => .ok kvs
  | _ => .error .attributeError

def textBlob (content : List (String × Json)) : String :=
  "\n".intercalate (content.flatMap fun kv ↦ parts kv.2)

/-- `content.get(k)`. -/
def fieldOf (content : List (String × Json)) (k : String) : Json :=
  (Json.lookup content k).getD .null

/-- `v is None or (isinstance(v, (str, list)) and not v)`. -/
def isMissing : Json → Bool
  | .null => true
  | .str s => s = ""
  | .arr xs => xs.isEmpty
  | _ => false

def checkSchema (content : List (String × Json)) (taskType : TaskType) : List Finding :=
  let missing := (REQUIRED_FIELDS taskType).filter fun f ↦ isMissing (fieldOf content f)
  let short :=
    match (fieldOf content (mainKey taskType)).orElse (.str "") with
    | .str main =>
        if 0 < main.length ∧ main.length < MIN_RESPONSE_CHARS then
          [⟨"SCHEMA_TOO_SHORT", .error,
            s!"'{mainKey taskType}' is {main.length} chars; minimum is {MIN_RESPONSE_CHARS}"⟩]
        else []
    | _ => []
  missing.map (fun f ↦
    ⟨"SCHEMA_MISSING_FIELD", .error, s!"required field '{f}' is missing or empty"⟩) ++ short

/-- One round of the Luhn sum: what the digit adds, and whether the next one is
doubled. -/
def luhnStep (acc : ℕ × Bool) (n : ℕ) : ℕ × Bool :=
  (acc.1 + if acc.2 then (if 9 < n * 2 then n * 2 - 9 else n * 2) else n, !acc.2)

def luhn (digits : List Char) : Bool :=
  let values := digits.map fun d ↦ (u.decimal d).getD 0
  (values.reverse.foldl luhnStep (0, false)).1 % 10 = 0

/-- A match of `_CARD` that is reported. -/
def isCard (m : Cursor × Cursor) : Bool :=
  let digits := (m.1.upTo m.2).filter u.isDecimal
  decide (13 ≤ digits.length ∧ digits.length ≤ 19) && luhn u digits

/-- A finding if the pattern occurs. -/
def reportMatch (r : Regex) (text : String) (finding : Finding) : List Finding :=
  if (u.search r text).isSome then [finding] else []

def checkPii (text : String) : List Finding :=
  reportMatch u (SSN u) text
      ⟨"PII_SSN", .error, "text contains an SSN-formatted number"⟩ ++
    reportMatch u (EIN u) text
      ⟨"PII_EIN", .warning, "text contains an EIN-formatted number; confirm it is fictitious"⟩ ++
    reportMatch u EMAIL text ⟨"PII_EMAIL", .error, "text contains an email address"⟩ ++
    reportMatch u (PHONE u) text
      ⟨"PII_PHONE", .warning, "text contains a phone-number-like string"⟩ ++
    if (u.finditer (CARD u) text).any (isCard u) then
      [⟨"PII_CARD", .error, "text contains a Luhn-valid card-like number"⟩]
    else []

def checkPlaceholders (text : String) : List Finding :=
  match u.search PLACEHOLDER text with
  | some m =>
      [⟨"PLACEHOLDER_TEXT", .error,
        s!"placeholder/refusal marker found: {u.repr (m.1.upTo m.2)}"⟩]
  | none => []

/-- `m.group(1)`. -/
def numberOf (m : Cursor × Cursor) : List Char :=
  (m.2.group 1).getD []

def invalidAsc (text : String) : List ℕ :=
  ((u.finditer (ASC u) text).map fun m ↦ u.int (numberOf m)).filter
    fun topic ↦ topic ∉ VALID_ASC_TOPICS

/-- The numbers of a series that are not valid, as they are written. -/
def invalidNumbers (r : Regex) (valid : ℕ → Bool) (text : String) : List (List Char) :=
  ((u.finditer r text).map numberOf).filter fun n ↦ !valid (u.int n)

/-- `content.get("citations") or []` is an empty list. -/
def isUncited (content : List (String × Json)) : Bool :=
  match (fieldOf content "citations").orElse (.arr []) with
  | .arr [] => true
  | _ => false

def uncited (content : List (String × Json)) : List Finding :=
  if isUncited content then
    [⟨"CITATION_NONE", .warning, "no authoritative citations provided"⟩]
  else []

def checkCitations (content : List (String × Json)) : List Finding :=
  (invalidAsc u (textBlob content)).map (fun topic ↦
      ⟨"CITATION_INVALID_ASC", .error, s!"ASC {topic} is not a valid codification topic"⟩) ++
    (invalidNumbers u (IFRS u) validIfrs (textBlob content)).map (fun n ↦
      ⟨"CITATION_INVALID_IFRS", .error, s!"IFRS {String.ofList n} does not exist"⟩) ++
    (invalidNumbers u (IAS u) validIas (textBlob content)).map (fun n ↦
      ⟨"CITATION_INVALID_IAS", .error, s!"IAS {String.ofList n} is not in the IAS series"⟩) ++
    uncited content

/-- `str(x)` of a float. -/
def strFloat : PyFloat → String
  | .posInf => "inf"
  | .negInf => "-inf"
  | .nan => "nan"
  | x => env.floatRepr x

/-- `try` with handlers that turn some exceptions into a finding. -/
def catching (handled : List PyError) (shape : Finding) (x : Except PyError (List Finding)) :
    Except PyError (List Finding) :=
  match x with
  | .ok findings => .ok findings
  | .error e => if e ∈ handled then .ok [shape] else .error e

def balanceSheet (bs : Json) : Except PyError (List Finding) := do
  let assets ← bs.index "assets"
  let a ← assets.toFloat env.parseFloat
  let liabilities ← bs.index "liabilities"
  let l ← liabilities.toFloat env.parseFloat
  let equity ← bs.index "equity"
  let e ← equity.toFloat env.parseFloat
  if BALANCE_TOL.lt (a.sub (l.add e)).abs then
    return [⟨"FIN_BALANCE_SHEET", .error,
      s!"balance sheet does not balance: assets {strFloat env a} != " ++
        s!"liabilities {strFloat env l} + equity {strFloat env e}"⟩]
  else return []

/-- `sum(float(x.get(side, 0) or 0) for x in entries)`. -/
def sumOf (side : String) (entries : List Json) : Except PyError PyFloat :=
  entries.foldlM (fun total x ↦ do
    let amount ← x.getD side (.int 0)
    let value ← (amount.orElse (.int 0)).toFloat env.parseFloat
    return total.add value) (.finite 0)

def journalEntries (entries : List Json) : Except PyError (List Finding) := do
  let debits ← sumOf env "debit" entries
  let credits ← sumOf env "credit" entries
  if BALANCE_TOL.lt (debits.sub credits).abs then
    return [⟨"FIN_JE_UNBALANCED", .error,
      s!"journal entries do not balance: debits {strFloat env debits} != " ++
        s!"credits {strFloat env credits}"⟩]
  else return []

def checkBalanceSheet : Json → Except PyError (List Finding)
  | .obj bs => catching [.keyError, .typeError, .valueError]
      ⟨"FIN_BALANCE_SHEET_SHAPE", .error,
        "balance_sheet must contain numeric assets/liabilities/equity"⟩
      (balanceSheet env (.obj bs))
  | _ => .ok []

def checkJournalEntries : Json → Except PyError (List Finding)
  | .arr (x :: xs) => catching [.typeError, .valueError, .attributeError]
      ⟨"FIN_JE_SHAPE", .error,
        "journal_entries must be a list of \x7baccount, debit, credit\x7d"⟩
      (journalEntries env (x :: xs))
  | _ => .ok []

def checkFinancialConsistency (content : List (String × Json)) : Except PyError (List Finding) :=
  match fieldOf content "financials" with
  | .obj fin => do
      let sheet ← checkBalanceSheet env (fieldOf fin "balance_sheet")
      let entries ← checkJournalEntries env (fieldOf fin "journal_entries")
      return sheet ++ entries
  | _ => .ok []

/-- The lower-cased text without what is not a word character. -/
def normalized (text : String) : String :=
  String.ofList ((env.lower text).toList.filter u.isWord)

/-- `str(content.get(main_key, ""))`. -/
def mainText (content : List (String × Json)) (taskType : TaskType) : String :=
  env.str ((Json.lookup content (mainKey taskType)).getD (.str ""))

def fingerprint (content : List (String × Json)) (taskType : TaskType) : String :=
  env.sha256 (normalized u env (mainText env content taskType))

def checkDuplicate (content : List (String × Json)) (taskType : TaskType)
    (existingFingerprints : List String) : List Finding :=
  if fingerprint u env content taskType ∈ existingFingerprints then
    [⟨"DUPLICATE_CONTENT", .error, "content duplicates an existing submission in this project"⟩]
  else []

def findings (content : List (String × Json)) (taskType : TaskType)
    (existingFingerprints : List String) : Except PyError (List Finding) := do
  let text := textBlob content
  let financial ← checkFinancialConsistency env content
  return checkSchema content taskType ++ checkPii u text ++ checkPlaceholders u text ++
    checkCitations u content ++ financial ++
    checkDuplicate u env content taskType existingFingerprints

def runAll (content : Json) (taskType : TaskType) (existingFingerprints : List String) :
    Except PyError ValidationResult := do
  let content ← dictionary content
  let found ← findings u env content taskType existingFingerprints
  return ⟨found⟩

/-- The content of a submission is a dictionary. -/
def contentFingerprint (content : Json) (taskType : TaskType) : String :=
  match content with
  | .obj content => fingerprint u env content taskType
  | _ => env.sha256 ""

end Validators

/-- The environment whose gate 1 runs the checks of `validators.py`. -/
def Env.validated (u : Unicode) (env : Env) : Env :=
  { env with
    runAll := Validators.runAll u env
    contentFingerprint := Validators.contentFingerprint u env }

end HumanDataFactory
