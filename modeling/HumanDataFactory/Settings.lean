import HumanDataFactory.Validators

/-!
# Configuration and the environment

The constants of `config.py`, and the functions of the Python runtime, the
libraries and the database that the code calls without looking inside.
-/

namespace HumanDataFactory

namespace Settings

def qcPassThreshold : PyFloat := .finite 4

def qcGrayThreshold : PyFloat := .finite 3

def samplingNew : ℚ := 1

def samplingStandard : ℚ := 35 / 100

def samplingTrusted : ℚ := 10 / 100

def trustedScore : PyFloat := .finite (42 / 10)

def trustedMinApproved : ℕ := 20

def scoreEwmaAlpha : ℚ := 3 / 10

def goldFailPenalty : ℚ := 75 / 100

end Settings

structure Env where
  /-- `hashlib.sha256(s.encode()).hexdigest()`. -/
  sha256 : String → String
  /-- `str(x)` of a value that is not a string. -/
  reprJson : Json → String
  floatRepr : PyFloat → String
  parseFloat : String → Option PyFloat
  lower : String → String
  upper : String → String
  strip : String → String
  isoformat : Time → String
  /-- `json.loads(s)`, if it does not raise. -/
  jsonLoads : String → Option Json
  /-- `stripe.Webhook.construct_event(payload, signature, secret)`, if it does
  not raise. -/
  constructEvent : String → String → String → Option Json
  /-- A query's `ORDER BY`; the order among equal values is the database's. -/
  orderBy : {α : Type} → (α → ℤ) → List α → List α
  orderBy_perm : ∀ {α : Type} (key : α → ℤ) (rows : List α), (orderBy key rows).Perm rows
  orderBy_sorted : ∀ {α : Type} (key : α → ℤ) (rows : List α),
    ((orderBy key rows).map key).Pairwise (· ≤ ·)
  /-- `validators.run_all`. -/
  runAll : Json → TaskType → List String → Except PyError ValidationResult
  /-- `validators.content_fingerprint`. -/
  contentFingerprint : Json → TaskType → String
  anthropicAvailable : Bool
  qcModel : String
  defaultRatesCents : TaskType → ℤ
  authDisabled : Bool
  stripeSecretKey : String
  stripeWebhookSecret : String
  exportsDir : String
  exportS3Bucket : String
  exportS3Endpoint : String
  exportS3Prefix : String

namespace Env

variable (env : Env)

/-- `str(x)`. -/
def str : Json → String
  | .str s => s
  | x => env.reprJson x

@[simp] theorem str_str (s : String) : env.str (.str s) = s := rfl

theorem mem_orderBy {α : Type} {key : α → ℤ} {rows : List α} {a : α} :
    a ∈ env.orderBy key rows ↔ a ∈ rows :=
  (env.orderBy_perm key rows).mem_iff

end Env

end HumanDataFactory
