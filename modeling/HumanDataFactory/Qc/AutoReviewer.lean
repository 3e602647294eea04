import HumanDataFactory.Session

/-!
# The autonomous reviewer

`qc/auto_reviewer.py`: the live review by the model API, its refusal, and the
offline heuristic that replaces it whenever it raises.
-/

namespace HumanDataFactory

open Transact

namespace AutoReviewer

variable (env : Env)

def AUTO_REVIEWER_ID : String := "auto-qc/claude"

def FALLBACK_REVIEWER_ID : String := "auto-qc/heuristic-v1"

def PROMPT_VERSION : String := "qc-prompt-v2"

def CRITICAL_FLAGS : List String :=
  ["CALCULATION_ERROR", "FABRICATED_CITATION", "HALLUCINATION_RISK", "PII"]

def graderVersion (rubric : Rubric) (live : Bool) : String :=
  let model := if live then env.qcModel else "heuristic-v1"
  s!"{PROMPT_VERSION}/{rubric.id}/{model}"

structure AutoReview where
  reviewerId : String
  overallScore : PyFloat
  passed : Bool
  criterionScores : Json
  flags : Json
  summary : Json
  insufficientEvidence : Bool
  graderVersion : String

def AutoReview.asDetail (r : AutoReview) : Json :=
  .obj [("criterion_scores", r.criterionScores), ("flags", r.flags), ("summary", r.summary),
    ("insufficient_evidence", .bool r.insufficientEvidence),
    ("grader_version", .str r.graderVersion),
    ("model", if r.reviewerId = AUTO_REVIEWER_ID then .str env.qcModel else .null)]

/-- `by_key.get(key)`; a dictionary keeps the last of equal keys. -/
def criterionFor (rubric : Rubric) : Json → Except PyError (Option Criterion)
  | .str k => .ok (rubric.criteria.reverse.find? fun c ↦ c.key = k)
  | .arr _ => .error .typeError
  | .obj _ => .error .typeError
  | _ => .ok none

/-- The loop of `_weighted_overall`, with its two accumulators. -/
def weigh (rubric : Rubric) : List Json → PyFloat → ℚ → Except PyError (PyFloat × ℚ)
  | [], acc, totalW => .ok (acc, totalW)
  | row :: rows, acc, totalW => do
      let key ← row.index "criterion"
      match ← criterionFor rubric key with
      | none => weigh rubric rows acc totalW
      | some c =>
          let raw ← row.index "score"
          let score ← raw.toFloat env.parseFloat
          weigh rubric rows (acc.add (PyFloat.scale c.weight score)) (totalW + c.weight)

def weightedOverall (rubric : Rubric) (criterionScores : List Json) : Except PyError PyFloat := do
  let (acc, totalW) ← weigh env rubric criterionScores (.finite 0) 0
  if totalW ≠ 0 then return PyFloat.round 3 (PyFloat.scale (1 / totalW) acc)
  else return .finite 0

/-- `any(...)`, which stops at the first failing row. -/
def criticalGateFailed (rubric : Rubric) : List Json → Except PyError Bool
  | [] => .ok false
  | row :: rows => do
      let key ← row.index "criterion"
      let critical := (rubric.criteria.filter fun c ↦ c.critical).map Criterion.key
      if ← Json.memStrs critical key then
        let score ← row.index "score"
        if ← score.ltInt 3 then return true else criticalGateFailed rubric rows
      else criticalGateFailed rubric rows

/-- `set(flags) & CRITICAL_FLAGS`. -/
def criticalFlags (flags : Json) : Except PyError (List String) := do
  let raised ← flags.toSet
  return CRITICAL_FLAGS.filter fun f ↦ raised.any fun x ↦
    match x with
    | .str s => decide (s = f)
    | _ => false

def refused (rubric : Rubric) : AutoReview where
  reviewerId := AUTO_REVIEWER_ID
  overallScore := .finite 0
  passed := false
  criterionScores := .arr []
  flags := Json.strs ["HALLUCINATION_RISK"]
  summary := .str "Model declined to review this submission; routed to human review."
  insufficientEvidence := true
  graderVersion := graderVersion env rubric true

/-- The conjunction behind `passed`; its last part runs only if the others
hold. -/
def livePassed (rubric : Rubric) (rows : List Json) (overall : PyFloat)
    (critical : List String) (insufficient : Bool) : Except PyError Bool :=
  if Settings.qcPassThreshold.le overall ∧ critical = [] ∧ insufficient = false then do
    let failed ← criticalGateFailed rubric rows
    return !failed
  else return false

def reviewOfData (rubric : Rubric) (data : Json) : Except PyError AutoReview := do
  let scores ← data.index "criterion_scores"
  let rows ← scores.iter
  let overall ← weightedOverall env rubric rows
  let flags ← data.index "flags"
  let critical ← criticalFlags flags
  let insufficient := (← data.get "insufficient_evidence").truthy
  let passed ← livePassed rubric rows overall critical insufficient
  let summary ← data.index "summary"
  return {
    reviewerId := AUTO_REVIEWER_ID
    overallScore := overall
    passed := passed
    criterionScores := scores
    flags := flags
    summary := summary
    insufficientEvidence := insufficient
    graderVersion := graderVersion env rubric true }

def reviewWithClaude (rubric : Rubric) : ModelReply → Except PyError AutoReview
  | .raised => .error (.outside "model API")
  | .refusal => .ok (refused env rubric)
  | .message none => .error (.outside "no text block")
  | .message (some text) =>
      match env.jsonLoads text with
      | none => .error .valueError
      | some data => reviewOfData env rubric data

def heuristicScore (taskType : TaskType) (content : Json) (validation : ValidationResult) : ℚ :=
  let main := match content with
    | .obj kvs => (Json.lookup kvs (mainKey taskType)).getD (.str "")
    | _ => .str ""
  let text := env.str main
  let citations := (content.field "citations").truthy
  let base : ℚ := 3 + (if 800 ≤ text.length then 1 / 2 else 0) + (if citations then 1 / 2 else 0)
    - 1 / 4 * validation.findings.length
  max 0 (min 5 (PyFloat.roundHalfEven (base * 100) / 100))

def reviewHeuristic (taskType : TaskType) (content : Json) (rubric : Rubric)
    (validation : ValidationResult) : AutoReview :=
  let score := heuristicScore env taskType content validation
  { reviewerId := FALLBACK_REVIEWER_ID
    overallScore := .finite score
    passed := false
    criterionScores := .arr (rubric.criteria.map fun c ↦
      .obj [("criterion", .str c.key), ("score", .int (PyFloat.roundHalfEven score)),
        ("justification", .str "heuristic offline estimate"), ("evidence", .str "")])
    flags := Json.strs ["OFFLINE_FALLBACK"]
    summary := .str "Offline heuristic review; submission requires human review before approval."
    insufficientEvidence := true
    graderVersion := graderVersion env rubric false }

/-- An exception of the live path falls back to the heuristic. -/
def review (taskPrompt : String) (taskContext : Json) (taskType : TaskType) (content : Json)
    (rubric : Rubric) (validation : ValidationResult) : Tx AutoReview :=
  if env.anthropicAvailable then do
    let reply ← Prog.ask (.messagesCreate env.qcModel taskPrompt taskContext content rubric : Call)
    match reviewWithClaude env rubric reply with
    | .ok r => return r
    | .error _ => return reviewHeuristic env taskType content rubric validation
  else return reviewHeuristic env taskType content rubric validation

/-- A passing review is a live one with grounded evidence, a passing score and
no critical flag. -/
structure AutoReview.Sound (r : AutoReview) : Prop where
  live : r.reviewerId = AUTO_REVIEWER_ID
  score : Settings.qcPassThreshold.le r.overallScore = true
  flags : criticalFlags r.flags = .ok []
  grounded : r.insufficientEvidence = false

variable {env}

theorem reviewOfData_sound {rubric : Rubric} {data : Json} {r : AutoReview}
    (h : reviewOfData env rubric data = .ok r) (hp : r.passed = true) : r.Sound := by
  simp only [reviewOfData, bind_eq_ok] at h
  obtain ⟨scores, _, rows, _, overall, _, flags, _, critical, hcrit, insufficient, _, passed,
    hpassed, summary, _, h⟩ := h
  cases h
  obtain rfl : passed = true := hp
  unfold livePassed at hpassed
  split at hpassed
  · rename_i hc
    obtain ⟨hscore, rfl, hground⟩ := hc
    exact ⟨rfl, hscore, hcrit, hground⟩
  · cases hpassed

theorem reviewWithClaude_sound {rubric : Rubric} {reply : ModelReply} {r : AutoReview}
    (h : reviewWithClaude env rubric reply = .ok r) (hp : r.passed = true) : r.Sound := by
  rcases reply with _ | _ | (_ | text)
  · cases h
  · cases h
    cases hp
  · cases h
  · simp only [reviewWithClaude] at h
    split at h
    · cases h
    · exact reviewOfData_sound h hp

theorem exec_review {taskPrompt : String} {taskContext : Json} {taskType : TaskType}
    {content : Json} {rubric : Rubric} {validation : ValidationResult} {r : AutoReview}
    {s s' : Db} {w w' : ℕ}
    (h : machine.Exec (review env taskPrompt taskContext taskType content rubric validation)
      s w r s' w') :
    (r.passed = true → r.Sound) ∧ s' = s ∧ w' = w := by
  unfold review at h
  split at h
  · rw [Machine.exec_ask_bind] at h
    obtain ⟨reply, w₁, hw, h⟩ := h
    obtain rfl : w = w₁ := by simpa [accept] using hw
    split at h
    · rename_i r' hr
      obtain ⟨rfl, rfl, rfl⟩ := h
      exact ⟨reviewWithClaude_sound hr, rfl, rfl⟩
    · obtain ⟨rfl, rfl, rfl⟩ := h
      exact ⟨by simp [reviewHeuristic], rfl, rfl⟩
  · obtain ⟨rfl, rfl, rfl⟩ := h
    exact ⟨by simp [reviewHeuristic], rfl, rfl⟩

end AutoReviewer

end HumanDataFactory
