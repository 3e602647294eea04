import HumanDataFactory.Models

/-!
# Rubrics

The grading rubrics of `rubrics.py` with their weights and gate criteria, and
the content fields each task type requires.
-/

namespace HumanDataFactory

structure Criterion where
  key : String
  weight : ℚ
  critical : Bool
  deriving DecidableEq, Repr

structure Rubric where
  id : String
  name : String
  criteria : List Criterion
  deriving DecidableEq, Repr

namespace Rubrics

def common : List Criterion :=
  [⟨"technical_accuracy", 3, true⟩, ⟨"standards_grounding", 2, true⟩,
    ⟨"completeness", 3 / 2, false⟩, ⟨"reasoning_quality", 3 / 2, false⟩,
    ⟨"clarity_style", 1, false⟩]

def finSft : Rubric :=
  ⟨"fin-sft-v1", "Finance/Accounting SFT response quality v1", common⟩

def finPref : Rubric :=
  ⟨"fin-pref-v1", "Finance/Accounting preference pair quality v1",
    common ++ [⟨"pair_contrast", 2, true⟩]⟩

def finEval : Rubric :=
  ⟨"fin-eval-v1", "Finance/Accounting eval item quality v1",
    common ++ [⟨"gradeability", 2, true⟩]⟩

/-- The dictionary `RUBRICS`, keyed by rubric id. -/
def all : List Rubric := [finSft, finPref, finEval]

end Rubrics

def getRubric (rubricId : String) : Except PyError Rubric :=
  match Rubrics.all.find? fun r ↦ r.id = rubricId with
  | some r => .ok r
  | none => .error .keyError

def defaultRubricFor : TaskType → String
  | .sft => "fin-sft-v1"
  | .preference => "fin-pref-v1"
  | .eval => "fin-eval-v1"

/-- The field of a submission that holds its main text. -/
def mainKey : TaskType → String
  | .sft => "response"
  | .preference => "chosen"
  | .eval => "answer"

def REQUIRED_FIELDS : TaskType → List String
  | .sft => ["response", "citations"]
  | .preference => ["chosen", "rejected", "rejection_rationale", "citations"]
  | .eval => ["answer", "grading_notes", "citations"]

def MIN_RESPONSE_CHARS : ℕ := 200

end HumanDataFactory
