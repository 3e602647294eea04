import HumanDataFactory.Rubrics

/-!
# Findings of the deterministic validators

The result type of gate 1.  The checks themselves reach the pipeline as the
parameter `runAll` of the environment, so that what is proved of the pipeline
holds whatever they find.
-/

namespace HumanDataFactory

inductive Severity
  | error
  | warning
  deriving DecidableEq, Repr

def Severity.value : Severity → String
  | error => "error"
  | warning => "warning"

structure Finding where
  code : String
  severity : Severity
  message : String
  deriving DecidableEq, Repr

def Finding.asDict (f : Finding) : Json :=
  .obj [("code", .str f.code), ("severity", .str f.severity.value), ("message", .str f.message)]

structure ValidationResult where
  findings : List Finding
  deriving DecidableEq, Repr

namespace ValidationResult

def errors (v : ValidationResult) : List Finding :=
  v.findings.filter fun f ↦ f.severity = .error

def passed (v : ValidationResult) : Bool :=
  v.errors.isEmpty

def asDict (v : ValidationResult) : Json :=
  .obj [("passed", .bool v.passed), ("findings", .arr (v.findings.map Finding.asDict))]

end ValidationResult

end HumanDataFactory
