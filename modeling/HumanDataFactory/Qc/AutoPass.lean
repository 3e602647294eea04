import HumanDataFactory.Development
import HumanDataFactory.Qc.Response
import Mathlib.Algebra.BigOperators.Group.List.Lemmas

/-!
# What a live review lets through

A response may leave criteria out and score one more than once.  Its own rows
then clear the checks of the reviewer, and the question is what that says of
the rubric.
-/

namespace HumanDataFactory

namespace Rubric

def weightsTotal (rubric : Rubric) : ℚ :=
  (rubric.criteria.map Criterion.weight).sum

/-- The weighted mean over the criteria, each counted once. -/
def mean (rubric : Rubric) (score : String → ℤ) : ℚ :=
  (rubric.criteria.map fun c ↦ c.weight * (score c.key : ℚ)).sum / rubric.weightsTotal

end Rubric

namespace AutoReviewer

namespace Response

variable (rubric : Rubric) (r : Response)

def Complete : Prop :=
  ∀ c ∈ rubric.criteria, ∃ row ∈ r.rows, row.1 = c.key

/-- For each criterion the score of one of its rows. -/
def Picks (score : String → ℤ) : Prop :=
  ∀ c ∈ rubric.criteria, (c.key, score c.key) ∈ r.rows

/-- Whichever row of each criterion is taken, the mean passes. -/
def MeanPasses : Prop :=
  ∀ score, r.Picks rubric score →
    Settings.qcPassThreshold.le (.finite (rubric.mean score)) = true

/-- What a pass should say of the whole rubric. -/
structure Thorough : Prop where
  complete : r.Complete rubric
  critical : ∀ c ∈ rubric.criteria, c.critical = true →
    ∀ row ∈ r.rows, row.1 = c.key → 3 ≤ row.2
  mean : r.MeanPasses rubric
  unflagged : r.raised = []
  grounded : r.insufficient = false

variable {rubric r}

/-- Flags, grounding and the gate criteria are what the checks look at. -/
theorem thorough_of_not_heldBack (h : ¬r.heldBack rubric) (hcomplete : r.Complete rubric)
    (hmean : r.MeanPasses rubric) : r.Thorough rubric := by
  simp only [heldBack, not_or, Bool.not_eq_false, not_not, Bool.not_eq_true] at h
  obtain ⟨_, hflags, hgrounded, hgate⟩ := h
  refine ⟨hcomplete, ?_, hmean, hflags, hgrounded⟩
  intro c hc hcritical row hrow hkey
  by_contra hlow
  have hmem : row.1 ∈ criticalKeys rubric := by
    rw [hkey]
    exact List.mem_map_of_mem (List.mem_filter.mpr ⟨hc, hcritical⟩)
  exact hgate ⟨row, hrow, hmem, by omega⟩

end Response

open Response

variable {env : Env} {rubric : Rubric} {text : String} {data : Json}

theorem admits_responseWith {scores : List (String × ℤ)}
    (h : ∀ row ∈ scores, row.1 ∈ rubric.criteria.map Criterion.key ∧ 0 ≤ row.2 ∧ row.2 ≤ 5) :
    (reviewSchema rubric).Admits (Development.responseWith scores) := by
  have hrows : ∀ x ∈ scores.map fun row ↦ Json.obj [("criterion", .str row.1),
      ("score", .int row.2), ("justification", .str ""), ("evidence", .str "")],
      (rowSchema rubric).Admits x := by
    intro x hx
    obtain ⟨row, hrow, rfl⟩ := List.mem_map.mp hx
    obtain ⟨hkey, hlow, hhigh⟩ := h row hrow
    have hrange : row.2 = 0 ∨ row.2 = 1 ∨ row.2 = 2 ∨ row.2 = 3 ∨ row.2 = 4 ∨ row.2 = 5 := by
      omega
    simpa [rowSchema, Schema.Admits, Schema.AdmitsProperty, Json.lookup, Json.integer?, hrange]
      using hkey
  simpa [reviewSchema, Development.responseWith, Json.lookup, Schema.Admits,
    Schema.AdmitsProperty, -List.mem_map] using hrows

theorem responseOf_responseWith (scores : List (String × ℤ)) :
    responseOf (Development.responseWith scores) = ⟨scores, [], false⟩ := by
  have hrows : (scores.map fun row ↦ Json.obj [("criterion", .str row.1), ("score", .int row.2),
      ("justification", .str ""), ("evidence", .str "")]).map rowOf = scores := by
    rw [List.map_map]
    exact List.map_id'' (fun _ ↦ rfl) scores
  exact congrArg (fun rows ↦ Response.mk rows [] false) hrows

end AutoReviewer

end HumanDataFactory
