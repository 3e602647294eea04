import HumanDataFactory.Validators.Findings

/-!
# Submission content shapes

The schema check looks for what is missing or too short and never at types: a
number or a dictionary in a required field is as good as a text.
-/

namespace HumanDataFactory

namespace Validators

def isText (x : Json) : Prop :=
  ∃ t, x = .str t

/-- The required fields but for the list of citations. -/
def textFields (taskType : TaskType) : List String :=
  (REQUIRED_FIELDS taskType).filter (· ≠ "citations")

structure Documented (content : List (String × Json)) (taskType : TaskType) : Prop where
  texts : ∀ f ∈ textFields taskType, ∃ t, fieldOf content f = .str t ∧ t ≠ ""
  main : ∃ t, fieldOf content (mainKey taskType) = .str t ∧ MIN_RESPONSE_CHARS ≤ t.length
  citations : ∃ cs, fieldOf content "citations" = .arr cs ∧ cs ≠ [] ∧ ∀ c ∈ cs, isText c

/-- Texts are texts and citations a list of them, whatever their length. -/
structure Typed (content : List (String × Json)) (taskType : TaskType) : Prop where
  texts : ∀ f ∈ textFields taskType, isText (fieldOf content f)
  citations : ∃ cs, fieldOf content "citations" = .arr cs ∧ ∀ c ∈ cs, isText c

def Incomplete (content : List (String × Json)) (taskType : TaskType) : Prop :=
  ∃ f ∈ REQUIRED_FIELDS taskType, isMissing (fieldOf content f) = true

def TooShort (content : List (String × Json)) (taskType : TaskType) : Prop :=
  ∃ t, fieldOf content (mainKey taskType) = .str t ∧ 0 < t.length ∧ t.length < MIN_RESPONSE_CHARS

variable {content : List (String × Json)} {taskType : TaskType}

theorem mem_required {f : String} :
    f ∈ REQUIRED_FIELDS taskType ↔ f ∈ textFields taskType ∨ f = "citations" := by
  cases taskType <;> simp [REQUIRED_FIELDS, textFields] <;> tauto

theorem mainKey_mem (taskType : TaskType) : mainKey taskType ∈ textFields taskType := by
  cases taskType <;> decide

/-- The default of the main text is a falsy text itself. -/
theorem orElse_eq_str_iff {x : Json} {t : String} (ht : 0 < t.length) :
    x.orElse (.str "") = .str t ↔ x = .str t := by
  constructor
  · intro h
    unfold Json.orElse at h
    split at h
    · exact h
    · obtain rfl := Json.str.inj h
      simp at ht
  · rintro rfl
    have hne : t ≠ "" := by
      rintro rfl
      simp at ht
    simp [Json.orElse, Json.truthy, hne]

theorem checkSchema_eq_nil_iff :
    checkSchema content taskType = [] ↔
      ¬Incomplete content taskType ∧ ¬TooShort content taskType := by
  unfold checkSchema
  rw [List.append_eq_nil_iff, List.map_eq_nil_iff, List.filter_eq_nil_iff]
  refine and_congr (by simp [Incomplete]) ?_
  split
  · rename_i main hmain
    rw [ite_eq_right_iff]
    constructor
    · rintro hnone ⟨t, ht, hpos, hlt⟩
      rw [(orElse_eq_str_iff hpos).mpr ht] at hmain
      obtain rfl := Json.str.inj hmain
      exact absurd (hnone ⟨hpos, hlt⟩) (by simp)
    · rintro hlong ⟨hpos, hlt⟩
      exact absurd ⟨main, (orElse_eq_str_iff hpos).mp hmain, hpos, hlt⟩ hlong
  · rename_i hother
    refine iff_of_true rfl ?_
    rintro ⟨t, ht, hpos, _⟩
    exact hother t ((orElse_eq_str_iff hpos).mpr ht)

theorem documented_iff (h : checkSchema content taskType = []) :
    Documented content taskType ↔ Typed content taskType := by
  obtain ⟨hcomplete, hlong⟩ := checkSchema_eq_nil_iff.mp h
  have hpresent : ∀ f ∈ REQUIRED_FIELDS taskType, isMissing (fieldOf content f) ≠ true :=
    fun f hf hmissing ↦ hcomplete ⟨f, hf, hmissing⟩
  constructor
  · intro hdoc
    refine ⟨fun f hf ↦ ?_, ?_⟩
    · obtain ⟨t, ht, _⟩ := hdoc.texts f hf
      exact ⟨t, ht⟩
    · obtain ⟨cs, hcs, _, htexts⟩ := hdoc.citations
      exact ⟨cs, hcs, htexts⟩
  · intro htyped
    have htexts : ∀ f ∈ textFields taskType, ∃ t, fieldOf content f = .str t ∧ t ≠ "" := by
      intro f hf
      obtain ⟨t, ht⟩ := htyped.texts f hf
      have hmissing := hpresent f (mem_required.mpr (Or.inl hf))
      rw [ht] at hmissing
      exact ⟨t, ht, by simpa [isMissing] using hmissing⟩
    refine ⟨htexts, ?_, ?_⟩
    · obtain ⟨t, ht, hne⟩ := htexts _ (mainKey_mem taskType)
      have hpos : 0 < t.length := by
        have hzero : t.length ≠ 0 := by simpa using hne
        omega
      refine ⟨t, ht, ?_⟩
      by_contra hlt
      exact hlong ⟨t, ht, hpos, by omega⟩
    · obtain ⟨cs, hcs, htexts⟩ := htyped.citations
      have hmissing := hpresent "citations" (mem_required.mpr (Or.inr rfl))
      rw [hcs] at hmissing
      exact ⟨cs, hcs, by simpa [isMissing] using hmissing, htexts⟩

/-- What the check accepts has the documented shape exactly if the types are
right, or it is not accepted anyway. -/
theorem schema_gate_iff (content : List (String × Json)) (taskType : TaskType) :
    (checkSchema content taskType = [] → Documented content taskType) ↔
      Typed content taskType ∨ Incomplete content taskType ∨ TooShort content taskType := by
  constructor
  · intro hgate
    by_cases hnil : checkSchema content taskType = []
    · exact Or.inl ((documented_iff hnil).mp (hgate hnil))
    · rw [checkSchema_eq_nil_iff, not_and_or, not_not, not_not] at hnil
      exact Or.inr hnil
  · intro hcond hnil
    obtain ⟨hcomplete, hlong⟩ := checkSchema_eq_nil_iff.mp hnil
    rcases hcond with htyped | hmissing | hshort
    · exact (documented_iff hnil).mpr htyped
    · exact absurd hmissing hcomplete
    · exact absurd hshort hlong

theorem list_as_response_accepted :
    ¬∀ (content : List (String × Json)) (taskType : TaskType), checkSchema content taskType = [] →
      (∀ f ∈ REQUIRED_FIELDS taskType, f ≠ "citations" →
        ∃ t, fieldOf content f = .str t ∧ t ≠ "") ∧
      (∃ t, fieldOf content (mainKey taskType) = .str t ∧ MIN_RESPONSE_CHARS ≤ t.length) ∧
      ∃ cs, fieldOf content "citations" = .arr cs ∧ cs ≠ [] ∧ ∀ c ∈ cs, ∃ t, c = .str t := by
  intro hclaim
  obtain ⟨_, ⟨t, ht, _⟩, _⟩ :=
    hclaim [("response", .arr [.str "ok"]), ("citations", .int 842)] .sft (by decide)
  cases ht

end Validators

end HumanDataFactory
