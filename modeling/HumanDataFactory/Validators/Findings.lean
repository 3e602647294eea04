import HumanDataFactory.Validators.Checks

/-!
# What passes gate 1

A result passes if none of its findings is an error.  Most checks report errors
only, so that passing means they are silent; what is left are three warnings.
-/

namespace HumanDataFactory

namespace Validators

variable {u : Unicode} {env : Env}

def Silent (findings : List Finding) : Prop :=
  ∀ f ∈ findings, f.severity ≠ .error

theorem passed_iff_silent {v : ValidationResult} : v.passed = true ↔ Silent v.findings := by
  simp [ValidationResult.passed, ValidationResult.errors, Silent]

@[simp] theorem silent_nil : Silent [] := by
  simp [Silent]

@[simp] theorem silent_append {fs gs : List Finding} :
    Silent (fs ++ gs) ↔ Silent fs ∧ Silent gs :=
  List.forall_mem_append

@[simp] theorem silent_singleton {f : Finding} : Silent [f] ↔ f.severity ≠ .error := by
  simp [Silent]

theorem silent_iff_nil {findings : List Finding} (h : ∀ f ∈ findings, f.severity = .error) :
    Silent findings ↔ findings = [] := by
  constructor
  · intro hsilent
    refine List.eq_nil_iff_forall_not_mem.mpr ?_
    intro f hf
    exact hsilent f hf (h f hf)
  · rintro rfl
    exact silent_nil

theorem silent_map {α : Type} {xs : List α} {f : α → Finding} (h : ∀ x, (f x).severity = .error) :
    Silent (xs.map f) ↔ xs = [] := by
  rw [silent_iff_nil]
  · simp
  · simp [h]

theorem silent_ite {p : Prop} [Decidable p] {fs : List Finding} :
    Silent (if p then fs else []) ↔ (p → Silent fs) := by
  split <;> simp_all

theorem checkSchema_errors (content : List (String × Json)) (taskType : TaskType) :
    ∀ f ∈ checkSchema content taskType, f.severity = .error := by
  intro f hf
  simp only [checkSchema, List.mem_append, List.mem_map] at hf
  rcases hf with ⟨k, _, rfl⟩ | hf
  · rfl
  · split at hf
    · split at hf
      · obtain rfl := List.mem_singleton.mp hf
        rfl
      · cases hf
    · cases hf

theorem silent_reportMatch {r : Regex} {text : String} {finding : Finding} :
    Silent (reportMatch u r text finding) ↔
      (u.search r text = none ∨ finding.severity ≠ .error) := by
  unfold reportMatch
  rw [silent_ite, silent_singleton]
  cases u.search r text <;> simp

theorem silent_checkPii {text : String} : Silent (checkPii u text) ↔
    u.search (SSN u) text = none ∧ u.search EMAIL text = none ∧
      (u.finditer (CARD u) text).any (isCard u) = false := by
  simp only [checkPii, silent_append, silent_reportMatch, silent_ite, silent_singleton]
  simp only [ne_eq, not_true_eq_false, or_false, reduceCtorEq, not_false_eq_true, or_true, and_true,
    Bool.not_eq_true, imp_false, and_assoc]

theorem checkPlaceholders_eq_nil {text : String} :
    checkPlaceholders u text = [] ↔ u.search PLACEHOLDER text = none := by
  unfold checkPlaceholders
  split <;> simp_all

theorem checkPlaceholders_errors (text : String) :
    ∀ f ∈ checkPlaceholders u text, f.severity = .error := by
  intro f hf
  unfold checkPlaceholders at hf
  split at hf
  · obtain rfl := List.mem_singleton.mp hf
    rfl
  · cases hf

/-- A value other than a list counts as cited if it is truthy. -/
theorem isUncited_eq (content : List (String × Json)) :
    isUncited content = !(fieldOf content "citations").truthy := by
  unfold isUncited Json.orElse
  cases h : (fieldOf content "citations").truthy with
  | false => simp
  | true =>
      rw [if_pos rfl]
      cases hc : fieldOf content "citations" with
      | arr xs =>
          rw [hc] at h
          cases xs with
          | nil => simp [Json.truthy] at h
          | cons x xs => rfl
      | _ => rfl

theorem silent_uncited (content : List (String × Json)) : Silent (uncited content) := by
  unfold uncited
  rw [silent_ite, silent_singleton]
  simp

theorem silent_checkCitations {content : List (String × Json)} :
    Silent (checkCitations u content) ↔ invalidAsc u (textBlob content) = [] ∧
      invalidNumbers u (IFRS u) validIfrs (textBlob content) = [] ∧
      invalidNumbers u (IAS u) validIas (textBlob content) = [] := by
  simp [checkCitations, silent_map, silent_uncited]

theorem checkCitations_of_silent {content : List (String × Json)}
    (h : Silent (checkCitations u content)) : checkCitations u content = uncited content := by
  obtain ⟨hasc, hifrs, hias⟩ := silent_checkCitations.mp h
  rw [checkCitations, hasc, hifrs, hias]
  rfl

/-- What is left of the check for personal data. -/
theorem checkPii_of_silent {text : String} (h : Silent (checkPii u text)) : checkPii u text =
    reportMatch u (EIN u) text
        ⟨"PII_EIN", .warning, "text contains an EIN-formatted number; confirm it is fictitious"⟩ ++
      reportMatch u (PHONE u) text
        ⟨"PII_PHONE", .warning, "text contains a phone-number-like string"⟩ := by
  obtain ⟨hssn, hemail, hcard⟩ := silent_checkPii.mp h
  simp [checkPii, reportMatch, hssn, hemail, hcard]

def Errors (x : Except PyError (List Finding)) : Prop :=
  ∀ findings, x = .ok findings → ∀ f ∈ findings, f.severity = .error

/-- What the tie-out of the financials can report. -/
def Financial (f : Finding) : Prop :=
  f.severity = .error ∧
    f.code ∈ ["FIN_BALANCE_SHEET", "FIN_BALANCE_SHEET_SHAPE", "FIN_JE_UNBALANCED", "FIN_JE_SHAPE"]

def Yields (P : Finding → Prop) (x : Except PyError (List Finding)) : Prop :=
  ∀ findings, x = .ok findings → ∀ f ∈ findings, P f

section

variable {P : Finding → Prop}

theorem Yields.catching {x : Except PyError (List Finding)} (h : Yields P x)
    {handled : List PyError} {shape : Finding} (hshape : P shape) :
    Yields P (catching handled shape x) := by
  intro findings heq f hf
  unfold Validators.catching at heq
  split at heq
  · exact h findings heq f hf
  · split at heq
    · obtain rfl := Except.ok.inj heq
      obtain rfl := List.mem_singleton.mp hf
      exact hshape
    · cases heq

theorem yields_ite {p : Prop} [Decidable p] {f : Finding} (hf : P f)
    {findings : List Finding} (h : (if p then pure [f] else pure [] : Except PyError _) =
      .ok findings) : ∀ g ∈ findings, P g := by
  intro g hg
  split at h
  · obtain rfl := Except.ok.inj h
    obtain rfl := List.mem_singleton.mp hg
    exact hf
  · obtain rfl := Except.ok.inj h
    cases hg

theorem yields_nil : Yields P (.ok []) := by
  intro findings h
  obtain rfl := Except.ok.inj h
  simp

end

theorem yields_balanceSheet (bs : Json) : Yields Financial (balanceSheet env bs) := by
  intro findings h
  unfold balanceSheet at h
  simp only [bind_eq_ok] at h
  obtain ⟨_, _, _, _, _, _, _, _, _, _, _, _, h⟩ := h
  exact yields_ite ⟨rfl, List.mem_of_elem_eq_true rfl⟩ h

theorem yields_journalEntries (entries : List Json) :
    Yields Financial (journalEntries env entries) := by
  intro findings h
  unfold journalEntries at h
  simp only [bind_eq_ok] at h
  obtain ⟨_, _, _, _, h⟩ := h
  exact yields_ite ⟨rfl, List.mem_of_elem_eq_true rfl⟩ h

theorem yields_checkBalanceSheet (x : Json) : Yields Financial (checkBalanceSheet env x) := by
  unfold checkBalanceSheet
  split
  · exact (yields_balanceSheet _).catching ⟨rfl, List.mem_of_elem_eq_true rfl⟩
  · exact yields_nil

theorem yields_checkJournalEntries (x : Json) :
    Yields Financial (checkJournalEntries env x) := by
  unfold checkJournalEntries
  split
  · exact (yields_journalEntries _).catching ⟨rfl, List.mem_of_elem_eq_true rfl⟩
  · exact yields_nil

theorem yields_checkFinancialConsistency (content : List (String × Json)) :
    Yields Financial (checkFinancialConsistency env content) := by
  intro findings h f hf
  unfold checkFinancialConsistency at h
  split at h
  · simp only [bind_eq_ok] at h
    obtain ⟨sheet, hsheet, entries, hentries, h⟩ := h
    obtain rfl := Except.ok.inj h
    rcases List.mem_append.mp hf with hf | hf
    · exact yields_checkBalanceSheet _ sheet hsheet f hf
    · exact yields_checkJournalEntries _ entries hentries f hf
  · exact yields_nil findings h f hf

theorem errors_checkFinancialConsistency (content : List (String × Json)) :
    Errors (checkFinancialConsistency env content) :=
  fun findings h f hf ↦ (yields_checkFinancialConsistency content findings h f hf).1

theorem silent_checkDuplicate {content : List (String × Json)} {taskType : TaskType}
    {existing : List String} : Silent (checkDuplicate u env content taskType existing) ↔
      fingerprint u env content taskType ∉ existing := by
  unfold checkDuplicate
  rw [silent_ite, silent_singleton]
  simp

variable (u env) in
/-- No error is left but perhaps that of a duplicate. -/
structure Sound (content : List (String × Json)) (taskType : TaskType) : Prop where
  schema : checkSchema content taskType = []
  pii : Silent (checkPii u (textBlob content))
  placeholders : u.search PLACEHOLDER (textBlob content) = none
  citations : Silent (checkCitations u content)
  financial : checkFinancialConsistency env content = .ok []

/-- The warnings of content without errors. -/
def warnings (u : Unicode) (content : List (String × Json)) : List Finding :=
  reportMatch u (EIN u) (textBlob content)
      ⟨"PII_EIN", .warning, "text contains an EIN-formatted number; confirm it is fictitious"⟩ ++
    reportMatch u (PHONE u) (textBlob content)
      ⟨"PII_PHONE", .warning, "text contains a phone-number-like string"⟩ ++
    uncited content

theorem silent_warnings (content : List (String × Json)) : Silent (warnings u content) := by
  simp [warnings, silent_uncited, silent_reportMatch]

/-- What gate 1 finds, unless the tie-out of the financials raises. -/
theorem runAll_eq_ok_iff {content : List (String × Json)} {taskType : TaskType}
    {existing : List String} {v : ValidationResult} :
    runAll u env (.obj content) taskType existing = .ok v ↔
      ∃ financial, checkFinancialConsistency env content = .ok financial ∧
        v = ⟨checkSchema content taskType ++ checkPii u (textBlob content) ++
          checkPlaceholders u (textBlob content) ++ checkCitations u content ++ financial ++
          checkDuplicate u env content taskType existing⟩ := by
  simp only [runAll, dictionary, findings, bind_eq_ok]
  constructor
  · rintro ⟨_, hdict, found, ⟨financial, hfinancial, hfound⟩, h⟩
    obtain rfl := Except.ok.inj hdict
    obtain rfl := Except.ok.inj hfound
    exact ⟨financial, hfinancial, (Except.ok.inj h).symm⟩
  · rintro ⟨financial, hfinancial, rfl⟩
    exact ⟨content, rfl, _, ⟨financial, hfinancial, rfl⟩, rfl⟩

/-- Gate 1 passes content without errors that is no duplicate, with these
findings. -/
theorem runAll_passed_iff {content : List (String × Json)} {taskType : TaskType}
    {existing : List String} {v : ValidationResult} :
    (runAll u env (.obj content) taskType existing = .ok v ∧ v.passed = true) ↔
      Sound u env content taskType ∧ fingerprint u env content taskType ∉ existing ∧
        v = ⟨warnings u content⟩ := by
  rw [runAll_eq_ok_iff]
  constructor
  · rintro ⟨⟨financial, hfinancial, rfl⟩, hpassed⟩
    have hsilent := passed_iff_silent.mp hpassed
    simp only [silent_append, silent_iff_nil (checkSchema_errors _ _),
      silent_iff_nil (checkPlaceholders_errors _), silent_checkDuplicate,
      silent_iff_nil (errors_checkFinancialConsistency _ _ hfinancial)] at hsilent
    obtain ⟨⟨⟨⟨⟨hschema, hpii⟩, hplace⟩, hcite⟩, rfl⟩, hdup⟩ := hsilent
    refine ⟨⟨hschema, hpii, checkPlaceholders_eq_nil.mp hplace, hcite, hfinancial⟩, hdup, ?_⟩
    simp only [hschema, hplace, checkPii_of_silent hpii, checkCitations_of_silent hcite,
      checkDuplicate, if_neg hdup]
    simp [warnings]
  · rintro ⟨hsound, hfresh, rfl⟩
    refine ⟨⟨[], hsound.financial, ?_⟩, passed_iff_silent.mpr (silent_warnings content)⟩
    simp only [hsound.schema, checkPlaceholders_eq_nil.mpr hsound.placeholders,
      checkPii_of_silent hsound.pii, checkCitations_of_silent hsound.citations, checkDuplicate,
      if_neg hfresh]
    simp [warnings]

end Validators

end HumanDataFactory
