import HumanDataFactory.Session
import Mathlib.Data.List.Infix

/-!
# The control gates

`controls.py`: who may work on a task, who may review and release, how often a
human looks, and how the trust score moves.
-/

namespace HumanDataFactory

open Transact

namespace Session

/-- `.scalar_one_or_none()`. -/
def scalarOneOrNone {α : Type} : List α → Tx (Option α)
  | [] => .pure none
  | [a] => .pure (some a)
  | _ => .raise .multipleResultsFound

theorem exec_scalarOneOrNone {α : Type} {rows : List α} {a : Option α} {s s' : Db} {w w' : ℕ} :
    machine.Exec (scalarOneOrNone rows) s w a s' w' ↔
      rows = a.toList ∧ s' = s ∧ w' = w := by
  rcases rows with _ | ⟨b, _ | ⟨c, rows⟩⟩
  · cases a <;> simp [scalarOneOrNone]
  · cases a <;> simp [scalarOneOrNone, eq_comm]
  · cases a <;> simp [scalarOneOrNone]

theorem writeless_scalarOneOrNone {α : Type} (rows : List α) :
    Prog.Writeless (scalarOneOrNone rows) := by
  rcases rows with _ | ⟨a, _ | ⟨b, rows⟩⟩
  · exact .pure _
  · exact .pure _
  · exact .raise _

theorem runs_scalarOneOrNone {α : Type} {rows : List α} {a : Option α} {ws₀ ws : List Write}
    {seen : List (Query × Db)}
    (h : machine.Runs (scalarOneOrNone rows) ws₀ seen ws a) :
    rows = a.toList ∧ seen = [] ∧ ws = ws₀ := by
  rcases rows with _ | ⟨b, _ | ⟨c, rows⟩⟩
  · obtain ⟨hseen, hws, rfl⟩ := h
    exact ⟨rfl, hseen, hws⟩
  · obtain ⟨hseen, hws, rfl⟩ := h
    exact ⟨rfl, hseen, hws⟩
  · exact h.elim

end Session

/-- `int(s, 16)` for the digits of a digest. -/
def hexDigitValue (c : Char) : Option ℕ :=
  if '0' ≤ c ∧ c ≤ '9' then some (c.toNat - 48)
  else if 'a' ≤ c ∧ c ≤ 'f' then some (c.toNat - 87)
  else none

def parseHex (s : String) : Option ℕ :=
  s.toList.foldlM (fun n c ↦ (hexDigitValue c).map fun d ↦ 16 * n + d) 0

/-- `term in text`. -/
def containsText (term text : String) : Bool :=
  decide (term.toList <:+: text.toList)

namespace Controls

variable (env : Env)

def SUSPEND_BELOW : PyFloat := .finite 2

def GOLD_SUSPEND_FAILS : ℕ := 3

def passedQualifications (s : Db) (expertId : String) (track : DomainTrack) :
    List Qualification :=
  s.qualifications.rows.filter fun q ↦
    q.expertId = expertId ∧ q.track = track ∧ q.passed = true

def assertQualified (expert : Expert) (track : DomainTrack) : Tx Unit := do
  Prog.ensure (expert.status = .qualified)
    (.controlViolation "C1" s!"expert {expert.id} is not in QUALIFIED status")
  let found ← Session.select (.rows .qualifications) fun s ↦
    passedQualifications s expert.id track
  let q ← Session.scalarOneOrNone found
  Prog.ensure (q.isSome = true)
    (.controlViolation "C1"
      s!"expert {expert.id} holds no passed qualification for track '{track.value}'")

def assertReviewerIndependent (submission : Submission) (reviewer : Expert) : Tx Unit := do
  Prog.ensure (reviewer.id ≠ submission.expertId)
    (.controlViolation "C2" "author cannot review their own submission")
  Prog.ensure (reviewer.isReviewer = true)
    (.controlViolation "C2" s!"expert {reviewer.id} does not hold the reviewer role")
  Prog.ensure (reviewer.status = .qualified)
    (.controlViolation "C2" "reviewer must be in QUALIFIED status")

def assertExportDualControl (requestedBy approvedBy : String) : Tx Unit :=
  Prog.ensure (requestedBy ≠ approvedBy)
    (.controlViolation "C6" "export approver must differ from the requester (dual control)")

def samplingRate (expert : Expert) : ℚ :=
  if expert.approvedCount < 5 then Settings.samplingNew
  else if Settings.trustedScore.le expert.qualityScore ∧
      Settings.trustedMinApproved ≤ expert.approvedCount then Settings.samplingTrusted
  else Settings.samplingStandard

/-- The first eight hex digits of the digest, as a share of the largest. -/
def isSampledForHumanReview (submissionId : String) (expert : Expert) : Except PyError Bool :=
  match parseHex (String.ofList ((env.sha256 submissionId).toList.take 8)) with
  | some n => .ok (decide ((n : ℚ) / 0xFFFFFFFF < samplingRate expert))
  | none => .error .valueError

/-! ## C4 and C5: gold calibration and contributor scoring

Each operation is a change of the contributor's row and the column writes that
make it. -/

def ewma (reviewScore qualityScore : PyFloat) : PyFloat :=
  PyFloat.round 4 (PyFloat.add (PyFloat.scale Settings.scoreEwmaAlpha reviewScore)
    (PyFloat.scale (1 - Settings.scoreEwmaAlpha) qualityScore))

def dueForSuspension (expert : Expert) : Prop :=
  expert.qualityScore.lt SUSPEND_BELOW = true ∨ GOLD_SUSPEND_FAILS ≤ expert.goldFailCount

instance (expert : Expert) : Decidable (dueForSuspension expert) :=
  inferInstanceAs (Decidable (_ ∨ _))

def suspendedIfDue (expert : Expert) : Expert :=
  if dueForSuspension expert then { expert with status := .suspended } else expert

def withReviewScore (reviewScore : PyFloat) (expert : Expert) : Expert :=
  suspendedIfDue { expert with qualityScore := ewma reviewScore expert.qualityScore }

def withGoldResult (passed : Bool) (expert : Expert) : Expert :=
  if passed then suspendedIfDue { expert with goldPassCount := expert.goldPassCount + 1 }
  else suspendedIfDue { expert with
    goldFailCount := expert.goldFailCount + 1
    qualityScore :=
      PyFloat.round 4 (PyFloat.scale Settings.goldFailPenalty expert.qualityScore) }

def maybeSuspend (expert : Expert) : Tx Expert :=
  if dueForSuspension expert then do
    Session.write (.setExpertStatus expert.id .suspended)
    return { expert with status := .suspended }
  else return expert

def updateQualityScore (expert : Expert) (reviewScore : PyFloat) : Tx Expert := do
  let score := ewma reviewScore expert.qualityScore
  Session.write (.setQualityScore expert.id score)
  maybeSuspend { expert with qualityScore := score }

theorem updateQualityScore_writesIn {I : Write → Prop} (hscore : ∀ id v, I (.setQualityScore id v))
    (hstatus : ∀ id v, I (.setExpertStatus id v)) (expert : Expert) (reviewScore : PyFloat) :
    (updateQualityScore expert reviewScore).WritesIn I := by
  refine (Prog.WritesIn.emit (hscore _ _)).bind fun _ ↦ ?_
  unfold maybeSuspend
  split
  · exact (Prog.WritesIn.emit (hstatus _ _)).bind fun _ ↦ .pure _
  · exact .pure _

def registerGoldResult (expert : Expert) (passed : Bool) : Tx Expert :=
  if passed then do
    Session.write (.setGoldPassCount expert.id (expert.goldPassCount + 1))
    maybeSuspend { expert with goldPassCount := expert.goldPassCount + 1 }
  else do
    let score := PyFloat.round 4 (PyFloat.scale Settings.goldFailPenalty expert.qualityScore)
    Session.write (.setGoldFailCount expert.id (expert.goldFailCount + 1))
    Session.write (.setQualityScore expert.id score)
    maybeSuspend { expert with
      goldFailCount := expert.goldFailCount + 1
      qualityScore := score }

def lowered : Json → Except PyError String
  | .str s => .ok (env.lower s)
  | _ => .error .attributeError

/-- All terms occur in the text; the loop stops at the first that does not. -/
def includesAll (text : String) : List Json → Except PyError Bool
  | [] => .ok true
  | term :: terms => do
      let t ← lowered env term
      if containsText t text then includesAll text terms else .ok false

/-- Some term occurs in the text; the loop stops at the first that does. -/
def includesAny (text : String) : List Json → Except PyError Bool
  | [] => .ok false
  | term :: terms => do
      let t ← lowered env term
      if containsText t text then .ok true else includesAny text terms

def goldAnswerMatches (content goldAnswer : Json) (taskType : TaskType) :
    Except PyError Bool := do
  let main ← content.getD (mainKey taskType) (.str "")
  let text := env.lower (env.str main)
  let must ← goldAnswer.getD "must_include" (.arr [])
  let mustTerms ← must.iter
  if ← includesAll env text mustTerms then
    let mustNot ← goldAnswer.getD "must_not_include" (.arr [])
    let mustNotTerms ← mustNot.iter
    let found ← includesAny env text mustNotTerms
    return !found
  else return false

@[simp] theorem suspendedIfDue_id (e : Expert) : (suspendedIfDue e).id = e.id := by
  unfold suspendedIfDue
  split <;> rfl

@[simp] theorem suspendedIfDue_isReviewer (e : Expert) :
    (suspendedIfDue e).isReviewer = e.isReviewer := by
  unfold suspendedIfDue
  split <;> rfl

@[simp] theorem withReviewScore_id (x : PyFloat) (e : Expert) :
    (withReviewScore x e).id = e.id := by
  simp [withReviewScore]

@[simp] theorem withReviewScore_isReviewer (x : PyFloat) (e : Expert) :
    (withReviewScore x e).isReviewer = e.isReviewer := by
  simp [withReviewScore]

@[simp] theorem withGoldResult_id (passed : Bool) (e : Expert) :
    (withGoldResult passed e).id = e.id := by
  cases passed <;> simp [withGoldResult]

@[simp] theorem withGoldResult_isReviewer (passed : Bool) (e : Expert) :
    (withGoldResult passed e).isReviewer = e.isReviewer := by
  cases passed <;> simp [withGoldResult]

variable {s s' : Db} {w w' : ℕ} {expert expert' : Expert}

theorem exec_assertQualified {track : DomainTrack} {u : Unit}
    (h : machine.Exec (assertQualified expert track) s w u s' w') :
    expert.status = .qualified ∧ (passedQualifications s expert.id track).length = 1 ∧
      s' = s ∧ w' = w := by
  unfold assertQualified at h
  rw [Machine.exec_ensure_bind] at h
  obtain ⟨hstatus, h⟩ := h
  rw [Machine.exec_select_bind, Machine.exec_bind] at h
  obtain ⟨q, s₁, w₁, hq, h⟩ := h
  obtain ⟨hrows, rfl, rfl⟩ := Session.exec_scalarOneOrNone.mp hq
  obtain ⟨hsome, rfl, rfl⟩ := Machine.exec_ensure.mp h
  refine ⟨hstatus, ?_, rfl, rfl⟩
  rw [hrows]
  cases q <;> simp_all

theorem exec_assertReviewerIndependent {sub : Submission} {u : Unit}
    (h : machine.Exec (assertReviewerIndependent sub expert) s w u s' w') :
    expert.id ≠ sub.expertId ∧ expert.isReviewer = true ∧ expert.status = .qualified ∧
      s' = s ∧ w' = w := by
  simpa only [assertReviewerIndependent, Machine.exec_ensure_bind, Machine.exec_ensure]
    using h

/-- `s` with the row of an expert replaced. -/
def setExpert (s : Db) (e : Expert) : Db :=
  { s with experts := s.experts.replace e }

theorem find?_setExpert {e : Expert} (he : s.experts.find? e.id = some e) (e' : Expert)
    (hid : e'.id = e.id) : (setExpert s e').experts.find? e'.id = some e' := by
  have he' : s.experts.find? e'.id = some e := by rwa [hid]
  exact (Table.find?_replace he').trans (if_pos rfl)

theorem setExpert_setExpert {e e' : Expert} (hid : e'.id = e.id) :
    setExpert (setExpert s e) e' = setExpert s e' := by
  simp only [setExpert, Table.replace_replace hid]

/-- A column write to the row the session holds. -/
theorem modify_eq_setExpert {e : Expert} (he : s.experts.find? e.id = some e)
    (f : Expert → Expert) (hf : ∀ a, (f a).id = a.id) :
    { s with experts := s.experts.modify e.id f hf } = setExpert s (f e) := by
  rw [Table.modify_eq_replace he]
  rfl

theorem exec_maybeSuspend (h : machine.Exec (maybeSuspend expert) s w expert' s' w')
    (he : s.experts.find? expert.id = some expert) :
    expert' = suspendedIfDue expert ∧ s' = setExpert s (suspendedIfDue expert) ∧ w' = w := by
  unfold maybeSuspend at h
  by_cases hd : dueForSuspension expert
  · rw [if_pos hd, Machine.exec_emit_bind] at h
    obtain ⟨s₁, hs₁, rfl, rfl, rfl⟩ := h
    have hexp : suspendedIfDue expert = { expert with status := .suspended } := if_pos hd
    simp only [machine_apply, Db.apply, Option.some.injEq] at hs₁
    rw [hexp, ← hs₁]
    exact ⟨rfl, modify_eq_setExpert he _ _, rfl⟩
  · rw [if_neg hd] at h
    obtain ⟨rfl, rfl, rfl⟩ := h
    have hexp : suspendedIfDue expert' = expert' := if_neg hd
    refine ⟨hexp.symm, ?_, rfl⟩
    rw [hexp, setExpert, Table.replace_self he]

theorem exec_updateQualityScore {x : PyFloat}
    (h : machine.Exec (updateQualityScore expert x) s w expert' s' w')
    (he : s.experts.find? expert.id = some expert) :
    expert' = withReviewScore x expert ∧ s' = setExpert s (withReviewScore x expert) ∧
      w' = w := by
  unfold updateQualityScore at h
  rw [Machine.exec_emit_bind] at h
  obtain ⟨s₁, hs₁, h⟩ := h
  simp only [machine_apply, Db.apply, Option.some.injEq] at hs₁
  rw [modify_eq_setExpert he] at hs₁
  subst hs₁
  have hfind := find?_setExpert he
    { expert with qualityScore := ewma x expert.qualityScore } rfl
  obtain ⟨rfl, rfl, rfl⟩ := exec_maybeSuspend h hfind
  refine ⟨rfl, ?_, rfl⟩
  rw [setExpert_setExpert (by simp)]
  rfl

theorem exec_registerGoldResult {passed : Bool}
    (h : machine.Exec (registerGoldResult expert passed) s w expert' s' w')
    (he : s.experts.find? expert.id = some expert) :
    expert' = withGoldResult passed expert ∧ s' = setExpert s (withGoldResult passed expert) ∧
      w' = w := by
  cases passed with
  | true =>
      simp only [registerGoldResult, if_true, Machine.exec_emit_bind, machine_apply, Db.apply,
        Option.some.injEq] at h
      obtain ⟨s₁, hs₁, h⟩ := h
      rw [modify_eq_setExpert he] at hs₁
      subst hs₁
      have hfind := find?_setExpert he
        { expert with goldPassCount := expert.goldPassCount + 1 } rfl
      obtain ⟨rfl, rfl, rfl⟩ := exec_maybeSuspend h hfind
      refine ⟨rfl, ?_, rfl⟩
      rw [setExpert_setExpert (by simp)]
      rfl
  | false =>
      simp only [registerGoldResult, Bool.false_eq_true, if_false, Machine.exec_emit_bind,
        machine_apply, Db.apply, Option.some.injEq] at h
      obtain ⟨s₁, hs₁, s₂, hs₂, h⟩ := h
      rw [modify_eq_setExpert he] at hs₁
      subst hs₁
      have hfind₁ := find?_setExpert he
        { expert with goldFailCount := expert.goldFailCount + 1 } rfl
      rw [modify_eq_setExpert hfind₁, setExpert_setExpert (by rfl)] at hs₂
      subst hs₂
      have hfind₂ := find?_setExpert he
        { expert with
          goldFailCount := expert.goldFailCount + 1
          qualityScore := PyFloat.round 4
            (PyFloat.scale Settings.goldFailPenalty expert.qualityScore) } rfl
      obtain ⟨rfl, rfl, rfl⟩ := exec_maybeSuspend h hfind₂
      refine ⟨rfl, ?_, rfl⟩
      rw [setExpert_setExpert (by simp)]
      rfl

end Controls

end HumanDataFactory
