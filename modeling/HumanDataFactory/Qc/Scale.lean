import HumanDataFactory.Qc.Degraded
import HumanDataFactory.Qc.Suspension
import HumanDataFactory.Transact.Upholds
import Mathlib.Algebra.Order.BigOperators.Group.List

/-!
# The scale of the trust score

Scores, defaults and the trust score live on a scale from 0 to 5.  Every update
is a mean or a penalty, which stays on the scale as long as what is fed to it is
on it; only a human review may bring in anything else.
-/

namespace HumanDataFactory

open Transact

namespace PyFloat

/-- A number from 0 to 5. -/
def OnScale (x : PyFloat) : Prop :=
  ∃ q : ℚ, x = .finite q ∧ 0 ≤ q ∧ q ≤ 5

theorem OnScale.finite {q : ℚ} (h₀ : 0 ≤ q) (h₅ : q ≤ 5) : OnScale (.finite q) :=
  ⟨q, rfl, h₀, h₅⟩

theorem OnScale.round {x : PyFloat} (h : OnScale x) (d : ℕ) : OnScale (x.round d) := by
  obtain ⟨q, rfl, h₀, h₅⟩ := h
  have hpow : (0 : ℚ) < 10 ^ d := by positivity
  have hlow : 0 ≤ roundHalfEven (q * 10 ^ d) :=
    le_roundHalfEven (by simpa using mul_nonneg h₀ hpow.le)
  have hhigh : roundHalfEven (q * 10 ^ d) ≤ 5 * 10 ^ d := by
    apply roundHalfEven_le
    push_cast
    exact mul_le_mul_of_nonneg_right h₅ hpow.le
  refine .finite (div_nonneg (by exact_mod_cast hlow) hpow.le) ?_
  rw [div_le_iff₀ hpow]
  exact_mod_cast hhigh

end PyFloat

namespace Controls

open PyFloat

theorem onScale_ewma {x y : PyFloat} (hx : x.OnScale) (hy : y.OnScale) : (ewma x y).OnScale := by
  obtain ⟨p, rfl, hp₀, hp₅⟩ := hx
  obtain ⟨q, rfl, hq₀, hq₅⟩ := hy
  unfold ewma
  rw [scale_finite, scale_finite, add_finite, Settings.scoreEwmaAlpha]
  apply OnScale.round
  exact .finite (by linarith) (by linarith)

theorem onScale_penalty {x : PyFloat} (hx : x.OnScale) :
    (PyFloat.round 4 (scale Settings.goldFailPenalty x)).OnScale := by
  obtain ⟨q, rfl, hq₀, hq₅⟩ := hx
  rw [scale_finite, Settings.goldFailPenalty]
  apply OnScale.round
  exact .finite (by linarith) (by linarith)

theorem qualityScore_suspendedIfDue (e : Expert) :
    (suspendedIfDue e).qualityScore = e.qualityScore := by
  unfold suspendedIfDue
  split <;> rfl

end Controls

/-! ## Weighted means -/

namespace AutoReviewer

variable (env : Env)

/-- Weight and score of a row that names a criterion of the rubric. -/
def scoredRow (rubric : Rubric) (row : Json) : Option (ℚ × PyFloat) :=
  match row.index "criterion" >>= criterionFor rubric with
  | .ok (some c) =>
      match row.index "score" >>= Json.toFloat env.parseFloat with
      | .ok score => some (c.weight, score)
      | .error _ => none
  | _ => none

def scored (rubric : Rubric) (rows : List Json) : List (ℚ × PyFloat) :=
  rows.filterMap (scoredRow env rubric)

variable {env}

def addScored (acc : PyFloat) (p : ℚ × PyFloat) : PyFloat :=
  acc.add (PyFloat.scale p.1 p.2)

def scoredWeight (ps : List (ℚ × PyFloat)) : ℚ :=
  (ps.map Prod.fst).sum

/-- The weighted mean is on the scale: the weighted sum is between nothing and
five times the weight. -/
def MeanOnScale (ps : List (ℚ × PyFloat)) : Prop :=
  (PyFloat.finite 0).le (ps.foldl addScored (.finite 0)) = true ∧
    (ps.foldl addScored (.finite 0)).le (.finite (5 * scoredWeight ps)) = true

instance (ps : List (ℚ × PyFloat)) : Decidable (MeanOnScale ps) :=
  inferInstanceAs (Decidable (_ ∧ _))

/-- The loop adds up the rows that count. -/
theorem weigh_eq {rubric : Rubric} {rows : List Json} {acc acc' : PyFloat} {totalW totalW' : ℚ}
    (h : weigh env rubric rows acc totalW = .ok (acc', totalW')) :
    acc' = (scored env rubric rows).foldl addScored acc ∧
      totalW' = totalW + scoredWeight (scored env rubric rows) := by
  induction rows generalizing acc totalW with
  | nil =>
      obtain ⟨rfl, rfl⟩ := Prod.mk.inj (Except.ok.inj h)
      simp [scored, scoredWeight]
  | cons row rows ih =>
      unfold weigh at h
      obtain ⟨key, hkey, h⟩ := bind_eq_ok.mp h
      obtain ⟨found, hfound, h⟩ := bind_eq_ok.mp h
      have hboth : row.index "criterion" >>= criterionFor rubric = .ok found :=
        bind_eq_ok.mpr ⟨key, hkey, hfound⟩
      cases found with
      | none =>
          have hskip : scoredRow env rubric row = none := by simp [scoredRow, hboth]
          have hrest : scored env rubric (row :: rows) = scored env rubric rows :=
            List.filterMap_cons_none hskip
          rw [hrest]
          exact ih h
      | some c =>
          obtain ⟨raw, hraw, h⟩ := bind_eq_ok.mp h
          obtain ⟨score, hscore, h⟩ := bind_eq_ok.mp h
          have hvalue : row.index "score" >>= Json.toFloat env.parseFloat = .ok score :=
            bind_eq_ok.mpr ⟨raw, hraw, hscore⟩
          have hcount : scoredRow env rubric row = some (c.weight, score) := by
            simp [scoredRow, hboth, hvalue]
          have hrest : scored env rubric (row :: rows) =
              (c.weight, score) :: scored env rubric rows := List.filterMap_cons_some hcount
          obtain ⟨hacc, htotal⟩ := ih h
          rw [hrest]
          refine ⟨hacc, htotal.trans ?_⟩
          simp [scoredWeight, add_assoc]

theorem weight_nonneg {rubric : Rubric} (h : rubric ∈ Rubrics.all) {c : Criterion}
    (hc : c ∈ rubric.criteria) : 0 ≤ c.weight := by
  have hall : ∀ r ∈ Rubrics.all, ∀ c ∈ r.criteria, 0 ≤ c.weight := by decide +kernel
  exact hall rubric h c hc

theorem scored_weight {rubric : Rubric} (h : rubric ∈ Rubrics.all) {rows : List Json}
    {p : ℚ × PyFloat} (hp : p ∈ scored env rubric rows) : 0 ≤ p.1 := by
  obtain ⟨row, _, hrow⟩ := List.mem_filterMap.mp hp
  unfold scoredRow at hrow
  split at hrow
  · rename_i c hc
    split at hrow
    · obtain rfl := Option.some.inj hrow
      obtain ⟨key, _, hfound⟩ := bind_eq_ok.mp hc
      -- only a string key names a criterion
      cases key with
      | str k =>
          have hmem := List.mem_of_find?_eq_some (Except.ok.inj hfound)
          exact weight_nonneg h (List.mem_reverse.mp hmem)
      | _ => simp [criterionFor] at hfound
    · cases hrow
  · cases hrow

theorem scoredWeight_nonneg {ps : List (ℚ × PyFloat)} (h : ∀ p ∈ ps, 0 ≤ p.1) :
    0 ≤ scoredWeight ps := by
  apply List.sum_nonneg
  intro weight hweight
  obtain ⟨p, hp, rfl⟩ := List.mem_map.mp hweight
  exact h p hp

theorem onScale_weightedOverall {rubric : Rubric} (h : rubric ∈ Rubrics.all) {rows : List Json}
    (hmean : MeanOnScale (scored env rubric rows)) {overall : PyFloat}
    (hoverall : weightedOverall env rubric rows = .ok overall) : overall.OnScale := by
  unfold weightedOverall at hoverall
  obtain ⟨⟨acc, totalW⟩, hweigh, hoverall⟩ := bind_eq_ok.mp hoverall
  obtain ⟨hacc, htotal⟩ := weigh_eq hweigh
  rw [zero_add] at htotal
  obtain ⟨hlow, hhigh⟩ := hmean
  rw [← hacc] at hlow hhigh
  rw [← htotal] at hhigh
  simp only at hoverall
  split at hoverall
  · rename_i hne
    obtain rfl := Except.ok.inj hoverall
    have hnonneg : 0 ≤ totalW := htotal ▸ scoredWeight_nonneg fun p hp ↦ scored_weight h hp
    have hpos : 0 < totalW := lt_of_le_of_ne hnonneg (Ne.symm hne)
    cases acc with
    | finite a =>
        simp only [PyFloat.le_finite, decide_eq_true_eq] at hlow hhigh
        rw [PyFloat.scale_finite]
        apply PyFloat.OnScale.round
        refine .finite (by positivity) ?_
        rw [one_div, inv_mul_le_iff₀ hpos]
        linarith
    | posInf => simp [PyFloat.le, PyFloat.lt] at hhigh
    | negInf => simp [PyFloat.le, PyFloat.lt] at hlow
    | nan => simp [PyFloat.le] at hlow
  · obtain rfl := Except.ok.inj hoverall
    exact .finite le_rfl (by norm_num)

/-- Rows with scores on the scale have their mean there. -/
theorem meanOnScale_of_forall {ps : List (ℚ × PyFloat)}
    (h : ∀ p ∈ ps, 0 ≤ p.1 ∧ p.2.OnScale) : MeanOnScale ps := by
  have hsum : ∀ acc : ℚ, ∃ total : ℚ, ps.foldl addScored (.finite acc) = .finite (acc + total) ∧
      0 ≤ total ∧ total ≤ 5 * scoredWeight ps := by
    induction ps with
    | nil => exact fun acc ↦ ⟨0, by simp, le_rfl, by simp [scoredWeight]⟩
    | cons p ps ih =>
        intro acc
        obtain ⟨hweight, q, hq, h₀, h₅⟩ := h p (by simp)
        obtain ⟨total, htotal, hlow, hhigh⟩ :=
          ih (fun p' hp' ↦ h p' (by simp [hp'])) (acc + p.1 * q)
        have hterm : p.1 * q ≤ 5 * p.1 := by nlinarith
        refine ⟨p.1 * q + total, ?_, by positivity, ?_⟩
        · rw [List.foldl_cons, addScored, hq, PyFloat.scale_finite, PyFloat.add_finite, htotal,
            add_assoc]
        · have hcons : scoredWeight (p :: ps) = p.1 + scoredWeight ps := by simp [scoredWeight]
          rw [hcons]
          linarith
  obtain ⟨total, htotal, hlow, hhigh⟩ := hsum 0
  rw [zero_add] at htotal
  unfold MeanOnScale
  rw [htotal]
  exact ⟨by simpa using hlow, by simpa using hhigh⟩

/-! ## Automatic reviews -/

/-- A row as the requested schema has it: the score is one of 0 to 5. -/
def conformingRow (row : Json) : Bool :=
  match row.index "score" with
  | .ok (.int n) => decide (0 ≤ n ∧ n ≤ 5)
  | _ => false

variable (env) in
/-- An answer of the model API that keeps to the requested schema, as far as
scores go. -/
def conforms : ModelReply → Bool
  | .message (some text) =>
      match env.jsonLoads text with
      | some data =>
          match data.index "criterion_scores" with
          | .ok (.arr rows) => rows.all conformingRow
          | _ => false
      | none => true
  | _ => true

theorem onScale_scoredRow {rubric : Rubric} {row : Json} (h : conformingRow row = true)
    {p : ℚ × PyFloat} (hp : scoredRow env rubric row = some p) : p.2.OnScale := by
  unfold conformingRow at h
  split at h
  · rename_i n hn
    obtain ⟨h₀, h₅⟩ := of_decide_eq_true h
    have hsmall : n.natAbs < Json.floatOverflow := by
      unfold Json.floatOverflow
      omega
    have hvalue : row.index "score" >>= Json.toFloat env.parseFloat = .ok (.finite n) :=
      bind_eq_ok.mpr ⟨.int n, hn, toFloat_of_integer? rfl hsmall⟩
    unfold scoredRow at hp
    rw [hvalue] at hp
    split at hp
    · obtain rfl := Option.some.inj hp
      exact .finite (by exact_mod_cast h₀) (by exact_mod_cast h₅)
    · cases hp
  · cases h

theorem onScale_heuristicScore (taskType : TaskType) (content : Json)
    (validation : ValidationResult) :
    (PyFloat.finite (heuristicScore env taskType content validation)).OnScale :=
  .finite (le_max_left _ _) (max_le (by norm_num) (min_le_left _ _))

theorem onScale_outcome {taskType : TaskType} {content : Json} {rubric : Rubric}
    (hrubric : rubric ∈ Rubrics.all) {validation : ValidationResult} {reply : ModelReply}
    (h : conforms env reply = true) :
    (outcome env taskType content rubric validation reply).overallScore.OnScale := by
  unfold outcome
  cases hreview : reviewWithClaude env rubric reply with
  | error _ => exact onScale_heuristicScore taskType content validation
  | ok r =>
      rcases reply with _ | _ | (_ | text)
      · cases hreview
      · obtain rfl := Except.ok.inj hreview
        exact .finite le_rfl (by norm_num)
      · cases hreview
      · simp only [reviewWithClaude] at hreview
        simp only [conforms] at h
        cases hdata : env.jsonLoads text with
        | none => simp [hdata] at hreview
        | some data =>
            simp only [hdata] at hreview h
            simp only [reviewOfData, bind_eq_ok] at hreview
            obtain ⟨scores, hscores, rows, hrows, overall, hoverall, _, _, _, _, _, _, _, _, _, _,
              hreview⟩ := hreview
            obtain rfl := Except.ok.inj hreview
            rw [hscores] at h
            cases scores with
            | arr items =>
                obtain rfl := Except.ok.inj hrows
                refine onScale_weightedOverall hrubric (meanOnScale_of_forall fun p hp ↦ ?_)
                  hoverall
                obtain ⟨row, hrow, hp'⟩ := List.mem_filterMap.mp hp
                exact ⟨scored_weight hrubric hp,
                  onScale_scoredRow (List.all_eq_true.mp h row hrow) hp'⟩
            | _ => cases h

theorem onScale_answered {taskType : TaskType} {content : Json} {rubric : Rubric}
    (hrubric : rubric ∈ Rubrics.all) {validation : ValidationResult} {r : AutoReview}
    (h : Answered env (fun reply ↦ conforms env reply = true) taskType content rubric validation
      r) :
    r.overallScore.OnScale := by
  cases hlive : env.anthropicAvailable with
  | true =>
      obtain ⟨reply, hreply, rfl⟩ := h.live hlive
      exact onScale_outcome hrubric hreply
  | false =>
      rw [h.offline hlive]
      exact onScale_heuristicScore taskType content validation

end AutoReviewer

/-! ## The gates -/

/-- The machine whose model API keeps to the requested schema. -/
def conforming (env : Env) : Machine Db Write Call Reply ℕ :=
  answering fun reply ↦ AutoReviewer.conforms env reply = true

theorem conforming_refines (env : Env) : (conforming env).Refines machine id :=
  answering_refines _

/-- Every trust score is on the scale. -/
def Scaled (s : Db) : Prop :=
  ∀ e ∈ s.experts, e.qualityScore.OnScale

/-- A write that puts no score off the scale. -/
def Write.Mild : Write → Prop
  | .insertExpert e => e.qualityScore.OnScale
  | .setQualityScore _ score => score.OnScale
  | _ => True

/-- Rewriting a contributor in place. -/
theorem Scaled.modify {s : Db} (hs : Scaled s) {t : Table String Expert Expert.id} {id : String}
    {f : Expert → Expert} (ht : t.rows = s.experts.rows.map fun e ↦ if e.id = id then f e else e)
    (h : ∀ e, e.qualityScore.OnScale → (f e).qualityScore.OnScale) :
    ∀ e ∈ t, e.qualityScore.OnScale := by
  intro e' he'
  rw [Table.mem_def, ht] at he'
  obtain ⟨e, he, rfl⟩ := List.mem_map.mp he'
  split
  · exact h e (hs e he)
  · exact hs e he

theorem Write.Mild.scaled {u : Write} (h : u.Mild) {s s' : Db} (hs : Scaled s)
    (happly : Db.apply u s = some s') : Scaled s' := by
  cases u with
  | insertExpert e =>
      simp only [Db.apply, Option.ite_none_right_eq_some, Option.some.injEq] at happly
      obtain ⟨hvac, rfl⟩ := happly
      intro e' he'
      rcases (Table.mem_push hvac.1).mp he' with hold | rfl
      · exact hs e' hold
      · exact h
  | setQualityScore id score =>
      obtain rfl := Option.some.inj happly
      exact hs.modify rfl fun _ _ ↦ h
  | setExpertStatus id status =>
      obtain rfl := Option.some.inj happly
      exact hs.modify rfl fun _ he ↦ he
  | setApprovedCount id n =>
      obtain rfl := Option.some.inj happly
      exact hs.modify rfl fun _ he ↦ he
  | setGoldPassCount id n =>
      obtain rfl := Option.some.inj happly
      exact hs.modify rfl fun _ he ↦ he
  | setGoldFailCount id n =>
      obtain rfl := Option.some.inj happly
      exact hs.modify rfl fun _ he ↦ he
  | _ =>
      have hsame : s'.experts = s.experts := by
        simp only [Db.apply, Option.ite_none_right_eq_some, Option.some.injEq] at happly
        grind
      unfold Scaled
      rwa [hsame]

section Gates

variable {env : Env}

theorem upholds_of_writesIn {α : Type} {p : Tx α} (hp : p.WritesIn Write.Mild) :
    (conforming env).Upholds Scaled p fun _ ↦ True :=
  .of_writesIn hp fun _ hu _ _ hs happly ↦ hu.scaled hs happly

theorem upholds_write {u : Write} (h : u.Mild) :
    (conforming env).Upholds Scaled (Session.write u) fun _ ↦ True :=
  .emit fun _ _ hs happly ↦ h.scaled hs happly

theorem mild_addReview (submissionId : String) (kind : ReviewKind) (reviewerId : String)
    (verdict : Verdict) (overall : Option PyFloat) (detail : Json) :
    (Engine.addReview submissionId kind reviewerId verdict overall detail).WritesIn Write.Mild :=
  (Prog.Writeless.ask _).writesIn.bind fun _ ↦ (Prog.Writeless.ask _).writesIn.bind fun _ ↦
    (Prog.WritesIn.emit (I := Write.Mild) (by exact trivial)).bind fun _ ↦ .pure _

theorem mild_record (actor action entityType entityId : String) (payload : Json) :
    (Audit.record env actor action entityType entityId payload).WritesIn Write.Mild :=
  Audit.record_writesIn env (fun _ ↦ trivial) _ _ _ _ _

theorem mild_updateQualityScore {expert : Expert} {score : PyFloat} (hscore : score.OnScale)
    (hexpert : expert.qualityScore.OnScale) :
    (Controls.updateQualityScore expert score).WritesIn Write.Mild := by
  unfold Controls.updateQualityScore Controls.maybeSuspend
  refine (Prog.WritesIn.emit (I := Write.Mild) (by exact Controls.onScale_ewma hscore hexpert)).bind
    fun _ ↦ ?_
  split
  · exact (Prog.WritesIn.emit (I := Write.Mild) (by exact trivial)).bind fun _ ↦ .pure _
  · exact .pure _

theorem mild_registerGoldResult {expert : Expert} (hexpert : expert.qualityScore.OnScale)
    (passed : Bool) : (Controls.registerGoldResult expert passed).WritesIn Write.Mild := by
  have hsuspend : ∀ e : Expert, (Controls.maybeSuspend e).WritesIn Write.Mild := by
    intro e
    unfold Controls.maybeSuspend
    split
    · exact (Prog.WritesIn.emit (I := Write.Mild) (by exact trivial)).bind fun _ ↦ .pure _
    · exact .pure _
  unfold Controls.registerGoldResult
  split
  · exact (Prog.WritesIn.emit (I := Write.Mild) (by exact trivial)).bind fun _ ↦ hsuspend _
  · exact (Prog.WritesIn.emit (I := Write.Mild) (by exact trivial)).bind fun _ ↦
      (Prog.WritesIn.emit (I := Write.Mild)
        (by exact Controls.onScale_penalty hexpert)).bind fun _ ↦
        hsuspend _

theorem mild_holdBack (sub : Submission) (result : AutoReviewer.AutoReview) (sampled : Bool)
    (status : SubmissionStatus) :
    (Engine.holdBack env sub result sampled status).WritesIn Write.Mild :=
  (Prog.WritesIn.emit (I := Write.Mild) (by exact trivial)).bind fun _ ↦
    (mild_record _ _ _ _ _).bind fun _ ↦ .pure _

theorem mild_autoApprove {sub : Submission} {task : Task} {project : Project} {expert : Expert}
    (hexpert : expert.qualityScore.OnScale) {result : AutoReviewer.AutoReview}
    (hresult : result.overallScore.OnScale) (sampled : Bool) :
    (Engine.autoApprove env sub task project expert result sampled).WritesIn Write.Mild := by
  refine (Prog.WritesIn.emit (I := Write.Mild) (by exact trivial)).bind fun _ ↦ ?_
  refine (Prog.WritesIn.emit (I := Write.Mild) (by exact trivial)).bind fun _ ↦ ?_
  refine (Prog.WritesIn.emit (I := Write.Mild) (by exact trivial)).bind fun _ ↦ ?_
  refine (mild_updateQualityScore hresult (by exact hexpert)).bind fun _ ↦ ?_
  refine (Billing.recordApprovedRecord_writesIn env (fun _ ↦ trivial) (fun _ ↦ trivial) _ _ _).bind
    fun _ ↦ ?_
  exact (mild_record _ _ _ _ _).bind fun _ ↦ .pure _

theorem rubric_mem {rubricId : String} {rubric : Rubric} (h : getRubric rubricId = .ok rubric) :
    rubric ∈ Rubrics.all := by
  unfold getRubric at h
  split at h
  · rename_i hfound
    obtain rfl := Except.ok.inj h
    exact List.mem_of_find?_eq_some hfound
  · cases h

theorem upholds_process {sub : Submission} {task : Task} {project : Project} {expert : Expert}
    (hexpert : expert.qualityScore.OnScale) :
    (conforming env).Upholds Scaled (Engine.process env sub task project expert)
      fun _ ↦ True := by
  unfold Engine.process
  refine Machine.Upholds.ofExcept.bind fun rubric hrubric ↦ ?_
  refine (Machine.Upholds.select (Q := fun _ ↦ True) fun _ _ ↦ trivial).bind fun _ _ ↦ ?_
  refine Machine.Upholds.ofExcept.bind fun validation _ ↦ ?_
  refine (upholds_of_writesIn (mild_addReview _ _ _ _ _ _)).bind fun _ _ ↦ ?_
  refine .ite (fun _ ↦ ?_) fun _ ↦ ?_
  · exact upholds_of_writesIn ((Prog.WritesIn.emit (I := Write.Mild)
      (by exact trivial)).bind fun _ ↦
      (mild_record _ _ _ _ _).bind fun _ ↦ .pure _)
  · cases Engine.goldAnswerOf task with
    | some goldAnswer =>
        refine Machine.Upholds.ofExcept.bind fun passed _ ↦ ?_
        refine upholds_of_writesIn ((mild_registerGoldResult hexpert passed).bind fun _ ↦ ?_)
        refine (mild_addReview _ _ _ _ _ _).bind fun _ ↦ ?_
        refine (Prog.WritesIn.emit (I := Write.Mild) (by exact trivial)).bind fun _ ↦ ?_
        refine (Prog.WritesIn.emit (I := Write.Mild) (by exact trivial)).bind fun _ ↦ ?_
        exact (mild_record _ _ _ _ _).bind fun _ ↦ .pure _
    | none =>
        refine (upholds_write (by exact trivial)).bind fun _ _ ↦ ?_
        refine Machine.Upholds.bind (Q := fun r ↦ r.overallScore.OnScale) ?_ fun result hresult ↦ ?_
        · intro s w r s' w' hs hexec
          obtain ⟨rfl, hanswered⟩ := AutoReviewer.exec_review_answering hexec
          exact ⟨hs, AutoReviewer.onScale_answered (rubric_mem hrubric) hanswered⟩
        · refine (upholds_of_writesIn (mild_addReview _ _ _ _ _ _)).bind fun _ _ ↦ ?_
          refine Machine.Upholds.ofExcept.bind fun _ _ ↦ ?_
          refine Machine.Upholds.ofExcept.bind fun sampled _ ↦ ?_
          refine (upholds_write (by exact trivial)).bind fun _ _ ↦ ?_
          refine .ite (fun _ ↦ upholds_of_writesIn (mild_holdBack _ _ _ _)) fun _ ↦ ?_
          exact .ite (fun _ ↦ upholds_of_writesIn (mild_holdBack _ _ _ _))
            fun _ ↦ upholds_of_writesIn (mild_autoApprove hexpert hresult sampled)

theorem writeless_assertQualified (expert : Expert) (track : DomainTrack) :
    (Controls.assertQualified expert track).Writeless :=
  (Prog.Writeless.ensure _ _).bind fun _ ↦ (Prog.Writeless.select _ _).bind fun _ ↦
    (Session.writeless_scalarOneOrNone _).bind fun _ ↦ .ensure _ _

theorem writeless_submissionOut (sub : Submission) : (Api.submissionOut env sub).Writeless :=
  (Prog.Writeless.select _ _).bind fun _ ↦ .pure _

theorem upholds_submit {task : Task} {expert : Expert} {content : Json}
    (hexpert : expert.qualityScore.OnScale) :
    (conforming env).Upholds Scaled (Engine.submit env task expert content) fun _ ↦ True := by
  unfold Engine.submit
  refine (Machine.Upholds.select (Q := fun _ ↦ True) fun _ _ ↦ trivial).bind fun _ _ ↦ ?_
  refine Machine.Upholds.getSome.bind fun project _ ↦ ?_
  refine (upholds_of_writesIn (writeless_assertQualified _ _).writesIn).bind
    fun _ _ ↦ ?_
  refine Machine.Upholds.ensure.bind fun _ _ ↦ ?_
  refine (Machine.Upholds.select (Q := fun _ ↦ True) fun _ _ ↦ trivial).bind fun _ _ ↦ ?_
  refine (upholds_of_writesIn (Prog.Writeless.ask _).writesIn).bind fun id _ ↦ ?_
  refine (upholds_of_writesIn (Prog.Writeless.ask _).writesIn).bind fun now _ ↦ ?_
  refine (upholds_write (by exact trivial)).bind fun _ _ ↦ ?_
  refine (upholds_of_writesIn (mild_record _ _ _ _ _)).bind fun _ _ ↦ ?_
  exact (upholds_process hexpert).bind fun _ _ ↦ .pure trivial

/-- Looking up a row of a scaled store. -/
theorem upholds_getOr404 {α : Type} {model id : String} {t : TableName} {find : Db → Option α}
    {Q : α → Prop} (h : ∀ s a, Scaled s → find s = some a → Q a) :
    (conforming env).Upholds Scaled (Api.getOr404 model id t find) Q := by
  unfold Api.getOr404
  refine (Machine.Upholds.select (Q := fun found ↦ ∀ a, found = some a → Q a)
    fun s hs a ha ↦ h s a hs ha).bind fun found hfound ↦ ?_
  exact Machine.Upholds.getSome.mono hfound

theorem upholds_createSubmission (actor : Auth.Actor) (taskId expertId : String)
    (content : List (String × Json)) :
    (conforming env).Upholds Scaled (Api.createSubmission env actor taskId expertId content)
      fun _ ↦ True := by
  unfold Api.createSubmission
  refine Machine.Upholds.ensure.bind fun _ _ ↦ ?_
  refine (upholds_getOr404 (Q := fun _ ↦ True) fun _ _ _ _ ↦ trivial).bind fun task _ ↦ ?_
  refine (upholds_getOr404 (Q := fun expert ↦ expert.qualityScore.OnScale)
    fun s expert hs hfind ↦ hs expert (Table.mem_of_find? hfind)).bind fun expert hexpert ↦ ?_
  exact (upholds_submit hexpert).mapErr.bind fun sub _ ↦
    upholds_of_writesIn (writeless_submissionOut sub).writesIn

end Gates

/-! ## Human reviews -/

section Reviews

variable {env : Env} {s s' : Db} {w w' : ℕ}

/-- What serving a review request runs. -/
theorem exec_serve_review {http : Api.Http} {submissionId : String} {body : Api.HumanReviewIn}
    {r : Json} (h : machine.Exec (Api.serve env http) s w r s' w')
    (hrequest : http.request = .postHumanReview submissionId body) :
    ∃ sub reviewer review, s.submissions.find? submissionId = some sub ∧
      machine.Exec (Engine.humanReview env sub reviewer body.verdict
        ((body.criterionScores.getD []).map Json.obj) body.comments) s w review s' w' := by
  obtain ⟨authorization, xActorId, request⟩ := http
  subst hrequest
  have hserve : Api.serve env ⟨authorization, xActorId, .postHumanReview submissionId body⟩ =
      Auth.currentActor env Api.reviewRoles authorization xActorId >>= fun actor ↦
        Api.postHumanReview env actor submissionId body := rfl
  rw [hserve, Machine.exec_bind] at h
  obtain ⟨actor, s₁, w₁, hactor, h⟩ := h
  obtain ⟨rfl, rfl⟩ := Auth.exec_currentActor env hactor
  unfold Api.postHumanReview Api.getSubmission Api.getExpert at h
  rw [Machine.exec_ensure_bind, Api.exec_getOr404_bind] at h
  obtain ⟨_, sub, hsub, h⟩ := h
  rw [Api.exec_getOr404_bind] at h
  obtain ⟨reviewer, _, h⟩ := h
  rw [Machine.exec_bind] at h
  obtain ⟨review, s₂, w₂, hreview, _, rfl, rfl⟩ := h
  exact ⟨sub, reviewer, review, hsub, Machine.exec_mapErr.mp hreview⟩

/-- A score that is not asked for, or one on the scale. -/
def Given (overall : Option PyFloat) : Prop :=
  ∀ x, overall = some x → x.OnScale

theorem Given.getD {overall : Option PyFloat} (h : Given overall) {x : PyFloat} (hx : x.OnScale) :
    (overall.getD x).OnScale := by
  cases overall with
  | none => exact hx
  | some y => exact h y rfl

theorem Scaled.replace {e : Expert} (hs : Scaled s) (he : e.qualityScore.OnScale) :
    ∀ e' ∈ s.experts.replace e, e'.qualityScore.OnScale := by
  intro e' he'
  rcases Table.mem_replace he' with rfl | ⟨hold, _⟩
  · exact he
  · exact hs e' hold

theorem onScale_withReviewScore {e : Expert} (he : e.qualityScore.OnScale) {score : PyFloat}
    (hscore : score.OnScale) : (Controls.withReviewScore score e).qualityScore.OnScale := by
  unfold Controls.withReviewScore
  rw [Controls.qualityScore_suspendedIfDue]
  exact Controls.onScale_ewma hscore he

/-- A verdict with a score on the scale keeps all scores there. -/
theorem scaled_of_decided {sub : Submission} {overall : Option PyFloat} {verdict : Verdict}
    (h : Engine.Decided env sub overall s verdict s') (hs : Scaled s)
    (hoverall : verdict ≠ .revise → Given overall) : Scaled s' := by
  cases h with
  | @pass task htask project hproject author hauthor _ hmeter =>
      have hgiven := (hoverall nofun).getD (x := .finite 4) (.finite (by norm_num) (by norm_num))
      have hscore := hs author (Table.mem_of_find? hauthor)
      obtain ⟨hexperts, _⟩ := Controls.same_of_metered hmeter
      unfold Scaled
      rw [hexperts]
      exact hs.replace (onScale_withReviewScore (by exact hscore) hgiven)
  | revise => exact hs
  | @fail author hauthor =>
      have hgiven := (hoverall nofun).getD (x := .finite 1) (.finite (by norm_num) (by norm_num))
      exact hs.replace (onScale_withReviewScore (hs author (Table.mem_of_find? hauthor)) hgiven)

/-- The weighted mean of the scores of a review that passes or fails a
submission is on the scale. -/
structure FairReview (env : Env) (s : Db) (submissionId : String) (body : Api.HumanReviewIn) :
    Prop where
  mean : body.verdict ≠ .revise → ∀ sub task project rubric,
    s.submissions.find? submissionId = some sub → s.tasks.find? sub.taskId = some task →
    s.projects.find? task.projectId = some project → getRubric project.rubricId = .ok rubric →
    AutoReviewer.MeanOnScale
      (AutoReviewer.scored env rubric ((body.criterionScores.getD []).map Json.obj))

theorem given_of_overallOf {rubric : Rubric} (hrubric : rubric ∈ Rubrics.all) {rows : List Json}
    {overall : Option PyFloat} (h : Engine.overallOf env rubric rows = .ok overall)
    (hmean : AutoReviewer.MeanOnScale (AutoReviewer.scored env rubric rows)) : Given overall := by
  rintro x rfl
  cases rows with
  | nil => cases h
  | cons row rows =>
      obtain ⟨y, hy, heq⟩ := bind_eq_ok.mp h
      obtain rfl := Option.some.inj (Except.ok.inj heq)
      exact AutoReviewer.onScale_weightedOverall hrubric hmean hy

theorem scaled_of_review {http : Api.Http} {submissionId : String} {body : Api.HumanReviewIn}
    {r : Json} (hserve : machine.Exec (Api.serve env http) s w r s' w')
    (hrequest : http.request = .postHumanReview submissionId body)
    (hfair : FairReview env s submissionId body) (hs : Scaled s)
    (hseq : Audit.SeqBelow s.auditEvents w) : Scaled s' := by
  obtain ⟨sub, reviewer, review, hsub, h⟩ := exec_serve_review hserve hrequest
  unfold Engine.humanReview at h
  rw [Machine.exec_ensure_bind, Machine.exec_bind] at h
  obtain ⟨_, _, s₁, w₁, hindependent, h⟩ := h
  obtain ⟨_, _, _, rfl, rfl⟩ := Controls.exec_assertReviewerIndependent hindependent
  rw [Machine.exec_select_bind, Machine.exec_getSome_bind] at h
  obtain ⟨task, htask, h⟩ := h
  rw [Machine.exec_select_bind, Machine.exec_getSome_bind] at h
  obtain ⟨project, hproject, h⟩ := h
  rw [Machine.exec_ofExcept_bind] at h
  obtain ⟨rubric, hrubric, h⟩ := h
  rw [Machine.exec_select_bind, Machine.exec_ofExcept_bind] at h
  obtain ⟨overall, hoverall, h⟩ := h
  rw [Engine.exec_addReview_bind] at h
  obtain ⟨id, now, hid, h⟩ := h
  rw [Machine.exec_bind] at h
  obtain ⟨status, s₂, w₂, hverdict, h⟩ := h
  obtain ⟨hdecided, hseq₂⟩ :=
    Engine.exec_applyVerdict hverdict rfl (Table.find?_key hsub) htask hproject hseq
  rw [Machine.exec_bind] at h
  obtain ⟨aud, s₃, w₃, haud, rfl, rfl, rfl⟩ := h
  obtain ⟨rfl, _, _⟩ := Audit.exec_record haud hseq₂
  have hscaled : Scaled s₂ := by
    refine scaled_of_decided hdecided (by exact hs) fun hverdict ↦ ?_
    exact given_of_overallOf (rubric_mem hrubric) hoverall
      (hfair.mean hverdict sub task project rubric hsub htask hproject hrubric)
  exact hscaled

end Reviews

/-! ## Every run -/

section Runs

variable {env : Env} {s s' : Db} {w w' : ℕ}

/-- Requests that give no score. -/
def Scoreless : Api.Request → Prop
  | .createSubmission .. => False
  | .postHumanReview .. => False
  | _ => True

theorem scaled_of_effect {actor : Auth.Actor} {request : Api.Request}
    (h : Api.Effect env actor s request s') (hnone : Scoreless request) (hs : Scaled s) :
    Scaled s' := by
  cases h with
  | @createExpert body id aud hid haud =>
      intro e he
      rcases (Table.mem_push hid).mp he with hold | rfl
      · exact hs e hold
      · exact .finite (by norm_num) (by norm_num)
  | @recordExam expertId body expert id aud hexpert hid haud =>
      refine hs.replace ?_
      have hsame : (Api.afterExam (Api.EXAM_PASS_SCORE.le body.examScore) expert).qualityScore =
          expert.qualityScore := by
        unfold Api.afterExam
        split <;> rfl
      rw [hsame]
      exact hs expert (Table.mem_of_find? hexpert)
  | createSubmission htask hexpert h => exact hnone.elim
  | postHumanReview hsub hreviewer h => exact hnone.elim
  | generateInvoice hfirm h =>
      cases h
      exact hs
  | createInvoiceCheckout hinv haccess h =>
      cases h
      exact hs
  | recordExternalPayment hinv h =>
      cases h
      exact hs
  | stripeWebhook hevent hact h => cases h <;> exact hs
  | _ => exact hs

/-- The human reviews that a run serves give scores on the scale. -/
def FairReviews (env : Env) (tr : List (Served Api.Http Db Json)) : Prop :=
  ∀ e ∈ tr, e.outcome.isSome = true →
    ∀ submissionId body, e.request.request = .postHumanReview submissionId body →
    FairReview env e.before submissionId body

theorem scaled_of_exec {http : Api.Http} {r : Json}
    (h : (conforming env).Exec (Api.serve env http) s w r s' w') (hs : Scaled s)
    (hseq : Audit.SeqBelow s.auditEvents w)
    (hfair : ∀ submissionId body, http.request = .postHumanReview submissionId body →
      FairReview env s submissionId body) : Scaled s' := by
  have hmachine := (conforming_refines env).exec h
  obtain ⟨⟨actor, heffect⟩, _⟩ := Api.exec_serve hmachine hseq
  by_cases hnone : Scoreless http.request
  · exact scaled_of_effect heffect hnone hs
  · cases hrequest : http.request with
    | createSubmission taskId expertId content =>
        obtain ⟨authorization, xActorId, request⟩ := http
        subst hrequest
        have hserve : (conforming env).Upholds Scaled (Api.serve env
            ⟨authorization, xActorId, .createSubmission taskId expertId content⟩) fun _ ↦ True :=
          (upholds_of_writesIn (Auth.writeless_currentActor env _ _ _).writesIn).bind
            fun actor _ ↦ upholds_createSubmission actor taskId expertId content
        exact (hserve _ _ _ _ _ hs h).1
    | postHumanReview submissionId body =>
        exact scaled_of_review hmachine hrequest (hfair _ _ hrequest) hs hseq
    | _ =>
        rw [hrequest] at hnone
        exact absurd trivial hnone

end Runs

namespace Development

/-- The first submission, passed with this score. -/
def scoredReview (score : ℤ) : List Api.Request :=
  firstSubmission ++ [.postHumanReview submissionId ⟨reviewerId, .pass,
    some [[("criterion", .str "technical_accuracy"), ("score", .int score)]], ""⟩]

def scoredRun (score : ℤ) : List (Served Api.Http Db Json) × Db × ℕ :=
  (conforming env).simulateRun answers (Api.serve env) ((scoredReview score).map http) 1 Db.empty 1

theorem scoredRun_spec (score : ℤ) :
    (conforming env).Run (Api.serve env) Db.empty 1 (scoredRun score).1 (scoredRun score).2.1
      (scoredRun score).2.2 :=
  Machine.run_of_simulateRun _ _ _ _ _

/-- A review with a mean on the scale under each rubric. -/
def fair : Api.Request → Bool
  | .postHumanReview _ body => Rubrics.all.all fun rubric ↦
      decide (AutoReviewer.MeanOnScale
        (AutoReviewer.scored env rubric ((body.criterionScores.getD []).map Json.obj)))
  | _ => true

theorem fairReviews_four : FairReviews env (scoredRun 4).1 := by
  have hall : ∀ e ∈ (scoredRun 4).1, fair e.request.request = true := by decide +kernel
  intro e he _ submissionId body hrequest
  have hfair := hall e he
  rw [hrequest] at hfair
  constructor
  intro _ sub task project rubric _ _ _ hrubric
  exact of_decide_eq_true (List.all_eq_true.mp hfair rubric (rubric_mem hrubric))

end Development

open Development

end HumanDataFactory
