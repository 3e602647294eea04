import HumanDataFactory.Qc.Engine
import HumanDataFactory.Billing.Effects

/-!
# What the engine does to the database

How a fresh submission leaves the automated gates, and what a human verdict
changes, as relations between the state before and after.
-/

namespace HumanDataFactory

open Transact

namespace Engine

variable {env : Env}

theorem exec_addReview_bind {submissionId reviewerId : String} {kind : ReviewKind}
    {verdict : Verdict} {overall : Option PyFloat} {detail : Json} {α : Type} {k : Review → Tx α}
    {b : α} {s s' : Db} {w w' : ℕ} :
    machine.Exec (addReview submissionId kind reviewerId verdict overall detail >>= k) s w b s' w' ↔
      ∃ id now, s.reviews.Vacant id ∧
        machine.Exec (k (newReview submissionId kind reviewerId verdict overall detail id now))
          { s with
            reviews := s.reviews.push
              (newReview submissionId kind reviewerId verdict overall detail id now) }
          w b s' w' := by
  rw [Machine.exec_bind]
  simp only [addReview, Session.exec_uuid4_bind, Session.exec_now_bind, Machine.exec_emit_bind,
    machine_apply, Db.apply, Option.ite_none_right_eq_some, Option.some.injEq, Prog.monad_pure,
    Machine.exec_pure]
  constructor
  · rintro ⟨rev, s₁, w₁, ⟨id, now, s₂, ⟨hv, rfl⟩, rfl, rfl, rfl⟩, hk⟩
    exact ⟨id, now, hv, hk⟩
  · rintro ⟨id, now, hv, hk⟩
    exact ⟨_, _, _, ⟨id, now, _, ⟨hv, rfl⟩, rfl, rfl, rfl⟩, hk⟩

/-! ## The automated gates -/

def approvedTask (task : Task) : Task :=
  { task with status := .completed }

def creditedWith (score : PyFloat) (expert : Expert) : Expert :=
  Controls.withReviewScore score { expert with approvedCount := expert.approvedCount + 1 }

@[simp] theorem creditedWith_id (score : PyFloat) (expert : Expert) :
    (creditedWith score expert).id = expert.id := by
  simp [creditedWith]

@[simp] theorem creditedWith_isReviewer (score : PyFloat) (expert : Expert) :
    (creditedWith score expert).isReviewer = expert.isReviewer := by
  simp [creditedWith]

def detReview (sub : Submission) (validation : ValidationResult) (id : String) (now : Time) :
    Review :=
  newReview sub.id .deterministic "validators-v1" (if validation.passed then .pass else .fail)
    none validation.asDict id now

def goldReview (sub : Submission) (passed : Bool) (id : String) (now : Time) : Review :=
  newReview sub.id .goldCheck ENGINE_ACTOR (if passed then .pass else .fail) none
    (.obj [("gold", .bool true)]) id now

def autoLlmReview (env : Env) (sub : Submission) (result : AutoReviewer.AutoReview) (id : String)
    (now : Time) : Review :=
  newReview sub.id .autoLlm result.reviewerId (if result.passed then .pass else .revise)
    (some result.overallScore) (result.asDetail env) id now

def goldEntry (sub : Submission) (expert : Expert) (passed : Bool) : Audit.Entry :=
  ⟨ENGINE_ACTOR, "submission.gold_checked", "submission", sub.id,
    .obj [("passed", .bool passed), ("expert_score", .float expert.qualityScore),
      ("expert_status", .str expert.status.value)]⟩

/-- Where gate 3 sends a submission. -/
def route (critical : List String) (result : AutoReviewer.AutoReview) (sampled : Bool) :
    SubmissionStatus :=
  if critical ≠ [] ∨ result.overallScore.lt Settings.qcGrayThreshold = true then .needsRevision
  else if AutoReviewer.FALLBACK_REVIEWER_ID = result.reviewerId ∨ sampled = true ∨
      result.passed = false then .humanReview
  else .approved

/-- The decision of gate 3 and what it rests on. -/
structure Routed (env : Env) (sub : Submission) (expert : Expert)
    (result : AutoReviewer.AutoReview) (sampled : Bool) (status : SubmissionStatus) : Prop where
  sampling : Controls.isSampledForHumanReview env sub.id expert = .ok sampled
  sound : result.passed = true → result.Sound
  routed : ∃ critical, AutoReviewer.criticalFlags result.flags = .ok critical ∧
    route critical result sampled = status

theorem Routed.approved {sub : Submission} {expert : Expert} {result : AutoReviewer.AutoReview}
    {sampled : Bool} (h : Routed env sub expert result sampled .approved) :
    result.passed = true ∧ sampled = false := by
  obtain ⟨critical, _, hroute⟩ := h.routed
  unfold route at hroute
  split at hroute
  · cases hroute
  · split at hroute
    · cases hroute
    · rename_i hnot
      push Not at hnot
      exact ⟨by simpa using hnot.2.2, by simpa using hnot.2.1⟩

variable (env) in
/-- What the gates do to a submission that was just inserted on top of the
submissions `t`. -/
inductive Processed (t : Table String Submission Submission.id) (sub : Submission) (task : Task)
    (project : Project) (expert : Expert) (s : Db) : Db → Prop
  | autoCheckFailed {validation : ValidationResult} (hfailed : validation.passed = false)
      {id : String} {now : Time} (hid : s.reviews.Vacant id) {aud : AuditEvent}
      (haud : aud.entry = ⟨ENGINE_ACTOR, "submission.auto_check_failed", "submission", sub.id,
        .obj [("errors", Json.strs (validation.errors.map Finding.code))]⟩) :
      Processed t sub task project expert s { s with
        submissions := t.push { sub with status := .autoCheckFailed }
        reviews := s.reviews.push (detReview sub validation id now)
        auditEvents := s.auditEvents ++ [aud] }
  | goldChecked {validation : ValidationResult} (hpassed : validation.passed = true)
      {goldAnswer : Json} (hgold : goldAnswerOf task = some goldAnswer) (passed : Bool)
      {id : String} {now : Time} (hid : s.reviews.Vacant id) {id' : String} {now' : Time}
      (hid' : (s.reviews.push (detReview sub validation id now)).Vacant id') {aud : AuditEvent}
      (haud : aud.entry = goldEntry sub (Controls.withGoldResult passed expert) passed) :
      Processed t sub task project expert s { s with
        submissions := t.push { sub with status := if passed then .approved else .rejected }
        tasks := s.tasks.replace (approvedTask task)
        experts := s.experts.replace (Controls.withGoldResult passed expert)
        reviews := (s.reviews.push (detReview sub validation id now)).push
          (goldReview sub passed id' now')
        auditEvents := s.auditEvents ++ [aud] }
  | heldBack {validation : ValidationResult} (hpassed : validation.passed = true)
      (hgold : goldAnswerOf task = none) {result : AutoReviewer.AutoReview} {sampled : Bool}
      {status : SubmissionStatus} (hstatus : status = .needsRevision ∨ status = .humanReview)
      (hroute : Routed env sub expert result sampled status)
      {id : String} {now : Time} (hid : s.reviews.Vacant id) {id' : String} {now' : Time}
      (hid' : (s.reviews.push (detReview sub validation id now)).Vacant id') {aud : AuditEvent}
      (haud : aud.entry = ⟨result.reviewerId, s!"submission.{status.value}", "submission",
        sub.id, autoOutcomeEntry result sampled⟩) :
      Processed t sub task project expert s { s with
        submissions := t.push { sub with status := status, sampledForHumanReview := sampled }
        reviews := (s.reviews.push (detReview sub validation id now)).push
          (autoLlmReview env sub result id' now')
        auditEvents := s.auditEvents ++ [aud] }
  | autoApproved {validation : ValidationResult} (hpassed : validation.passed = true)
      (hgold : goldAnswerOf task = none) {result : AutoReviewer.AutoReview} {sampled : Bool}
      (hroute : Routed env sub expert result sampled .approved)
      {id : String} {now : Time} (hid : s.reviews.Vacant id) {id' : String} {now' : Time}
      (hid' : (s.reviews.push (detReview sub validation id now)).Vacant id') {s₁ : Db}
      (hmeter : Billing.Metered env project task sub { s with
        submissions := t.push { sub with status := .approved, sampledForHumanReview := sampled }
        tasks := s.tasks.replace (approvedTask task)
        experts := s.experts.replace (creditedWith result.overallScore expert)
        reviews := (s.reviews.push (detReview sub validation id now)).push
          (autoLlmReview env sub result id' now') } s₁) {aud : AuditEvent}
      (haud : aud.entry = ⟨result.reviewerId, "submission.auto_approved", "submission", sub.id,
        autoOutcomeEntry result sampled⟩) :
      Processed t sub task project expert s { s₁ with auditEvents := s₁.auditEvents ++ [aud] }

section Process

variable {t : Table String Submission Submission.id} {sub : Submission} {task : Task}
  {project : Project} {expert : Expert} {s s' : Db} {w w' : ℕ} {status : SubmissionStatus}

/-- Counting an approval and scoring it. -/
theorem exec_credit_bind {score : PyFloat} {α : Type} {k : Expert → Tx α} {b : α}
    (h : machine.Exec (Session.write (.setApprovedCount expert.id (expert.approvedCount + 1)) >>=
      fun _ ↦ Controls.updateQualityScore
        { expert with approvedCount := expert.approvedCount + 1 } score >>= k) s w b s' w')
    (he : s.experts.find? expert.id = some expert) :
    machine.Exec (k (creditedWith score expert))
      { s with experts := s.experts.replace (creditedWith score expert) } w b s' w' := by
  rw [Machine.exec_emit_bind] at h
  obtain ⟨s₁, hs₁, h⟩ := h
  simp only [machine_apply, Db.apply, Option.some.injEq] at hs₁
  rw [Controls.modify_eq_setExpert he] at hs₁
  subst hs₁
  rw [Machine.exec_bind] at h
  obtain ⟨e, s₂, w₂, hscore, h⟩ := h
  have hfind := Controls.find?_setExpert he
    { expert with approvedCount := expert.approvedCount + 1 } rfl
  obtain ⟨rfl, rfl, rfl⟩ := Controls.exec_updateQualityScore hscore hfind
  rw [Controls.setExpert_setExpert (by simp)] at h
  exact h

theorem exec_failAutoCheck {validation : ValidationResult}
    (h : machine.Exec (failAutoCheck env sub validation) s w status s' w')
    (ht : s.submissions = t.push sub) (hv : t.Vacant sub.id)
    (hseq : Audit.SeqBelow s.auditEvents w) :
    ∃ aud : AuditEvent, aud.entry = ⟨ENGINE_ACTOR, "submission.auto_check_failed", "submission",
        sub.id, .obj [("errors", Json.strs (validation.errors.map Finding.code))]⟩ ∧
      s' = { s with
        submissions := t.push { sub with status := .autoCheckFailed }
        auditEvents := s.auditEvents ++ [aud] } ∧
      status = .autoCheckFailed ∧ Audit.SeqBelow s'.auditEvents w' := by
  unfold failAutoCheck at h
  rw [Machine.exec_emit_bind] at h
  obtain ⟨s₁, hs₁, h⟩ := h
  simp only [machine_apply, Db.apply, Option.some.injEq] at hs₁
  rw [ht, Table.push_modify hv rfl] at hs₁
  subst hs₁
  rw [Machine.exec_bind] at h
  obtain ⟨aud, s₂, w₂, haud, rfl, rfl, rfl⟩ := h
  obtain ⟨rfl, hentry, hseq'⟩ := Audit.exec_record haud hseq
  exact ⟨aud, hentry, rfl, rfl, hseq'⟩

theorem exec_goldCheck {goldAnswer : Json}
    (h : machine.Exec (goldCheck env sub task goldAnswer project expert) s w status s' w')
    (ht : s.submissions = t.push sub) (hv : t.Vacant sub.id)
    (htask : s.tasks.find? task.id = some task)
    (hexpert : s.experts.find? expert.id = some expert)
    (hseq : Audit.SeqBelow s.auditEvents w) :
    ∃ (passed : Bool) (id : String) (now : Time) (aud : AuditEvent), s.reviews.Vacant id ∧
      aud.entry = goldEntry sub (Controls.withGoldResult passed expert) passed ∧
      s' = { s with
        submissions := t.push { sub with status := if passed then .approved else .rejected }
        tasks := s.tasks.replace (approvedTask task)
        experts := s.experts.replace (Controls.withGoldResult passed expert)
        reviews := s.reviews.push (goldReview sub passed id now)
        auditEvents := s.auditEvents ++ [aud] } ∧
      status = (if passed then .approved else .rejected) ∧
      Audit.SeqBelow s'.auditEvents w' := by
  unfold goldCheck at h
  rw [Machine.exec_ofExcept_bind] at h
  obtain ⟨passed, _, h⟩ := h
  rw [Machine.exec_bind] at h
  obtain ⟨expert', s₁, w₁, hgold, h⟩ := h
  obtain ⟨rfl, rfl, rfl⟩ := Controls.exec_registerGoldResult hgold hexpert
  rw [exec_addReview_bind] at h
  obtain ⟨id, now, hid, h⟩ := h
  simp only [Machine.exec_emit_bind, machine_apply, Db.apply, Option.some.injEq] at h
  obtain ⟨s₂, hs₂, s₃, hs₃, h⟩ := h
  simp only [Controls.setExpert, ht] at hs₂
  rw [Table.push_modify hv rfl] at hs₂
  subst hs₂
  rw [Table.modify_eq_replace htask] at hs₃
  subst hs₃
  rw [Machine.exec_bind] at h
  obtain ⟨aud, s₄, w₄, haud, rfl, rfl, rfl⟩ := h
  obtain ⟨rfl, hentry, hseq'⟩ := Audit.exec_record haud hseq
  exact ⟨passed, id, now, aud, hid, hentry, rfl, rfl, hseq'⟩

theorem exec_holdBack {result : AutoReviewer.AutoReview} {sampled : Bool}
    {status' : SubmissionStatus} {a : Submission}
    (h : machine.Exec (holdBack env sub result sampled status) s w status' s' w')
    (ht : s.submissions = t.push a) (ha : a.id = sub.id) (hv : t.Vacant sub.id)
    (hseq : Audit.SeqBelow s.auditEvents w) :
    ∃ aud : AuditEvent, aud.entry = ⟨result.reviewerId, s!"submission.{status.value}",
        "submission", sub.id, autoOutcomeEntry result sampled⟩ ∧
      s' = { s with
        submissions := t.push { a with status := status }
        auditEvents := s.auditEvents ++ [aud] } ∧
      status' = status ∧ Audit.SeqBelow s'.auditEvents w' := by
  unfold holdBack at h
  rw [Machine.exec_emit_bind] at h
  obtain ⟨s₁, hs₁, h⟩ := h
  simp only [machine_apply, Db.apply, Option.some.injEq] at hs₁
  rw [ht, Table.push_modify (by rwa [ha]) ha] at hs₁
  subst hs₁
  rw [Machine.exec_bind] at h
  obtain ⟨aud, s₂, w₂, haud, rfl, rfl, rfl⟩ := h
  obtain ⟨rfl, hentry, hseq'⟩ := Audit.exec_record haud hseq
  exact ⟨aud, hentry, rfl, rfl, hseq'⟩

theorem exec_autoApprove {result : AutoReviewer.AutoReview} {sampled : Bool} {a : Submission}
    (h : machine.Exec (autoApprove env sub task project expert result sampled) s w status s' w')
    (ht : s.submissions = t.push a) (ha : a.id = sub.id) (hv : t.Vacant sub.id)
    (htask : s.tasks.find? task.id = some task)
    (hexpert : s.experts.find? expert.id = some expert)
    (hseq : Audit.SeqBelow s.auditEvents w) :
    ∃ (s₁ : Db) (aud : AuditEvent), Billing.Metered env project task sub { s with
        submissions := t.push { a with status := .approved }
        tasks := s.tasks.replace (approvedTask task)
        experts := s.experts.replace (creditedWith result.overallScore expert) } s₁ ∧
      aud.entry = ⟨result.reviewerId, "submission.auto_approved", "submission", sub.id,
        autoOutcomeEntry result sampled⟩ ∧
      s' = { s₁ with auditEvents := s₁.auditEvents ++ [aud] } ∧
      status = .approved ∧ Audit.SeqBelow s'.auditEvents w' := by
  unfold autoApprove at h
  rw [Machine.exec_emit_bind] at h
  obtain ⟨s₁, hs₁, h⟩ := h
  rw [Machine.exec_emit_bind] at h
  obtain ⟨s₂, hs₂, h⟩ := h
  simp only [machine_apply, Db.apply, Option.some.injEq] at hs₁ hs₂
  rw [ht, Table.push_modify (by rwa [ha]) ha] at hs₁
  subst hs₁
  rw [Table.modify_eq_replace htask] at hs₂
  subst hs₂
  replace h := exec_credit_bind h hexpert
  rw [Machine.exec_bind] at h
  obtain ⟨_, s₅, w₅, hmeter, h⟩ := h
  obtain ⟨hmetered, hseq₅⟩ := Billing.exec_recordApprovedRecord hmeter hseq
  rw [Machine.exec_bind] at h
  obtain ⟨aud, s₆, w₆, haud, rfl, rfl, rfl⟩ := h
  obtain ⟨rfl, hentry, hseq'⟩ := Audit.exec_record haud hseq₅
  exact ⟨s₅, aud, hmetered, hentry, rfl, rfl, hseq'⟩

theorem exec_autoReview {rubric : Rubric} {validation : ValidationResult}
    (h : machine.Exec (autoReview env sub task project expert rubric validation)
      s w status s' w')
    (ht : s.submissions = t.push sub) (hv : t.Vacant sub.id)
    (htask : s.tasks.find? task.id = some task)
    (hexpert : s.experts.find? expert.id = some expert)
    (hseq : Audit.SeqBelow s.auditEvents w) :
    ∃ (result : AutoReviewer.AutoReview) (sampled : Bool) (id : String) (now : Time),
      s.reviews.Vacant id ∧ Routed env sub expert result sampled status ∧
      Audit.SeqBelow s'.auditEvents w' ∧
      ((∃ aud : AuditEvent, (status = .needsRevision ∨ status = .humanReview) ∧
        aud.entry = ⟨result.reviewerId, s!"submission.{status.value}", "submission",
          sub.id, autoOutcomeEntry result sampled⟩ ∧
        s' = { s with
          submissions := t.push { sub with status := status, sampledForHumanReview := sampled }
          reviews := s.reviews.push (autoLlmReview env sub result id now)
          auditEvents := s.auditEvents ++ [aud] }) ∨
      (∃ (s₁ : Db) (aud : AuditEvent), status = .approved ∧
        Billing.Metered env project task sub { s with
          submissions := t.push { sub with status := .approved, sampledForHumanReview := sampled }
          tasks := s.tasks.replace (approvedTask task)
          experts := s.experts.replace (creditedWith result.overallScore expert)
          reviews := s.reviews.push (autoLlmReview env sub result id now) } s₁ ∧
        aud.entry = ⟨result.reviewerId, "submission.auto_approved", "submission", sub.id,
          autoOutcomeEntry result sampled⟩ ∧
        s' = { s₁ with auditEvents := s₁.auditEvents ++ [aud] })) := by
  unfold autoReview at h
  rw [Machine.exec_emit_bind] at h
  obtain ⟨s₁, hs₁, h⟩ := h
  simp only [machine_apply, Db.apply, Option.some.injEq] at hs₁
  rw [ht, Table.push_modify hv rfl] at hs₁
  subst hs₁
  rw [Machine.exec_bind] at h
  obtain ⟨result, s₂, w₂, hreview, h⟩ := h
  obtain ⟨hsound, rfl, rfl⟩ := AutoReviewer.exec_review hreview
  rw [exec_addReview_bind] at h
  obtain ⟨id, now, hid, h⟩ := h
  rw [Machine.exec_ofExcept_bind] at h
  obtain ⟨critical, hcritical, h⟩ := h
  rw [Machine.exec_ofExcept_bind] at h
  obtain ⟨sampled, hsampled, h⟩ := h
  rw [Machine.exec_emit_bind] at h
  obtain ⟨s₃, hs₃, h⟩ := h
  simp only [machine_apply, Db.apply, Option.some.injEq] at hs₃
  rw [Table.push_modify (by exact hv) (by rfl)] at hs₃
  subst hs₃
  refine ⟨result, sampled, id, now, hid, ?_⟩
  have hrouted : ∀ st, route critical result sampled = st →
      Routed env sub expert result sampled st :=
    fun st hst ↦ ⟨hsampled, hsound, critical, hcritical, hst⟩
  by_cases hlow : critical ≠ [] ∨ result.overallScore.lt Settings.qcGrayThreshold = true
  · rw [if_pos hlow] at h
    obtain ⟨aud, hentry, rfl, rfl, hseq'⟩ := exec_holdBack h rfl rfl hv hseq
    exact ⟨hrouted _ (if_pos hlow), hseq', Or.inl ⟨aud, Or.inl rfl, hentry, rfl⟩⟩
  · rw [if_neg hlow] at h
    by_cases hhold : AutoReviewer.FALLBACK_REVIEWER_ID = result.reviewerId ∨ sampled = true ∨
        result.passed = false
    · rw [if_pos hhold] at h
      obtain ⟨aud, hentry, rfl, rfl, hseq'⟩ := exec_holdBack h rfl rfl hv hseq
      refine ⟨hrouted _ ?_, hseq', Or.inl ⟨aud, Or.inr rfl, hentry, rfl⟩⟩
      rw [route, if_neg hlow, if_pos hhold]
    · rw [if_neg hhold] at h
      obtain ⟨s₄, aud, hmetered, hentry, rfl, rfl, hseq'⟩ :=
        exec_autoApprove h rfl rfl hv htask hexpert hseq
      refine ⟨hrouted _ ?_, hseq', Or.inr ⟨s₄, aud, rfl, hmetered, hentry, rfl⟩⟩
      rw [route, if_neg hlow, if_neg hhold]

theorem exec_process
    (h : machine.Exec (process env sub task project expert) s w status s' w')
    (ht : s.submissions = t.push sub) (hv : t.Vacant sub.id)
    (htask : s.tasks.find? task.id = some task)
    (hexpert : s.experts.find? expert.id = some expert)
    (hseq : Audit.SeqBelow s.auditEvents w) :
    Processed env t sub task project expert s s' ∧ Audit.SeqBelow s'.auditEvents w' := by
  unfold process at h
  rw [Machine.exec_ofExcept_bind] at h
  obtain ⟨rubric, _, h⟩ := h
  rw [Machine.exec_select_bind, Machine.exec_ofExcept_bind] at h
  obtain ⟨validation, _, h⟩ := h
  rw [exec_addReview_bind] at h
  obtain ⟨id, now, hid, h⟩ := h
  cases hpassed : validation.passed with
  | false =>
      rw [if_pos hpassed] at h
      obtain ⟨aud, hentry, rfl, rfl, hseq'⟩ := exec_failAutoCheck h ht hv hseq
      exact ⟨.autoCheckFailed hpassed hid hentry, hseq'⟩
  | true =>
      rw [if_neg (by simp [hpassed])] at h
      cases hgold : goldAnswerOf task with
      | some goldAnswer =>
          rw [hgold] at h
          obtain ⟨passed, id', now', aud, hid', hentry, rfl, rfl, hseq'⟩ :=
            exec_goldCheck h ht hv htask hexpert hseq
          exact ⟨.goldChecked hpassed hgold passed hid hid' hentry, hseq'⟩
      | none =>
          rw [hgold] at h
          obtain ⟨result, sampled, id', now', hid', hroute, hseq', hcase⟩ :=
            exec_autoReview h ht hv htask hexpert hseq
          rcases hcase with ⟨aud, hstatus, hentry, rfl⟩ | ⟨s₁, aud, rfl, hmeter, hentry, rfl⟩
          · exact ⟨.heldBack hpassed hgold hstatus hroute hid hid' hentry, hseq'⟩
          · exact ⟨.autoApproved hpassed hgold hroute hid hid' hmeter hentry, hseq'⟩

end Process

/-! ## Submitting -/

def createdEntry (sub : Submission) : Audit.Entry :=
  ⟨sub.expertId, "submission.created", "submission", sub.id,
    .obj [("task_id", .str sub.taskId), ("version", .int sub.version)]⟩

variable (env) in
/-- What `submit` does to the database. -/
inductive Submitted (task : Task) (expert : Expert) (content : Json) (s : Db) : Db → Prop
  | mk {project : Project} (hproject : s.projects.find? task.projectId = some project)
      (hqualified : expert.status = .qualified)
      (hheld : (Controls.passedQualifications s expert.id project.track).length = 1)
      (hassigned : ¬assignedElsewhere task expert) {sub : Submission}
      (hsub : ∃ id now, sub = newSubmission task expert content
        (nextVersion (priorSubmissions env s task.id expert.id).head?) id now)
      (hid : s.submissions.Vacant sub.id) {aud : AuditEvent}
      (haud : aud.entry = createdEntry sub) {s' : Db}
      (hprocess : Processed env s.submissions sub task project expert
        { s with
          submissions := s.submissions.push sub
          auditEvents := s.auditEvents ++ [aud] } s') :
      Submitted task expert content s s'

theorem exec_submit {task : Task} {expert : Expert} {content : Json} {sub : Submission}
    {s s' : Db} {w w' : ℕ}
    (h : machine.Exec (submit env task expert content) s w sub s' w')
    (htask : s.tasks.find? task.id = some task)
    (hexpert : s.experts.find? expert.id = some expert)
    (hseq : Audit.SeqBelow s.auditEvents w) :
    Submitted env task expert content s s' ∧ Audit.SeqBelow s'.auditEvents w' := by
  unfold submit at h
  rw [Machine.exec_select_bind, Machine.exec_getSome_bind] at h
  obtain ⟨project, hproject, h⟩ := h
  rw [Machine.exec_bind] at h
  obtain ⟨_, s₁, w₁, hqual, h⟩ := h
  obtain ⟨hqualified, hheld, rfl, rfl⟩ := Controls.exec_assertQualified hqual
  rw [Machine.exec_ensure_bind, Machine.exec_select_bind] at h
  obtain ⟨hassigned, h⟩ := h
  simp only [Session.exec_uuid4_bind, Session.exec_now_bind, Machine.exec_emit_bind,
    machine_apply, Db.apply, Option.ite_none_right_eq_some, Option.some.injEq] at h
  obtain ⟨id, now, s₂, ⟨hid, rfl⟩, h⟩ := h
  rw [Machine.exec_bind] at h
  obtain ⟨aud, s₃, w₃, haud, h⟩ := h
  obtain ⟨rfl, hentry, hseq₃⟩ := Audit.exec_record haud hseq
  rw [Machine.exec_bind] at h
  obtain ⟨status, s₄, w₄, hprocess, rfl, rfl, rfl⟩ := h
  obtain ⟨hprocessed, hseq'⟩ := exec_process hprocess rfl hid htask hexpert hseq₃
  exact ⟨.mk hproject hqualified hheld hassigned ⟨id, now, rfl⟩ hid hentry hprocessed, hseq'⟩

/-! ## The human gate -/

def humanEntry (submission : Submission) (reviewer : Expert) (verdict : Verdict)
    (overall : Option PyFloat) (comments : String) : Audit.Entry :=
  ⟨reviewer.id, s!"submission.human_{verdict.value}", "submission", submission.id,
    .obj [("overall_score", optionalScore overall),
      ("comments", .str (StripeGateway.take 500 comments))]⟩

variable (env) in
/-- What a verdict changes, before it is recorded. -/
inductive Decided (submission : Submission) (overall : Option PyFloat) (s : Db) :
    Verdict → Db → Prop
  | pass {task : Task} (htask : s.tasks.find? submission.taskId = some task)
      {project : Project} (hproject : s.projects.find? task.projectId = some project)
      {author : Expert} (hauthor : s.experts.find? submission.expertId = some author) {s' : Db}
      (hmeter : Billing.Metered env project task submission { s with
        submissions := s.submissions.replace { submission with status := .approved }
        tasks := s.tasks.replace (approvedTask task)
        experts := s.experts.replace (creditedWith (overall.getD (.finite 4)) author) } s') :
      Decided submission overall s .pass s'
  | revise : Decided submission overall s .revise { s with
      submissions := s.submissions.replace { submission with status := .needsRevision } }
  | fail {author : Expert} (hauthor : s.experts.find? submission.expertId = some author) :
      Decided submission overall s .fail { s with
        submissions := s.submissions.replace { submission with status := .rejected }
        experts := s.experts.replace
          (Controls.withReviewScore (overall.getD (.finite 1)) author) }

variable (env) in
/-- What `human_review` does to the database. -/
inductive Reviewed (submission : Submission) (reviewer : Expert) (verdict : Verdict)
    (s : Db) : Db → Prop
  | mk (hstatus : submission.status = .humanReview) (hother : reviewer.id ≠ submission.expertId)
      (hreviewer : reviewer.isReviewer = true) (hqualified : reviewer.status = .qualified)
      {overall : Option PyFloat} {detail : Json} {id : String} {now : Time}
      (hid : s.reviews.Vacant id) {s₁ : Db}
      (hdecided : Decided env submission overall { s with
        reviews := s.reviews.push
          (newReview submission.id .human reviewer.id verdict overall detail id now) }
        verdict s₁) {comments : String} {aud : AuditEvent}
      (haud : aud.entry = humanEntry submission reviewer verdict overall comments) :
      Reviewed submission reviewer verdict s
        { s₁ with auditEvents := s₁.auditEvents ++ [aud] }

theorem exec_applyVerdict {submission : Submission} {task : Task} {project : Project}
    {found : Option Expert} {overall : Option PyFloat} {verdict : Verdict}
    {status : SubmissionStatus} {s s' : Db} {w w' : ℕ}
    (h : machine.Exec (applyVerdict env submission task project found overall verdict)
      s w status s' w')
    (hfound : s.experts.find? submission.expertId = found)
    (hsub : s.submissions.find? submission.id = some submission)
    (htask : s.tasks.find? submission.taskId = some task)
    (hproject : s.projects.find? task.projectId = some project)
    (hseq : Audit.SeqBelow s.auditEvents w) :
    Decided env submission overall s verdict s' ∧ Audit.SeqBelow s'.auditEvents w' := by
  subst hfound
  have hself : ∀ e, s.experts.find? submission.expertId = some e →
      s.experts.find? e.id = some e := by
    intro e he
    rwa [Table.key_of_find? he]
  cases verdict with
  | pass =>
      unfold applyVerdict passVerdict at h
      rw [Machine.exec_emit_bind] at h
      obtain ⟨s₁, hs₁, h⟩ := h
      rw [Machine.exec_emit_bind] at h
      obtain ⟨s₂, hs₂, h⟩ := h
      simp only [machine_apply, Db.apply, Option.some.injEq] at hs₁ hs₂
      rw [Table.modify_eq_replace hsub] at hs₁
      subst hs₁
      have htask' : s.tasks.find? task.id = some task := by
        rwa [Table.key_of_find? htask]
      rw [Table.modify_eq_replace htask'] at hs₂
      subst hs₂
      rw [Machine.exec_getSome_bind] at h
      obtain ⟨author, hauthor, h⟩ := h
      replace h := exec_credit_bind h (hself author hauthor)
      rw [Machine.exec_bind] at h
      obtain ⟨_, s₅, w₅, hmeter, rfl, rfl, rfl⟩ := h
      obtain ⟨hmetered, hseq'⟩ := Billing.exec_recordApprovedRecord hmeter hseq
      exact ⟨.pass htask hproject hauthor hmetered, hseq'⟩
  | revise =>
      unfold applyVerdict reviseVerdict at h
      rw [Machine.exec_emit_bind] at h
      obtain ⟨s₁, hs₁, rfl, rfl, rfl⟩ := h
      simp only [machine_apply, Db.apply, Option.some.injEq] at hs₁
      rw [Table.modify_eq_replace hsub] at hs₁
      subst hs₁
      exact ⟨.revise, hseq⟩
  | fail =>
      unfold applyVerdict failVerdict at h
      rw [Machine.exec_emit_bind] at h
      obtain ⟨s₁, hs₁, h⟩ := h
      simp only [machine_apply, Db.apply, Option.some.injEq] at hs₁
      rw [Table.modify_eq_replace hsub] at hs₁
      subst hs₁
      rw [Machine.exec_getSome_bind] at h
      obtain ⟨author, hauthor, h⟩ := h
      rw [Machine.exec_bind] at h
      obtain ⟨_, s₂, w₂, hscore, rfl, rfl, rfl⟩ := h
      obtain ⟨_, rfl, rfl⟩ := Controls.exec_updateQualityScore hscore (hself author hauthor)
      exact ⟨.fail hauthor, hseq⟩

theorem exec_humanReview {submission : Submission} {reviewer : Expert} {verdict : Verdict}
    {criterionScores : List Json} {comments : String} {r : Review × SubmissionStatus}
    {s s' : Db} {w w' : ℕ}
    (h : machine.Exec (humanReview env submission reviewer verdict criterionScores comments)
      s w r s' w')
    (hsub : s.submissions.find? submission.id = some submission)
    (hseq : Audit.SeqBelow s.auditEvents w) :
    Reviewed env submission reviewer verdict s s' ∧ Audit.SeqBelow s'.auditEvents w' := by
  unfold humanReview at h
  rw [Machine.exec_ensure_bind] at h
  obtain ⟨hstatus, h⟩ := h
  rw [Machine.exec_bind] at h
  obtain ⟨_, s₁, w₁, hindep, h⟩ := h
  obtain ⟨hother, hreviewer, hqualified, rfl, rfl⟩ :=
    Controls.exec_assertReviewerIndependent hindep
  rw [Machine.exec_select_bind, Machine.exec_getSome_bind] at h
  obtain ⟨task, htask, h⟩ := h
  rw [Machine.exec_select_bind, Machine.exec_getSome_bind] at h
  obtain ⟨project, hproject, h⟩ := h
  rw [Machine.exec_ofExcept_bind] at h
  obtain ⟨rubric, _, h⟩ := h
  rw [Machine.exec_select_bind, Machine.exec_ofExcept_bind] at h
  obtain ⟨overall, _, h⟩ := h
  rw [exec_addReview_bind] at h
  obtain ⟨id, now, hid, h⟩ := h
  rw [Machine.exec_bind] at h
  obtain ⟨status, s₂, w₂, hverdict, h⟩ := h
  obtain ⟨hdecided, hseq₂⟩ := exec_applyVerdict hverdict rfl hsub htask hproject hseq
  rw [Machine.exec_bind] at h
  obtain ⟨aud, s₃, w₃, haud, rfl, rfl, rfl⟩ := h
  obtain ⟨rfl, hentry, hseq'⟩ := Audit.exec_record haud hseq₂
  exact ⟨.mk hstatus hother hreviewer hqualified hid hdecided hentry, hseq'⟩

/-! ## What the engine stays away from -/

/-- The invoices are as before, and what was recorded is not about invoices. -/
structure Apart (s s' : Db) : Prop where
  invoices : s'.invoices = s.invoices
  events : ∃ evs, s'.auditEvents = s.auditEvents ++ evs ∧ ∀ ev ∈ evs, ev.entityType ≠ "invoice"

theorem Apart.trans {s₁ s₂ s₃ : Db} (h : Apart s₁ s₂) (h' : Apart s₂ s₃) : Apart s₁ s₃ := by
  obtain ⟨hinvoices, evs, hevs, hother⟩ := h
  obtain ⟨hinvoices', evs', hevs', hother'⟩ := h'
  refine ⟨hinvoices'.trans hinvoices, evs ++ evs', by rw [hevs', hevs, List.append_assoc], ?_⟩
  intro ev hev
  rcases List.mem_append.mp hev with hev | hev
  · exact hother ev hev
  · exact hother' ev hev

theorem Apart.single {s s' : Db} {aud : AuditEvent} {entry : Audit.Entry}
    (haud : aud.entry = entry) (hother : entry.entityType ≠ "invoice")
    (hinvoices : s'.invoices = s.invoices)
    (hevents : s'.auditEvents = s.auditEvents ++ [aud]) : Apart s s' := by
  have htype : aud.entityType = entry.entityType := by rw [← haud]; rfl
  refine ⟨hinvoices, [aud], hevents, ?_⟩
  intro ev hev
  obtain rfl : ev = aud := by simpa using hev
  rwa [htype]

/-- Metering between a change of other tables and the event about it. -/
theorem Apart.metered {project : Project} {task : Task} {sub : Submission} {s s₁ s₂ : Db}
    {aud : AuditEvent} {entry : Audit.Entry} (hmeter : Billing.Metered env project task sub s₁ s₂)
    (hinvoices : s₁.invoices = s.invoices) (hevents : s₁.auditEvents = s.auditEvents)
    (haud : aud.entry = entry) (hother : entry.entityType ≠ "invoice") :
    Apart s { s₂ with auditEvents := s₂.auditEvents ++ [aud] } := by
  have hstart : Apart s s₁ := ⟨hinvoices, [], by simpa using hevents, by simp⟩
  have hmiddle : Apart s₁ s₂ := by
    cases hmeter with
    | skipped hfree => exact ⟨rfl, [], by simp, by simp⟩
    | metered hgold hnew hfirm hev hvac haud' =>
        exact .single haud' (by simp [Billing.usageEntry]) rfl rfl
  exact hstart.trans (hmiddle.trans (.single haud hother rfl rfl))

theorem apart_of_processed {t : Table String Submission Submission.id} {sub : Submission}
    {task : Task} {project : Project} {expert : Expert} {s s' : Db}
    (h : Processed env t sub task project expert s s') : Apart s s' := by
  cases h with
  | autoCheckFailed hfailed hid haud => exact .single haud (by simp) rfl rfl
  | goldChecked hpassed hgold passed hid hid' haud =>
      exact .single haud (by simp [goldEntry]) rfl rfl
  | heldBack hpassed hgold hstatus hroute hid hid' haud => exact .single haud (by simp) rfl rfl
  | autoApproved hpassed hgold hroute hid hid' hmeter haud =>
      exact .metered hmeter rfl rfl haud (by simp)

theorem apart_of_submitted {task : Task} {expert : Expert} {content : Json} {s s' : Db}
    (h : Submitted env task expert content s s') : Apart s s' := by
  obtain ⟨hproject, hqualified, hheld, hassigned, hsub, hid, haud, hprocess⟩ := h
  refine .trans ?_ (apart_of_processed hprocess)
  exact .single haud (by simp [createdEntry]) rfl rfl

theorem apart_of_reviewed {sub : Submission} {reviewer : Expert} {verdict : Verdict} {s s' : Db}
    (h : Reviewed env sub reviewer verdict s s') : Apart s s' := by
  obtain ⟨hstatus, hother, hreviewer, hqualified, hid, hdecided, haud⟩ := h
  cases hdecided with
  | pass htask hproject hauthor hmeter =>
      exact .metered hmeter rfl rfl haud (by simp [humanEntry])
  | revise => exact .single haud (by simp [humanEntry]) rfl rfl
  | fail hauthor => exact .single haud (by simp [humanEntry]) rfl rfl

/-- Firms, projects, rate cards and qualifications are as before. -/
structure SameSetting (s s' : Db) : Prop where
  firms : s'.firms = s.firms
  projects : s'.projects = s.projects
  rateCards : s'.rateCards = s.rateCards
  qualifications : s'.qualifications = s.qualifications

theorem setting_of_metered {project : Project} {task : Task} {sub : Submission} {s s' : Db}
    (h : Billing.Metered env project task sub s s') : SameSetting s s' := by
  cases h with
  | skipped _ => exact ⟨rfl, rfl, rfl, rfl⟩
  | metered _ _ _ _ _ _ => exact ⟨rfl, rfl, rfl, rfl⟩

theorem setting_of_submitted {task : Task} {expert : Expert} {content : Json} {s s' : Db}
    (h : Submitted env task expert content s s') : SameSetting s s' := by
  obtain ⟨hproject, hqualified, hheld, hassigned, hsub, hid, haud, hprocess⟩ := h
  cases hprocess with
  | autoCheckFailed _ _ _ => exact ⟨rfl, rfl, rfl, rfl⟩
  | goldChecked _ _ _ _ _ _ => exact ⟨rfl, rfl, rfl, rfl⟩
  | heldBack _ _ _ _ _ _ _ => exact ⟨rfl, rfl, rfl, rfl⟩
  | autoApproved _ _ _ _ _ hmeter _ =>
      obtain ⟨hfirms, hprojects, hcards, hquals⟩ := setting_of_metered hmeter
      exact ⟨hfirms, hprojects, hcards, hquals⟩

theorem setting_of_reviewed {sub : Submission} {reviewer : Expert} {verdict : Verdict} {s s' : Db}
    (h : Reviewed env sub reviewer verdict s s') : SameSetting s s' := by
  obtain ⟨hstatus, hother, hreviewer, hqualified, hid, hdecided, haud⟩ := h
  cases hdecided with
  | pass _ _ _ hmeter =>
      obtain ⟨hfirms, hprojects, hcards, hquals⟩ := setting_of_metered hmeter
      exact ⟨hfirms, hprojects, hcards, hquals⟩
  | revise => exact ⟨rfl, rfl, rfl, rfl⟩
  | fail _ => exact ⟨rfl, rfl, rfl, rfl⟩

end Engine

end HumanDataFactory
