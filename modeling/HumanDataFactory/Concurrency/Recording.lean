import HumanDataFactory.Api

/-!
# Requests write the trail only by recording

Every endpoint is built from statements that leave the audit table alone and
from calls of `audit.record`.  `Audited` says so of a program, and the two
results at the end draw the conclusion for the chain: a transaction whose
reads of the newest event are still current when it commits keeps the trail
linked, and so does a request served alone.
-/

namespace HumanDataFactory

open Transact

variable {env : Env} {α β : Type}

/-- The audit row a write inserts. -/
def Write.auditEvent? : Write → Option AuditEvent
  | .insertAuditEvent ev => some ev
  | _ => none

namespace Audit

variable (env) in
/-- Programs whose only writes to the audit table are those of `record`. -/
inductive Audited : Tx α → Prop
  | pure (a : α) : Audited (.pure a)
  | raise (e : PyError) : Audited (.raise e)
  | read (q : Query) (k : Db → Tx α) (h : ∀ s, Audited (k s)) : Audited (.read q k)
  | write (u : Write) (p : Tx α) (hu : u.auditEvent? = none) (h : Audited p) :
      Audited (.write u p)
  | call (c : Call) (k : Reply c → Tx α) (h : ∀ r, Audited (k r)) : Audited (.call c k)
  | record (actor action entityType entityId : String) (payload : Json)
      (k : AuditEvent → Tx α) (h : ∀ ev, Audited (k ev)) :
      Audited (Audit.record env actor action entityType entityId payload >>= k)

namespace Audited

theorem bind {p : Tx α} {f : α → Tx β} (hp : Audited env p) (hf : ∀ a, Audited env (f a)) :
    Audited env (p >>= f) := by
  induction hp with
  | pure a => exact hf a
  | raise e => exact .raise e
  | read q k _ ih => exact .read q _ ih
  | write u p hu _ ih => exact .write u _ hu ih
  | call c k _ ih => exact .call c _ ih
  | record actor action entityType entityId payload k _ ih =>
      rw [Prog.bind_assoc]
      exact .record _ _ _ _ _ _ ih

theorem mapErr {p : Tx α} (g : PyError → PyError) (hp : Audited env p) :
    Audited env (p.mapErr g) := by
  induction hp with
  | pure a => exact .pure a
  | raise e => exact .raise _
  | read q k _ ih => exact .read q _ ih
  | write u p hu _ ih => exact .write u _ hu ih
  | call c k _ ih => exact .call c _ ih
  | record actor action entityType entityId payload k _ ih =>
      exact .record actor action entityType entityId payload _ ih

theorem of_writeless {p : Tx α} (hp : p.Writeless) : Audited env p := by
  induction hp with
  | pure a => exact .pure a
  | raise e => exact .raise e
  | read q k _ ih => exact .read q k ih
  | call c k _ ih => exact .call c k ih

theorem select (q : Query) (f : Db → α) : Audited env (Session.select q f) :=
  of_writeless (.select q f)

theorem ask (c : Call) : Audited env (Prog.ask c : Tx (Reply c)) :=
  of_writeless (.ask c)

theorem getSome (e : PyError) (a : Option α) : Audited env (Prog.getSome e a : Tx α) :=
  of_writeless (.getSome e a)

theorem ofExcept (x : Except PyError α) : Audited env (Prog.ofExcept x : Tx α) :=
  of_writeless (.ofExcept x)

theorem ensure (p : Prop) [Decidable p] (e : PyError) :
    Audited env (Prog.ensure p e : Tx Unit) :=
  of_writeless (.ensure p e)

theorem emit {u : Write} (hu : u.auditEvent? = none) : Audited env (Session.write u) :=
  .write u _ hu (.pure ())

theorem emitAll {us : List Write} (hu : ∀ u ∈ us, u.auditEvent? = none) :
    Audited env (Prog.emitAll us : Tx Unit) := by
  induction us with
  | nil => exact .pure ()
  | cons u us ih => exact .write u _ (hu u (by simp)) (ih fun v hv ↦ hu v (by simp [hv]))

theorem writeIf (c : Prop) [Decidable c] {u : Write} (hu : u.auditEvent? = none) :
    Audited env (Session.writeIf c u) := by
  unfold Session.writeIf
  split
  · exact emit hu
  · exact .pure ()

theorem returned (a : Option α) : Audited env (Session.returned a) :=
  getSome _ a

theorem scalarOneOrNone (rows : List α) : Audited env (Session.scalarOneOrNone rows) := by
  rcases rows with _ | ⟨a, _ | ⟨b, rows⟩⟩
  · exact .pure none
  · exact .pure (some a)
  · exact .raise _

/-- A call of `record` whose event is not used any more. -/
theorem recording {p : Tx α} (actor action entityType entityId : String) (payload : Json)
    (hp : Audited env p) :
    Audited env (Audit.record env actor action entityType entityId payload >>= fun _ ↦ p) :=
  .record _ _ _ _ _ _ fun _ ↦ hp

end Audited

/-! ## Every endpoint records -/

open Audited

theorem audited_assertQualified (expert : Expert) (track : DomainTrack) :
    Audited env (Controls.assertQualified expert track) :=
  (ensure _ _).bind fun _ ↦ (select _ _).bind fun _ ↦ (scalarOneOrNone _).bind fun _ ↦ ensure _ _

theorem audited_assertReviewerIndependent (sub : Submission) (reviewer : Expert) :
    Audited env (Controls.assertReviewerIndependent sub reviewer) :=
  (ensure _ _).bind fun _ ↦ (ensure _ _).bind fun _ ↦ ensure _ _

theorem audited_maybeSuspend (expert : Expert) : Audited env (Controls.maybeSuspend expert) := by
  unfold Controls.maybeSuspend
  split
  · exact (emit rfl).bind fun _ ↦ .pure _
  · exact .pure _

theorem audited_updateQualityScore (expert : Expert) (score : PyFloat) :
    Audited env (Controls.updateQualityScore expert score) :=
  (emit rfl).bind fun _ ↦ audited_maybeSuspend _

theorem audited_registerGoldResult (expert : Expert) (passed : Bool) :
    Audited env (Controls.registerGoldResult expert passed) := by
  cases passed with
  | true => exact (emit rfl).bind fun _ ↦ audited_maybeSuspend _
  | false => exact (emit rfl).bind fun _ ↦ (emit rfl).bind fun _ ↦ audited_maybeSuspend _

theorem audited_recordApprovedRecord (project : Project) (task : Task) (sub : Submission) :
    Audited env (Billing.recordApprovedRecord env project task sub) := by
  unfold Billing.recordApprovedRecord
  split
  · exact .pure _
  · refine (select _ _).bind fun _ ↦ (scalarOneOrNone _).bind fun existing ↦ ?_
    cases existing with
    | some ev => exact .pure _
    | none =>
        refine (select _ _).bind fun _ ↦ (getSome _ _).bind fun firm ↦ ?_
        refine (of_writeless (Billing.writeless_resolveUnitPriceCents env _ _)).bind fun price ↦ ?_
        exact (ask _).bind fun _ ↦ (ask _).bind fun _ ↦ (emit rfl).bind fun _ ↦
          recording _ _ _ _ _ (.pure _)

theorem audited_describeAll (firm : Firm) (rows : List LineItem) :
    Audited env (Billing.describeAll env firm rows) := by
  induction rows with
  | nil => exact .pure _
  | cons row rows ih =>
      exact (select _ _).bind fun _ ↦ (getSome _ _).bind fun _ ↦ ih.bind fun _ ↦ .pure _

theorem audited_issue (firm : Firm) (inv : Invoice) : Audited env (Billing.issue env firm inv) := by
  unfold Billing.issue
  split
  · refine (of_writeless (StripeGateway.writeless_ensureCustomer env firm)).bind fun _ ↦ ?_
    refine (emit rfl).bind fun _ ↦ ?_
    refine (of_writeless (StripeGateway.writeless_pushInvoice env _ _)).bind fun _ ↦ ?_
    exact (emit rfl).bind fun _ ↦ (emit rfl).bind fun _ ↦ .pure _
  · exact (emit rfl).bind fun _ ↦ .pure _

theorem audited_generateInvoice (firm : Firm) (periodStart periodEnd : Time)
    (issuedBy : String) :
    Audited env (Billing.generateInvoice env firm periodStart periodEnd issuedBy) := by
  refine (select _ _).bind fun events ↦ (ensure _ _).bind fun _ ↦ ?_
  refine (audited_describeAll _ _).bind fun lines ↦ (ask _).bind fun now ↦ ?_
  refine ((select _ _).bind fun _ ↦ .pure _).bind fun number ↦ ?_
  refine (ask _).bind fun id ↦ (ask _).bind fun _ ↦ (emit rfl).bind fun _ ↦ ?_
  refine (emitAll ?_).bind fun _ ↦ (audited_issue _ _).bind fun _ ↦ (emit rfl).bind fun _ ↦
    recording _ _ _ _ _ (.pure _)
  intro u hu
  obtain ⟨ev, _, rfl⟩ := List.mem_map.mp hu
  rfl

theorem audited_recordExternalPayment (inv : Invoice) (reference actor : String) :
    Audited env (Billing.recordExternalPayment env inv reference actor) :=
  (ensure _ _).bind fun _ ↦ (ensure _ _).bind fun _ ↦ (emit rfl).bind fun _ ↦
    (emit rfl).bind fun _ ↦ (ask _).bind fun _ ↦ (emit rfl).bind fun _ ↦
      recording _ _ _ _ _ (.pure _)

theorem audited_createCheckout (inv : Invoice) (firm : Firm)
    (successUrl cancelUrl actor : String) :
    Audited env (Billing.createCheckout env inv firm successUrl cancelUrl actor) := by
  refine (ensure _ _).bind fun _ ↦ (ensure _ _).bind fun _ ↦ ?_
  refine (of_writeless (StripeGateway.writeless_createCheckoutSession env _ _ _ _)).bind fun _ ↦ ?_
  exact (emit rfl).bind fun _ ↦ recording _ _ _ _ _ (.pure _)

theorem audited_findCheckoutInvoice (obj : Json) :
    Audited env (Billing.findCheckoutInvoice obj) := by
  have hget : ∀ key, Audited env (Billing.getInvoiceOf key) := by
    intro key
    unfold Billing.getInvoiceOf
    split
    · exact (ofExcept _).bind fun _ ↦ select _ _
    · exact .pure _
  have hsession : ∀ key, Audited env (Billing.findBySession key) := by
    intro key
    unfold Billing.findBySession
    split
    · exact (ofExcept _).bind fun _ ↦ (select _ _).bind fun _ ↦ scalarOneOrNone _
    · exact .pure _
  refine (ofExcept _).bind fun _ ↦ (hget _).bind fun found ↦ ?_
  cases found with
  | some inv => exact .pure _
  | none => exact (ofExcept _).bind fun _ ↦ hsession _

theorem audited_completeCheckout (obj : Json) :
    Audited env (Billing.completeCheckout env obj) := by
  refine (audited_findCheckoutInvoice _).bind fun found ↦ ?_
  cases found with
  | none => exact .pure _
  | some inv =>
      dsimp only
      split
      · exact .pure _
      · exact (emit rfl).bind fun _ ↦ (ask _).bind fun _ ↦ (emit rfl).bind fun _ ↦
          (writeIf _ rfl).bind fun _ ↦ recording _ _ _ _ _ (.pure _)

theorem audited_settle (inv : Invoice) (etype stripeId : String) (status : InvoiceStatus) :
    Audited env (Billing.settle env inv etype stripeId status) := by
  refine (emit rfl).bind fun _ ↦ ?_
  refine Audited.bind ?_ fun _ ↦ recording _ _ _ _ _ (.pure _)
  cases status with
  | paid => exact (ask _).bind fun _ ↦ emit rfl
  | _ => exact .pure _

theorem audited_invoiceEvent (etype obj : Json) :
    Audited env (Billing.invoiceEvent env etype obj) := by
  have happly : ∀ etype key, Audited env (Billing.applyInvoiceEvent env etype key) := by
    intro etype key
    refine (ofExcept _).bind fun _ ↦ (select _ _).bind fun _ ↦ ?_
    refine (scalarOneOrNone _).bind fun found ↦ ?_
    cases found with
    | none => exact .pure _
    | some inv =>
        dsimp only
        split
        · exact audited_settle _ _ _ _
        · exact .pure _
  refine (ofExcept _).bind fun key ↦ ?_
  split
  · split
    · split
      · exact happly _ _
      · exact .pure _
    · exact .raise _
  · exact .pure _

theorem audited_handleStripeEvent (event : Json) :
    Audited env (Billing.handleStripeEvent env event) := by
  refine (ofExcept _).bind fun _ ↦ (ofExcept _).bind fun _ ↦ ?_
  split
  · exact audited_completeCheckout _
  · exact audited_invoiceEvent _ _

theorem audited_addReview (submissionId : String) (kind : ReviewKind) (reviewerId : String)
    (verdict : Verdict) (overall : Option PyFloat) (detail : Json) :
    Audited env (Engine.addReview submissionId kind reviewerId verdict overall detail) :=
  (ask _).bind fun _ ↦ (ask _).bind fun _ ↦ (emit rfl).bind fun _ ↦ .pure _

theorem audited_review (taskPrompt : String) (taskContext : Json) (taskType : TaskType)
    (content : Json) (rubric : Rubric) (validation : ValidationResult) :
    Audited env
      (AutoReviewer.review env taskPrompt taskContext taskType content rubric validation) := by
  unfold AutoReviewer.review
  split
  · refine (ask _).bind fun reply ↦ ?_
    split <;> exact .pure _
  · exact .pure _

theorem audited_autoReview (sub : Submission) (task : Task) (project : Project)
    (expert : Expert) (rubric : Rubric) (validation : ValidationResult) :
    Audited env (Engine.autoReview env sub task project expert rubric validation) := by
  have hhold : ∀ result sampled status,
      Audited env (Engine.holdBack env sub result sampled status) :=
    fun _ _ _ ↦ (emit rfl).bind fun _ ↦ recording _ _ _ _ _ (.pure _)
  refine (emit rfl).bind fun _ ↦ (audited_review _ _ _ _ _ _).bind fun result ↦ ?_
  refine (audited_addReview _ _ _ _ _ _).bind fun _ ↦ (ofExcept _).bind fun critical ↦ ?_
  refine (ofExcept _).bind fun sampled ↦ (emit rfl).bind fun _ ↦ ?_
  split
  · exact hhold _ _ _
  · split
    · exact hhold _ _ _
    · refine (emit rfl).bind fun _ ↦ (emit rfl).bind fun _ ↦ (emit rfl).bind fun _ ↦ ?_
      exact (audited_updateQualityScore _ _).bind fun _ ↦
        (audited_recordApprovedRecord _ _ _).bind fun _ ↦ recording _ _ _ _ _ (.pure _)

theorem audited_process (sub : Submission) (task : Task) (project : Project)
    (expert : Expert) : Audited env (Engine.process env sub task project expert) := by
  refine (ofExcept _).bind fun _ ↦ (select _ _).bind fun _ ↦ (ofExcept _).bind fun _ ↦ ?_
  refine (audited_addReview _ _ _ _ _ _).bind fun _ ↦ ?_
  split
  · exact (emit rfl).bind fun _ ↦ recording _ _ _ _ _ (.pure _)
  · split
    · refine (ofExcept _).bind fun passed ↦ (audited_registerGoldResult _ _).bind fun _ ↦ ?_
      exact (audited_addReview _ _ _ _ _ _).bind fun _ ↦ (emit rfl).bind fun _ ↦
        (emit rfl).bind fun _ ↦ recording _ _ _ _ _ (.pure _)
    · exact audited_autoReview _ _ _ _ _ _

theorem audited_submit (task : Task) (expert : Expert) (content : Json) :
    Audited env (Engine.submit env task expert content) := by
  refine (select _ _).bind fun _ ↦ (getSome _ _).bind fun _ ↦ ?_
  refine (audited_assertQualified _ _).bind fun _ ↦ (ensure _ _).bind fun _ ↦ ?_
  refine (select _ _).bind fun _ ↦ (ask _).bind fun _ ↦ (ask _).bind fun _ ↦ ?_
  exact (emit rfl).bind fun _ ↦ recording _ _ _ _ _ ((audited_process _ _ _ _).bind fun _ ↦ .pure _)

theorem audited_applyVerdict (sub : Submission) (task : Task) (project : Project)
    (author : Option Expert) (overall : Option PyFloat) (verdict : Verdict) :
    Audited env (Engine.applyVerdict env sub task project author overall verdict) := by
  cases verdict with
  | pass =>
      refine (emit rfl).bind fun _ ↦ (emit rfl).bind fun _ ↦ (getSome _ _).bind fun _ ↦ ?_
      exact (emit rfl).bind fun _ ↦ (audited_updateQualityScore _ _).bind fun _ ↦
        (audited_recordApprovedRecord _ _ _).bind fun _ ↦ .pure _
  | revise => exact (emit rfl).bind fun _ ↦ .pure _
  | fail =>
      exact (emit rfl).bind fun _ ↦ (getSome _ _).bind fun _ ↦
        (audited_updateQualityScore _ _).bind fun _ ↦ .pure _

theorem audited_humanReview (sub : Submission) (reviewer : Expert) (verdict : Verdict)
    (criterionScores : List Json) (comments : String) :
    Audited env (Engine.humanReview env sub reviewer verdict criterionScores comments) := by
  refine (ensure _ _).bind fun _ ↦ (audited_assertReviewerIndependent _ _).bind fun _ ↦ ?_
  refine (select _ _).bind fun _ ↦ (getSome _ _).bind fun _ ↦ ?_
  refine (select _ _).bind fun _ ↦ (getSome _ _).bind fun _ ↦ ?_
  refine (ofExcept _).bind fun _ ↦ (select _ _).bind fun _ ↦ (ofExcept _).bind fun _ ↦ ?_
  exact (audited_addReview _ _ _ _ _ _).bind fun _ ↦
    (audited_applyVerdict _ _ _ _ _ _).bind fun _ ↦ recording _ _ _ _ _ (.pure _)

theorem audited_requestExport (project : Project) (requestedBy : String) :
    Audited env (Export.requestExport env project requestedBy) := by
  have hunreviewed : ∀ rows, Audited env (Export.unreviewed rows) := by
    intro rows
    induction rows with
    | nil => exact .pure _
    | cons row rows ih => exact (select _ _).bind fun _ ↦ ih.bind fun _ ↦ .pure _
  have hreport : Audited env (Export.controlReport env project) :=
    (select _ _).bind fun _ ↦ (select _ _).bind fun _ ↦ (hunreviewed _).bind fun _ ↦
      (select _ _).bind fun _ ↦ .pure _
  exact hreport.bind fun _ ↦ (ensure _ _).bind fun _ ↦ (ask _).bind fun _ ↦
    (emit rfl).bind fun _ ↦ recording _ _ _ _ _ (.pure _)

theorem audited_approveAndMaterialize (batch : ExportBatch) (approvedBy : String) :
    Audited env (Export.approveAndMaterialize env batch approvedBy) := by
  refine (ensure _ _).bind fun _ ↦ (ensure _ _).bind fun _ ↦ ?_
  refine (select _ _).bind fun _ ↦ (getSome _ _).bind fun _ ↦ ?_
  refine (select _ _).bind fun _ ↦ (ofExcept _).bind fun _ ↦ ?_
  refine (ask _).bind fun _ ↦ (returned _).bind fun _ ↦ ?_
  refine (of_writeless (Export.writeless_writeFiles _ _ _)).bind fun _ ↦ ?_
  refine (select _ _).bind fun _ ↦ (getSome _ _).bind fun _ ↦ ?_
  refine (select _ _).bind fun _ ↦ (ask _).bind fun _ ↦ (ofExcept _).bind fun _ ↦ ?_
  refine (of_writeless (Export.writeless_storeFiles _ _ _)).bind fun _ ↦ ?_
  exact (ofExcept _).bind fun _ ↦ (emit rfl).bind fun _ ↦ recording _ _ _ _ _ (.pure _)

theorem audited_getOr404 (model id : String) (t : TableName) (find : Db → Option α) :
    Audited env (Api.getOr404 model id t find) :=
  (select _ _).bind fun _ ↦ getSome _ _

theorem audited_checkLinked {get : String → Tx α} (hget : ∀ id, Audited env (get id))
    (id : Option String) : Audited env (Api.checkLinked get id) := by
  unfold Api.checkLinked
  split
  · exact (hget _).bind fun _ ↦ .pure _
  · exact .pure _

theorem audited_issueKey (user : User) : Audited env (Auth.issueKey env user) :=
  (ask _).bind fun _ ↦ (ask _).bind fun _ ↦ (emit rfl).bind fun _ ↦ .pure _

theorem audited_emitAll_map {γ : Type} (xs : List γ) {write : γ → Write}
    (hw : ∀ x, (write x).auditEvent? = none) :
    Audited env (Prog.emitAll (xs.map write) : Tx Unit) := by
  refine emitAll ?_
  intro u hu
  obtain ⟨x, _, rfl⟩ := List.mem_map.mp hu
  exact hw x

theorem audited_handle (actor : Auth.Actor) (request : Api.Request) :
    Audited env (Api.handle env actor request) := by
  cases request with
  | bootstrap name email =>
      exact (select _ _).bind fun _ ↦ (ensure _ _).bind fun _ ↦ (ask _).bind fun _ ↦
        (emit rfl).bind fun _ ↦ (audited_issueKey _).bind fun _ ↦ recording _ _ _ _ _ (.pure _)
  | createUser body =>
      refine (select _ _).bind fun _ ↦ (scalarOneOrNone _).bind fun _ ↦ (ensure _ _).bind fun _ ↦ ?_
      refine (ensure _ _).bind fun _ ↦ (ensure _ _).bind fun _ ↦ ?_
      refine (audited_checkLinked (fun _ ↦ audited_getOr404 _ _ _ _) _).bind fun _ ↦ ?_
      refine (audited_checkLinked (fun _ ↦ audited_getOr404 _ _ _ _) _).bind fun _ ↦ ?_
      exact (ask _).bind fun _ ↦ (emit rfl).bind fun _ ↦ (audited_issueKey _).bind fun _ ↦
        recording _ _ _ _ _ (.pure _)
  | revokeUser userId =>
      refine (audited_getOr404 _ _ _ _).bind fun _ ↦ (emit rfl).bind fun _ ↦ ?_
      exact (select _ _).bind fun keys ↦ (audited_emitAll_map keys fun _ ↦ rfl).bind fun _ ↦
        recording _ _ _ _ _ (.pure _)
  | createFirm body =>
      refine (select _ _).bind fun _ ↦ (scalarOneOrNone _).bind fun _ ↦ (ensure _ _).bind fun _ ↦ ?_
      exact (ask _).bind fun _ ↦ (emit rfl).bind fun _ ↦ recording _ _ _ _ _ (.pure _)
  | createRateCard firmId body =>
      refine (audited_getOr404 _ _ _ _).bind fun _ ↦ (select _ _).bind fun old ↦ ?_
      exact (audited_emitAll_map old fun _ ↦ rfl).bind fun _ ↦ (ask _).bind fun _ ↦
        (ask _).bind fun _ ↦ (emit rfl).bind fun _ ↦ recording _ _ _ _ _ (.pure _)
  | createExpert body =>
      refine (select _ _).bind fun _ ↦ (scalarOneOrNone _).bind fun _ ↦ (ensure _ _).bind fun _ ↦ ?_
      exact (ask _).bind fun _ ↦ (emit rfl).bind fun _ ↦ recording _ _ _ _ _ (.pure _)
  | recordExam expertId body =>
      exact (audited_getOr404 _ _ _ _).bind fun _ ↦ (ask _).bind fun _ ↦ (emit rfl).bind fun _ ↦
        (writeIf _ rfl).bind fun _ ↦ recording _ _ _ _ _ (.pure _)
  | createProject body =>
      exact (audited_getOr404 _ _ _ _).bind fun _ ↦ (ensure _ _).bind fun _ ↦
        (ask _).bind fun _ ↦ (emit rfl).bind fun _ ↦ recording _ _ _ _ _ (.pure _)
  | createTask projectId body =>
      exact (audited_getOr404 _ _ _ _).bind fun _ ↦ (ensure _ _).bind fun _ ↦
        (ask _).bind fun _ ↦ (ask _).bind fun _ ↦ (emit rfl).bind fun _ ↦
          recording _ _ _ _ _ (.pure _)
  | assignTask taskId expertId =>
      refine (audited_getOr404 _ _ _ _).bind fun _ ↦ (audited_getOr404 _ _ _ _).bind fun _ ↦ ?_
      refine (select _ _).bind fun _ ↦ (getSome _ _).bind fun _ ↦ ?_
      exact ((audited_assertQualified _ _).mapErr _).bind fun _ ↦ (emit rfl).bind fun _ ↦
        (emit rfl).bind fun _ ↦ recording _ _ _ _ _ (.pure _)
  | createSubmission taskId expertId content =>
      refine (ensure _ _).bind fun _ ↦ (audited_getOr404 _ _ _ _).bind fun _ ↦ ?_
      exact (audited_getOr404 _ _ _ _).bind fun _ ↦ ((audited_submit _ _ _).mapErr _).bind fun _ ↦
        (select _ _).bind fun _ ↦ .pure _
  | postHumanReview submissionId body =>
      refine (ensure _ _).bind fun _ ↦ (audited_getOr404 _ _ _ _).bind fun _ ↦ ?_
      exact (audited_getOr404 _ _ _ _).bind fun _ ↦
        ((audited_humanReview _ _ _ _ _).mapErr _).bind fun _ ↦ .pure _
  | generateInvoice firmId periodStart periodEnd =>
      exact (audited_getOr404 _ _ _ _).bind fun _ ↦
        ((audited_generateInvoice _ _ _ _).mapErr _).bind fun _ ↦ .pure _
  | createInvoiceCheckout invoiceId successUrl cancelUrl =>
      refine (audited_getOr404 _ _ _ _).bind fun _ ↦ (ensure _ _).bind fun _ ↦ ?_
      exact (audited_getOr404 _ _ _ _).bind fun _ ↦
        ((audited_createCheckout _ _ _ _ _).mapErr _).bind fun _ ↦ .pure _
  | recordExternalPayment invoiceId reference =>
      exact (audited_getOr404 _ _ _ _).bind fun _ ↦
        ((audited_recordExternalPayment _ _ _).mapErr _).bind fun _ ↦ .pure _
  | stripeWebhook payload signature =>
      exact (ofExcept _).bind fun _ ↦ audited_handleStripeEvent _
  | requestExport projectId =>
      exact (audited_getOr404 _ _ _ _).bind fun _ ↦
        ((audited_requestExport _ _).mapErr _).bind fun _ ↦ .pure _
  | approveExport batchId approvedBy =>
      exact (audited_getOr404 _ _ _ _).bind fun _ ↦
        ((audited_approveAndMaterialize _ _).mapErr _).bind fun _ ↦ .pure _

theorem audited_serve (http : Api.Http) : Audited env (Api.serve env http) := by
  unfold Api.serve
  split
  · exact (of_writeless (Auth.writeless_currentActor env _ _ _)).bind fun actor ↦
      audited_handle actor _
  · exact audited_handle _ _

end Audit

end HumanDataFactory
