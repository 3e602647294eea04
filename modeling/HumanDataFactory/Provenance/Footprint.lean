import HumanDataFactory.Provenance.Runs
import HumanDataFactory.Qc.Scale

/-!
# What a request can change

The tables an endpoint inserts into and those whose rows it updates, and that
it keeps to them whatever it reads and whatever the outside answers.  What none
of the requests at work is meant to change stays as it is in every
interleaving.
-/

namespace HumanDataFactory

open Transact

/-- A new row in a table, or new values in the columns of its rows. -/
inductive Change
  | insert (t : TableName)
  | update (t : TableName)
  deriving DecidableEq, Repr

def Write.change : Write → Change
  | .insertFirm _ => .insert .firms
  | .setStripeCustomerId .. => .update .firms
  | .insertUser _ => .insert .users
  | .deactivateUser _ => .update .users
  | .insertApiKey _ => .insert .apiKeys
  | .deactivateApiKey _ => .update .apiKeys
  | .insertExpert _ => .insert .experts
  | .setExpertStatus .. => .update .experts
  | .setQualityScore .. => .update .experts
  | .setApprovedCount .. => .update .experts
  | .setGoldPassCount .. => .update .experts
  | .setGoldFailCount .. => .update .experts
  | .insertQualification _ => .insert .qualifications
  | .insertProject _ => .insert .projects
  | .insertTask _ => .insert .tasks
  | .setAssignedTo .. => .update .tasks
  | .setTaskStatus .. => .update .tasks
  | .insertSubmission _ => .insert .submissions
  | .setSubmissionStatus .. => .update .submissions
  | .setSampledForHumanReview .. => .update .submissions
  | .insertReview _ => .insert .reviews
  | .insertAuditEvent _ => .insert .auditEvents
  | .insertRateCard _ => .insert .rateCards
  | .deactivateRateCard _ => .update .rateCards
  | .insertUsageEvent _ => .insert .usageEvents
  | .setInvoiceId .. => .update .usageEvents
  | .insertInvoice _ => .insert .invoices
  | .setStripeInvoice .. => .update .invoices
  | .setInvoiceStatus .. => .update .invoices
  | .setIssuedAt .. => .update .invoices
  | .setPaidAt .. => .update .invoices
  | .setExternalPaidReference .. => .update .invoices
  | .setCheckoutSessionId .. => .update .invoices
  | .insertExportBatch _ => .insert .exportBatches
  | .releaseBatch .. => .update .exportBatches

namespace Provenance

variable {env : Env} {cs : List Change}

/-! ## Programs with a footprint -/

/-- The program makes these changes only. -/
def Within (cs : List Change) {α : Type} (p : Tx α) : Prop :=
  p.WritesIn fun u ↦ u.change ∈ cs

namespace Within

variable {α β : Type} {p : Tx α}

theorem bind {f : α → Tx β} (hp : Within cs p) (hf : ∀ a, Within cs (f a)) :
    Within cs (p >>= f) :=
  Prog.WritesIn.bind hp hf

theorem pure (a : α) : Within cs (.pure a) :=
  Prog.WritesIn.pure a

theorem of_writeless (hp : p.Writeless) : Within cs p :=
  hp.writesIn

theorem mono {ds : List Change} (h : cs ⊆ ds) (hp : Within cs p) : Within ds p :=
  Prog.WritesIn.mono (fun _ hu ↦ h hu) hp

theorem mapErr {g : PyError → PyError} (hp : Within cs p) : Within cs (p.mapErr g) :=
  Prog.WritesIn.mapErr hp

theorem select (q : Query) (f : Db → α) : Within cs (Session.select q f) :=
  of_writeless (.select q f)

theorem ask (c : Call) : Within cs (Prog.ask c : Tx (Reply c)) :=
  of_writeless (.ask c)

theorem getSome (e : PyError) (a : Option α) : Within cs (Prog.getSome e a : Tx α) :=
  of_writeless (.getSome e a)

theorem ofExcept (x : Except PyError α) : Within cs (Prog.ofExcept x : Tx α) :=
  of_writeless (.ofExcept x)

theorem ensure (c : Prop) [Decidable c] (e : PyError) : Within cs (Prog.ensure c e : Tx Unit) :=
  of_writeless (.ensure c e)

theorem scalarOneOrNone (rows : List α) : Within cs (Session.scalarOneOrNone rows) :=
  of_writeless (Session.writeless_scalarOneOrNone rows)

/-- Whether a write is one of the changes is computed. -/
theorem emit {u : Write} (hu : cs.contains u.change = true) : Within cs (Session.write u) :=
  Prog.WritesIn.emit (List.contains_iff_mem.mp hu)

theorem emitAll {γ : Type} (xs : List γ) {write : γ → Write}
    (hw : ∀ x, cs.contains (write x).change = true) :
    Within cs (Prog.emitAll (xs.map write) : Tx Unit) := by
  apply Prog.WritesIn.emitAll
  intro u hu
  obtain ⟨x, _, rfl⟩ := List.mem_map.mp hu
  exact List.contains_iff_mem.mp (hw x)

theorem writeIf (c : Prop) [Decidable c] {u : Write} (hu : cs.contains u.change = true) :
    Within cs (Session.writeIf c u) := by
  unfold Session.writeIf
  split
  · exact emit hu
  · exact pure ()

theorem record (hcs : cs.contains (.insert .auditEvents) = true)
    (actor action entityType entityId : String) (payload : Json) :
    Within cs (Audit.record env actor action entityType entityId payload) := by
  apply Audit.record_writesIn
  exact fun _ ↦ List.contains_iff_mem.mp hcs

/-- A program that ends by recording an event. -/
theorem recording (hcs : cs.contains (.insert .auditEvents) = true)
    (actor action entityType entityId : String) (payload : Json) (a : α) :
    Within cs (Audit.record env actor action entityType entityId payload >>= fun _ ↦ .pure a) :=
  (record hcs _ _ _ _ _).bind fun _ ↦ pure a

end Within

open Within

/-! ## The endpoints -/

/-- What follows from a judgement. -/
def marking : List Change :=
  [.update .submissions, .update .tasks, .update .experts, .insert .usageEvents,
    .insert .auditEvents]

/-- What judging a submission changes. -/
def judging : List Change :=
  .insert .reviews :: marking

/-- What settling an invoice changes. -/
def settling : List Change :=
  [.update .invoices, .insert .auditEvents]

/-- What issuing an invoice changes. -/
def issuing : List Change :=
  [.update .invoices, .update .usageEvents, .update .firms, .insert .auditEvents]

/-- What a request is meant to change, but for the time a key was last used,
which every authenticated request sets and no row of the model has. -/
def footprint : Api.Request → List Change
  | .bootstrap .. => [.insert .users, .insert .apiKeys, .insert .auditEvents]
  | .createUser _ => [.insert .users, .insert .apiKeys, .insert .auditEvents]
  | .revokeUser _ => [.update .users, .update .apiKeys, .insert .auditEvents]
  | .createFirm _ => [.insert .firms, .insert .auditEvents]
  | .createRateCard .. => [.update .rateCards, .insert .rateCards, .insert .auditEvents]
  | .createExpert _ => [.insert .experts, .insert .auditEvents]
  | .recordExam .. => [.insert .qualifications, .update .experts, .insert .auditEvents]
  | .createProject _ => [.insert .projects, .insert .auditEvents]
  | .createTask .. => [.insert .tasks, .insert .auditEvents]
  | .assignTask .. => [.update .tasks, .insert .auditEvents]
  | .createSubmission .. => .insert .submissions :: judging
  | .postHumanReview .. => judging
  | .generateInvoice .. => .insert .invoices :: issuing
  | .createInvoiceCheckout .. => settling
  | .recordExternalPayment .. => settling
  | .stripeWebhook .. => settling
  | .requestExport _ => [.insert .exportBatches, .insert .auditEvents]
  | .approveExport .. => [.update .exportBatches, .insert .auditEvents]

theorem within_maybeSuspend (expert : Expert) : Within marking (Controls.maybeSuspend expert) := by
  unfold Controls.maybeSuspend
  split
  · exact (emit rfl).bind fun _ ↦ pure _
  · exact pure _

theorem within_updateQualityScore (expert : Expert) (score : PyFloat) :
    Within marking (Controls.updateQualityScore expert score) :=
  (emit rfl).bind fun _ ↦ within_maybeSuspend _

theorem within_registerGoldResult (expert : Expert) (passed : Bool) :
    Within marking (Controls.registerGoldResult expert passed) := by
  cases passed with
  | true => exact (emit rfl).bind fun _ ↦ within_maybeSuspend _
  | false => exact (emit rfl).bind fun _ ↦ (emit rfl).bind fun _ ↦ within_maybeSuspend _

theorem within_recordApprovedRecord (project : Project) (task : Task) (sub : Submission) :
    Within marking (Billing.recordApprovedRecord env project task sub) :=
  Billing.recordApprovedRecord_writesIn env (fun _ ↦ by simp [marking, Write.change])
    (fun _ ↦ by simp [marking, Write.change]) _ _ _

theorem within_failAutoCheck (sub : Submission) (validation : ValidationResult) :
    Within marking (Engine.failAutoCheck env sub validation) :=
  (emit rfl).bind fun _ ↦ recording rfl _ _ _ _ _ _

theorem within_holdBack (sub : Submission) (result : AutoReviewer.AutoReview) (sampled : Bool)
    (status : SubmissionStatus) : Within marking (Engine.holdBack env sub result sampled status) :=
  (emit rfl).bind fun _ ↦ recording rfl _ _ _ _ _ _

theorem within_autoApprove (sub : Submission) (task : Task) (project : Project) (expert : Expert)
    (result : AutoReviewer.AutoReview) (sampled : Bool) :
    Within marking (Engine.autoApprove env sub task project expert result sampled) := by
  refine (emit rfl).bind fun _ ↦ (emit rfl).bind fun _ ↦ (emit rfl).bind fun _ ↦ ?_
  exact (within_updateQualityScore _ _).bind fun _ ↦
    (within_recordApprovedRecord _ _ _).bind fun _ ↦ recording rfl _ _ _ _ _ _

theorem within_applyVerdict (sub : Submission) (task : Task) (project : Project)
    (author : Option Expert) (overall : Option PyFloat) (verdict : Verdict) :
    Within marking (Engine.applyVerdict env sub task project author overall verdict) := by
  cases verdict with
  | pass =>
      refine (emit rfl).bind fun _ ↦ (emit rfl).bind fun _ ↦ (getSome _ _).bind fun _ ↦ ?_
      exact (emit rfl).bind fun _ ↦ (within_updateQualityScore _ _).bind fun _ ↦
        (within_recordApprovedRecord _ _ _).bind fun _ ↦ pure _
  | revise => exact (emit rfl).bind fun _ ↦ pure _
  | fail =>
      exact (emit rfl).bind fun _ ↦ (getSome _ _).bind fun _ ↦
        (within_updateQualityScore _ _).bind fun _ ↦ pure _

/-- What marks may be made in judging. -/
theorem Within.judged {α : Type} {p : Tx α} (h : Within marking p) : Within judging p :=
  h.mono (List.subset_cons_self _ _)

theorem within_addReview (submissionId : String) (kind : ReviewKind) (reviewerId : String)
    (verdict : Verdict) (overall : Option PyFloat) (detail : Json) :
    Within judging (Engine.addReview submissionId kind reviewerId verdict overall detail) :=
  (ask _).bind fun _ ↦ (ask _).bind fun _ ↦ (emit rfl).bind fun _ ↦ pure _

theorem within_autoReview (sub : Submission) (task : Task) (project : Project) (expert : Expert)
    (rubric : Rubric) (validation : ValidationResult) :
    Within judging (Engine.autoReview env sub task project expert rubric validation) := by
  refine (emit rfl).bind fun _ ↦ (of_writeless writeless_autoReviewer).bind fun result ↦ ?_
  refine (within_addReview _ _ _ _ _ _).bind fun _ ↦ (ofExcept _).bind fun critical ↦ ?_
  refine (ofExcept _).bind fun sampled ↦ (emit rfl).bind fun _ ↦ ?_
  split
  · exact (within_holdBack _ _ _ _).judged
  · split
    · exact (within_holdBack _ _ _ _).judged
    · exact (within_autoApprove _ _ _ _ _ _).judged

theorem within_process (sub : Submission) (task : Task) (project : Project) (expert : Expert) :
    Within judging (Engine.process env sub task project expert) := by
  refine (ofExcept _).bind fun _ ↦ (select _ _).bind fun _ ↦ (ofExcept _).bind fun _ ↦ ?_
  refine (within_addReview _ _ _ _ _ _).bind fun _ ↦ ?_
  split
  · exact (within_failAutoCheck _ _).judged
  · split
    · refine (ofExcept _).bind fun passed ↦ (within_registerGoldResult _ _).judged.bind fun _ ↦ ?_
      exact (within_addReview _ _ _ _ _ _).bind fun _ ↦ (emit rfl).bind fun _ ↦
        (emit rfl).bind fun _ ↦ recording rfl _ _ _ _ _ _
    · exact within_autoReview _ _ _ _ _ _

theorem within_submit (task : Task) (expert : Expert) (content : Json) :
    Within (.insert .submissions :: judging) (Engine.submit env task expert content) := by
  refine (select _ _).bind fun _ ↦ (getSome _ _).bind fun _ ↦ ?_
  refine (of_writeless (writeless_assertQualified _ _)).bind fun _ ↦ (ensure _ _).bind fun _ ↦ ?_
  refine (select _ _).bind fun _ ↦ (ask _).bind fun _ ↦ (ask _).bind fun _ ↦ ?_
  refine (emit rfl).bind fun _ ↦ (record rfl _ _ _ _ _).bind fun _ ↦ ?_
  exact ((within_process _ _ _ _).mono (List.subset_cons_self _ _)).bind fun _ ↦ pure _

theorem within_humanReview (sub : Submission) (reviewer : Expert) (verdict : Verdict)
    (scores : List Json) (comments : String) :
    Within judging (Engine.humanReview env sub reviewer verdict scores comments) := by
  refine (ensure _ _).bind fun _ ↦ Within.bind ?_ fun _ ↦ ?_
  · exact (ensure _ _).bind fun _ ↦ (ensure _ _).bind fun _ ↦ ensure _ _
  · refine (select _ _).bind fun _ ↦ (getSome _ _).bind fun _ ↦ ?_
    refine (select _ _).bind fun _ ↦ (getSome _ _).bind fun _ ↦ ?_
    refine (ofExcept _).bind fun _ ↦ (select _ _).bind fun _ ↦ (ofExcept _).bind fun _ ↦ ?_
    exact (within_addReview _ _ _ _ _ _).bind fun _ ↦
      (within_applyVerdict _ _ _ _ _ _).judged.bind fun _ ↦ recording rfl _ _ _ _ _ _

theorem within_issue (firm : Firm) (inv : Invoice) :
    Within issuing (Billing.issue env firm inv) := by
  unfold Billing.issue
  split
  · refine (of_writeless (StripeGateway.writeless_ensureCustomer env firm)).bind fun _ ↦ ?_
    refine (emit rfl).bind fun _ ↦ ?_
    refine (of_writeless (StripeGateway.writeless_pushInvoice env _ _)).bind fun _ ↦ ?_
    exact (emit rfl).bind fun _ ↦ (emit rfl).bind fun _ ↦ pure _
  · exact (emit rfl).bind fun _ ↦ pure _

theorem within_generateInvoice (firm : Firm) (periodStart periodEnd : Time) (issuedBy : String) :
    Within (.insert .invoices :: issuing)
      (Billing.generateInvoice env firm periodStart periodEnd issuedBy) := by
  refine (select _ _).bind fun events ↦ (ensure _ _).bind fun _ ↦ ?_
  refine (of_writeless (writeless_describeAll _ _)).bind fun lines ↦ (ask _).bind fun now ↦ ?_
  refine ((select _ _).bind fun _ ↦ pure _).bind fun number ↦ (ask _).bind fun id ↦ ?_
  refine (ask _).bind fun _ ↦ (emit rfl).bind fun _ ↦ (emitAll _ fun _ ↦ rfl).bind fun _ ↦ ?_
  refine ((within_issue _ _).mono (List.subset_cons_self _ _)).bind fun _ ↦ ?_
  exact (emit rfl).bind fun _ ↦ recording rfl _ _ _ _ _ _

theorem within_recordExternalPayment (inv : Invoice) (reference actor : String) :
    Within settling (Billing.recordExternalPayment env inv reference actor) :=
  (ensure _ _).bind fun _ ↦ (ensure _ _).bind fun _ ↦ (emit rfl).bind fun _ ↦
    (emit rfl).bind fun _ ↦ (ask _).bind fun _ ↦ (emit rfl).bind fun _ ↦
      recording rfl _ _ _ _ _ _

theorem within_createCheckout (inv : Invoice) (firm : Firm)
    (successUrl cancelUrl actor : String) :
    Within settling (Billing.createCheckout env inv firm successUrl cancelUrl actor) := by
  refine (ensure _ _).bind fun _ ↦ (ensure _ _).bind fun _ ↦ ?_
  refine (of_writeless (StripeGateway.writeless_createCheckoutSession env _ _ _ _)).bind
    fun _ ↦ ?_
  exact (emit rfl).bind fun _ ↦ recording rfl _ _ _ _ _ _

theorem within_completeCheckout (obj : Json) :
    Within settling (Billing.completeCheckout env obj) := by
  have hget (key : Json) : Within settling (Billing.getInvoiceOf key) := by
    unfold Billing.getInvoiceOf
    split
    · exact (ofExcept _).bind fun _ ↦ select _ _
    · exact pure _
  have hsession (key : Json) : Within settling (Billing.findBySession key) := by
    unfold Billing.findBySession
    split
    · exact (ofExcept _).bind fun _ ↦ (select _ _).bind fun _ ↦ scalarOneOrNone _
    · exact pure _
  refine Within.bind ?_ fun found ↦ ?_
  · refine (ofExcept _).bind fun _ ↦ (hget _).bind fun found ↦ ?_
    cases found with
    | some inv => exact pure _
    | none => exact (ofExcept _).bind fun _ ↦ hsession _
  · cases found with
    | none => exact pure _
    | some inv =>
        dsimp only
        split
        · exact pure _
        · exact (emit rfl).bind fun _ ↦ (ask _).bind fun _ ↦ (emit rfl).bind fun _ ↦
            (writeIf _ rfl).bind fun _ ↦ recording rfl _ _ _ _ _ _

theorem within_settle (inv : Invoice) (etype stripeId : String) (status : InvoiceStatus) :
    Within settling (Billing.settle env inv etype stripeId status) := by
  refine (emit rfl).bind fun _ ↦ Within.bind ?_ fun _ ↦ recording rfl _ _ _ _ _ _
  cases status with
  | paid => exact (ask _).bind fun _ ↦ emit rfl
  | _ => exact pure _

theorem within_handleStripeEvent (event : Json) :
    Within settling (Billing.handleStripeEvent env event) := by
  have happly (etype : String) (key : Json) :
      Within settling (Billing.applyInvoiceEvent env etype key) := by
    refine (ofExcept _).bind fun _ ↦ (select _ _).bind fun _ ↦ ?_
    refine (scalarOneOrNone _).bind fun found ↦ ?_
    cases found with
    | none => exact pure _
    | some inv =>
        dsimp only
        split
        · exact within_settle _ _ _ _
        · exact pure _
  refine (ofExcept _).bind fun etype ↦ (ofExcept _).bind fun obj ↦ ?_
  split
  · exact within_completeCheckout _
  · refine (ofExcept _).bind fun key ↦ ?_
    split
    · split
      · split
        · exact happly _ _
        · exact pure _
      · exact of_writeless (.raise _)
    · exact pure _

theorem within_approveAndMaterialize {batchId claimed : String} (batch : ExportBatch)
    (approvedBy : String) :
    Within (footprint (.approveExport batchId claimed))
      (Export.approveAndMaterialize env batch approvedBy) := by
  refine (ensure _ _).bind fun _ ↦ (ensure _ _).bind fun _ ↦ ?_
  refine (select _ _).bind fun _ ↦ (getSome _ _).bind fun _ ↦ ?_
  refine (select _ _).bind fun _ ↦ (ofExcept _).bind fun _ ↦ ?_
  refine (ask _).bind fun _ ↦ (getSome _ _).bind fun _ ↦ ?_
  refine (of_writeless (Export.writeless_writeFiles _ _ _)).bind fun _ ↦ ?_
  refine (select _ _).bind fun _ ↦ (getSome _ _).bind fun _ ↦ ?_
  refine (select _ _).bind fun _ ↦ (ask _).bind fun _ ↦ (ofExcept _).bind fun _ ↦ ?_
  refine (of_writeless (Export.writeless_storeFiles _ _ _)).bind fun _ ↦ ?_
  exact (ofExcept _).bind fun _ ↦ (emit rfl).bind fun _ ↦ recording rfl _ _ _ _ _ _

theorem within_getOr404 {α : Type} (model id : String) (t : TableName) (find : Db → Option α) :
    Within cs (Api.getOr404 model id t find) :=
  (select _ _).bind fun _ ↦ getSome _ _

theorem within_checkLinked {α : Type} {get : String → Tx α} (hget : ∀ id, Within cs (get id))
    (id : Option String) : Within cs (Api.checkLinked get id) := by
  unfold Api.checkLinked
  split
  · exact (hget _).bind fun _ ↦ pure _
  · exact pure _

theorem within_issueKey (hcs : cs.contains (.insert .apiKeys) = true) (user : User) :
    Within cs (Auth.issueKey env user) :=
  (ask _).bind fun _ ↦ (ask _).bind fun _ ↦ (emit hcs).bind fun _ ↦ pure _

theorem within_handle (actor : Auth.Actor) (request : Api.Request) :
    Within (footprint request) (Api.handle env actor request) := by
  cases request with
  | bootstrap name email =>
      refine (select _ _).bind fun _ ↦ (ensure _ _).bind fun _ ↦ (ask _).bind fun _ ↦ ?_
      exact (emit rfl).bind fun _ ↦ (within_issueKey rfl _).bind fun _ ↦
        recording rfl _ _ _ _ _ _
  | createUser body =>
      refine (select _ _).bind fun _ ↦ (scalarOneOrNone _).bind fun _ ↦ (ensure _ _).bind fun _ ↦ ?_
      refine (ensure _ _).bind fun _ ↦ (ensure _ _).bind fun _ ↦ ?_
      refine (within_checkLinked (fun _ ↦ within_getOr404 _ _ _ _) _).bind fun _ ↦ ?_
      refine (within_checkLinked (fun _ ↦ within_getOr404 _ _ _ _) _).bind fun _ ↦ ?_
      exact (ask _).bind fun _ ↦ (emit rfl).bind fun _ ↦ (within_issueKey rfl _).bind fun _ ↦
        recording rfl _ _ _ _ _ _
  | revokeUser userId =>
      refine (within_getOr404 _ _ _ _).bind fun _ ↦ (emit rfl).bind fun _ ↦ ?_
      exact (select _ _).bind fun keys ↦ (emitAll keys fun _ ↦ rfl).bind fun _ ↦
        recording rfl _ _ _ _ _ _
  | createFirm body =>
      refine (select _ _).bind fun _ ↦ (scalarOneOrNone _).bind fun _ ↦ (ensure _ _).bind fun _ ↦ ?_
      exact (ask _).bind fun _ ↦ (emit rfl).bind fun _ ↦ recording rfl _ _ _ _ _ _
  | createRateCard firmId body =>
      refine (within_getOr404 _ _ _ _).bind fun _ ↦ (select _ _).bind fun old ↦ ?_
      exact (emitAll old fun _ ↦ rfl).bind fun _ ↦ (ask _).bind fun _ ↦
        (ask _).bind fun _ ↦ (emit rfl).bind fun _ ↦ recording rfl _ _ _ _ _ _
  | createExpert body =>
      refine (select _ _).bind fun _ ↦ (scalarOneOrNone _).bind fun _ ↦ (ensure _ _).bind fun _ ↦ ?_
      exact (ask _).bind fun _ ↦ (emit rfl).bind fun _ ↦ recording rfl _ _ _ _ _ _
  | recordExam expertId body =>
      exact (within_getOr404 _ _ _ _).bind fun _ ↦ (ask _).bind fun _ ↦ (emit rfl).bind fun _ ↦
        (writeIf _ rfl).bind fun _ ↦ recording rfl _ _ _ _ _ _
  | createProject body =>
      exact (within_getOr404 _ _ _ _).bind fun _ ↦ (ensure _ _).bind fun _ ↦
        (ask _).bind fun _ ↦ (emit rfl).bind fun _ ↦ recording rfl _ _ _ _ _ _
  | createTask projectId body =>
      exact (within_getOr404 _ _ _ _).bind fun _ ↦ (ensure _ _).bind fun _ ↦
        (ask _).bind fun _ ↦ (ask _).bind fun _ ↦ (emit rfl).bind fun _ ↦
          recording rfl _ _ _ _ _ _
  | assignTask taskId expertId =>
      refine (within_getOr404 _ _ _ _).bind fun _ ↦ (within_getOr404 _ _ _ _).bind fun _ ↦ ?_
      refine (select _ _).bind fun _ ↦ (getSome _ _).bind fun _ ↦ ?_
      refine (of_writeless (writeless_assertQualified _ _)).mapErr.bind fun _ ↦ ?_
      exact (emit rfl).bind fun _ ↦ (emit rfl).bind fun _ ↦ recording rfl _ _ _ _ _ _
  | createSubmission taskId expertId content =>
      refine (ensure _ _).bind fun _ ↦ (within_getOr404 _ _ _ _).bind fun _ ↦ ?_
      exact (within_getOr404 _ _ _ _).bind fun _ ↦ (within_submit _ _ _).mapErr.bind fun _ ↦
        (select _ _).bind fun _ ↦ pure _
  | postHumanReview submissionId body =>
      refine (ensure _ _).bind fun _ ↦ (within_getOr404 _ _ _ _).bind fun _ ↦ ?_
      exact (within_getOr404 _ _ _ _).bind fun _ ↦
        (within_humanReview _ _ _ _ _).mapErr.bind fun _ ↦ pure _
  | generateInvoice firmId periodStart periodEnd =>
      exact (within_getOr404 _ _ _ _).bind fun _ ↦
        (within_generateInvoice _ _ _ _).mapErr.bind fun _ ↦ pure _
  | createInvoiceCheckout invoiceId successUrl cancelUrl =>
      refine (within_getOr404 _ _ _ _).bind fun _ ↦ (ensure _ _).bind fun _ ↦ ?_
      exact (within_getOr404 _ _ _ _).bind fun _ ↦
        (within_createCheckout _ _ _ _ _).mapErr.bind fun _ ↦ pure _
  | recordExternalPayment invoiceId reference =>
      exact (within_getOr404 _ _ _ _).bind fun _ ↦
        (within_recordExternalPayment _ _ _).mapErr.bind fun _ ↦ pure _
  | stripeWebhook payload signature =>
      exact (ofExcept _).bind fun _ ↦ within_handleStripeEvent _
  | requestExport projectId =>
      refine (within_getOr404 _ _ _ _).bind fun _ ↦ Within.bind (Within.mapErr ?_) fun _ ↦ pure _
      exact (of_writeless (writeless_controlReport _)).bind fun _ ↦ (ensure _ _).bind fun _ ↦
        (ask _).bind fun _ ↦ (emit rfl).bind fun _ ↦ recording rfl _ _ _ _ _ _
  | approveExport batchId approvedBy =>
      exact (within_getOr404 _ _ _ _).bind fun _ ↦
        (within_approveAndMaterialize _ _).mapErr.bind fun _ ↦ pure _

/-- A request keeps to its footprint. -/
theorem within_serve (http : Api.Http) :
    Within (footprint http.request) (Api.serve env http) := by
  unfold Api.serve
  split
  · exact (of_writeless (Auth.writeless_currentActor env _ _ _)).bind fun actor ↦
      within_handle actor _
  · exact within_handle _ _

/-! ## What is left alone -/

/-- The table a row lies in. -/
def tableOf : Row → TableName
  | .firm _ => .firms
  | .user _ => .users
  | .apiKey _ => .apiKeys
  | .expert _ => .experts
  | .qualification _ => .qualifications
  | .project _ => .projects
  | .task _ => .tasks
  | .submission _ => .submissions
  | .review _ => .reviews
  | .auditEvent _ => .auditEvents
  | .rateCard _ => .rateCards
  | .usageEvent _ => .usageEvents
  | .invoice _ => .invoices
  | .exportBatch _ => .exportBatches

theorem touch_of_ne {u : Write} {x : Row} (h : u.change ≠ .update (tableOf x)) :
    u.touch x = x := by
  cases u <;> cases x <;> first
    | rfl
    | exact absurd rfl h

theorem change_of_adds {u : Write} {y : Row} (h : u.adds = some y) :
    u.change = .insert (tableOf y) := by
  cases u <;> cases h <;> rfl

theorem tableOf_eq {x y : Row} (h : x.Becomes y) : tableOf x = tableOf y := by
  cases h <;> rfl

section Interleaved

variable {ι : Type} [DecidableEq ι] {http : ι → Api.Http} {s : Db} {w : ℕ}
  {S : Sys ι Db Write Query Call Reply ℕ PyError Json}

/-- The frame rule, for what the requests at work may change. -/
theorem inv_of_interleaves {I : Db → Prop}
    (hkeep : ∀ u s s', (∃ i, u.change ∈ footprint (http i).request) → I s →
      Db.apply u s = some s' → I s') (hI : I s)
    (h : machine.Interleaves (.init s w fun i ↦ Api.serve env (http i)) S) : I S.store :=
  Contract.inv_of_writesIn hkeep
    (fun i ↦ Prog.WritesIn.mono (fun _ hu ↦ ⟨i, hu⟩) (within_serve (http i))) hI h

/-- What a family of requests leaves alone, keys apart: the rows of a table that
none of them updates stay as they are, and where none of them inserts every row
goes back to one that was there before. -/
theorem footprints_hold (h : machine.Interleaves (.init s w fun i ↦ Api.serve env (http i)) S)
    (t : TableName) : t ≠ .apiKeys →
    ((∀ i, .update t ∉ footprint (http i).request) →
      ∀ x, tableOf x = t → s.Has x → S.store.Has x) ∧
    ((∀ i, .insert t ∉ footprint (http i).request) →
      ∀ y, tableOf y = t → S.store.Has y → ∃ x, s.Has x ∧ x.Becomes y) := by
  intro _
  constructor
  · intro hupdate
    refine inv_of_interleaves (I := fun s' ↦ ∀ x, tableOf x = t → s.Has x → s'.Has x) ?_ ?_ h
    · rintro u s₁ s₂ ⟨i, hu⟩ hI happ x rfl hx
      have htouch := Db.has_touch happ (hI x rfl hx)
      rwa [touch_of_ne fun hchange ↦ hupdate i (hchange ▸ hu)] at htouch
    · exact fun x _ hx ↦ hx
  · intro hinsert
    refine inv_of_interleaves
      (I := fun s' ↦ ∀ y, tableOf y = t → s'.Has y → ∃ x, s.Has x ∧ x.Becomes y) ?_ ?_ h
    · rintro u s₁ s₂ ⟨i, hu⟩ hI happ y rfl hy
      rcases Db.has_cases happ hy with ⟨z, hz, rfl⟩ | hadds
      · obtain ⟨x, hx, hxz⟩ := hI z (tableOf_eq (.self_touch u z)) hz
        exact ⟨x, hx, hxz.trans (.self_touch u z)⟩
      · exact absurd (change_of_adds hadds ▸ hu) (hinsert i)
    · exact fun y _ hy ↦ ⟨y, hy, .refl y⟩

end Interleaved

/-- Two verdicts at once leave the projects as they are. -/
theorem footprints_hold_staleVerdict :
    ∃ S, machine.play Development.answers HumanReview.staleVerdict 100 HumanReview.reviewing =
      some S ∧ HumanReview.waitingStore.projects.rows ≠ [] ∧
        ∀ p, p ∈ HumanReview.waitingStore.projects → p ∈ S.store.projects := by
  have hplay : (machine.play Development.answers HumanReview.staleVerdict 100
      HumanReview.reviewing).isSome = true := by decide +kernel
  obtain ⟨S, hS⟩ := Option.isSome_iff_exists.mp hplay
  have hsteps : machine.Interleaves (.init HumanReview.waitingStore _ fun i ↦
      Api.serve Development.env (HumanReview.verdicts i).http) S := Machine.interleaves_of_play hS
  have hkept := (footprints_hold hsteps .projects (by decide)).1 (by decide)
  exact ⟨S, hS, by decide +kernel, fun p hp ↦ hkept (.project p) rfl hp⟩

end Provenance

end HumanDataFactory
