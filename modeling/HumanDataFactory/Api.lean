import HumanDataFactory.Auth
import HumanDataFactory.Export
import HumanDataFactory.Qc.Engine

/-!
# The HTTP API

The mutating endpoints of `api/main.py`, each from its role guard to its
response.  A body that the framework would reject before the handler runs is
not a value of its type.
-/

namespace HumanDataFactory

open Transact

namespace Api

variable (env : Env)

/-! ## Request bodies -/

structure UserIn where
  name : String
  email : String
  role : Role
  firmId : Option String
  expertId : Option String

structure FirmIn where
  name : String
  billingEmail : String
  billingMode : BillingMode
  currency : String
  externalReference : String

structure RateCardIn where
  taskType : TaskType
  unitPriceCents : ℤ
  positive : 0 < unitPriceCents

structure ExpertIn where
  name : String
  email : String
  credentials : List String
  isReviewer : Bool

structure ExamIn where
  track : DomainTrack
  examScore : PyFloat
  inRange : PyFloat.le (.finite 0) examScore = true ∧ examScore.le (.finite 100) = true

structure ProjectIn where
  name : String
  firmId : String
  track : DomainTrack
  taskType : TaskType
  guidelines : String
  rubricId : Option String

structure TaskIn where
  prompt : String
  context : List (String × Json)
  isGold : Bool
  goldAnswer : Option (List (String × Json))

structure HumanReviewIn where
  reviewerId : String
  verdict : Verdict
  criterionScores : Option (List (List (String × Json)))
  comments : String

inductive Request
  | bootstrap (name email : String)
  | createUser (body : UserIn)
  | revokeUser (userId : String)
  | createFirm (body : FirmIn)
  | createRateCard (firmId : String) (body : RateCardIn)
  | createExpert (body : ExpertIn)
  | recordExam (expertId : String) (body : ExamIn)
  | createProject (body : ProjectIn)
  | createTask (projectId : String) (body : TaskIn)
  | assignTask (taskId expertId : String)
  | createSubmission (taskId expertId : String) (content : List (String × Json))
  | postHumanReview (submissionId : String) (body : HumanReviewIn)
  | generateInvoice (firmId : String) (periodStart periodEnd : Time)
  | createInvoiceCheckout (invoiceId successUrl cancelUrl : String)
  | recordExternalPayment (invoiceId reference : String)
  | stripeWebhook (payload : String) (signature : Option String)
  | requestExport (projectId : String)
  | approveExport (batchId approvedBy : String)

/-- A request with the two headers that identify its sender. -/
structure Http where
  authorization : Option String
  xActorId : Option String
  request : Request

/-! ## Guards -/

def internal : List Role := [.admin, .ops]

def adminOnly : List Role := [.admin]

def reviewRoles : List Role := [.admin, .ops, .reviewer]

def submitRoles : List Role := [.admin, .ops, .expert]

def anyAuthenticated : List Role := [.admin, .ops, .reviewer, .expert, .client]

/-- `_get_or_404`. -/
def getOr404 {α : Type} (model id : String) (t : TableName) (find : Db → Option α) : Tx α := do
  let found ← Session.select (.row t) find
  Prog.getSome (.http 404 s!"{model} {id} not found") found

def getFirm (id : String) : Tx Firm :=
  getOr404 "Firm" id .firms fun s ↦ s.firms.find? id

def getUser (id : String) : Tx User :=
  getOr404 "User" id .users fun s ↦ s.users.find? id

def getExpert (id : String) : Tx Expert :=
  getOr404 "Expert" id .experts fun s ↦ s.experts.find? id

def getProject (id : String) : Tx Project :=
  getOr404 "Project" id .projects fun s ↦ s.projects.find? id

def getTask (id : String) : Tx Task :=
  getOr404 "Task" id .tasks fun s ↦ s.tasks.find? id

def getSubmission (id : String) : Tx Submission :=
  getOr404 "Submission" id .submissions fun s ↦ s.submissions.find? id

def getInvoice (id : String) : Tx Invoice :=
  getOr404 "Invoice" id .invoices fun s ↦ s.invoices.find? id

def getExportBatch (id : String) : Tx ExportBatch :=
  getOr404 "ExportBatch" id .exportBatches fun s ↦ s.exportBatches.find? id

/-- `raise HTTPException(403, str(e))` around the engine. -/
def forbidden : PyError → PyError
  | .controlViolation control message => .http 403 s!"[{control}] {message}"
  | .pipelineError message => .http 403 message
  | e => e

/-- `raise HTTPException(403, str(e))` around the qualification gate alone. -/
def unqualified : PyError → PyError
  | .controlViolation control message => .http 403 s!"[{control}] {message}"
  | e => e

/-- `raise HTTPException(409, str(e))` around the billing service. -/
def billingConflict : PyError → PyError
  | .billingError message => .http 409 message
  | e => e

def exportConflict : PyError → PyError
  | .exportError message => .http 409 message
  | e => e

def releaseConflict : PyError → PyError
  | .exportError message => .http 409 message
  | .controlViolation control message => .http 409 s!"[{control}] {message}"
  | e => e

/-! ## Responses -/

def optStr : Option String → Json
  | some s => .str s
  | none => .null

def optTime : Option Time → Json
  | some t => .int t
  | none => .null

def keyOut (userId key : String) : Json :=
  .obj [("user_id", .str userId), ("api_key", .str key),
    ("note", .str "store this key now; it is not retrievable later")]

def firmOut (f : Firm) : Json :=
  .obj [("id", .str f.id), ("name", .str f.name), ("billing_email", .str f.billingEmail),
    ("billing_mode", .str f.billingMode.value), ("currency", .str f.currency),
    ("external_reference", .str f.externalReference),
    ("stripe_customer_id", optStr f.stripeCustomerId)]

def expertOut (e : Expert) : Json :=
  .obj [("id", .str e.id), ("name", .str e.name), ("email", .str e.email),
    ("credentials", Json.strs e.credentials), ("status", .str e.status.value),
    ("is_reviewer", .bool e.isReviewer), ("quality_score", .float e.qualityScore),
    ("approved_count", .int e.approvedCount), ("gold_pass_count", .int e.goldPassCount),
    ("gold_fail_count", .int e.goldFailCount),
    ("human_review_sampling_rate", .float (.finite (Controls.samplingRate e)))]

def reviewOut (r : Review) : Json :=
  .obj [("id", .str r.id), ("kind", .str r.kind.value), ("reviewer_id", .str r.reviewerId),
    ("verdict", .str r.verdict.value), ("overall_score", Engine.optionalScore r.overallScore),
    ("detail", r.detail)]

def submissionOut (sub : Submission) : Tx Json := do
  let reviews ← Session.select (.rows .reviews) fun s ↦
    env.orderBy Review.createdAt (s.reviews.rows.filter fun r ↦ r.submissionId = sub.id)
  return .obj [("id", .str sub.id), ("task_id", .str sub.taskId),
    ("expert_id", .str sub.expertId), ("version", .int sub.version),
    ("status", .str sub.status.value),
    ("sampled_for_human_review", .bool sub.sampledForHumanReview),
    ("reviews", .arr (reviews.map reviewOut))]

def lineOut (row : LineItem) : Json :=
  .obj [("project_id", .str row.projectId), ("kind", .str row.kind),
    ("unit_price_cents", .int row.unitPriceCents), ("quantity", .int row.quantity),
    ("amount_cents", .int row.amountCents), ("description", .str row.description)]

def invoiceOut (inv : Invoice) : Json :=
  .obj [("id", .str inv.id), ("number", .str inv.number), ("firm_id", .str inv.firmId),
    ("mode", .str inv.mode.value), ("status", .str inv.status.value),
    ("period_start", .int inv.periodStart), ("period_end", .int inv.periodEnd),
    ("subtotal_cents", .int inv.subtotalCents), ("currency", .str inv.currency),
    ("line_items", .arr (inv.lineItems.map lineOut)),
    ("stripe_invoice_id", optStr inv.stripeInvoiceId),
    ("hosted_invoice_url", optStr inv.hostedInvoiceUrl),
    ("external_paid_reference", optStr inv.externalPaidReference),
    ("issued_at", optTime inv.issuedAt), ("paid_at", optTime inv.paidAt)]

/-! ## Users and keys -/

def bootstrap (name email : String) : Tx Json := do
  let count ← Session.select (.rows .users) fun s ↦ s.users.rows.length
  Prog.ensure (count = 0) (.http 409 "already bootstrapped")
  let id ← Session.uuid4
  let user : User := ⟨id, name, email, .admin, none, none, true⟩
  Session.write (.insertUser user)
  let key ← Auth.issueKey env user
  let _ ← Audit.record env user.id "user.bootstrapped" "user" user.id
    (.obj [("email", .str email)])
  return keyOut user.id key

/-- `if id: _get_or_404(...)`. -/
def checkLinked {α : Type} (get : String → Tx α) (id : Option String) : Tx Unit :=
  match StripeGateway.truthyId id with
  | some id => do
      let _ ← get id
      return ()
  | none => return ()

def createUser (actor : Auth.Actor) (body : UserIn) : Tx Json := do
  let taken ← Session.select (.rows .users) fun s ↦
    s.users.rows.filter fun u ↦ u.email = body.email
  let other ← Session.scalarOneOrNone taken
  Prog.ensure (other.isNone = true) (.http 409 "email already registered")
  Prog.ensure (¬(body.role = .client ∧ StripeGateway.truthyId body.firmId = none))
    (.http 422 "client users must belong to a firm")
  Prog.ensure (¬((body.role = .reviewer ∨ body.role = .expert) ∧
      StripeGateway.truthyId body.expertId = none))
    (.http 422 s!"{body.role.value} users must link an expert record")
  checkLinked getFirm body.firmId
  checkLinked getExpert body.expertId
  let id ← Session.uuid4
  let user : User := ⟨id, body.name, body.email, body.role, body.firmId, body.expertId, true⟩
  Session.write (.insertUser user)
  let key ← Auth.issueKey env user
  let _ ← Audit.record env actor.id "user.created" "user" user.id
    (.obj [("email", .str body.email), ("role", .str body.role.value)])
  return keyOut user.id key

def revokeUser (actor : Auth.Actor) (userId : String) : Tx Json := do
  let user ← getUser userId
  Session.write (.deactivateUser user.id)
  let keys ← Session.select (.rows .apiKeys) fun s ↦
    s.apiKeys.rows.filter fun k ↦ k.userId = user.id
  Prog.emitAll (keys.map fun k ↦ .deactivateApiKey k.id)
  let _ ← Audit.record env actor.id "user.revoked" "user" user.id (.obj [])
  return .obj [("user_id", .str user.id), ("active", .bool false)]

def createFirm (actor : Auth.Actor) (body : FirmIn) : Tx Json := do
  let taken ← Session.select (.rows .firms) fun s ↦
    s.firms.rows.filter fun f ↦ f.name = body.name
  let other ← Session.scalarOneOrNone taken
  Prog.ensure (other.isNone = true) (.http 409 "firm name already exists")
  let id ← Session.uuid4
  let firm : Firm := ⟨id, body.name, body.billingEmail, body.billingMode, body.currency,
    body.externalReference, none⟩
  Session.write (.insertFirm firm)
  let _ ← Audit.record env actor.id "firm.created" "firm" firm.id
    (.obj [("name", .str body.name), ("billing_mode", .str body.billingMode.value)])
  return firmOut firm

def createRateCard (actor : Auth.Actor) (firmId : String) (body : RateCardIn) : Tx Json := do
  let firm ← getFirm firmId
  let old ← Session.select (.rows .rateCards) fun s ↦
    Billing.rateCardsFor s (some firm.id) body.taskType
  Prog.emitAll (old.map fun c ↦ .deactivateRateCard c.id)
  let id ← Session.uuid4
  let now ← Session.now
  let card : RateCard := ⟨id, some firm.id, body.taskType, body.unitPriceCents, true, now⟩
  Session.write (.insertRateCard card)
  let _ ← Audit.record env actor.id "rate_card.created" "rate_card" card.id
    (.obj [("firm_id", .str firm.id), ("task_type", .str body.taskType.value),
      ("unit_price_cents", .int body.unitPriceCents)])
  return .obj [("id", .str card.id), ("task_type", .str card.taskType.value),
    ("unit_price_cents", .int card.unitPriceCents)]

/-! ## Experts -/

def EXAM_PASS_SCORE : PyFloat := .finite 85

def newExpert (body : ExpertIn) (id : String) : Expert where
  id := id
  name := body.name
  email := body.email
  credentials := body.credentials
  status := .pending
  isReviewer := body.isReviewer
  qualityScore := .finite (7 / 2)
  approvedCount := 0
  goldPassCount := 0
  goldFailCount := 0

def createExpert (actor : Auth.Actor) (body : ExpertIn) : Tx Json := do
  let taken ← Session.select (.rows .experts) fun s ↦
    s.experts.rows.filter fun e ↦ e.email = body.email
  let other ← Session.scalarOneOrNone taken
  Prog.ensure (other.isNone = true) (.http 409 "email already registered")
  let id ← Session.uuid4
  let expert := newExpert body id
  Session.write (.insertExpert expert)
  let _ ← Audit.record env actor.id "expert.created" "expert" expert.id
    (.obj [("email", .str body.email)])
  return expertOut expert

def qualifies (expert : Expert) (passed : Bool) : Prop :=
  passed = true ∧ expert.status = .pending

instance (expert : Expert) (passed : Bool) : Decidable (qualifies expert passed) :=
  inferInstanceAs (Decidable (_ ∧ _))

def afterExam (passed : Bool) (expert : Expert) : Expert :=
  if qualifies expert passed then { expert with status := .qualified } else expert

def recordExam (actor : Auth.Actor) (expertId : String) (body : ExamIn) : Tx Json := do
  let expert ← getExpert expertId
  let passed := EXAM_PASS_SCORE.le body.examScore
  let id ← Session.uuid4
  Session.write (.insertQualification ⟨id, expert.id, body.track, body.examScore, passed⟩)
  Session.writeIf (qualifies expert passed) (.setExpertStatus expert.id .qualified)
  let _ ← Audit.record env actor.id "expert.exam_recorded" "expert" expert.id
    (.obj [("track", .str body.track.value), ("score", .float body.examScore),
      ("passed", .bool passed)])
  return .obj [("qualification_id", .str id), ("passed", .bool passed),
    ("expert_status", .str (afterExam passed expert).status.value)]

/-! ## Projects and tasks -/

def createProject (actor : Auth.Actor) (body : ProjectIn) : Tx Json := do
  let _ ← getFirm body.firmId
  let rubricId := (StripeGateway.truthyId body.rubricId).getD (defaultRubricFor body.taskType)
  Prog.ensure (rubricId ∈ Rubrics.all.map Rubric.id) (.http 422 s!"unknown rubric '{rubricId}'")
  let id ← Session.uuid4
  let project : Project := ⟨id, body.name, body.firmId, body.track, body.taskType,
    body.guidelines, rubricId, actor.id⟩
  Session.write (.insertProject project)
  let _ ← Audit.record env actor.id "project.created" "project" project.id
    (.obj [("name", .str body.name), ("firm_id", .str body.firmId)])
  return .obj [("id", .str project.id), ("rubric_id", .str rubricId)]

def newTask (project : Project) (body : TaskIn) (id : String) (now : Time) : Task where
  id := id
  projectId := project.id
  prompt := body.prompt
  context := .obj body.context
  isGold := body.isGold
  goldAnswer := body.goldAnswer.map Json.obj
  status := .open
  assignedTo := none
  createdAt := now

/-- `not body.gold_answer`. -/
def lacksGoldAnswer (body : TaskIn) : Bool :=
  (body.goldAnswer.getD []).isEmpty

def createTask (actor : Auth.Actor) (projectId : String) (body : TaskIn) : Tx Json := do
  let project ← getProject projectId
  Prog.ensure (¬(body.isGold = true ∧ lacksGoldAnswer body = true))
    (.http 422 "gold tasks require a gold_answer")
  let id ← Session.uuid4
  let now ← Session.now
  let task := newTask project body id now
  Session.write (.insertTask task)
  let _ ← Audit.record env actor.id "task.created" "task" task.id
    (.obj [("project_id", .str project.id), ("is_gold", .bool body.isGold)])
  return .obj [("id", .str task.id)]

def assignTask (actor : Auth.Actor) (taskId expertId : String) : Tx Json := do
  let task ← getTask taskId
  let expert ← getExpert expertId
  let found ← Session.select (.row .projects) fun s ↦ s.projects.find? task.projectId
  let project ← Prog.getSome .attributeError found
  (Controls.assertQualified expert project.track).mapErr unqualified
  Session.write (.setAssignedTo task.id (some expert.id))
  Session.write (.setTaskStatus task.id .assigned)
  let _ ← Audit.record env actor.id "task.assigned" "task" task.id
    (.obj [("expert_id", .str expert.id)])
  return .obj [("task_id", .str task.id), ("assigned_to", .str expert.id)]

def createSubmission (actor : Auth.Actor) (taskId expertId : String)
    (content : List (String × Json)) : Tx Json := do
  Prog.ensure (¬(actor.role = .expert ∧ some expertId ≠ actor.expertId))
    (.http 403 "experts may only submit as themselves")
  let task ← getTask taskId
  let expert ← getExpert expertId
  let sub ← (Engine.submit env task expert (.obj content)).mapErr forbidden
  submissionOut env sub

def postHumanReview (actor : Auth.Actor) (submissionId : String) (body : HumanReviewIn) :
    Tx Json := do
  Prog.ensure (¬(actor.role = .reviewer ∧ some body.reviewerId ≠ actor.expertId))
    (.http 403 "reviewers may only review as themselves")
  let sub ← getSubmission submissionId
  let reviewer ← getExpert body.reviewerId
  let scores := (body.criterionScores.getD []).map Json.obj
  let (rev, status) ←
    (Engine.humanReview env sub reviewer body.verdict scores body.comments).mapErr forbidden
  return .obj [("review_id", .str rev.id), ("verdict", .str rev.verdict.value),
    ("submission_status", .str status.value)]

/-! ## Billing -/

def generateInvoice (actor : Auth.Actor) (firmId : String) (periodStart periodEnd : Time) :
    Tx Json := do
  let firm ← getFirm firmId
  let inv ← (Billing.generateInvoice env firm periodStart periodEnd actor.id).mapErr
    billingConflict
  return invoiceOut inv

def createInvoiceCheckout (actor : Auth.Actor) (invoiceId successUrl cancelUrl : String) :
    Tx Json := do
  let inv ← getInvoice invoiceId
  Auth.assertFirmAccess actor inv.firmId
  let firm ← getFirm inv.firmId
  let (inv, url) ← (Billing.createCheckout env inv firm successUrl cancelUrl actor.id).mapErr
    billingConflict
  return .obj [("invoice_id", .str inv.id), ("checkout_session_id", optStr inv.checkoutSessionId),
    ("checkout_url", .str url)]

def recordExternalPayment (actor : Auth.Actor) (invoiceId reference : String) : Tx Json := do
  let inv ← getInvoice invoiceId
  let paid ← (Billing.recordExternalPayment env inv reference actor.id).mapErr billingConflict
  return invoiceOut paid

def stripeWebhook (payload : String) (signature : Option String) : Tx Json := do
  let event ← Prog.ofExcept (StripeGateway.parseWebhook env payload signature)
  Billing.handleStripeEvent env event

/-! ## Exports -/

def requestExport (actor : Auth.Actor) (projectId : String) : Tx Json := do
  let project ← getProject projectId
  let batch ← (Export.requestExport env project actor.id).mapErr exportConflict
  return .obj [("batch_id", .str batch.id), ("status", .str batch.status.value)]

/-- The approver is the caller, except in dev mode. -/
def approver (actor : Auth.Actor) (approvedBy : String) : String :=
  if env.authDisabled then approvedBy else actor.id

def approveExport (actor : Auth.Actor) (batchId approvedBy : String) : Tx Json := do
  let batch ← getExportBatch batchId
  let released ← (Export.approveAndMaterialize env batch (approver env actor approvedBy)).mapErr
    releaseConflict
  return .obj [("batch_id", .str released.id), ("status", .str released.status.value),
    ("path", optStr released.path), ("manifest", released.manifest)]

/-! ## Routing -/

/-- The roles an endpoint admits; two endpoints ask for no actor. -/
def rolesOf : Request → Option (List Role)
  | .bootstrap .. => none
  | .stripeWebhook .. => none
  | .createUser .. => some adminOnly
  | .revokeUser .. => some adminOnly
  | .createFirm .. => some adminOnly
  | .createRateCard .. => some adminOnly
  | .createExpert .. => some internal
  | .recordExam .. => some internal
  | .createProject .. => some internal
  | .createTask .. => some internal
  | .assignTask .. => some internal
  | .createSubmission .. => some submitRoles
  | .postHumanReview .. => some reviewRoles
  | .generateInvoice .. => some internal
  | .createInvoiceCheckout .. => some anyAuthenticated
  | .recordExternalPayment .. => some internal
  | .requestExport .. => some internal
  | .approveExport .. => some internal

def handle (actor : Auth.Actor) : Request → Tx Json
  | .bootstrap name email => bootstrap env name email
  | .createUser body => createUser env actor body
  | .revokeUser userId => revokeUser env actor userId
  | .createFirm body => createFirm env actor body
  | .createRateCard firmId body => createRateCard env actor firmId body
  | .createExpert body => createExpert env actor body
  | .recordExam expertId body => recordExam env actor expertId body
  | .createProject body => createProject env actor body
  | .createTask projectId body => createTask env actor projectId body
  | .assignTask taskId expertId => assignTask env actor taskId expertId
  | .createSubmission taskId expertId content =>
      createSubmission env actor taskId expertId content
  | .postHumanReview submissionId body => postHumanReview env actor submissionId body
  | .generateInvoice firmId periodStart periodEnd =>
      generateInvoice env actor firmId periodStart periodEnd
  | .createInvoiceCheckout invoiceId successUrl cancelUrl =>
      createInvoiceCheckout env actor invoiceId successUrl cancelUrl
  | .recordExternalPayment invoiceId reference =>
      recordExternalPayment env actor invoiceId reference
  | .stripeWebhook payload signature => stripeWebhook env payload signature
  | .requestExport projectId => requestExport env actor projectId
  | .approveExport batchId approvedBy => approveExport env actor batchId approvedBy

/-- Stands in where an endpoint takes no actor. -/
def nobody : Auth.Actor :=
  ⟨"", "", .client, none, none⟩

def serve (http : Http) : Tx Json :=
  match rolesOf http.request with
  | some allowed => do
      let actor ← Auth.currentActor env allowed http.authorization http.xActorId
      handle env actor http.request
  | none => handle env nobody http.request

end Api

end HumanDataFactory
