import HumanDataFactory.Api
import HumanDataFactory.Billing.Reports

/-!
# The GET endpoints

The reading endpoints of `api/main.py`, each from its role guard to its
response, and what each responds on one state.  The pages that ask for no
actor show nothing of the database; the metrics and the calibration report are
for internal roles only and are left out.
-/

namespace HumanDataFactory

open Transact

namespace Api

variable (env : Env)

inductive Read
  | listFirms
  | getFirm (firmId : String)
  | getExpert (expertId : String)
  | listProjects
  | getTask (taskId : String)
  | getSubmission (submissionId : String)
  | reviewQueue
  | getBillingSummary (firmId : String)
  | listUsage (firmId : String) (uninvoicedOnly : Bool)
  | listInvoices (firmId : String)
  | getInvoice (invoiceId : String)
  | firmReconciliation (firmId : String) (periodStart periodEnd : Option Time)
  | globalReconciliation (periodStart periodEnd : Option Time)
  | getControlReport (projectId : String)
  | verifyAudit

def projectOut (p : Project) : Json :=
  .obj [("id", .str p.id), ("name", .str p.name), ("firm_id", .str p.firmId),
    ("track", .str p.track.value), ("task_type", .str p.taskType.value)]

/-- The gold answer is left out. -/
def taskOut (t : Task) : Json :=
  .obj [("id", .str t.id), ("project_id", .str t.projectId), ("prompt", .str t.prompt),
    ("context", t.context), ("status", .str t.status.value), ("assigned_to", optStr t.assignedTo),
    ("is_gold", .bool t.isGold)]

/-- A row of the review queue, without the author. -/
def queueOut (sub : Submission) : Json :=
  .obj [("submission_id", .str sub.id), ("task_id", .str sub.taskId),
    ("sampled", .bool sub.sampledForHumanReview), ("created_at", .int sub.createdAt)]

def usageOut (ev : UsageEvent) : Json :=
  .obj [("id", .str ev.id), ("project_id", .str ev.projectId), ("task_id", .str ev.taskId),
    ("kind", .str ev.kind), ("quantity", .int ev.quantity),
    ("unit_price_cents", .int ev.unitPriceCents), ("amount_cents", .int ev.amountCents),
    ("currency", .str ev.currency), ("invoice_id", optStr ev.invoiceId),
    ("created_at", .int ev.createdAt)]

def globalOut (reports : List Billing.Reconciliation) : Json :=
  .obj [("firms", .arr (reports.map (Billing.Reconciliation.asJson env))),
    ("totals", .obj [
      ("metered_cents", .int (reports.map Billing.Reconciliation.meteredCents).sum),
      ("metered_uninvoiced_cents",
        .int (reports.map Billing.Reconciliation.meteredUninvoicedCents).sum),
      ("invoiced_cents", .int (reports.map Billing.Reconciliation.invoicedCents).sum),
      ("paid_cents", .int (reports.map Billing.Reconciliation.paidCents).sum),
      ("outstanding_cents", .int (reports.map Billing.Reconciliation.outstandingCents).sum)]),
    ("all_clean", .bool (reports.all Billing.Reconciliation.clean))]

def projectsFor (s : Db) (actor : Auth.Actor) : List Project :=
  s.projects.rows.filter fun p ↦ actor.role = .client → some p.firmId = actor.firmId

def awaitingReview (s : Db) : List Submission :=
  env.orderBy Submission.createdAt (s.submissions.rows.filter fun sub ↦ sub.status = .humanReview)

def usageOf (s : Db) (firmId : String) (uninvoicedOnly : Bool) : List UsageEvent :=
  env.orderBy UsageEvent.createdAt (s.usageEvents.rows.filter fun ev ↦
    ev.firmId = firmId ∧ (uninvoicedOnly = true → ev.invoiceId = none))

def invoicesOf (s : Db) (firmId : String) : List Invoice :=
  env.orderBy Invoice.createdAt (s.invoices.rows.filter fun inv ↦ inv.firmId = firmId)

def listFirms : Tx Json := do
  let firms ← Session.select (.rows .firms) fun s ↦ s.firms.rows
  return .arr (firms.map firmOut)

def readFirm (actor : Auth.Actor) (firmId : String) : Tx Json := do
  Auth.assertFirmAccess actor firmId
  let firm ← getFirm firmId
  return firmOut firm

def readExpert (expertId : String) : Tx Json := do
  let expert ← getExpert expertId
  return expertOut expert

def listProjects (actor : Auth.Actor) : Tx Json := do
  let projects ← Session.select (.rows .projects) fun s ↦ projectsFor s actor
  return .arr (projects.map projectOut)

def readTask (taskId : String) : Tx Json := do
  let task ← getTask taskId
  return taskOut task

def readSubmission (submissionId : String) : Tx Json := do
  let sub ← getSubmission submissionId
  submissionOut env sub

def reviewQueue : Tx Json := do
  let rows ← Session.select (.rows .submissions) fun s ↦ awaitingReview env s
  return .arr (rows.map queueOut)

def getBillingSummary (actor : Auth.Actor) (firmId : String) : Tx Json := do
  Auth.assertFirmAccess actor firmId
  let firm ← getFirm firmId
  let summary ← Billing.firmBillingSummary firm
  return summary.asJson

def listUsage (actor : Auth.Actor) (firmId : String) (uninvoicedOnly : Bool) : Tx Json := do
  Auth.assertFirmAccess actor firmId
  let _ ← getFirm firmId
  let events ← Session.select (.rows .usageEvents) fun s ↦ usageOf env s firmId uninvoicedOnly
  return .arr (events.map usageOut)

def listInvoices (actor : Auth.Actor) (firmId : String) : Tx Json := do
  Auth.assertFirmAccess actor firmId
  let _ ← getFirm firmId
  let rows ← Session.select (.rows .invoices) fun s ↦ invoicesOf env s firmId
  return .arr (rows.map invoiceOut)

def readInvoice (actor : Auth.Actor) (invoiceId : String) : Tx Json := do
  let inv ← getInvoice invoiceId
  Auth.assertFirmAccess actor inv.firmId
  return invoiceOut inv

def firmReconciliation (actor : Auth.Actor) (firmId : String)
    (periodStart periodEnd : Option Time) : Tx Json := do
  Auth.assertFirmAccess actor firmId
  let firm ← getFirm firmId
  let report ← Billing.reconciliationReport firm periodStart periodEnd
  return report.asJson env

def reportAll (periodStart periodEnd : Option Time) :
    List Firm → Tx (List Billing.Reconciliation)
  | [] => return []
  | firm :: firms => do
      let report ← Billing.reconciliationReport firm periodStart periodEnd
      let rest ← reportAll periodStart periodEnd firms
      return report :: rest

def globalReconciliation (periodStart periodEnd : Option Time) : Tx Json := do
  let firms ← Session.select (.rows .firms) fun s ↦ s.firms.rows
  let reports ← reportAll periodStart periodEnd firms
  return globalOut env reports

def getControlReport (actor : Auth.Actor) (projectId : String) : Tx Json := do
  let project ← getProject projectId
  Auth.assertFirmAccess actor project.firmId
  let report ← Export.controlReport env project
  return report.asJson

def verifyAudit : Tx Json := do
  let (intact, events) ← Session.select (.rows .auditEvents) fun s ↦ Audit.verifyChain env s
  return .obj [("intact", .bool intact), ("events", .int events)]

def Read.roles : Read → List Role
  | .listFirms => internal
  | .getFirm _ => anyAuthenticated
  | .getExpert _ => internal
  | .listProjects => anyAuthenticated
  | .getTask _ => anyAuthenticated
  | .getSubmission _ => reviewRoles
  | .reviewQueue => reviewRoles
  | .getBillingSummary _ => anyAuthenticated
  | .listUsage .. => anyAuthenticated
  | .listInvoices _ => anyAuthenticated
  | .getInvoice _ => anyAuthenticated
  | .firmReconciliation .. => anyAuthenticated
  | .globalReconciliation .. => internal
  | .getControlReport _ => anyAuthenticated
  | .verifyAudit => internal

def handleRead (actor : Auth.Actor) : Read → Tx Json
  | .listFirms => listFirms
  | .getFirm firmId => readFirm actor firmId
  | .getExpert expertId => readExpert expertId
  | .listProjects => listProjects actor
  | .getTask taskId => readTask taskId
  | .getSubmission submissionId => readSubmission env submissionId
  | .reviewQueue => reviewQueue env
  | .getBillingSummary firmId => getBillingSummary actor firmId
  | .listUsage firmId uninvoicedOnly => listUsage env actor firmId uninvoicedOnly
  | .listInvoices firmId => listInvoices env actor firmId
  | .getInvoice invoiceId => readInvoice actor invoiceId
  | .firmReconciliation firmId periodStart periodEnd =>
      firmReconciliation env actor firmId periodStart periodEnd
  | .globalReconciliation periodStart periodEnd =>
      globalReconciliation env periodStart periodEnd
  | .getControlReport projectId => getControlReport env actor projectId
  | .verifyAudit => verifyAudit env

def serveRead (authorization xActorId : Option String) (read : Read) : Tx Json := do
  let actor ← Auth.currentActor env read.roles authorization xActorId
  handleRead env actor read

/-- A response that is open to those with access to the firm. -/
def permitted (actor : Auth.Actor) (firmId : String) (r : Except PyError Json) :
    Except PyError Json :=
  if Auth.firmAccess actor firmId then r else .error (.http 403 "not permitted for this firm")

/-- A response about the row with this key, if there is one. -/
def found {α : Type} (model id : String) (row : Option α) (r : α → Except PyError Json) :
    Except PyError Json :=
  row.elim (.error (.http 404 s!"{model} {id} not found")) r

def submissionJson (s : Db) (sub : Submission) : Json :=
  .obj [("id", .str sub.id), ("task_id", .str sub.taskId),
    ("expert_id", .str sub.expertId), ("version", .int sub.version),
    ("status", .str sub.status.value),
    ("sampled_for_human_review", .bool sub.sampledForHumanReview),
    ("reviews", .arr ((env.orderBy Review.createdAt
      (s.reviews.rows.filter fun r ↦ r.submissionId = sub.id)).map reviewOut))]

def respond (s : Db) (actor : Auth.Actor) : Read → Except PyError Json
  | .listFirms => .ok (.arr (s.firms.rows.map firmOut))
  | .getFirm firmId =>
      permitted actor firmId <| found "Firm" firmId (s.firms.find? firmId) fun f ↦ .ok (firmOut f)
  | .getExpert expertId =>
      found "Expert" expertId (s.experts.find? expertId) fun e ↦ .ok (expertOut e)
  | .listProjects => .ok (.arr ((projectsFor s actor).map projectOut))
  | .getTask taskId => found "Task" taskId (s.tasks.find? taskId) fun t ↦ .ok (taskOut t)
  | .getSubmission submissionId =>
      found "Submission" submissionId (s.submissions.find? submissionId) fun sub ↦
        .ok (submissionJson env s sub)
  | .reviewQueue => .ok (.arr ((awaitingReview env s).map queueOut))
  | .getBillingSummary firmId =>
      permitted actor firmId <| found "Firm" firmId (s.firms.find? firmId) fun f ↦
        .ok (Billing.billingSummaryOf s f).asJson
  | .listUsage firmId uninvoicedOnly =>
      permitted actor firmId <| found "Firm" firmId (s.firms.find? firmId) fun _ ↦
        .ok (.arr ((usageOf env s firmId uninvoicedOnly).map usageOut))
  | .listInvoices firmId =>
      permitted actor firmId <| found "Firm" firmId (s.firms.find? firmId) fun _ ↦
        .ok (.arr ((invoicesOf env s firmId).map invoiceOut))
  | .getInvoice invoiceId =>
      found "Invoice" invoiceId (s.invoices.find? invoiceId) fun inv ↦
        permitted actor inv.firmId <| .ok (invoiceOut inv)
  | .firmReconciliation firmId periodStart periodEnd =>
      permitted actor firmId <| found "Firm" firmId (s.firms.find? firmId) fun f ↦
        .ok ((Billing.reconciliationOf s f periodStart periodEnd).asJson env)
  | .globalReconciliation periodStart periodEnd =>
      .ok (globalOut env (s.firms.rows.map fun f ↦
        Billing.reconciliationOf s f periodStart periodEnd))
  | .getControlReport projectId =>
      found "Project" projectId (s.projects.find? projectId) fun p ↦
        permitted actor p.firmId <| .ok (Export.reportOf env s p).asJson
  | .verifyAudit => .ok (.obj [("intact", .bool (Audit.verifyChain env s).1),
      ("events", .int (Audit.verifyChain env s).2)])

section Answers

variable {env} {s : Db} {actor : Auth.Actor}

theorem answer_getOr404_bind {α : Type} {model id : String} {t : TableName} {find : Db → Option α}
    {k : α → Tx Json} {r : α → Except PyError Json} (h : ∀ a, (k a).answer s = some (r a)) :
    (getOr404 model id t find >>= k).answer s = some (found model id (find s) r) := by
  unfold getOr404 found
  rw [Prog.bind_assoc, Prog.answer_select_bind, Prog.answer_getSome_bind]
  cases find s with
  | none => rfl
  | some a => exact h a

theorem answer_assertFirmAccess_bind {firmId : String} {k : Unit → Tx Json}
    {r : Except PyError Json} (h : (k ()).answer s = some r) :
    (Auth.assertFirmAccess actor firmId >>= k).answer s = some (permitted actor firmId r) := by
  unfold Auth.assertFirmAccess permitted
  rw [Prog.answer_ensure_bind]
  split
  · exact h
  · rfl

theorem answer_reportAll (periodStart periodEnd : Option Time) (firms : List Firm) :
    (reportAll periodStart periodEnd firms).answer s =
      some (.ok (firms.map fun f ↦ Billing.reconciliationOf s f periodStart periodEnd)) := by
  induction firms with
  | nil => rfl
  | cons firm firms ih =>
      unfold reportAll
      rw [Prog.answer_bind_ok (Billing.answer_reconciliationReport _ _), Prog.answer_bind_ok ih]
      rfl

theorem answer_handleRead (read : Read) :
    (handleRead env actor read).answer s = some (respond env s actor read) := by
  cases read with
  | getFirm firmId =>
      exact answer_assertFirmAccess_bind (answer_getOr404_bind fun _ ↦ rfl)
  | getExpert expertId => exact answer_getOr404_bind fun _ ↦ rfl
  | getTask taskId => exact answer_getOr404_bind fun _ ↦ rfl
  | getSubmission submissionId => exact answer_getOr404_bind fun _ ↦ rfl
  | getBillingSummary firmId =>
      refine answer_assertFirmAccess_bind (answer_getOr404_bind fun f ↦ ?_)
      exact Prog.answer_bind_ok Billing.answer_firmBillingSummary
  | listUsage firmId uninvoicedOnly =>
      exact answer_assertFirmAccess_bind (answer_getOr404_bind fun _ ↦ rfl)
  | listInvoices firmId =>
      exact answer_assertFirmAccess_bind (answer_getOr404_bind fun _ ↦ rfl)
  | getInvoice invoiceId =>
      exact answer_getOr404_bind fun inv ↦ answer_assertFirmAccess_bind rfl
  | firmReconciliation firmId periodStart periodEnd =>
      refine answer_assertFirmAccess_bind (answer_getOr404_bind fun f ↦ ?_)
      exact Prog.answer_bind_ok (Billing.answer_reconciliationReport periodStart periodEnd)
  | globalReconciliation periodStart periodEnd =>
      exact Prog.answer_bind_ok (answer_reportAll periodStart periodEnd s.firms.rows)
  | getControlReport projectId =>
      refine answer_getOr404_bind fun p ↦ answer_assertFirmAccess_bind ?_
      exact Prog.answer_bind_ok (Export.answer_controlReport p)
  | _ => rfl

/-- Headers that resolve to this actor. -/
def Authenticates (env : Env) (s : Db) (authorization xActorId : Option String)
    (actor : Auth.Actor) : Prop :=
  (Auth.resolve env authorization xActorId).answer s = some (.ok actor)

/-- Who sends a request depends on users and keys only. -/
theorem Authenticates.congr {s' : Db} {authorization xActorId : Option String}
    (h : Authenticates env s authorization xActorId actor) (husers : s'.users = s.users)
    (hkeys : s'.apiKeys = s.apiKeys) : Authenticates env s' authorization xActorId actor := by
  have hsame : ∀ hash, Auth.usersOfKey s' hash = Auth.usersOfKey s hash := by
    intro hash
    unfold Auth.usersOfKey
    rw [husers, hkeys]
  unfold Authenticates Auth.resolve at h ⊢
  split at h
  · rename_i hdev
    rw [if_pos hdev]
    exact h
  · rename_i hdev
    rw [if_neg hdev]
    rw [Prog.answer_getSome_bind] at h ⊢
    cases htoken : authorization.bind (Auth.bearerToken env) with
    | none => simp [htoken] at h
    | some token =>
        simp only [htoken, Option.elim_some, Prog.answer_select_bind, hsame] at h ⊢
        rw [Prog.answer_getSome_bind] at h ⊢
        exact h

theorem answer_serveRead {authorization xActorId : Option String}
    (h : Authenticates env s authorization xActorId actor) (read : Read) :
    (serveRead env authorization xActorId read).answer s = some (
      if actor.role ∈ read.roles then respond env s actor read
      else .error (.http 403 s!"role '{actor.role.value}' is not permitted for this action")) := by
  unfold serveRead Auth.currentActor Auth.requireRoles
  rw [Prog.bind_assoc, Prog.answer_bind_ok h, Prog.bind_assoc, Prog.answer_ensure_bind]
  split
  · exact answer_handleRead read
  · rfl

end Answers

end Api

end HumanDataFactory
