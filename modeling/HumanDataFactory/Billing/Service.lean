import HumanDataFactory.Audit
import HumanDataFactory.Controls
import HumanDataFactory.Billing.StripeGateway
import HumanDataFactory.Python.Datetime

/-!
# The billing service

`billing/service.py`: metering of approved records, invoices and their
settlement.
-/

namespace HumanDataFactory

open Transact

/-- `s.startswith(prefix)`. -/
def startsWith (start s : String) : Bool :=
  decide (start.toList <+: s.toList)

/-- `f"{cents / 100:.2f}"`. -/
def formatCents (cents : ℤ) : String :=
  let sign := if cents < 0 then "-" else ""
  sign ++ toString (cents.natAbs / 100) ++ "." ++ Datetime.zeroPad 2 (cents.natAbs % 100)

namespace Billing

variable (env : Env)

def rateCardsFor (s : Db) (scope : Option String) (taskType : TaskType) : List RateCard :=
  s.rateCards.rows.filter fun c ↦
    c.firmId = scope ∧ c.taskType = taskType ∧ c.active = true

def newestRate (s : Db) (scope : Option String) (taskType : TaskType) : Option RateCard :=
  (env.orderBy (fun c ↦ -c.createdAt) (rateCardsFor s scope taskType)).head?

def resolveUnitPriceCents (firmId : String) (taskType : TaskType) : Tx ℤ := do
  let own ← Session.select (.rows .rateCards) fun s ↦ newestRate env s (some firmId) taskType
  match own with
  | some row => return row.unitPriceCents
  | none => do
      let common ← Session.select (.rows .rateCards) fun s ↦ newestRate env s none taskType
      match common with
      | some row => return row.unitPriceCents
      | none => return env.defaultRatesCents taskType

/-- What `resolveUnitPriceCents` comes to on one state. -/
def unitPriceCents (s : Db) (firmId : String) (taskType : TaskType) : ℤ :=
  match newestRate env s (some firmId) taskType with
  | some row => row.unitPriceCents
  | none =>
      match newestRate env s none taskType with
      | some row => row.unitPriceCents
      | none => env.defaultRatesCents taskType

theorem writeless_resolveUnitPriceCents (firmId : String) (taskType : TaskType) :
    (resolveUnitPriceCents env firmId taskType).Writeless := by
  refine (Prog.Writeless.select _ _).bind fun own ↦ ?_
  cases own with
  | some row => exact .pure _
  | none =>
      refine (Prog.Writeless.select _ _).bind fun common ↦ ?_
      cases common <;> exact .pure _

def approvedRecordEvents (s : Db) (taskId : String) : List UsageEvent :=
  s.usageEvents.rows.filter fun e ↦ e.taskId = taskId ∧ e.kind = "approved_record"

/-- The row `record_approved_record` inserts. -/
def newUsageEvent (project : Project) (task : Task) (submission : Submission) (firm : Firm)
    (price : ℤ) (id : String) (now : Time) : UsageEvent where
  id := id
  firmId := firm.id
  projectId := project.id
  taskId := task.id
  submissionId := submission.id
  kind := "approved_record"
  quantity := 1
  unitPriceCents := price
  amountCents := price
  currency := firm.currency
  invoiceId := none
  createdAt := now

def meter (project : Project) (task : Task) (submission : Submission) :
    Tx (Option UsageEvent) := do
  let found ← Session.select (.row .firms) fun s ↦ s.firms.find? project.firmId
  let firm ← Prog.getSome .attributeError found
  let price ← resolveUnitPriceCents env firm.id project.taskType
  let id ← Session.uuid4
  let now ← Session.now
  let ev := newUsageEvent project task submission firm price id now
  Session.write (.insertUsageEvent ev)
  let _ ← Audit.record env "billing-engine" "usage.recorded" "usage_event" ev.id
    (.obj [("firm_id", .str firm.id), ("task_id", .str task.id), ("amount_cents", .int price)])
  return some ev

def recordApprovedRecord (project : Project) (task : Task) (submission : Submission) :
    Tx (Option UsageEvent) :=
  if task.isGold then return none
  else do
    let found ← Session.select (.rows .usageEvents) fun s ↦ approvedRecordEvents s task.id
    let existing ← Session.scalarOneOrNone found
    match existing with
    | some _ => return none
    | none => meter env project task submission

theorem recordApprovedRecord_writesIn {I : Write → Prop} (haudit : ∀ ev, I (.insertAuditEvent ev))
    (husage : ∀ ev, I (.insertUsageEvent ev)) (project : Project) (task : Task)
    (submission : Submission) :
    (recordApprovedRecord env project task submission).WritesIn I := by
  unfold recordApprovedRecord
  split
  · exact .pure _
  · refine (Prog.Writeless.select _ _).writesIn.bind fun found ↦ ?_
    refine (Session.writeless_scalarOneOrNone found).writesIn.bind fun existing ↦ ?_
    cases existing with
    | some ev => exact .pure _
    | none =>
        refine (Prog.Writeless.select _ _).writesIn.bind fun firm ↦ ?_
        refine (Prog.Writeless.getSome _ _).writesIn.bind fun firm ↦ ?_
        refine (writeless_resolveUnitPriceCents env _ _).writesIn.bind fun price ↦ ?_
        refine (Prog.Writeless.ask _).writesIn.bind fun id ↦ ?_
        refine (Prog.Writeless.ask _).writesIn.bind fun now ↦ ?_
        refine (Prog.WritesIn.emit (husage _)).bind fun _ ↦ ?_
        exact (Audit.record_writesIn env haudit _ _ _ _ _).bind fun _ ↦ .pure _

def invoiceNumber (now : Time) (count : ℕ) : String :=
  s!"HDF-{Datetime.yearMonth now}-{Datetime.zeroPad 4 (count + 1)}"

def nextInvoiceNumber (now : Time) : Tx String := do
  let count ← Session.select (.rows .invoices) fun s ↦ s.invoices.rows.length
  return invoiceNumber now count

def sameGroup (row : LineItem) (ev : UsageEvent) : Prop :=
  row.projectId = ev.projectId ∧ row.kind = ev.kind ∧ row.unitPriceCents = ev.unitPriceCents

instance (row : LineItem) (ev : UsageEvent) : Decidable (sameGroup row ev) :=
  inferInstanceAs (Decidable (_ ∧ _))

/-- One round of the grouping loop: `setdefault` and the two additions. -/
def addToGroup (rows : List LineItem) (ev : UsageEvent) : List LineItem :=
  if ∃ row ∈ rows, sameGroup row ev then
    rows.map fun row ↦
      if sameGroup row ev then
        { row with
          quantity := row.quantity + ev.quantity
          amountCents := row.amountCents + ev.amountCents }
      else row
  else
    rows ++ [{
      projectId := ev.projectId
      kind := ev.kind
      unitPriceCents := ev.unitPriceCents
      quantity := 0 + ev.quantity
      amountCents := 0 + ev.amountCents
      description := "" }]

def grouped (events : List UsageEvent) : List LineItem :=
  events.foldl addToGroup []

def lineDescription (firm : Firm) (project : Project) (row : LineItem) : String :=
  s!"{project.name} — {row.quantity} approved {project.taskType.value} record(s) " ++
    s!"@ {formatCents row.unitPriceCents} {env.upper firm.currency}"

def describeAll (firm : Firm) : List LineItem → Tx (List LineItem)
  | [] => return []
  | row :: rows => do
      let found ← Session.select (.row .projects) fun s ↦ s.projects.find? row.projectId
      let project ← Prog.getSome .attributeError found
      let rest ← describeAll firm rows
      return { row with description := lineDescription env firm project row } :: rest

/-- All uninvoiced usage of the firm in the half-open period. -/
def uninvoiced (s : Db) (firmId : String) (periodStart periodEnd : Time) : List UsageEvent :=
  env.orderBy UsageEvent.createdAt (s.usageEvents.rows.filter fun e ↦
    e.firmId = firmId ∧ e.invoiceId = none ∧ periodStart ≤ e.createdAt ∧ e.createdAt < periodEnd)

/-- The row `generate_invoice` inserts, before it is issued. -/
def newInvoice (firm : Firm) (periodStart periodEnd : Time) (issuedBy : String)
    (lineItems : List LineItem) (number id : String) (createdAt : Time) : Invoice where
  id := id
  number := number
  firmId := firm.id
  mode := firm.billingMode
  periodStart := periodStart
  periodEnd := periodEnd
  subtotalCents := (lineItems.map LineItem.amountCents).sum
  currency := firm.currency
  status := .draft
  lineItems := lineItems
  stripeInvoiceId := none
  hostedInvoiceUrl := none
  checkoutSessionId := none
  externalPaidReference := none
  issuedBy := issuedBy
  issuedAt := none
  paidAt := none
  createdAt := createdAt

/-- Stripe mode: push the invoice and keep what Stripe returned. -/
def pushToStripe (firm : Firm) (invoice : Invoice) : Tx Invoice := do
  let customerId ← StripeGateway.ensureCustomer env firm
  Session.write (.setStripeCustomerId firm.id (some customerId))
  let (stripeId, url) ←
    StripeGateway.pushInvoice env { firm with stripeCustomerId := some customerId } invoice
  Session.write (.setStripeInvoice invoice.id (some stripeId) (some url))
  Session.write (.setInvoiceStatus invoice.id .open)
  return { invoice with
    stripeInvoiceId := some stripeId
    hostedInvoiceUrl := some url
    status := .open }

def issue (firm : Firm) (invoice : Invoice) : Tx Invoice :=
  match firm.billingMode with
  | .stripe => pushToStripe env firm invoice
  | .external => do
      Session.write (.setInvoiceStatus invoice.id .issuedExternal)
      return { invoice with status := .issuedExternal }

def generateInvoice (firm : Firm) (periodStart periodEnd : Time) (issuedBy : String) :
    Tx Invoice := do
  let events ← Session.select (.rows .usageEvents) fun s ↦
    uninvoiced env s firm.id periodStart periodEnd
  Prog.ensure (events ≠ []) (.billingError "no uninvoiced usage in this period")
  let lineItems ← describeAll env firm (grouped events)
  let now ← Session.now
  let number ← nextInvoiceNumber now
  let id ← Session.uuid4
  let createdAt ← Session.now
  let invoice := newInvoice firm periodStart periodEnd issuedBy lineItems number id createdAt
  Session.write (.insertInvoice invoice)
  Prog.emitAll (events.map fun ev ↦ .setInvoiceId ev.id (some invoice.id))
  let issued ← issue env firm invoice
  Session.write (.setIssuedAt invoice.id (some now))
  let _ ← Audit.record env issuedBy "invoice.issued" "invoice" invoice.id
    (.obj [("number", .str number), ("firm_id", .str firm.id),
      ("mode", .str firm.billingMode.value), ("subtotal_cents", .int invoice.subtotalCents),
      ("usage_events", .int events.length)])
  return { issued with issuedAt := some now }

def recordExternalPayment (invoice : Invoice) (reference actor : String) : Tx Invoice := do
  Prog.ensure (invoice.mode = .external)
    (.billingError "invoice is Stripe-managed; payment arrives via webhook")
  Prog.ensure (invoice.status = .issuedExternal ∨ invoice.status = .draft)
    (.billingError s!"invoice is in status '{invoice.status.value}'")
  Session.write (.setInvoiceStatus invoice.id .paid)
  Session.write (.setExternalPaidReference invoice.id (some reference))
  let now ← Session.now
  Session.write (.setPaidAt invoice.id (some now))
  let _ ← Audit.record env actor "invoice.external_payment_recorded" "invoice" invoice.id
    (.obj [("reference", .str reference)])
  return { invoice with
    status := .paid
    externalPaidReference := some reference
    paidAt := some now }

def PAYABLE_STATUSES : List InvoiceStatus := [.issuedExternal, .open]

def absoluteUrl (url : String) : Bool :=
  startsWith "https://" url || startsWith "http://" url

def createCheckout (invoice : Invoice) (firm : Firm) (successUrl cancelUrl actor : String) :
    Tx (Invoice × String) := do
  Prog.ensure (invoice.status ∈ PAYABLE_STATUSES)
    (.billingError s!"invoice is in status '{invoice.status.value}', not payable")
  Prog.ensure (absoluteUrl successUrl = true ∧ absoluteUrl cancelUrl = true)
    (.billingError "success_url and cancel_url must be absolute URLs")
  let (sessionId, url) ←
    StripeGateway.createCheckoutSession env firm invoice successUrl cancelUrl
  Session.write (.setCheckoutSessionId invoice.id (some sessionId))
  let _ ← Audit.record env actor "invoice.checkout_created" "invoice" invoice.id
    (.obj [("checkout_session_id", .str sessionId)])
  return ({ invoice with checkoutSessionId := some sessionId }, url)

def handled (invoice : Invoice) (status : InvoiceStatus) : Json :=
  .obj [("handled", .bool true), ("invoice_id", .str invoice.id), ("status", .str status.value)]

def notHandled (reason : String) : Json :=
  .obj [("handled", .bool false), ("reason", .str reason)]

/-- `(event.get("data") or {}).get("object") or {}`. -/
def eventObject (event : Json) : Except PyError Json := do
  let data ← event.get "data"
  let inner ← (data.orElse (.obj [])).get "object"
  return inner.orElse (.obj [])

/-- A value bound to a text column in a query. -/
def boundText : Json → Except PyError String
  | .str s => .ok s
  | _ => .error .statementError

def metadataInvoiceId (obj : Json) : Except PyError Json := do
  let metadata ← obj.get "metadata"
  (metadata.orElse (.obj [])).get "hdf_invoice_id"

def bySession (s : Db) (sessionId : String) : List Invoice :=
  s.invoices.rows.filter fun i ↦ i.checkoutSessionId = some sessionId

def byStripeId (s : Db) (stripeId : String) : List Invoice :=
  s.invoices.rows.filter fun i ↦ i.stripeInvoiceId = some stripeId

/-- `db.get(Invoice, invoice_id) if invoice_id else None`. -/
def getInvoiceOf (key : Json) : Tx (Option Invoice) :=
  if key.truthy then do
    let id ← Prog.ofExcept (boundText key)
    Session.select (.row .invoices) fun s ↦ s.invoices.find? id
  else return none

def findBySession (key : Json) : Tx (Option Invoice) :=
  if key.truthy then do
    let id ← Prog.ofExcept (boundText key)
    let rows ← Session.select (.rows .invoices) fun s ↦ bySession s id
    Session.scalarOneOrNone rows
  else return none

/-- Matched by our metadata, then by session id. -/
def findCheckoutInvoice (obj : Json) : Tx (Option Invoice) := do
  let invoiceId ← Prog.ofExcept (metadataInvoiceId obj)
  let found ← getInvoiceOf invoiceId
  match found with
  | some invoice => return some invoice
  | none => do
      let sessionId ← Prog.ofExcept (obj.get "id")
      findBySession sessionId

/-- `obj.get("payment_intent") or obj.get("id") or ""`. -/
def paymentReference (obj : Json) : Json :=
  ((obj.field "payment_intent").orElse (obj.field "id")).orElse (.str "")

def completeCheckout (obj : Json) : Tx Json := do
  let found ← findCheckoutInvoice obj
  match found with
  | none => return notHandled "unknown checkout session"
  | some invoice =>
      if invoice.status = .paid then return handled invoice .paid
      else do
        Session.write (.setInvoiceStatus invoice.id .paid)
        let now ← Session.now
        Session.write (.setPaidAt invoice.id (some now))
        let reference := paymentReference obj
        Session.writeIf (invoice.mode = .external)
          (.setExternalPaidReference invoice.id
            (some ("stripe-checkout:" ++ env.str reference)))
        let _ ← Audit.record env "stripe-webhook" "invoice.paid" "invoice" invoice.id
          (.obj [("stripe_event", .str "checkout.session.completed"),
            ("reference", reference)])
        return handled invoice .paid

/-- The status an invoice event asks for. -/
def settledStatus (etype : String) : Option InvoiceStatus :=
  if etype = "invoice.paid" ∨ etype = "invoice.payment_succeeded" then some .paid
  else if etype = "invoice.voided" then some .void
  else none

/-- `invoice.paid_at = datetime.now(timezone.utc)` of the paid branch. -/
def markPaidAt (invoice : Invoice) : InvoiceStatus → Tx Unit
  | .paid => do
      let now ← Session.now
      Session.write (.setPaidAt invoice.id (some now))
  | _ => return ()

def settle (invoice : Invoice) (etype : String) (stripeId : String) (status : InvoiceStatus) :
    Tx Json := do
  Session.write (.setInvoiceStatus invoice.id status)
  markPaidAt invoice status
  let _ ← Audit.record env "stripe-webhook" s!"invoice.{status.value}" "invoice" invoice.id
    (.obj [("stripe_event", .str etype), ("stripe_invoice_id", .str stripeId)])
  return handled invoice status

def applyInvoiceEvent (etype : String) (key : Json) : Tx Json := do
  let stripeId ← Prog.ofExcept (boundText key)
  let rows ← Session.select (.rows .invoices) fun s ↦ byStripeId s stripeId
  let found ← Session.scalarOneOrNone rows
  match found with
  | none => return notHandled "unknown invoice"
  | some invoice =>
      match settledStatus etype with
      | some status => settle env invoice etype stripeId status
      | none => return notHandled s!"ignored event type {etype}"

def invoiceEvent (etype obj : Json) : Tx Json := do
  let key ← Prog.ofExcept (obj.get "id")
  if key.truthy then
    match etype with
    | .str etype =>
        if startsWith "invoice." etype then applyInvoiceEvent env etype key
        else return notHandled "not an invoice event"
    | _ => Session.raise .attributeError
  else return notHandled "not an invoice event"

def handleStripeEvent (event : Json) : Tx Json := do
  let etype ← Prog.ofExcept (event.getD "type" (.str ""))
  let obj ← Prog.ofExcept (eventObject event)
  if etype.isStr "checkout.session.completed" then completeCheckout env obj
  else invoiceEvent env etype obj

end Billing

end HumanDataFactory
