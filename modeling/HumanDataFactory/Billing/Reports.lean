import HumanDataFactory.Billing.Service
import HumanDataFactory.Transact.Answers

/-!
# Billing reports

The two read-only functions of `billing/service.py`: the reconciliation of
metered usage with invoices and payments, and the billing summary.
-/

namespace HumanDataFactory

open Transact

namespace Billing

/-- `period_start <= t < period_end`, each bound only if it is given. -/
def InPeriod (periodStart periodEnd : Option Time) (t : Time) : Prop :=
  (∀ a ∈ periodStart, a ≤ t) ∧ ∀ b ∈ periodEnd, t < b

instance (periodStart periodEnd : Option Time) (t : Time) :
    Decidable (InPeriod periodStart periodEnd t) :=
  inferInstanceAs (Decidable (_ ∧ _))

@[simp] theorem inPeriod_none (t : Time) : InPeriod none none t := by
  simp [InPeriod]

def firmEvents (s : Db) (firmId : String) (periodStart periodEnd : Option Time) :
    List UsageEvent :=
  s.usageEvents.rows.filter fun ev ↦
    ev.firmId = firmId ∧ InPeriod periodStart periodEnd ev.createdAt

def firmInvoices (s : Db) (firmId : String) (periodStart periodEnd : Option Time) :
    List Invoice :=
  s.invoices.rows.filter fun inv ↦
    inv.firmId = firmId ∧ InPeriod periodStart periodEnd inv.createdAt

/-- `if e.invoice_id`. -/
def invoiced (ev : UsageEvent) : Bool :=
  (StripeGateway.truthyId ev.invoiceId).isSome

/-- `status in (ISSUED_EXTERNAL, OPEN)`. -/
def awaitsPayment (status : InvoiceStatus) : Prop :=
  status = .issuedExternal ∨ status = .open

instance (status : InvoiceStatus) : Decidable (awaitsPayment status) :=
  inferInstanceAs (Decidable (_ ∨ _))

/-- `sum(e.amount_cents for e in events)`. -/
def amounts (events : List UsageEvent) : ℤ :=
  (events.map UsageEvent.amountCents).sum

/-- `sum(i.subtotal_cents for i in invoices)`. -/
def subtotals (invoices : List Invoice) : ℤ :=
  (invoices.map Invoice.subtotalCents).sum

/-- A row of `per_project`. -/
structure ProjectRow where
  projectId : String
  meteredCents : ℤ
  invoicedCents : ℤ
  uninvoicedCents : ℤ
  records : ℤ
  projectName : Option String
  deriving DecidableEq, Repr

def emptyRow (projectId : String) : ProjectRow where
  projectId := projectId
  meteredCents := 0
  invoicedCents := 0
  uninvoicedCents := 0
  records := 0
  projectName := none

def addEvent (row : ProjectRow) (ev : UsageEvent) : ProjectRow :=
  { row with
    meteredCents := row.meteredCents + ev.amountCents
    records := row.records + ev.quantity
    invoicedCents := if invoiced ev then row.invoicedCents + ev.amountCents
      else row.invoicedCents
    uninvoicedCents := if invoiced ev then row.uninvoicedCents
      else row.uninvoicedCents + ev.amountCents }

/-- One round of the loop: `setdefault` and the additions. -/
def addToProject (rows : List ProjectRow) (ev : UsageEvent) : List ProjectRow :=
  if ∃ row ∈ rows, row.projectId = ev.projectId then
    rows.map fun row ↦ if row.projectId = ev.projectId then addEvent row ev else row
  else rows ++ [addEvent (emptyRow ev.projectId) ev]

def perProject (events : List UsageEvent) : List ProjectRow :=
  events.foldl addToProject []

/-- The second loop, with one query of the project for each row. -/
def nameProjects : List ProjectRow → Tx (List ProjectRow)
  | [] => return []
  | row :: rows => do
      let project ← Session.select (.row .projects) fun s ↦ s.projects.find? row.projectId
      let rest ← nameProjects rows
      return { row with projectName := project.map Project.name } :: rest

structure InvoiceRow where
  number : String
  status : InvoiceStatus
  subtotalCents : ℤ
  deriving DecidableEq, Repr

structure Reconciliation where
  firmId : String
  firmName : String
  billingMode : BillingMode
  currency : String
  periodStart : Option Time
  periodEnd : Option Time
  meteredCents : ℤ
  meteredInvoicedCents : ℤ
  meteredUninvoicedCents : ℤ
  invoicedCents : ℤ
  paidCents : ℤ
  outstandingCents : ℤ
  voidedCents : ℤ
  invoicedNotPaidCents : ℤ
  perProject : List ProjectRow
  invoices : List InvoiceRow
  clean : Bool
  deriving DecidableEq, Repr

/-- The arithmetic of the report on the rows its queries return. -/
def reconcile (firm : Firm) (periodStart periodEnd : Option Time) (events : List UsageEvent)
    (invoices : List Invoice) (rows : List ProjectRow) : Reconciliation :=
  let metered := amounts events
  let meteredInvoiced := amounts (events.filter invoiced)
  let meteredUninvoiced := metered - meteredInvoiced
  let issued := subtotals (invoices.filter fun inv ↦ inv.status ≠ .void)
  let paid := subtotals (invoices.filter fun inv ↦ inv.status = .paid)
  { firmId := firm.id
    firmName := firm.name
    billingMode := firm.billingMode
    currency := firm.currency
    periodStart := periodStart
    periodEnd := periodEnd
    meteredCents := metered
    meteredInvoicedCents := meteredInvoiced
    meteredUninvoicedCents := meteredUninvoiced
    invoicedCents := issued
    paidCents := paid
    outstandingCents := subtotals (invoices.filter fun inv ↦ awaitsPayment inv.status)
    voidedCents := subtotals (invoices.filter fun inv ↦ inv.status = .void)
    invoicedNotPaidCents := issued - paid
    perProject := rows.insertionSort fun a b ↦ a.projectId ≤ b.projectId
    invoices := invoices.map fun inv ↦ ⟨inv.number, inv.status, inv.subtotalCents⟩
    clean := decide (meteredUninvoiced = 0 ∧ meteredInvoiced = issued) }

def reconciliationReport (firm : Firm) (periodStart periodEnd : Option Time) :
    Tx Reconciliation := do
  let events ← Session.select (.rows .usageEvents) fun s ↦
    firmEvents s firm.id periodStart periodEnd
  let invoices ← Session.select (.rows .invoices) fun s ↦
    firmInvoices s firm.id periodStart periodEnd
  let rows ← nameProjects (perProject events)
  return reconcile firm periodStart periodEnd events invoices rows

/-- A row of the query grouped by status. -/
structure StatusRow where
  status : InvoiceStatus
  amountCents : ℤ
  count : ℕ
  deriving DecidableEq, Repr

structure BillingSummary where
  firmId : String
  billingMode : BillingMode
  currency : String
  uninvoicedCents : ℤ
  uninvoicedEvents : ℕ
  invoicesByStatus : List StatusRow
  outstandingCents : ℤ
  deriving DecidableEq, Repr

/-- The rows with `invoice_id IS NULL`. -/
def unattached (s : Db) (firmId : String) : List UsageEvent :=
  s.usageEvents.rows.filter fun ev ↦ ev.firmId = firmId ∧ ev.invoiceId = none

/-- `GROUP BY` status, with one row for each status that occurs. -/
def groupByStatus (invoices : List Invoice) : List StatusRow :=
  (invoices.map Invoice.status).dedup.map fun status ↦
    let group := invoices.filter fun inv ↦ inv.status = status
    ⟨status, subtotals group, group.length⟩

def firmBillingSummary (firm : Firm) : Tx BillingSummary := do
  let (cents, count) ← Session.select (.rows .usageEvents) fun s ↦
    (amounts (unattached s firm.id), (unattached s firm.id).length)
  let groups ← Session.select (.rows .invoices) fun s ↦
    groupByStatus (s.invoices.rows.filter fun inv ↦ inv.firmId = firm.id)
  return {
    firmId := firm.id
    billingMode := firm.billingMode
    currency := firm.currency
    uninvoicedCents := cents
    uninvoicedEvents := count
    invoicesByStatus := groups
    outstandingCents :=
      ((groups.filter fun g ↦ awaitsPayment g.status).map StatusRow.amountCents).sum }

def ProjectRow.asJson (row : ProjectRow) : Json :=
  .obj [("project_id", .str row.projectId), ("metered_cents", .int row.meteredCents),
    ("invoiced_cents", .int row.invoicedCents), ("uninvoiced_cents", .int row.uninvoicedCents),
    ("records", .int row.records), ("project_name", Json.ofOption .str row.projectName)]

def InvoiceRow.asJson (row : InvoiceRow) : Json :=
  .obj [("number", .str row.number), ("status", .str row.status.value),
    ("subtotal_cents", .int row.subtotalCents)]

def Reconciliation.asJson (env : Env) (r : Reconciliation) : Json :=
  .obj [("firm_id", .str r.firmId), ("firm_name", .str r.firmName),
    ("billing_mode", .str r.billingMode.value), ("currency", .str r.currency),
    ("period_start", Json.ofOption (fun t ↦ .str (env.isoformat t)) r.periodStart),
    ("period_end", Json.ofOption (fun t ↦ .str (env.isoformat t)) r.periodEnd),
    ("metered_cents", .int r.meteredCents),
    ("metered_invoiced_cents", .int r.meteredInvoicedCents),
    ("metered_uninvoiced_cents", .int r.meteredUninvoicedCents),
    ("invoiced_cents", .int r.invoicedCents), ("paid_cents", .int r.paidCents),
    ("outstanding_cents", .int r.outstandingCents), ("voided_cents", .int r.voidedCents),
    ("invoiced_not_paid_cents", .int r.invoicedNotPaidCents),
    ("per_project", .arr (r.perProject.map ProjectRow.asJson)),
    ("invoices", .arr (r.invoices.map InvoiceRow.asJson)), ("clean", .bool r.clean)]

def BillingSummary.asJson (b : BillingSummary) : Json :=
  .obj [("firm_id", .str b.firmId), ("billing_mode", .str b.billingMode.value),
    ("currency", .str b.currency),
    ("uninvoiced", .obj [("amount_cents", .int b.uninvoicedCents),
      ("events", .int b.uninvoicedEvents)]),
    ("invoices_by_status", .obj (b.invoicesByStatus.map fun g ↦
      (g.status.value, .obj [("amount_cents", .int g.amountCents), ("count", .int g.count)]))),
    ("outstanding_cents", .int b.outstandingCents)]

section Answers

variable {s : Db} {firm : Firm}

def withName (s : Db) (row : ProjectRow) : ProjectRow :=
  { row with projectName := (s.projects.find? row.projectId).map Project.name }

theorem answer_nameProjects (rows : List ProjectRow) :
    (nameProjects rows).answer s = some (.ok (rows.map (withName s))) := by
  induction rows with
  | nil => rfl
  | cons row rows ih =>
      unfold nameProjects
      rw [Prog.answer_select_bind, Prog.answer_bind_ok ih]
      rfl

def reconciliationOf (s : Db) (firm : Firm) (periodStart periodEnd : Option Time) :
    Reconciliation :=
  let events := firmEvents s firm.id periodStart periodEnd
  reconcile firm periodStart periodEnd events (firmInvoices s firm.id periodStart periodEnd)
    ((perProject events).map (withName s))

theorem answer_reconciliationReport (periodStart periodEnd : Option Time) :
    (reconciliationReport firm periodStart periodEnd).answer s =
      some (.ok (reconciliationOf s firm periodStart periodEnd)) := by
  unfold reconciliationReport
  rw [Prog.answer_select_bind, Prog.answer_select_bind,
    Prog.answer_bind_ok (answer_nameProjects _)]
  rfl

def billingSummaryOf (s : Db) (firm : Firm) : BillingSummary :=
  let groups := groupByStatus (s.invoices.rows.filter fun inv ↦ inv.firmId = firm.id)
  { firmId := firm.id
    billingMode := firm.billingMode
    currency := firm.currency
    uninvoicedCents := amounts (unattached s firm.id)
    uninvoicedEvents := (unattached s firm.id).length
    invoicesByStatus := groups
    outstandingCents :=
      ((groups.filter fun g ↦ awaitsPayment g.status).map StatusRow.amountCents).sum }

theorem answer_firmBillingSummary :
    (firmBillingSummary firm).answer s = some (.ok (billingSummaryOf s firm)) := rfl

end Answers

end Billing

end HumanDataFactory
