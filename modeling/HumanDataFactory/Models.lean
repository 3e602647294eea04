import HumanDataFactory.KeyedTable
import HumanDataFactory.Python.Json

/-!
# Rows and tables

The rows of `models.py` as structures, its enumerations as inductive types,
and the database as one keyed table for each, with the audit log as the list
of its rows in `seq` order.  Columns that no operation reads are left out.
-/

namespace HumanDataFactory

/-- Instants in microseconds since the epoch. -/
abbrev Time := ℤ

inductive Role
  | admin
  | ops
  | reviewer
  | expert
  | client
  deriving DecidableEq, Repr

inductive BillingMode
  | external
  | stripe
  deriving DecidableEq, Repr

inductive InvoiceStatus
  | draft
  | issuedExternal
  | open
  | paid
  | void
  deriving DecidableEq, Repr

inductive DomainTrack
  | financialAccounting
  | auditAssurance
  | tax
  | financialAnalysis
  | managerialAccounting
  deriving DecidableEq, Repr

inductive TaskType
  | sft
  | preference
  | eval
  deriving DecidableEq, Repr

inductive ExpertStatus
  | pending
  | qualified
  | suspended
  deriving DecidableEq, Repr

inductive TaskStatus
  | open
  | assigned
  | completed
  deriving DecidableEq, Repr

inductive SubmissionStatus
  | submitted
  | autoCheckFailed
  | autoQcPending
  | humanReview
  | needsRevision
  | approved
  | rejected
  deriving DecidableEq, Repr

inductive ReviewKind
  | deterministic
  | autoLlm
  | human
  | goldCheck
  deriving DecidableEq, Repr

inductive Verdict
  | pass
  | fail
  | revise
  deriving DecidableEq, Repr

inductive BatchStatus
  | pendingApproval
  | released
  deriving DecidableEq, Repr

def Role.value : Role → String
  | admin => "admin"
  | ops => "ops"
  | reviewer => "reviewer"
  | expert => "expert"
  | client => "client"

def BillingMode.value : BillingMode → String
  | external => "external"
  | stripe => "stripe"

def InvoiceStatus.value : InvoiceStatus → String
  | draft => "draft"
  | issuedExternal => "issued_external"
  | .open => "open"
  | paid => "paid"
  | void => "void"

def DomainTrack.value : DomainTrack → String
  | financialAccounting => "financial_accounting"
  | auditAssurance => "audit_assurance"
  | tax => "tax"
  | financialAnalysis => "financial_analysis"
  | managerialAccounting => "managerial_accounting"

def TaskType.value : TaskType → String
  | sft => "sft"
  | preference => "preference"
  | eval => "eval"

def ExpertStatus.value : ExpertStatus → String
  | pending => "pending"
  | qualified => "qualified"
  | suspended => "suspended"

def TaskStatus.value : TaskStatus → String
  | .open => "open"
  | assigned => "assigned"
  | completed => "completed"

def SubmissionStatus.value : SubmissionStatus → String
  | submitted => "submitted"
  | autoCheckFailed => "auto_check_failed"
  | autoQcPending => "auto_qc_pending"
  | humanReview => "human_review"
  | needsRevision => "needs_revision"
  | approved => "approved"
  | rejected => "rejected"

def ReviewKind.value : ReviewKind → String
  | deterministic => "deterministic"
  | autoLlm => "auto_llm"
  | human => "human"
  | goldCheck => "gold_check"

def Verdict.value : Verdict → String
  | pass => "pass"
  | fail => "fail"
  | revise => "revise"

def BatchStatus.value : BatchStatus → String
  | pendingApproval => "pending_approval"
  | released => "released"

structure Firm where
  id : String
  name : String
  billingEmail : String
  billingMode : BillingMode
  currency : String
  externalReference : String
  stripeCustomerId : Option String
  deriving DecidableEq, Repr

structure User where
  id : String
  name : String
  email : String
  role : Role
  firmId : Option String
  expertId : Option String
  active : Bool
  deriving DecidableEq, Repr

structure ApiKey where
  id : String
  userId : String
  keyHash : String
  active : Bool
  deriving DecidableEq, Repr

structure Expert where
  id : String
  name : String
  email : String
  credentials : List String
  status : ExpertStatus
  isReviewer : Bool
  qualityScore : PyFloat
  approvedCount : ℕ
  goldPassCount : ℕ
  goldFailCount : ℕ
  deriving DecidableEq, Repr

structure Qualification where
  id : String
  expertId : String
  track : DomainTrack
  examScore : PyFloat
  passed : Bool
  deriving DecidableEq, Repr

structure Project where
  id : String
  name : String
  firmId : String
  track : DomainTrack
  taskType : TaskType
  guidelines : String
  rubricId : String
  createdBy : String
  deriving DecidableEq, Repr

structure Task where
  id : String
  projectId : String
  prompt : String
  context : Json
  isGold : Bool
  goldAnswer : Option Json
  status : TaskStatus
  assignedTo : Option String
  createdAt : Time
  deriving Repr

structure Submission where
  id : String
  taskId : String
  expertId : String
  version : ℕ
  content : Json
  status : SubmissionStatus
  sampledForHumanReview : Bool
  createdAt : Time
  deriving Repr

structure Review where
  id : String
  submissionId : String
  kind : ReviewKind
  reviewerId : String
  verdict : Verdict
  overallScore : Option PyFloat
  detail : Json
  createdAt : Time
  deriving Repr

structure AuditEvent where
  seq : ℕ
  actor : String
  action : String
  entityType : String
  entityId : String
  payload : Json
  prevHash : String
  hash : String
  createdAt : Time
  deriving Repr

structure RateCard where
  id : String
  firmId : Option String
  taskType : TaskType
  unitPriceCents : ℤ
  active : Bool
  createdAt : Time
  deriving DecidableEq, Repr

structure UsageEvent where
  id : String
  firmId : String
  projectId : String
  taskId : String
  submissionId : String
  kind : String
  quantity : ℤ
  unitPriceCents : ℤ
  amountCents : ℤ
  currency : String
  invoiceId : Option String
  createdAt : Time
  deriving DecidableEq, Repr

structure LineItem where
  projectId : String
  kind : String
  unitPriceCents : ℤ
  quantity : ℤ
  amountCents : ℤ
  description : String
  deriving DecidableEq, Repr

structure Invoice where
  id : String
  number : String
  firmId : String
  mode : BillingMode
  periodStart : Time
  periodEnd : Time
  subtotalCents : ℤ
  currency : String
  status : InvoiceStatus
  lineItems : List LineItem
  stripeInvoiceId : Option String
  hostedInvoiceUrl : Option String
  checkoutSessionId : Option String
  externalPaidReference : Option String
  issuedBy : String
  issuedAt : Option Time
  paidAt : Option Time
  createdAt : Time
  deriving DecidableEq, Repr

structure ExportBatch where
  id : String
  projectId : String
  requestedBy : String
  approvedBy : Option String
  path : Option String
  manifest : Json
  status : BatchStatus
  deriving Repr

structure Db where
  firms : Table String Firm Firm.id
  users : Table String User User.id
  apiKeys : Table String ApiKey ApiKey.id
  experts : Table String Expert Expert.id
  qualifications : Table String Qualification Qualification.id
  projects : Table String Project Project.id
  tasks : Table String Task Task.id
  submissions : Table String Submission Submission.id
  reviews : Table String Review Review.id
  auditEvents : List AuditEvent
  rateCards : Table String RateCard RateCard.id
  usageEvents : Table String UsageEvent UsageEvent.id
  invoices : Table String Invoice Invoice.id
  exportBatches : Table String ExportBatch ExportBatch.id

def Db.empty : Db where
  firms := .empty
  users := .empty
  apiKeys := .empty
  experts := .empty
  qualifications := .empty
  projects := .empty
  tasks := .empty
  submissions := .empty
  reviews := .empty
  auditEvents := []
  rateCards := .empty
  usageEvents := .empty
  invoices := .empty
  exportBatches := .empty

/-- The audit log is read in `seq` order, so a row is kept at its place. -/
def insertBySeq (ev : AuditEvent) : List AuditEvent → List AuditEvent
  | [] => [ev]
  | e :: es => if ev.seq < e.seq then ev :: e :: es else e :: insertBySeq ev es

end HumanDataFactory
