import HumanDataFactory.Settings
import HumanDataFactory.Transact.ReadCommitted
import HumanDataFactory.Transact.Serial

/-!
# The database session

What a request can do to the database and ask of the outside: the labels of
its queries, its column writes and inserts, and its calls to the runtime, the
model API, Stripe, the file system and the object store.
-/

namespace HumanDataFactory

open Transact

inductive TableName
  | firms
  | users
  | apiKeys
  | experts
  | qualifications
  | projects
  | tasks
  | submissions
  | reviews
  | auditEvents
  | rateCards
  | usageEvents
  | invoices
  | exportBatches
  deriving DecidableEq, Repr

/-- What a query looks at: one row by key, a `select`, or the newest audit
event that `audit.record` chains to. -/
inductive Query
  | row (t : TableName)
  | rows (t : TableName)
  | lastEvent
  deriving DecidableEq, Repr

inductive Write
  | insertFirm (a : Firm)
  | setStripeCustomerId (id : String) (v : Option String)
  | insertUser (a : User)
  | deactivateUser (id : String)
  | insertApiKey (a : ApiKey)
  | deactivateApiKey (id : String)
  | insertExpert (a : Expert)
  | setExpertStatus (id : String) (v : ExpertStatus)
  | setQualityScore (id : String) (v : PyFloat)
  | setApprovedCount (id : String) (v : ℕ)
  | setGoldPassCount (id : String) (v : ℕ)
  | setGoldFailCount (id : String) (v : ℕ)
  | insertQualification (a : Qualification)
  | insertProject (a : Project)
  | insertTask (a : Task)
  | setAssignedTo (id : String) (v : Option String)
  | setTaskStatus (id : String) (v : TaskStatus)
  | insertSubmission (a : Submission)
  | setSubmissionStatus (id : String) (v : SubmissionStatus)
  | setSampledForHumanReview (id : String) (v : Bool)
  | insertReview (a : Review)
  | insertAuditEvent (a : AuditEvent)
  | insertRateCard (a : RateCard)
  | deactivateRateCard (id : String)
  | insertUsageEvent (a : UsageEvent)
  | setInvoiceId (id : String) (v : Option String)
  | insertInvoice (a : Invoice)
  | setStripeInvoice (id : String) (stripeId url : Option String)
  | setInvoiceStatus (id : String) (v : InvoiceStatus)
  | setIssuedAt (id : String) (v : Option Time)
  | setPaidAt (id : String) (v : Option Time)
  | setExternalPaidReference (id : String) (v : Option String)
  | setCheckoutSessionId (id : String) (v : Option String)
  | insertExportBatch (a : ExportBatch)
  | releaseBatch (id : String) (approvedBy path : Option String) (manifest : Json)

namespace Db

/-- A write, refused when it breaks a primary key or a declared uniqueness:
firm names, user and expert emails, key hashes and invoice numbers. -/
def apply : Write → Db → Option Db
  | .insertFirm a, s =>
      if s.firms.Vacant a.id ∧ ∀ b ∈ s.firms.rows, b.name ≠ a.name then
        some { s with firms := s.firms.push a } else none
  | .setStripeCustomerId id v, s =>
      some { s with firms :=
        s.firms.modify id (fun a ↦ { a with stripeCustomerId := v }) fun _ ↦ rfl }
  | .insertUser a, s =>
      if s.users.Vacant a.id ∧ ∀ b ∈ s.users.rows, b.email ≠ a.email then
        some { s with users := s.users.push a } else none
  | .deactivateUser id, s =>
      some { s with users := s.users.modify id (fun a ↦ { a with active := false }) fun _ ↦ rfl }
  | .insertApiKey a, s =>
      if s.apiKeys.Vacant a.id ∧ ∀ b ∈ s.apiKeys.rows, b.keyHash ≠ a.keyHash then
        some { s with apiKeys := s.apiKeys.push a } else none
  | .deactivateApiKey id, s =>
      some { s with apiKeys :=
        s.apiKeys.modify id (fun a ↦ { a with active := false }) fun _ ↦ rfl }
  | .insertExpert a, s =>
      if s.experts.Vacant a.id ∧ ∀ b ∈ s.experts.rows, b.email ≠ a.email then
        some { s with experts := s.experts.push a } else none
  | .setExpertStatus id v, s =>
      some { s with experts := s.experts.modify id (fun a ↦ { a with status := v }) fun _ ↦ rfl }
  | .setQualityScore id v, s =>
      some { s with experts :=
        s.experts.modify id (fun a ↦ { a with qualityScore := v }) fun _ ↦ rfl }
  | .setApprovedCount id v, s =>
      some { s with experts :=
        s.experts.modify id (fun a ↦ { a with approvedCount := v }) fun _ ↦ rfl }
  | .setGoldPassCount id v, s =>
      some { s with experts :=
        s.experts.modify id (fun a ↦ { a with goldPassCount := v }) fun _ ↦ rfl }
  | .setGoldFailCount id v, s =>
      some { s with experts :=
        s.experts.modify id (fun a ↦ { a with goldFailCount := v }) fun _ ↦ rfl }
  | .insertQualification a, s =>
      if s.qualifications.Vacant a.id then
        some { s with qualifications := s.qualifications.push a } else none
  | .insertProject a, s =>
      if s.projects.Vacant a.id then
        some { s with projects := s.projects.push a } else none
  | .insertTask a, s =>
      if s.tasks.Vacant a.id then some { s with tasks := s.tasks.push a } else none
  | .setAssignedTo id v, s =>
      some { s with tasks := s.tasks.modify id (fun a ↦ { a with assignedTo := v }) fun _ ↦ rfl }
  | .setTaskStatus id v, s =>
      some { s with tasks := s.tasks.modify id (fun a ↦ { a with status := v }) fun _ ↦ rfl }
  | .insertSubmission a, s =>
      if s.submissions.Vacant a.id then
        some { s with submissions := s.submissions.push a } else none
  | .setSubmissionStatus id v, s =>
      some { s with submissions :=
        s.submissions.modify id (fun a ↦ { a with status := v }) fun _ ↦ rfl }
  | .setSampledForHumanReview id v, s =>
      some { s with submissions :=
        s.submissions.modify id (fun a ↦ { a with sampledForHumanReview := v }) fun _ ↦ rfl }
  | .insertReview a, s =>
      if s.reviews.Vacant a.id then some { s with reviews := s.reviews.push a } else none
  | .insertAuditEvent a, s => some { s with auditEvents := insertBySeq a s.auditEvents }
  | .insertRateCard a, s =>
      if s.rateCards.Vacant a.id then
        some { s with rateCards := s.rateCards.push a } else none
  | .deactivateRateCard id, s =>
      some { s with rateCards :=
        s.rateCards.modify id (fun a ↦ { a with active := false }) fun _ ↦ rfl }
  | .insertUsageEvent a, s =>
      if s.usageEvents.Vacant a.id then
        some { s with usageEvents := s.usageEvents.push a } else none
  | .setInvoiceId id v, s =>
      some { s with usageEvents :=
        s.usageEvents.modify id (fun a ↦ { a with invoiceId := v }) fun _ ↦ rfl }
  | .insertInvoice a, s =>
      if s.invoices.Vacant a.id ∧ ∀ b ∈ s.invoices.rows, b.number ≠ a.number then
        some { s with invoices := s.invoices.push a } else none
  | .setStripeInvoice id stripeId url, s =>
      some { s with
        invoices := s.invoices.modify id
          (fun a ↦ { a with stripeInvoiceId := stripeId, hostedInvoiceUrl := url })
          fun _ ↦ rfl }
  | .setInvoiceStatus id v, s =>
      some { s with invoices := s.invoices.modify id (fun a ↦ { a with status := v }) fun _ ↦ rfl }
  | .setIssuedAt id v, s =>
      some { s with invoices :=
        s.invoices.modify id (fun a ↦ { a with issuedAt := v }) fun _ ↦ rfl }
  | .setPaidAt id v, s =>
      some { s with invoices := s.invoices.modify id (fun a ↦ { a with paidAt := v }) fun _ ↦ rfl }
  | .setExternalPaidReference id v, s =>
      some { s with invoices :=
        s.invoices.modify id (fun a ↦ { a with externalPaidReference := v }) fun _ ↦ rfl }
  | .setCheckoutSessionId id v, s =>
      some { s with invoices :=
        s.invoices.modify id (fun a ↦ { a with checkoutSessionId := v }) fun _ ↦ rfl }
  | .insertExportBatch a, s =>
      if s.exportBatches.Vacant a.id then
        some { s with exportBatches := s.exportBatches.push a } else none
  | .releaseBatch id approvedBy path manifest, s =>
      some { s with
        exportBatches := s.exportBatches.modify id
          (fun a ↦ { a with
            approvedBy := approvedBy, path := path, manifest := manifest, status := .released })
          fun _ ↦ rfl }

end Db

/-- What the model API makes of a review request. -/
inductive ModelReply
  | raised
  | refusal
  | message (text : Option String)

inductive Call
  | uuid4
  | now
  | nextSeq
  | tokenUrlsafe
  | messagesCreate (model taskPrompt : String) (context content : Json) (rubric : Rubric)
  | customerCreate (name email firmId : String)
  | invoiceItemCreate (customer : Option String) (amount : ℤ)
      (currency description invoiceId : String)
  | invoiceCreate (customer : Option String) (invoiceId number : String)
  | finalizeInvoice (stripeId : String)
  | sendInvoice (stripeId : String)
  | sessionCreate (customer : Option String) (currency : String) (unitAmount : ℤ)
      (name description invoiceId number successUrl cancelUrl : String)
  | mkdir (path : String)
  | writeText (path text : String)
  | readFile (path : String)
  | iterdir (path : String)
  | uploadFile (path bucket key : String)

/-- Answers to calls; `none` where the call raised. -/
abbrev Reply : Call → Type
  | .uuid4 => String
  | .now => Time
  | .nextSeq => ℕ
  | .tokenUrlsafe => String
  | .messagesCreate .. => ModelReply
  | .customerCreate .. => Option String
  | .invoiceItemCreate .. => Option Unit
  | .invoiceCreate .. => Option String
  | .finalizeInvoice _ => Option (String × Option String)
  | .sendInvoice _ => Option Unit
  | .sessionCreate .. => Option (String × Option String)
  | .mkdir _ => Option Unit
  | .writeText _ _ => Option Unit
  | .readFile _ => Option String
  | .iterdir _ => Option (List (String × Bool))
  | .uploadFile .. => Option Unit

abbrev Tx (α : Type) := Prog Db Write Query Call Reply PyError α

/-- The outside world as far as it is assumed: the sequence behind
`audit_events.seq` hands out its values in order.  Any other answer is
possible at any time. -/
def accept : (c : Call) → Reply c → ℕ → Option ℕ
  | .nextSeq, r, w => if r = w then some (w + 1) else none
  | _, _, w => some w

def machine : Machine Db Write Call Reply ℕ where
  apply := Db.apply
  accept := accept

@[simp] theorem machine_apply : machine.apply = Db.apply := rfl

@[simp] theorem machine_accept : machine.accept = accept := rfl

/-- The sequence only moves forward. -/
theorem moves_le {w w' : ℕ} (h : machine.Moves w w') : w ≤ w' := by
  induction h with
  | refl => exact le_rfl
  | @tail w₁ w₂ _ hstep ih =>
      obtain ⟨c, r, hr⟩ := hstep
      have hle : w₁ ≤ w₂ := by
        cases c <;> simp only [machine_accept, accept] at hr <;> grind
      exact ih.trans hle

/-- Writing one column in many rows of a table: `get` and `put` pick the table
out of the database. -/
theorem view_modifyAll {α : Type} {key : α → String} (get : Db → Table String α key)
    (put : Db → Table String α key → Db) (hget : ∀ s t, get (put s t) = t)
    (hput : ∀ s t u, put (put s t) u = put s u) (hself : ∀ s, put s (get s) = s)
    (write : String → Write) (f : α → α) (hf : ∀ a, key (f a) = key a)
    (hidem : ∀ a, f (f a) = f a)
    (hwrite : ∀ k s, Db.apply (write k) s = some (put s ((get s).modify k f hf)))
    (ks : List String) (s : Db) :
    machine.view (ks.map write) s = some (put s ((get s).mapRows
      (fun a ↦ if key a ∈ ks then f a else a) (Table.key_ite_mem hf ks))) := by
  rw [← Table.modifyAll_eq hidem]
  induction ks generalizing s with
  | nil => exact congrArg some (hself s).symm
  | cons k ks ih =>
      rw [List.map_cons, Machine.view_cons, machine_apply, hwrite, Option.bind_some, ih, hget,
        hput]
      rfl

namespace Session

/-- `db.get(Model, key)`, or any query answered by a function of the state. -/
abbrev select {α : Type} (q : Query) (f : Db → α) : Tx α :=
  Prog.select q f

abbrev write (w : Write) : Tx Unit :=
  Prog.emit w

/-- An assignment under an `if`. -/
def writeIf (c : Prop) [Decidable c] (w : Write) : Tx Unit :=
  if c then Prog.emit w else .pure ()

/-- `uuid.uuid4().hex`. -/
abbrev uuid4 : Tx String :=
  Prog.ask (.uuid4 : Call)

/-- `datetime.now(timezone.utc)`. -/
abbrev now : Tx Time :=
  Prog.ask (.now : Call)

abbrev raise {α : Type} (e : PyError) : Tx α :=
  Prog.raise e

/-- Go on with what a call returned, or let its exception through. -/
def returned {α : Type} : Option α → Tx α :=
  Prog.getSome (.outside "call failed")

section

variable {α : Type} {b : α} {s s' : Db} {w w' : ℕ}

@[simp] theorem exec_now_bind {k : Time → Tx α} :
    machine.Exec (now >>= k) s w b s' w' ↔ ∃ t, machine.Exec (k t) s w b s' w' := by
  simp [accept]

@[simp] theorem exec_uuid4_bind {k : String → Tx α} :
    machine.Exec (uuid4 >>= k) s w b s' w' ↔ ∃ id, machine.Exec (k id) s w b s' w' := by
  simp [accept]

theorem exec_writeIf_bind {c : Prop} [Decidable c] {u : Write} {k : Unit → Tx α} :
    machine.Exec (writeIf c u >>= k) s w b s' w' ↔
      ∃ s₁, (if c then Db.apply u s else some s) = some s₁ ∧ machine.Exec (k ()) s₁ w b s' w' := by
  by_cases h : c <;> simp [writeIf, h]

end

end Session

end HumanDataFactory
