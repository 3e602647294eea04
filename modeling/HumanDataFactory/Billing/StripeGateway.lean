import HumanDataFactory.Session

/-!
# The Stripe gateway

`billing/stripe_gateway.py`: the live gateway calls Stripe, the fake one makes
identifiers up.  Neither touches the database.
-/

namespace HumanDataFactory

open Transact

namespace StripeGateway

variable (env : Env)

/-- `settings.stripe_secret_key` is set. -/
def live : Prop := env.stripeSecretKey ≠ ""

instance : Decidable (live env) :=
  inferInstanceAs (Decidable (_ ≠ _))

/-- An identifier from the first column that is not empty. -/
def truthyId (id : Option String) : Option String :=
  id.filter fun s ↦ s ≠ ""

def take (n : ℕ) (s : String) : String :=
  String.ofList (s.toList.take n)

def ensureCustomer (firm : Firm) : Tx String :=
  match truthyId firm.stripeCustomerId with
  | some id => return id
  | none =>
      if live env then do
        let customer ← Prog.ask (.customerCreate firm.name firm.billingEmail firm.id : Call)
        Session.returned customer
      else return s!"cus_fake_{take 12 firm.id}"

/-- The loop over line items: each item is created before the next is. -/
def createItems (customer : Option String) (invoice : Invoice) : List LineItem → Tx Unit
  | [] => return ()
  | item :: items => do
      let done ← Prog.ask (.invoiceItemCreate customer item.amountCents invoice.currency
        item.description invoice.id : Call)
      Session.returned done
      createItems customer invoice items

def pushInvoice (firm : Firm) (invoice : Invoice) : Tx (String × String) :=
  if live env then do
    createItems firm.stripeCustomerId invoice invoice.lineItems
    let created ← Prog.ask (.invoiceCreate firm.stripeCustomerId invoice.id invoice.number : Call)
    let stInvoice ← Session.returned created
    let finalized ← Prog.ask (.finalizeInvoice stInvoice : Call)
    let (stripeId, url) ← Session.returned finalized
    let sent ← Prog.ask (.sendInvoice stripeId : Call)
    Session.returned sent
    return (stripeId, url.getD "")
  else do
    let hex ← Session.uuid4
    let fakeId := s!"in_fake_{take 16 hex}"
    return (fakeId, s!"https://invoice.example/{fakeId}")

def createCheckoutSession (firm : Firm) (invoice : Invoice) (successUrl cancelUrl : String) :
    Tx (String × String) :=
  if live env then do
    let created ← Prog.ask (.sessionCreate (truthyId firm.stripeCustomerId) invoice.currency
      invoice.subtotalCents s!"Invoice {invoice.number}" s!"Human Data Factory — {firm.name}"
      invoice.id invoice.number successUrl cancelUrl : Call)
    let (sessionId, url) ← Session.returned created
    return (sessionId, url.getD "")
  else do
    let hex ← Session.uuid4
    let fakeId := s!"cs_fake_{take 16 hex}"
    return (fakeId, s!"https://checkout.example/{fakeId}")

/-- `parse_webhook` under the `except` clauses of its endpoint. -/
def parseWebhook (payload : String) (signature : Option String) : Except PyError Json :=
  if live env then
    if env.stripeWebhookSecret = "" then
      .error (.http 503 "STRIPE_WEBHOOK_SECRET is not configured")
    else
      match env.constructEvent payload (signature.getD "") env.stripeWebhookSecret with
      | some event => .ok event
      | none => .error (.http 400 "invalid webhook payload or signature")
  else if env.authDisabled then
    match env.jsonLoads payload with
    | some event => .ok event
    | none => .error (.http 400 "invalid webhook payload or signature")
  else
    .error (.http 503 "stripe webhooks require STRIPE_WEBHOOK_SECRET in production")

/-! ## The gateway leaves the database alone

Every program of this module is built from calls and exceptions only. -/

theorem writeless_ensureCustomer (firm : Firm) : Prog.Writeless (ensureCustomer env firm) := by
  unfold ensureCustomer
  split
  · exact .pure _
  · split
    · exact (Prog.Writeless.ask _).bind (Prog.Writeless.getSome _)
    · exact .pure _

theorem writeless_createItems (customer : Option String) (invoice : Invoice)
    (items : List LineItem) : Prog.Writeless (createItems customer invoice items) := by
  induction items with
  | nil => exact .pure _
  | cons item items ih =>
      exact (Prog.Writeless.ask _).bind fun done ↦ (Prog.Writeless.getSome _ done).bind fun _ ↦ ih

theorem writeless_pushInvoice (firm : Firm) (invoice : Invoice) :
    Prog.Writeless (pushInvoice env firm invoice) := by
  unfold pushInvoice
  split
  · refine (writeless_createItems _ _ _).bind fun _ ↦ ?_
    refine (Prog.Writeless.ask _).bind fun created ↦ ?_
    refine (Prog.Writeless.getSome _ created).bind fun st ↦ ?_
    refine (Prog.Writeless.ask _).bind fun fin ↦ ?_
    refine (Prog.Writeless.getSome _ fin).bind fun done ↦ ?_
    refine (Prog.Writeless.ask _).bind fun sent ↦ (Prog.Writeless.getSome _ sent).bind fun _ ↦ ?_
    exact .pure _
  · exact (Prog.Writeless.ask _).bind fun hex ↦ .pure _

theorem writeless_createCheckoutSession (firm : Firm) (invoice : Invoice)
    (successUrl cancelUrl : String) :
    Prog.Writeless (createCheckoutSession env firm invoice successUrl cancelUrl) := by
  unfold createCheckoutSession
  split
  · exact (Prog.Writeless.ask _).bind fun created ↦
      (Prog.Writeless.getSome _ created).bind fun _ ↦ .pure _
  · exact (Prog.Writeless.ask _).bind fun hex ↦ .pure _

end StripeGateway

end HumanDataFactory
