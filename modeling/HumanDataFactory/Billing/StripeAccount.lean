import HumanDataFactory.Billing.Effects
import HumanDataFactory.Development
import HumanDataFactory.Transact.Moments

/-!
# The Stripe account

A world that keeps what Stripe was told: customers with the firm they stand
for, items that wait for an invoice, and invoices.  A call that returned has
taken effect for good, creating an invoice collects the pending items of its
customer, identifiers are new, and a call that raised did nothing.
-/

namespace HumanDataFactory

open Transact

namespace Stripe

structure Item where
  customer : Option String
  amount : ℤ
  deriving DecidableEq

/-- `total` sums the items that were collected. -/
structure RemoteInvoice where
  id : String
  customer : Option String
  total : ℤ
  finalized : Bool
  sent : Bool
  deriving DecidableEq

/-- The account, beside the sequence of the audit table. -/
structure Account where
  seq : ℕ
  /-- Customers with their `hdf_firm_id`. -/
  customers : List (String × String)
  pending : List Item
  invoices : List RemoteInvoice
  deriving DecidableEq

namespace Account

/-- The amounts that wait for the next invoice of a customer. -/
def pendingOf (w : Account) (customer : Option String) : List ℤ :=
  (w.pending.filter fun item ↦ item.customer = customer).map Item.amount

/-- The invoice is to a customer of the firm. -/
def Owns (w : Account) (firmId : String) (customer : Option String) : Prop :=
  ∃ c ∈ w.customers, customer = some c.1 ∧ c.2 = firmId

instance (w : Account) (firmId : String) (customer : Option String) :
    Decidable (w.Owns firmId customer) :=
  inferInstanceAs (Decidable (∃ c ∈ w.customers, _))

/-- What the finalized invoices of a firm come to. -/
def billed (w : Account) (firmId : String) : ℤ :=
  ((w.invoices.filter fun i ↦ i.finalized = true ∧ w.Owns firmId i.customer).map
    RemoteInvoice.total).sum

/-- Some invoice with this identifier was sent. -/
def Sent (w : Account) (id : String) : Prop :=
  ∃ i ∈ w.invoices, i.id = id ∧ i.sent = true

instance (w : Account) (id : String) : Decidable (w.Sent id) :=
  inferInstanceAs (Decidable (∃ i ∈ w.invoices, _))

/-- No customer has this identifier, and nothing is on it. -/
def Unused (w : Account) (id : String) : Prop :=
  (∀ c ∈ w.customers, c.1 ≠ id) ∧ (∀ item ∈ w.pending, item.customer ≠ some id) ∧
    ∀ i ∈ w.invoices, i.customer ≠ some id

instance (w : Account) (id : String) : Decidable (w.Unused id) :=
  inferInstanceAs (Decidable (_ ∧ _ ∧ _))

def addCustomer (w : Account) (id firmId : String) : Account :=
  { w with customers := (id, firmId) :: w.customers }

def addItem (w : Account) (customer : Option String) (amount : ℤ) : Account :=
  { w with pending := w.pending ++ [⟨customer, amount⟩] }

def addItems (w : Account) (customer : Option String) (amounts : List ℤ) : Account :=
  { w with pending := w.pending ++ amounts.map fun amount ↦ ⟨customer, amount⟩ }

/-- A new draft takes the pending items of its customer. -/
def collect (w : Account) (id : String) (customer : Option String) : Account :=
  { w with
    pending := w.pending.filter fun item ↦ item.customer ≠ customer
    invoices := ⟨id, customer, (w.pendingOf customer).sum, false, false⟩ :: w.invoices }

def finalize (w : Account) (id : String) : Account :=
  { w with
    invoices := w.invoices.map fun i ↦ if i.id = id then { i with finalized := true } else i }

def send (w : Account) (id : String) : Account :=
  { w with invoices := w.invoices.map fun i ↦ if i.id = id then { i with sent := true } else i }

end Account

def accept : (c : Call) → Reply c → Account → Option Account
  | .nextSeq, r, w => if r = w.seq then some { w with seq := w.seq + 1 } else none
  | .customerCreate _ _ firmId, some id, w =>
      if w.Unused id then some (w.addCustomer id firmId) else none
  | .invoiceItemCreate customer amount _ _ _, some _, w => some (w.addItem customer amount)
  | .invoiceCreate customer _ _, some id, w =>
      if ∀ i ∈ w.invoices, i.id ≠ id then some (w.collect id customer) else none
  | .finalizeInvoice id, some r, w => if r.1 = id then some (w.finalize id) else none
  | .sendInvoice id, some _, w => some (w.send id)
  | _, _, w => some w

def stripeMachine : Machine Db Write Call Reply Account where
  apply := Db.apply
  accept := accept

@[simp] theorem stripeMachine_apply : stripeMachine.apply = Db.apply := rfl

@[simp] theorem stripeMachine_accept : stripeMachine.accept = accept := rfl

theorem stripeMachine_refines : stripeMachine.Refines machine Account.seq where
  apply := rfl
  accept := by
    intro c r w w' h
    cases c <;> simp only [stripeMachine_accept, accept, machine_accept,
      HumanDataFactory.accept] at h ⊢ <;> grind [Account.addCustomer, Account.addItem,
        Account.collect, Account.finalize, Account.send]

namespace Account

variable {w : Account} {firmId : String} {customer : Option String}

@[simp] theorem pendingOf_addCustomer (w : Account) (id firmId : String)
    (customer : Option String) :
    (w.addCustomer id firmId).pendingOf customer = w.pendingOf customer := rfl

theorem addItems_addItem (w : Account) (customer : Option String) (amount : ℤ)
    (amounts : List ℤ) :
    (w.addItem customer amount).addItems customer amounts =
      w.addItems customer (amount :: amounts) := by
  simp [addItem, addItems]

@[simp] theorem addItems_nil (w : Account) (customer : Option String) :
    w.addItems customer [] = w := by
  simp [addItems]

@[simp] theorem pendingOf_addItems (w : Account) (customer : Option String) (amounts : List ℤ) :
    (w.addItems customer amounts).pendingOf customer = w.pendingOf customer ++ amounts := by
  simp [pendingOf, addItems, List.filter_map, Function.comp_def]

@[simp] theorem pendingOf_collect (w : Account) (id : String) (customer : Option String) :
    (w.collect id customer).pendingOf customer = [] := by
  simp [pendingOf, collect, List.filter_filter]

@[simp] theorem pendingOf_finalize (w : Account) (id : String) (customer : Option String) :
    (w.finalize id).pendingOf customer = w.pendingOf customer := rfl

@[simp] theorem pendingOf_send (w : Account) (id : String) (customer : Option String) :
    (w.send id).pendingOf customer = w.pendingOf customer := rfl

theorem pendingOf_of_unused {id : String} (h : w.Unused id) : w.pendingOf (some id) = [] := by
  simp only [pendingOf, List.map_eq_nil_iff, List.filter_eq_nil_iff, decide_eq_true_eq]
  exact h.2.1

theorem owns_addCustomer {id : String} :
    (w.addCustomer id firmId).Owns firmId (some id) :=
  ⟨(id, firmId), List.mem_cons_self, rfl, rfl⟩

theorem billed_addCustomer {id : String} (h : w.Unused id) :
    (w.addCustomer id firmId).billed firmId = w.billed firmId := by
  unfold billed
  congr 2
  apply List.filter_congr
  intro i hi
  have hother : i.customer ≠ some id := h.2.2 i hi
  apply decide_eq_decide.mpr
  simp [Owns, addCustomer, hother]

@[simp] theorem billed_addItems (w : Account) (customer : Option String) (amounts : List ℤ)
    (firmId : String) : (w.addItems customer amounts).billed firmId = w.billed firmId := rfl

@[simp] theorem billed_collect (w : Account) (id : String) (customer : Option String)
    (firmId : String) : (w.collect id customer).billed firmId = w.billed firmId := rfl

/-- Only finalizing bills: the new invoice is the only one with its identifier. -/
theorem billed_finalize_collect {id : String} (hnew : ∀ i ∈ w.invoices, i.id ≠ id)
    (howns : w.Owns firmId customer) :
    ((w.collect id customer).finalize id).billed firmId =
      w.billed firmId + (w.pendingOf customer).sum := by
  have hrest : (w.invoices.map fun i ↦ if i.id = id then { i with finalized := true } else i) =
      w.invoices := by
    conv_rhs => rw [← List.map_id w.invoices]
    apply List.map_congr_left
    intro i hi
    exact if_neg (hnew i hi)
  unfold billed finalize collect
  simp only [List.map_cons, hrest, if_true]
  rw [List.filter_cons_of_pos, List.map_cons, List.sum_cons]
  · exact add_comm _ _
  · exact decide_eq_true ⟨rfl, howns⟩

@[simp] theorem billed_send (w : Account) (id firmId : String) :
    (w.send id).billed firmId = w.billed firmId := by
  unfold billed send
  rw [List.filter_map, List.map_map]
  have hkeep : ∀ i : RemoteInvoice,
      (if i.id = id then { i with sent := true } else i).finalized = i.finalized ∧
        (if i.id = id then { i with sent := true } else i).customer = i.customer ∧
          (if i.id = id then { i with sent := true } else i).total = i.total := by
    intro i
    split <;> exact ⟨rfl, rfl, rfl⟩
  simp only [Function.comp_def, hkeep]
  rfl

end Account

end Stripe

/-! ## A firm that pays through Stripe

The development set-up with keys for Stripe, up to the approval of the first
submission, and an account without customers. -/

namespace Development

open Stripe

def paidBody : String :=
  bodyOf (stripeEvent "invoice.paid" [("id", .str "in_")])

def stripeEnv : Env :=
  { env with
    stripeSecretKey := "sk"
    stripeWebhookSecret := "whsec"
    constructEvent := fun payload _ _ ↦
      if payload = paidBody then some (stripeEvent "invoice.paid" [("id", .str "in_")]) else none }

def stripeAnswers : Oracle Call Reply Account
  | _, w, .customerCreate .. => some ("cus_" ++ identifier w.customers.length)
  | _, w, .invoiceCreate .. => some ("in_" ++ identifier w.invoices.length)
  | _, _, .finalizeInvoice id => some (id, none)
  | n, w, c => answers n w.seq c

def unbilledRun : List (Served Api.Http Db Json) × Db × ℕ :=
  machine.simulateRun answers (Api.serve stripeEnv)
    ((setUp .stripe ++ [review .pass]).map http) 1 Db.empty 1

def unbilledStore : Db := unbilledRun.2.1

def newAccount : Account := ⟨unbilledRun.2.2, [], [], []⟩

def alderPractice : Firm := ⟨firmId, "Alder", "ap@alder.example.com", .stripe, "usd", "", none⟩

end Development

end HumanDataFactory
