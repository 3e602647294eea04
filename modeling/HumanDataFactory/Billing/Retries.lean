import HumanDataFactory.Billing.Grouping
import HumanDataFactory.Billing.StripeAccount
import HumanDataFactory.Concurrency.Invoicing

/-!
# Invoices that are tried again

`generate_invoice` calls Stripe several times inside one transaction.  A call
that raises rolls the transaction back, but not what the calls before it have
left with Stripe, and no call says which attempt it belongs to.  The retry
bills what is due, and with it every item that is still pending.
-/

namespace HumanDataFactory

open Transact

namespace Retries

open Stripe

variable {env : Env}

/-! ## Calls that Stripe does not see -/

def Quiet : Call → Prop
  | .uuid4 | .now | .nextSeq => True
  | _ => False

/-- The calls of `generate_invoice` to Stripe. -/
def StripeCall : Call → Prop
  | .customerCreate .. | .invoiceItemCreate .. | .invoiceCreate .. | .finalizeInvoice _
  | .sendInvoice _ => True
  | _ => False

instance (c : Call) : Decidable (StripeCall c) := by
  unfold StripeCall
  split <;> infer_instance

theorem not_stripeCall_of_quiet {c : Call} (h : Quiet c) : ¬StripeCall c := by
  cases c <;> simp_all [Quiet, StripeCall]

/-- Only the sequence of the audit table moved. -/
def SameBooks (w w' : Account) : Prop :=
  ∃ n, w' = { w with seq := n }

theorem SameBooks.refl (w : Account) : SameBooks w w :=
  ⟨w.seq, rfl⟩

theorem SameBooks.trans {w₁ w₂ w₃ : Account} (h : SameBooks w₁ w₂) (h' : SameBooks w₂ w₃) :
    SameBooks w₁ w₃ := by
  obtain ⟨n, rfl⟩ := h
  obtain ⟨m, rfl⟩ := h'
  exact ⟨m, rfl⟩

theorem sameBooks_of_quiet {α : Type} {p : Tx α} (hp : Machine.AsksIn Quiet p) {a : α}
    {s s' : Db} {w w' : Account} (h : stripeMachine.Exec p s w a s' w') : SameBooks w w' := by
  refine hp.exec SameBooks.refl (fun _ _ _ ↦ .trans) ?_ h
  intro c r w w' hc hr
  cases c with
  | nextSeq =>
      obtain ⟨_, hw⟩ := Option.ite_none_right_eq_some.mp hr
      exact ⟨w.seq + 1, (Option.some.inj hw).symm⟩
  | uuid4 | now =>
      obtain rfl := Option.some.inj hr
      exact .refl w
  | _ => exact hc.elim

theorem quiet_ask {c : Call} (h : Quiet c) :
    Machine.AsksIn Quiet (Prog.ask c : Tx (Reply c)) :=
  .ask h

theorem quiet_currentActor (allowed : List Role) (authorization xActorId : Option String) :
    Machine.AsksIn Quiet (Auth.currentActor env allowed authorization xActorId) := by
  refine Machine.AsksIn.bind ?_ fun actor ↦ (Machine.AsksIn.ensure _ _).bind fun _ ↦ .pure _
  unfold Auth.resolve
  split
  · exact .pure _
  · exact (Machine.AsksIn.getSome _ _).bind fun _ ↦ (Machine.AsksIn.select _ _).bind fun _ ↦
      (Machine.AsksIn.getSome _ _).bind fun _ ↦ .pure _

theorem quiet_describeAll (firm : Firm) (rows : List LineItem) :
    Machine.AsksIn Quiet (Billing.describeAll env firm rows) := by
  induction rows with
  | nil => exact .pure _
  | cons row rows ih =>
      exact (Machine.AsksIn.select _ _).bind fun _ ↦ (Machine.AsksIn.getSome _ _).bind fun _ ↦
        ih.bind fun _ ↦ .pure _

/-! ## The three parts of a call -/

variable (env) in
/-- `generate_invoice` up to the point where the invoice is issued. -/
def draft (firm : Firm) (periodStart periodEnd : Time) (issuedBy : String) :
    Tx (Invoice × ℕ × Time) := do
  let events ← Session.select (.rows .usageEvents) fun s ↦
    Billing.uninvoiced env s firm.id periodStart periodEnd
  Prog.ensure (events ≠ []) (.billingError "no uninvoiced usage in this period")
  let lineItems ← Billing.describeAll env firm (Billing.grouped events)
  let now ← Session.now
  let number ← Billing.nextInvoiceNumber now
  let id ← Session.uuid4
  let createdAt ← Session.now
  let invoice := Billing.newInvoice firm periodStart periodEnd issuedBy lineItems number id
    createdAt
  Session.write (.insertInvoice invoice)
  Prog.emitAll (events.map fun ev ↦ .setInvoiceId ev.id (some invoice.id))
  return (invoice, events.length, now)

variable (env) in
/-- `generate_invoice` after that point. -/
def record (firm : Firm) (issuedBy : String) (invoice : Invoice) (count : ℕ) (now : Time)
    (issued : Invoice) : Tx Invoice := do
  Session.write (.setIssuedAt invoice.id (some now))
  let _ ← Audit.record env issuedBy "invoice.issued" "invoice" invoice.id
    (.obj [("number", .str invoice.number), ("firm_id", .str firm.id),
      ("mode", .str firm.billingMode.value), ("subtotal_cents", .int invoice.subtotalCents),
      ("usage_events", .int count)])
  return { issued with issuedAt := some now }

theorem generateInvoice_eq (firm : Firm) (periodStart periodEnd : Time) (issuedBy : String) :
    Billing.generateInvoice env firm periodStart periodEnd issuedBy =
      draft env firm periodStart periodEnd issuedBy >>= fun x ↦
        Billing.issue env firm x.1 >>= record env firm issuedBy x.1 x.2.1 x.2.2 := by
  simp only [Billing.generateInvoice, draft, Prog.bind_assoc, Prog.monad_pure,
    Prog.pure_bind]
  rfl

theorem quiet_draft (firm : Firm) (periodStart periodEnd : Time) (issuedBy : String) :
    Machine.AsksIn Quiet (draft env firm periodStart periodEnd issuedBy) := by
  refine (Machine.AsksIn.select _ _).bind fun events ↦ ?_
  refine (Machine.AsksIn.ensure _ _).bind fun _ ↦ ?_
  refine (quiet_describeAll _ _).bind fun lineItems ↦ ?_
  refine (quiet_ask (c := Call.now) trivial).bind fun now ↦ ?_
  refine ((Machine.AsksIn.select _ _).bind fun _ ↦ .pure _).bind fun number ↦ ?_
  refine (quiet_ask (c := Call.uuid4) trivial).bind fun id ↦ ?_
  refine (quiet_ask (c := Call.now) trivial).bind fun createdAt ↦ ?_
  exact (Machine.AsksIn.emit _).bind fun _ ↦ (Machine.AsksIn.emitAll _).bind fun _ ↦ .pure _

theorem quiet_record (firm : Firm) (issuedBy : String) (invoice : Invoice) (count : ℕ)
    (now : Time) (issued : Invoice) :
    Machine.AsksIn Quiet (record env firm issuedBy invoice count now issued) := by
  refine (Machine.AsksIn.emit _).bind fun _ ↦ Machine.AsksIn.bind ?_ fun _ ↦ .pure _
  refine (Machine.AsksIn.select _ _).bind fun _ ↦ ?_
  refine (quiet_ask (c := Call.nextSeq) trivial).bind fun _ ↦ ?_
  refine (quiet_ask (c := Call.now) trivial).bind fun _ ↦ ?_
  exact (Machine.AsksIn.emit _).bind fun _ ↦ .pure _

/-- What is due, line by line. -/
def dueAmounts (env : Env) (s : Db) (firmId : String) (periodStart periodEnd : Time) : List ℤ :=
  (Billing.grouped (Billing.uninvoiced env s firmId periodStart periodEnd)).map
    LineItem.amountCents

theorem exec_draft {firm : Firm} {periodStart periodEnd : Time} {issuedBy : String}
    {x : Invoice × ℕ × Time} {s s' : Db} {w w' : ℕ}
    (h : machine.Exec (draft env firm periodStart periodEnd issuedBy) s w x s' w') :
    x.1.lineItems.map LineItem.amountCents =
      dueAmounts env s firm.id periodStart periodEnd := by
  unfold draft at h
  rw [Machine.exec_select_bind, Machine.exec_ensure_bind] at h
  obtain ⟨_, h⟩ := h
  rw [Machine.exec_bind] at h
  obtain ⟨lines, s₁, w₁, hlines, h⟩ := h
  obtain ⟨hmap, rfl, rfl⟩ := Billing.exec_describeAll hlines
  have hlinesDue : lines.map LineItem.amountCents =
      dueAmounts env s₁ firm.id periodStart periodEnd := by
    have hamounts := congrArg (List.map LineItem.amountCents) hmap
    rwa [List.map_map, List.map_map] at hamounts
  simp only [Billing.nextInvoiceNumber, Session.exec_now_bind] at h
  obtain ⟨now, h⟩ := h
  rw [Machine.exec_bind] at h
  obtain ⟨number, s₂, w₂, _, h⟩ := h
  simp only [Session.exec_uuid4_bind, Session.exec_now_bind, Machine.exec_emit_bind] at h
  obtain ⟨id, createdAt, s₃, _, h⟩ := h
  rw [Machine.exec_emitAll_bind] at h
  obtain ⟨s₄, _, rfl, _, _⟩ := h
  exact hlinesDue

/-! ## What a push leaves with Stripe -/

/-- The customer that a firm has already. -/
def storedCustomer (firm : Firm) : Option String :=
  StripeGateway.truthyId firm.stripeCustomerId

/-- The customer that an attempt bills, and the account once it is there. -/
inductive Customer (firm : Firm) (w : Account) : String → Account → Prop
  | stored {id} (h : storedCustomer firm = some id) : Customer firm w id w
  | created {id} (h : storedCustomer firm = none) (hnew : w.Unused id) :
      Customer firm w id (w.addCustomer id firm.id)

/-- The account after a push that went through. -/
def pushed (w : Account) (customer : Option String) (amounts : List ℤ) (id : String) : Account :=
  (((w.addItems customer amounts).collect id customer).finalize id).send id

/-- The account when a push makes each of its calls. -/
inductive Pushing (customer : Option String) (amounts : List ℤ) (w : Account) :
    Call → Account → Prop
  | item {amount currency description invoiceId done} (h : done <+: amounts) :
      Pushing customer amounts w
        (.invoiceItemCreate customer amount currency description invoiceId)
        (w.addItems customer done)
  | create {invoiceId number} : Pushing customer amounts w
      (.invoiceCreate customer invoiceId number) (w.addItems customer amounts)
  | finalize {id} : Pushing customer amounts w (.finalizeInvoice id)
      ((w.addItems customer amounts).collect id customer)
  | send {id} (hnew : ∀ i ∈ w.invoices, i.id ≠ id) : Pushing customer amounts w (.sendInvoice id)
      (((w.addItems customer amounts).collect id customer).finalize id)

section Push

variable {firm : Firm} {inv : Invoice} {c : Call} {s s' : Db} {w w' : Account}

theorem exec_ensureCustomer {id : String} (hlive : StripeGateway.live env)
    (h : stripeMachine.Exec (StripeGateway.ensureCustomer env firm) s w id s' w') :
    Customer firm w id w' := by
  unfold StripeGateway.ensureCustomer at h
  cases hstored : StripeGateway.truthyId firm.stripeCustomerId with
  | some stored =>
      rw [hstored] at h
      obtain ⟨rfl, rfl, rfl⟩ := h
      exact .stored hstored
  | none =>
      simp only [hstored, if_pos hlive] at h
      rw [Machine.exec_ask_bind] at h
      obtain ⟨r, w₁, hr, h⟩ := h
      obtain ⟨rfl, rfl, rfl⟩ := Machine.exec_getSome.mp h
      obtain ⟨hnew, hw⟩ := Option.ite_none_right_eq_some.mp hr
      obtain rfl := Option.some.inj hw
      exact .created hstored hnew

theorem reaches_ensureCustomer (hc : StripeCall c)
    (h : stripeMachine.Reaches c (StripeGateway.ensureCustomer env firm) s w w') :
    (∃ name email, c = .customerCreate name email firm.id) ∧ w' = w := by
  unfold StripeGateway.ensureCustomer at h
  split at h
  · exact h.elim
  · split at h
    · rw [Machine.reaches_ask_bind] at h
      rcases h with ⟨rfl, rfl⟩ | ⟨r, w₁, _, h⟩
      · exact ⟨⟨_, _, rfl⟩, rfl⟩
      · exact (Machine.not_reaches_getSome h).elim
    · exact h.elim

theorem exec_createItems {customer : Option String} {items : List LineItem} {u : Unit}
    (h : stripeMachine.Exec (StripeGateway.createItems customer inv items) s w u s' w') :
    s' = s ∧ w' = w.addItems customer (items.map LineItem.amountCents) := by
  induction items generalizing w with
  | nil =>
      obtain ⟨_, rfl, rfl⟩ := h
      exact ⟨rfl, by simp⟩
  | cons item items ih =>
      unfold StripeGateway.createItems at h
      rw [Machine.exec_ask_bind] at h
      obtain ⟨r, w₁, hr, h⟩ := h
      unfold Session.returned at h
      rw [Machine.exec_getSome_bind] at h
      obtain ⟨a, rfl, h⟩ := h
      obtain rfl := Option.some.inj hr
      obtain ⟨hs, hw⟩ := ih h
      rw [hw, Account.addItems_addItem, List.map_cons]
      exact ⟨hs, rfl⟩

theorem reaches_createItems {customer : Option String} {items : List LineItem}
    (h : stripeMachine.Reaches c (StripeGateway.createItems customer inv items) s w w') :
    Pushing customer (items.map LineItem.amountCents) w c w' := by
  have hitem : (∃ amount currency description invoiceId,
      c = .invoiceItemCreate customer amount currency description invoiceId) ∧
      ∃ done, done <+: items.map LineItem.amountCents ∧ w' = w.addItems customer done := by
    induction items generalizing w with
    | nil => exact h.elim
    | cons item items ih =>
        unfold StripeGateway.createItems at h
        rw [Machine.reaches_ask_bind] at h
        rcases h with ⟨rfl, rfl⟩ | ⟨r, w₁, hr, h⟩
        · exact ⟨⟨_, _, _, _, rfl⟩, [], List.nil_prefix, by simp⟩
        · unfold Session.returned at h
          rw [Machine.reaches_getSome_bind] at h
          obtain ⟨a, rfl, h⟩ := h
          obtain rfl := Option.some.inj hr
          obtain ⟨hcall, done, hdone, rfl⟩ := ih h
          refine ⟨hcall, item.amountCents :: done, ?_, Account.addItems_addItem _ _ _ _⟩
          exact (List.cons_prefix_cons).mpr ⟨rfl, hdone⟩
  obtain ⟨⟨_, _, _, _, rfl⟩, done, hdone, rfl⟩ := hitem
  exact .item hdone

theorem exec_pushInvoice {x : String × String} (hlive : StripeGateway.live env)
    (h : stripeMachine.Exec (StripeGateway.pushInvoice env firm inv) s w x s' w') :
    ∃ id, (∀ i ∈ w.invoices, i.id ≠ id) ∧
      w' = pushed w firm.stripeCustomerId (inv.lineItems.map LineItem.amountCents) id := by
  unfold StripeGateway.pushInvoice at h
  rw [if_pos hlive, Machine.exec_bind] at h
  obtain ⟨u, s₁, w₁, hitems, h⟩ := h
  obtain ⟨rfl, rfl⟩ := exec_createItems hitems
  unfold Session.returned at h
  rw [Machine.exec_ask_bind] at h
  obtain ⟨created, w₂, hcreated, h⟩ := h
  rw [Machine.exec_getSome_bind] at h
  obtain ⟨id, rfl, h⟩ := h
  obtain ⟨hnew, hw₂⟩ := Option.ite_none_right_eq_some.mp hcreated
  obtain rfl := Option.some.inj hw₂
  rw [Machine.exec_ask_bind] at h
  obtain ⟨finalized, w₃, hfinalized, h⟩ := h
  rw [Machine.exec_getSome_bind] at h
  obtain ⟨⟨stripeId, url⟩, rfl, h⟩ := h
  obtain ⟨rfl, hw₃⟩ := Option.ite_none_right_eq_some.mp hfinalized
  obtain rfl := Option.some.inj hw₃
  rw [Machine.exec_ask_bind] at h
  obtain ⟨sent, w₄, hsent, h⟩ := h
  rw [Machine.exec_getSome_bind] at h
  obtain ⟨_, rfl, _, _, rfl⟩ := h
  obtain rfl := Option.some.inj hsent
  exact ⟨stripeId, hnew, rfl⟩

theorem reaches_pushInvoice (hc : StripeCall c)
    (h : stripeMachine.Reaches c (StripeGateway.pushInvoice env firm inv) s w w') :
    Pushing firm.stripeCustomerId (inv.lineItems.map LineItem.amountCents) w c w' := by
  unfold StripeGateway.pushInvoice at h
  split at h
  · rw [Machine.reaches_bind] at h
    rcases h with h | ⟨u, s₁, w₁, hitems, h⟩
    · exact reaches_createItems h
    · obtain ⟨rfl, rfl⟩ := exec_createItems hitems
      unfold Session.returned at h
      rw [Machine.reaches_ask_bind] at h
      rcases h with ⟨rfl, rfl⟩ | ⟨created, w₂, hcreated, h⟩
      · exact .create
      · rw [Machine.reaches_getSome_bind] at h
        obtain ⟨id, rfl, h⟩ := h
        obtain ⟨hnew, hw₂⟩ := Option.ite_none_right_eq_some.mp hcreated
        obtain rfl := Option.some.inj hw₂
        rw [Machine.reaches_ask_bind] at h
        rcases h with ⟨rfl, rfl⟩ | ⟨finalized, w₃, hfinalized, h⟩
        · exact .finalize
        · rw [Machine.reaches_getSome_bind] at h
          obtain ⟨⟨stripeId, url⟩, rfl, h⟩ := h
          obtain ⟨rfl, hw₃⟩ := Option.ite_none_right_eq_some.mp hfinalized
          obtain rfl := Option.some.inj hw₃
          rw [Machine.reaches_ask_bind] at h
          rcases h with ⟨rfl, rfl⟩ | ⟨sent, w₄, hsent, h⟩
          · exact .send hnew
          · rw [Machine.reaches_getSome_bind] at h
            obtain ⟨_, _, h⟩ := h
            exact h.elim
  · have hquiet : Quiet c := ((quiet_ask (c := Call.uuid4) trivial).bind fun _ ↦ .pure _).reaches h
    exact absurd hc (not_stripeCall_of_quiet hquiet)

/-- An attempt of `generate_invoice` that broke off at a call to Stripe. -/
inductive Left (firm : Firm) (amounts : List ℤ) (w : Account) : Call → Account → Prop
  | customer {name email} : Left firm amounts w (.customerCreate name email firm.id) w
  | push {id w₁ c w'} (hcustomer : Customer firm w id w₁)
      (h : Pushing (some id) amounts w₁ c w') : Left firm amounts w c w'

theorem exec_pushToStripe {r : Invoice} (hlive : StripeGateway.live env)
    (h : stripeMachine.Exec (Billing.pushToStripe env firm inv) s w r s' w') :
    ∃ customer w₁ id, Customer firm w customer w₁ ∧ (∀ i ∈ w₁.invoices, i.id ≠ id) ∧
      w' = pushed w₁ (some customer) (inv.lineItems.map LineItem.amountCents) id := by
  unfold Billing.pushToStripe at h
  rw [Machine.exec_bind] at h
  obtain ⟨customer, s₁, w₁, hcustomer, h⟩ := h
  rw [Machine.exec_emit_bind] at h
  obtain ⟨s₂, _, h⟩ := h
  rw [Machine.exec_bind] at h
  obtain ⟨⟨stripeId, url⟩, s₃, w₂, hpush, h⟩ := h
  obtain ⟨id, hnew, rfl⟩ := exec_pushInvoice hlive hpush
  rw [Machine.exec_emit_bind] at h
  obtain ⟨s₄, _, h⟩ := h
  rw [Machine.exec_emit_bind] at h
  obtain ⟨s₅, _, _, _, rfl⟩ := h
  exact ⟨customer, w₁, id, exec_ensureCustomer hlive hcustomer, hnew, rfl⟩

theorem reaches_pushToStripe (hlive : StripeGateway.live env) (hc : StripeCall c)
    (h : stripeMachine.Reaches c (Billing.pushToStripe env firm inv) s w w') :
    Left firm (inv.lineItems.map LineItem.amountCents) w c w' := by
  unfold Billing.pushToStripe at h
  rw [Machine.reaches_bind] at h
  rcases h with h | ⟨customer, s₁, w₁, hcustomer, h⟩
  · obtain ⟨⟨name, email, rfl⟩, rfl⟩ := reaches_ensureCustomer hc h
    exact .customer
  · rw [Machine.reaches_emit_bind] at h
    obtain ⟨s₂, _, h⟩ := h
    rw [Machine.reaches_bind] at h
    rcases h with h | ⟨x, s₃, w₂, _, h⟩
    · exact .push (exec_ensureCustomer hlive hcustomer) (reaches_pushInvoice hc h)
    · rw [Machine.reaches_emit_bind] at h
      obtain ⟨s₄, _, h⟩ := h
      rw [Machine.reaches_emit_bind] at h
      obtain ⟨s₅, _, h⟩ := h
      exact h.elim

/-- Only a live gateway and a firm that pays through Stripe get as far as a
call to Stripe. -/
theorem live_of_reaches_issue (hc : StripeCall c)
    (h : stripeMachine.Reaches c (Billing.issue env firm inv) s w w') :
    StripeGateway.live env ∧ firm.billingMode = .stripe := by
  unfold Billing.issue at h
  split at h
  · rename_i hmode
    refine ⟨?_, hmode⟩
    by_contra hfake
    have hensure : Machine.AsksIn Quiet (StripeGateway.ensureCustomer env firm) := by
      unfold StripeGateway.ensureCustomer
      rw [if_neg hfake]
      split <;> exact .pure _
    have hpush : ∀ firm, Machine.AsksIn Quiet (StripeGateway.pushInvoice env firm inv) := by
      intro firm
      unfold StripeGateway.pushInvoice
      rw [if_neg hfake]
      exact (quiet_ask (c := Call.uuid4) trivial).bind fun _ ↦ .pure _
    have hquiet : Machine.AsksIn Quiet (Billing.pushToStripe env firm inv) :=
      hensure.bind fun _ ↦ (Machine.AsksIn.emit _).bind fun _ ↦ (hpush _).bind fun _ ↦
        (Machine.AsksIn.emit _).bind fun _ ↦ (Machine.AsksIn.emit _).bind fun _ ↦ .pure _
    exact not_stripeCall_of_quiet (hquiet.reaches h) hc
  · have hquiet := ((Machine.AsksIn.emit (K := Quiet) _).bind fun _ ↦ .pure _).reaches h
    exact absurd hc (not_stripeCall_of_quiet hquiet)

end Push

/-! ## Whole attempts -/

section Attempts

variable {call : Invoicing.InvoiceCall} {firm : Firm} {c : Call} {s s' : Db} {w w' : Account}

variable (env) in
/-- What a call of `generate_invoice` is to bill on the state it finds. -/
def due (call : Invoicing.InvoiceCall) (s : Db) : List ℤ :=
  dueAmounts env s call.firmId call.periodStart call.periodEnd

/-- The account of an attempt that came through, up to the audit sequence. -/
theorem exec_call {r : Json} (hlive : StripeGateway.live env) (hmode : firm.billingMode = .stripe)
    (hfirm : s.firms.find? call.firmId = some firm)
    (h : stripeMachine.Exec (Api.serve env call.http) s w r s' w') :
    ∃ customer w₁ w₂ w₃ id, SameBooks w w₁ ∧ Customer firm w₁ customer w₂ ∧
      (∀ i ∈ w₂.invoices, i.id ≠ id) ∧ w₃ = pushed w₂ (some customer) (due env call s) id ∧
      SameBooks w₃ w' := by
  have hkey : firm.id = call.firmId := Table.key_of_find? hfirm
  change stripeMachine.Exec (Auth.currentActor env Api.internal call.authorization
    call.xActorId >>= fun actor ↦ Api.generateInvoice env actor call.firmId call.periodStart
      call.periodEnd) s w r s' w' at h
  rw [Machine.exec_bind] at h
  obtain ⟨actor, s₁, w₁, hactor, h⟩ := h
  obtain rfl := hactor.of_writeless (Auth.writeless_currentActor env _ _ _)
  have hbooks := sameBooks_of_quiet (quiet_currentActor _ _ _) hactor
  unfold Api.generateInvoice Api.getFirm Api.getOr404 at h
  rw [Prog.bind_assoc, Machine.exec_select_bind, hfirm] at h
  change stripeMachine.Exec ((Billing.generateInvoice env firm call.periodStart
    call.periodEnd actor.id).mapErr Api.billingConflict >>= fun inv ↦
      .pure (Api.invoiceOut inv)) s₁ w₁ r s' w' at h
  rw [Machine.exec_bind] at h
  obtain ⟨inv, s₂, w₂, h, _, _, rfl⟩ := h
  rw [Machine.exec_mapErr, generateInvoice_eq, Machine.exec_bind] at h
  obtain ⟨x, s₃, w₃, hdraft, h⟩ := h
  have hamounts := exec_draft (stripeMachine_refines.exec hdraft)
  rw [hkey] at hamounts
  have hbooks' := sameBooks_of_quiet (quiet_draft _ _ _ _) hdraft
  rw [Machine.exec_bind] at h
  obtain ⟨issued, s₄, w₄, hissue, h⟩ := h
  unfold Billing.issue at hissue
  rw [hmode] at hissue
  obtain ⟨customer, w₅, id, hcustomer, hnew, rfl⟩ := exec_pushToStripe hlive hissue
  rw [hamounts] at h
  exact ⟨customer, w₃, w₅, _, id, hbooks.trans hbooks', hcustomer, hnew, rfl,
    sameBooks_of_quiet (quiet_record _ _ _ _ _ _) h⟩

theorem reaches_call (hc : StripeCall c) (hfirm : s.firms.find? call.firmId = some firm)
    (h : stripeMachine.Reaches c (Api.serve env call.http) s w w') :
    StripeGateway.live env ∧ firm.billingMode = .stripe ∧
      ∃ w₁, SameBooks w w₁ ∧ Left firm (due env call s) w₁ c w' := by
  have hkey : firm.id = call.firmId := Table.key_of_find? hfirm
  change stripeMachine.Reaches c (Auth.currentActor env Api.internal call.authorization
    call.xActorId >>= fun actor ↦ Api.generateInvoice env actor call.firmId call.periodStart
      call.periodEnd) s w w' at h
  rw [Machine.reaches_bind] at h
  rcases h with h | ⟨actor, s₁, w₁, hactor, h⟩
  · exact absurd hc (not_stripeCall_of_quiet ((quiet_currentActor _ _ _).reaches h))
  · obtain rfl := hactor.of_writeless (Auth.writeless_currentActor env _ _ _)
    have hbooks := sameBooks_of_quiet (quiet_currentActor _ _ _) hactor
    unfold Api.generateInvoice Api.getFirm Api.getOr404 at h
    rw [Prog.bind_assoc, Machine.reaches_select_bind, hfirm] at h
    change stripeMachine.Reaches c ((Billing.generateInvoice env firm call.periodStart
      call.periodEnd actor.id).mapErr Api.billingConflict >>= fun inv ↦
        .pure (Api.invoiceOut inv)) s₁ w₁ w' at h
    rw [Machine.reaches_bind] at h
    rcases h with h | ⟨inv, s₂, w₂, _, h⟩
    · rw [Machine.reaches_mapErr, generateInvoice_eq, Machine.reaches_bind] at h
      rcases h with h | ⟨x, s₂, w₂, hdraft, h⟩
      · exact absurd hc (not_stripeCall_of_quiet ((quiet_draft _ _ _ _).reaches h))
      · have hamounts := exec_draft (stripeMachine_refines.exec hdraft)
        rw [hkey] at hamounts
        have hbooks' := sameBooks_of_quiet (quiet_draft _ _ _ _) hdraft
        rw [Machine.reaches_bind] at h
        rcases h with h | ⟨issued, s₃, w₃, _, h⟩
        · obtain ⟨hlive, hmode⟩ := live_of_reaches_issue hc h
          refine ⟨hlive, hmode, w₂, hbooks.trans hbooks', ?_⟩
          unfold Billing.issue at h
          rw [hmode] at h
          unfold due
          rw [← hamounts]
          exact reaches_pushToStripe hlive hc h
        · exact absurd hc (not_stripeCall_of_quiet ((quiet_record _ _ _ _ _ _).reaches h))
    · exact h.elim

/-! ## Balancing the books -/

/-- What waits on the firm's customer, beside what is due. -/
def stale (firm : Firm) (w : Account) : ℤ :=
  match storedCustomer firm with
  | some id => (w.pendingOf (some id)).sum
  | none => 0

/-- The customer of the firm is one of its customers at Stripe. -/
def Known (firm : Firm) (w : Account) : Prop :=
  ∀ id, storedCustomer firm = some id → w.Owns firm.id (some id)

/-- The calls that leave nothing behind that will be billed; `amounts` was due
and `w` is the account afterwards. -/
def Harmless (firm : Firm) (amounts : List ℤ) (w : Account) : Call → Prop
  | .invoiceItemCreate .. | .invoiceCreate .. => stale firm w = 0
  | .sendInvoice _ => amounts.sum = 0
  | _ => True

theorem billed_sameBooks {w w' : Account} (h : SameBooks w w') (firmId : String) :
    w'.billed firmId = w.billed firmId := by
  obtain ⟨n, rfl⟩ := h
  rfl

theorem Customer.billed {firm : Firm} {w w' : Account} {customer : String}
    (h : Customer firm w customer w') : w'.billed firm.id = w.billed firm.id := by
  cases h with
  | stored h => rfl
  | created h hnew => exact Account.billed_addCustomer hnew

theorem Customer.owns {firm : Firm} {w w' : Account} {customer : String}
    (h : Customer firm w customer w') (hknown : Known firm w) :
    w'.Owns firm.id (some customer) := by
  cases h with
  | stored h => exact hknown _ h
  | created h hnew => exact Account.owns_addCustomer

theorem Customer.pending {firm : Firm} {w w' : Account} {customer : String}
    (h : Customer firm w customer w') : (w'.pendingOf (some customer)).sum = stale firm w := by
  unfold stale
  cases h with
  | stored h => rw [h]
  | created h hnew =>
      rw [h, Account.pendingOf_addCustomer, Account.pendingOf_of_unused hnew]
      rfl

theorem billed_pushed {w : Account} {firmId id : String} {customer : Option String}
    (hnew : ∀ i ∈ w.invoices, i.id ≠ id) (howns : w.Owns firmId customer) (amounts : List ℤ) :
    (pushed w customer amounts id).billed firmId =
      w.billed firmId + (w.pendingOf customer).sum + amounts.sum := by
  unfold pushed
  rw [Account.billed_send, Account.billed_finalize_collect (by exact hnew) (by exact howns)]
  simp [add_assoc]

/-- An attempt that comes through bills what is due and what was stale. -/
theorem billed_of_exec {r : Json} (hlive : StripeGateway.live env)
    (hmode : firm.billingMode = .stripe) (hfirm : s.firms.find? call.firmId = some firm)
    (hknown : Known firm w) (h : stripeMachine.Exec (Api.serve env call.http) s w r s' w') :
    w'.billed firm.id = w.billed firm.id + stale firm w + (due env call s).sum := by
  obtain ⟨customer, w₁, w₂, w₃, id, hbooks, hcustomer, hnew, rfl, hbooks'⟩ :=
    exec_call hlive hmode hfirm h
  obtain ⟨n, rfl⟩ := hbooks
  rw [billed_sameBooks hbooks', billed_pushed hnew (hcustomer.owns hknown), hcustomer.billed,
    hcustomer.pending]
  rfl

/-- After a draft has collected them, no items are pending. -/
theorem Customer.stale_of_collected {firm : Firm} {w w₁ w' : Account} {customer : String}
    (h : Customer firm w customer w₁) (hempty : w'.pendingOf (some customer) = []) :
    stale firm w' = 0 := by
  unfold stale
  cases h with
  | stored h =>
      simp only [h, hempty]
      rfl
  | created h hnew => simp only [h]

/-- What an attempt leaves to be billed, if nothing was stale before it. -/
theorem Left.balance {amounts : List ℤ} (h : Left firm amounts w c w') (hclean : stale firm w = 0)
    (hknown : Known firm w) :
    w'.billed firm.id + stale firm w' = w.billed firm.id ↔ Harmless firm amounts w' c := by
  cases h with
  | customer =>
      rw [hclean]
      simp [Harmless]
  | @push id w₁ c w' hcustomer h =>
      have hbilled := hcustomer.billed
      cases h with
      | item h =>
          rw [Account.billed_addItems, hbilled]
          simp [Harmless]
      | create =>
          rw [Account.billed_addItems, hbilled]
          simp [Harmless]
      | @finalize stripeId =>
          have hstale := hcustomer.stale_of_collected
            (Account.pendingOf_collect (w₁.addItems (some id) amounts) stripeId _)
          rw [hstale, Account.billed_collect, Account.billed_addItems, hbilled]
          simp [Harmless]
      | @send stripeId hnew =>
          have hempty : (((w₁.addItems (some id) amounts).collect stripeId
              (some id)).finalize stripeId).pendingOf (some id) = [] := by simp
          have hstale := hcustomer.stale_of_collected hempty
          have hpending := hcustomer.pending
          have hfinal := Account.billed_finalize_collect (w := w₁.addItems (some id) amounts)
            (by exact hnew) (hcustomer.owns hknown)
          rw [Account.billed_addItems, Account.pendingOf_addItems, List.sum_append, hpending,
            hclean, hbilled] at hfinal
          rw [hstale, hfinal]
          change _ ↔ amounts.sum = 0
          omega

/-! ## A retry -/

variable (env) in
/-- A call of `generate_invoice` that broke off at the call `c` to Stripe and
was rolled back, and a later one for the same firm and window that came
through.  Nothing else was done on the firm's account with Stripe. -/
structure Retried (call : Invoicing.InvoiceCall) (firm : Firm) (c : Call) (s s' : Db)
    (w w₁ w₃ : Account) : Prop where
  found : s.firms.find? call.firmId = some firm
  clean : stale firm w = 0
  known : Known firm w
  stripe : StripeCall c
  breaks : stripeMachine.Breaks c (Api.serve env call.http) s w w₁
  found_again : s'.firms.find? call.firmId = some firm
  retry : ∃ authorization xActorId w₂ r s'',
    w₂.billed firm.id = w₁.billed firm.id ∧ stale firm w₂ = stale firm w₁ ∧ Known firm w₂ ∧
      stripeMachine.Exec
        (Api.serve env { call with authorization := authorization, xActorId := xActorId }.http)
        s' w₂ r s'' w₃

/-- The finalized invoices of the firm come to its usage exactly if the call
that raised left nothing that will be billed. -/
theorem billedOnce_iff {w₁ w₃ : Account} (h : Retried env call firm c s s' w w₁ w₃) :
    w₃.billed firm.id = w.billed firm.id + ((Billing.uninvoiced env s' call.firmId
        call.periodStart call.periodEnd).map UsageEvent.amountCents).sum ↔
      Harmless firm (due env call s) w₁ c := by
  obtain ⟨authorization, xActorId, w₂, r, s'', hbilled, hstale, hknown, hexec⟩ := h.retry
  obtain ⟨hlive, hmode, w₀, hbooks, hleft⟩ := reaches_call h.stripe h.found h.breaks.reaches
  obtain ⟨n, rfl⟩ := hbooks
  have hbalance := hleft.balance h.clean h.known
  have hretried := billed_of_exec hlive hmode (by exact h.found_again) hknown hexec
  have hdue : (due env { call with authorization := authorization, xActorId := xActorId } s').sum =
      ((Billing.uninvoiced env s' call.firmId call.periodStart call.periodEnd).map
        UsageEvent.amountCents).sum := (Billing.tallies_grouped _).total
  rw [← hbalance, hretried, hbilled, hstale, hdue]
  change _ ↔ _ = w.billed firm.id
  omega

end Attempts

section Examples

open Development

def firstWindow : Invoicing.InvoiceCall :=
  ⟨none, none, firmId, 0, 1000⟩

def downAtFinalize : Oracle Call Reply Account
  | _, _, .finalizeInvoice _ => none
  | n, w, c => stripeAnswers n w c

def downAtSend : Oracle Call Reply Account
  | _, _, .sendInvoice _ => none
  | n, w, c => stripeAnswers n w c

/-- An attempt under `o`, and one more; whether it was Stripe that failed, and
what the firm is billed in the end. -/
def secondAttempt (o : Oracle Call Reply Account) : Option (Bool × ℤ) :=
  (stripeMachine.simulateBreak o (Api.serve stripeEnv firstWindow.http) 100 unbilledStore
    newAccount).bind fun x ↦ (stripeMachine.simulate stripeAnswers
      (Api.serve stripeEnv firstWindow.http) 200 unbilledStore x.2).map fun y ↦
        (decide (StripeCall x.1), y.2.2.2.billed firmId)

theorem retried_of_secondAttempt {o : Oracle Call Reply Account} {cents : ℤ}
    (h : secondAttempt o = some (true, cents)) :
    ∃ c w₁ w₃,
      Retried stripeEnv firstWindow alderPractice c unbilledStore unbilledStore newAccount w₁ w₃ ∧
      w₃.billed alderPractice.id = cents := by
  have hfound : unbilledStore.firms.find? firstWindow.firmId = some alderPractice := by
    decide +kernel
  have hnew : storedCustomer alderPractice = none := rfl
  obtain ⟨⟨c, w₁⟩, hbreak, hrest⟩ := Option.bind_eq_some_iff.mp h
  obtain ⟨⟨r, n, s'', w₃⟩, hretry, hfinal⟩ := Option.map_eq_some_iff.mp hrest
  simp only [Prod.mk.injEq, decide_eq_true_eq] at hfinal
  have hknown : ∀ w, Known alderPractice w := by
    intro w id hid
    simp [hnew] at hid
  refine ⟨c, w₁, w₃, ?_, hfinal.2⟩
  exact {
    found := hfound
    clean := by simp only [stale, hnew]
    known := hknown _
    stripe := hfinal.1
    breaks := Machine.breaks_of_simulateBreak hbreak
    found_again := hfound
    retry := ⟨none, none, w₁, r, s'', rfl, rfl, hknown _, Machine.exec_of_simulate hretry⟩ }

/-- A draft that was not finalized is not billed. -/
theorem billedOnce_iff_finalize :
    ∃ (c : Call) (w₁ w₃ : Account), w₃.billed firmId = 1500 ∧
      Harmless alderPractice (due stripeEnv firstWindow unbilledStore) w₁ c := by
  obtain ⟨c, w₁, w₃, hretried, hbilled⟩ := retried_of_secondAttempt (o := downAtFinalize)
    (show secondAttempt downAtFinalize = some (true, 1500) by decide +kernel)
  have hsum : newAccount.billed firmId + ((Billing.uninvoiced stripeEnv unbilledStore firmId 0
      1000).map UsageEvent.amountCents).sum = 1500 := by
    decide +kernel
  exact ⟨c, w₁, w₃, hbilled, (billedOnce_iff hretried).mp (hbilled.trans hsum.symm)⟩

/-- An invoice that was finalized and not sent is billed again. -/
theorem billed_twice_after_send :
    ¬∀ (call : Invoicing.InvoiceCall) (firm : Firm) (c : Call) (s s' : Db) (w w₁ w₃ : Account),
      Retried stripeEnv call firm c s s' w w₁ w₃ →
        w₃.billed firm.id = w.billed firm.id + ((Billing.uninvoiced stripeEnv s'
          call.firmId call.periodStart call.periodEnd).map UsageEvent.amountCents).sum := by
  intro hclaim
  obtain ⟨c, w₁, w₃, hretried, hbilled⟩ := retried_of_secondAttempt (o := downAtSend)
    (show secondAttempt downAtSend = some (true, 3000) by decide +kernel)
  have hsum : newAccount.billed firmId + ((Billing.uninvoiced stripeEnv unbilledStore firmId 0
      1000).map UsageEvent.amountCents).sum = 1500 := by
    decide +kernel
  have hclaimed := hclaim _ _ _ _ _ _ _ _ hretried
  rw [hbilled] at hclaimed
  have hsame := hclaimed.trans hsum
  omega

end Examples

end Retries

end HumanDataFactory
