import HumanDataFactory.Billing.Service

/-!
# What the billing service does to the database

One relation for metering, one for issuing an invoice, one for the operations
on a single invoice and one for webhook events, and for each the theorem that
the program does what the relation says.
-/

namespace HumanDataFactory

open Transact

namespace Billing

variable {env : Env}

/-! ## Metering -/

theorem exec_resolveUnitPriceCents {firmId : String} {taskType : TaskType} {price : ℤ}
    {s s' : Db} {w w' : ℕ} :
    machine.Exec (resolveUnitPriceCents env firmId taskType) s w price s' w' ↔
      price = unitPriceCents env s firmId taskType ∧ s' = s ∧ w' = w := by
  unfold resolveUnitPriceCents unitPriceCents
  rw [Machine.exec_select_bind]
  split
  · rfl
  · rw [Machine.exec_select_bind]
    split <;> rfl

def usageEntry (ev : UsageEvent) : Audit.Entry :=
  ⟨"billing-engine", "usage.recorded", "usage_event", ev.id,
    .obj [("firm_id", .str ev.firmId), ("task_id", .str ev.taskId),
      ("amount_cents", .int ev.amountCents)]⟩

variable (env) in
/-- What `record_approved_record` does to the database. -/
inductive Metered (project : Project) (task : Task) (submission : Submission) (s : Db) :
    Db → Prop
  | skipped (h : task.isGold = true ∨ ∃ ev, approvedRecordEvents s task.id = [ev]) :
      Metered project task submission s s
  | metered (hgold : task.isGold = false) (hnew : approvedRecordEvents s task.id = [])
      {firm : Firm} (hfirm : s.firms.find? project.firmId = some firm) {ev : UsageEvent}
      (hev : ∃ id now, ev = newUsageEvent project task submission firm
        (unitPriceCents env s firm.id project.taskType) id now)
      (hid : s.usageEvents.Vacant ev.id) {aud : AuditEvent}
      (haud : aud.entry = usageEntry ev) :
      Metered project task submission s { s with
        usageEvents := s.usageEvents.push ev
        auditEvents := s.auditEvents ++ [aud] }

theorem exec_meter {project : Project} {task : Task} {submission : Submission}
    {r : Option UsageEvent} {s s' : Db} {w w' : ℕ}
    (h : machine.Exec (meter env project task submission) s w r s' w')
    (hgold : task.isGold = false) (hnew : approvedRecordEvents s task.id = [])
    (hseq : Audit.SeqBelow s.auditEvents w) :
    Metered env project task submission s s' ∧ Audit.SeqBelow s'.auditEvents w' := by
  unfold meter at h
  rw [Machine.exec_select_bind, Machine.exec_getSome_bind] at h
  obtain ⟨firm, hfirm, h⟩ := h
  rw [Machine.exec_bind] at h
  obtain ⟨price, s₁, w₁, hprice, h⟩ := h
  obtain ⟨rfl, rfl, rfl⟩ := exec_resolveUnitPriceCents.mp hprice
  simp only [Session.exec_uuid4_bind, Session.exec_now_bind, Machine.exec_emit_bind,
    machine_apply, Db.apply, Option.ite_none_right_eq_some, Option.some.injEq] at h
  obtain ⟨id, now, s₂, ⟨hid, rfl⟩, h⟩ := h
  rw [Machine.exec_bind] at h
  obtain ⟨aud, s₃, w₄, haud, rfl, rfl, rfl⟩ := h
  obtain ⟨rfl, hentry, hseq'⟩ := Audit.exec_record haud hseq
  exact ⟨.metered hgold hnew hfirm ⟨id, now, rfl⟩ hid hentry, hseq'⟩

theorem exec_recordApprovedRecord {project : Project} {task : Task} {submission : Submission}
    {r : Option UsageEvent} {s s' : Db} {w w' : ℕ}
    (h : machine.Exec (recordApprovedRecord env project task submission) s w r s' w')
    (hseq : Audit.SeqBelow s.auditEvents w) :
    Metered env project task submission s s' ∧ Audit.SeqBelow s'.auditEvents w' := by
  unfold recordApprovedRecord at h
  split at h
  · rename_i hgold
    obtain ⟨rfl, rfl, rfl⟩ := h
    exact ⟨.skipped (Or.inl hgold), hseq⟩
  · rename_i hgold
    rw [Machine.exec_select_bind, Machine.exec_bind] at h
    obtain ⟨existing, s₁, w₁, hex, h⟩ := h
    obtain ⟨hrows, rfl, rfl⟩ := Session.exec_scalarOneOrNone.mp hex
    cases existing with
    | some ev =>
        obtain ⟨rfl, rfl, rfl⟩ := h
        exact ⟨.skipped (Or.inr ⟨ev, hrows⟩), hseq⟩
    | none => exact exec_meter h (by simpa using hgold) hrows hseq

/-! ## Issuing an invoice -/

def issuedStatus : BillingMode → InvoiceStatus
  | .external => .issuedExternal
  | .stripe => .open

/-- A line before its description is filled in. -/
def undescribed (row : LineItem) : LineItem :=
  { row with description := "" }

def attach (invoiceId : String) (events : List UsageEvent) (ev : UsageEvent) : UsageEvent :=
  if ev.id ∈ events.map UsageEvent.id then { ev with invoiceId := some invoiceId } else ev

@[simp] theorem attach_id (invoiceId : String) (events : List UsageEvent) (ev : UsageEvent) :
    (attach invoiceId events ev).id = ev.id := by
  unfold attach
  split <;> rfl

theorem view_setInvoiceId (v : String) (events : List UsageEvent) (s : Db) :
    machine.view (events.map fun ev ↦ .setInvoiceId ev.id (some v)) s =
      some { s with
        usageEvents := s.usageEvents.mapRows (attach v events) (attach_id v events) } := by
  have hview := view_modifyAll (fun s ↦ s.usageEvents) (fun s t ↦ { s with usageEvents := t })
    (fun _ _ ↦ rfl) (fun _ _ _ ↦ rfl) (fun _ ↦ rfl) (fun id ↦ .setInvoiceId id (some v))
    (fun ev ↦ { ev with invoiceId := some v }) (fun _ ↦ rfl) (fun _ ↦ rfl) (fun _ _ ↦ rfl)
    (events.map UsageEvent.id) s
  rw [List.map_map] at hview
  exact hview

theorem exec_describeAll {firm : Firm} {rows lines : List LineItem} {s s' : Db} {w w' : ℕ}
    (h : machine.Exec (describeAll env firm rows) s w lines s' w') :
    lines.map undescribed = rows.map undescribed ∧ s' = s ∧ w' = w := by
  induction rows generalizing lines with
  | nil =>
      obtain ⟨rfl, rfl, rfl⟩ := h
      exact ⟨rfl, rfl, rfl⟩
  | cons row rows ih =>
      unfold describeAll at h
      rw [Machine.exec_select_bind, Machine.exec_getSome_bind] at h
      obtain ⟨project, _, h⟩ := h
      rw [Machine.exec_bind] at h
      obtain ⟨rest, s₁, w₁, hrest, rfl, rfl, rfl⟩ := h
      obtain ⟨hmap, rfl, rfl⟩ := ih hrest
      refine ⟨?_, rfl, rfl⟩
      rw [List.map_cons, List.map_cons, hmap]
      rfl

theorem addToGroup_undescribed {rows : List LineItem} {ev : UsageEvent}
    (h : ∀ row ∈ rows, row.description = "") :
    ∀ row ∈ addToGroup rows ev, row.description = "" := by
  intro row hrow
  unfold addToGroup at hrow
  split at hrow
  · obtain ⟨row', hrow', rfl⟩ := List.mem_map.mp hrow
    split <;> exact h row' hrow'
  · rcases List.mem_append.mp hrow with hrow | hrow
    · exact h row hrow
    · obtain rfl : row = _ := by simpa using hrow
      rfl

theorem foldl_addToGroup_undescribed {rows : List LineItem} {events : List UsageEvent}
    (h : ∀ row ∈ rows, row.description = "") :
    ∀ row ∈ events.foldl addToGroup rows, row.description = "" := by
  induction events generalizing rows with
  | nil => exact h
  | cons ev events ih => exact ih (addToGroup_undescribed h)

theorem map_undescribed_grouped (events : List UsageEvent) :
    (grouped events).map undescribed = grouped events := by
  conv_rhs => rw [← List.map_id (grouped events)]
  apply List.map_congr_left
  intro row hrow
  have hrow' : row.description = "" :=
    foldl_addToGroup_undescribed (by simp) row hrow
  simp [undescribed, ← hrow']

variable (env) in
/-- What holds of the invoice that a call of `generate_invoice` issues. -/
structure Issuance (s : Db) (firm : Firm) (periodStart periodEnd : Time) (inv : Invoice) :
    Prop where
  swept : uninvoiced env s firm.id periodStart periodEnd ≠ []
  vacant : s.invoices.Vacant inv.id
  fresh : ∀ b ∈ s.invoices.rows, b.number ≠ inv.number
  firmId : inv.firmId = firm.id
  mode : inv.mode = firm.billingMode
  status : inv.status = issuedStatus firm.billingMode
  lines : inv.lineItems.map undescribed = grouped (uninvoiced env s firm.id periodStart periodEnd)
  subtotal : inv.subtotalCents = (inv.lineItems.map LineItem.amountCents).sum
  number : ∃ now, inv.number = invoiceNumber now s.invoices.rows.length

def issuedEntry (inv : Invoice) (issuedBy : String) (count : ℕ) : Audit.Entry :=
  ⟨issuedBy, "invoice.issued", "invoice", inv.id,
    .obj [("number", .str inv.number), ("firm_id", .str inv.firmId),
      ("mode", .str inv.mode.value), ("subtotal_cents", .int inv.subtotalCents),
      ("usage_events", .int count)]⟩

variable (env) in
/-- What `generate_invoice` does to the database. -/
inductive Issued (firm : Firm) (periodStart periodEnd : Time) (issuedBy : String) (s : Db) :
    Db → Prop
  | mk {inv : Invoice} (hinv : Issuance env s firm periodStart periodEnd inv)
      {firms : Table String Firm Firm.id}
      (hfirms : firms = s.firms ∨
        ∃ v, firms = s.firms.modify firm.id (fun f ↦ { f with stripeCustomerId := v }) fun _ ↦ rfl)
      {aud : AuditEvent}
      (haud : aud.entry = issuedEntry inv issuedBy
        (uninvoiced env s firm.id periodStart periodEnd).length) :
      Issued firm periodStart periodEnd issuedBy s { s with
        firms := firms
        usageEvents := s.usageEvents.mapRows
          (attach inv.id (uninvoiced env s firm.id periodStart periodEnd)) (attach_id _ _)
        invoices := s.invoices.push inv
        auditEvents := s.auditEvents ++ [aud] }

/-- Issuing changes only the status and the Stripe columns of the new row. -/
theorem exec_issue {firm : Firm} {inv : Invoice} {t : Table String Invoice Invoice.id}
    {s s' : Db} {w w' : ℕ} {r : Invoice} (h : machine.Exec (issue env firm inv) s w r s' w')
    (ht : s.invoices = t.push inv) (hv : t.Vacant inv.id) :
    ∃ stripeId url firms, (firms = s.firms ∨
        ∃ v, firms =
          s.firms.modify firm.id (fun f ↦ { f with stripeCustomerId := v }) fun _ ↦ rfl) ∧
      s' = { s with
        firms := firms
        invoices := t.push { inv with
          status := issuedStatus firm.billingMode
          stripeInvoiceId := stripeId
          hostedInvoiceUrl := url } } ∧ w ≤ w' := by
  unfold issue at h
  cases hmode : firm.billingMode with
  | external =>
      rw [hmode] at h
      simp only [Machine.exec_emit_bind, machine_apply, Db.apply, Option.some.injEq,
        Prog.monad_pure, Machine.exec_pure] at h
      obtain ⟨_, hs, rfl, rfl, rfl⟩ := h
      refine ⟨inv.stripeInvoiceId, inv.hostedInvoiceUrl, s.firms, Or.inl rfl, ?_, le_rfl⟩
      rw [← hs, ht, Table.push_modify hv rfl]
      rfl
  | stripe =>
      rw [hmode] at h
      unfold pushToStripe at h
      rw [Machine.exec_bind] at h
      obtain ⟨customerId, s₁, w₁, hcust, h⟩ := h
      have hw₁ := moves_le hcust.moves
      obtain rfl := hcust.of_writeless (StripeGateway.writeless_ensureCustomer env firm)
      rw [Machine.exec_emit_bind] at h
      obtain ⟨s₂, hs₂, h⟩ := h
      simp only [machine_apply, Db.apply, Option.some.injEq] at hs₂
      rw [Machine.exec_bind] at h
      obtain ⟨⟨stripeId, url⟩, s₃, w₃, hpush, h⟩ := h
      have hw₃ := moves_le hpush.moves
      obtain rfl := hpush.of_writeless (StripeGateway.writeless_pushInvoice env _ _)
      simp only [Machine.exec_emit_bind, machine_apply, Db.apply, Option.some.injEq,
        Prog.monad_pure, Machine.exec_pure] at h
      obtain ⟨_, rfl, _, rfl, rfl, rfl, rfl⟩ := h
      refine ⟨some stripeId, some url, s₃.firms, Or.inr ⟨some customerId, ?_⟩, ?_, ?_⟩
      · rw [← hs₂]
      · rw [← hs₂, ht, Table.push_modify hv rfl, Table.push_modify (by exact hv) rfl]
        rfl
      · omega

theorem exec_generateInvoice {firm : Firm} {periodStart periodEnd : Time} {issuedBy : String}
    {r : Invoice} {s s' : Db} {w w' : ℕ}
    (h : machine.Exec (generateInvoice env firm periodStart periodEnd issuedBy) s w r s' w')
    (hseq : Audit.SeqBelow s.auditEvents w) :
    Issued env firm periodStart periodEnd issuedBy s s' ∧
      Audit.SeqBelow s'.auditEvents w' := by
  unfold generateInvoice at h
  rw [Machine.exec_select_bind, Machine.exec_ensure_bind] at h
  obtain ⟨hswept, h⟩ := h
  rw [Machine.exec_bind] at h
  obtain ⟨lines, s₁, w₁, hlines, h⟩ := h
  obtain ⟨hmap, rfl, rfl⟩ := exec_describeAll hlines
  rw [map_undescribed_grouped] at hmap
  simp only [nextInvoiceNumber, Session.exec_now_bind] at h
  obtain ⟨now, h⟩ := h
  rw [Machine.exec_bind] at h
  obtain ⟨number, s₂, w₂, hnumber, h⟩ := h
  obtain ⟨rfl, rfl, rfl⟩ := hnumber
  simp only [Session.exec_uuid4_bind, Session.exec_now_bind, Machine.exec_emit_bind,
    machine_apply, Db.apply, Option.ite_none_right_eq_some, Option.some.injEq] at h
  obtain ⟨id, createdAt, s₃, ⟨⟨hvac, hfresh⟩, rfl⟩, h⟩ := h
  rw [Machine.exec_emitAll_bind, view_setInvoiceId] at h
  obtain ⟨s₄, hs₄, h⟩ := h
  rw [Machine.exec_bind] at h
  obtain ⟨_, s₅, w₅, hissue, h⟩ := h
  obtain rfl := Option.some.inj hs₄
  obtain ⟨stripeId, url, firms, hfirms, rfl, hw₅⟩ := exec_issue hissue rfl hvac
  rw [Machine.exec_emit_bind] at h
  obtain ⟨s₆, hs₆, h⟩ := h
  simp only [machine_apply, Db.apply, Option.some.injEq] at hs₆
  rw [Table.push_modify (by exact hvac) rfl] at hs₆
  subst hs₆
  rw [Machine.exec_bind] at h
  obtain ⟨aud, s₇, w₇, haud, rfl, rfl, rfl⟩ := h
  obtain ⟨rfl, hentry, hseq'⟩ := Audit.exec_record haud (hseq.mono hw₅)
  have hinv : Issuance env s₂ firm periodStart periodEnd
      { newInvoice firm periodStart periodEnd issuedBy lines
          (invoiceNumber now s₂.invoices.rows.length) id createdAt with
        status := issuedStatus firm.billingMode
        stripeInvoiceId := stripeId
        hostedInvoiceUrl := url
        issuedAt := some now } :=
    ⟨hswept, hvac, hfresh, rfl, rfl, rfl, hmap, rfl, ⟨now, rfl⟩⟩
  exact ⟨.mk hinv hfirms hentry, hseq'⟩

/-! ## Settlement -/

section Settlement

variable {s s' : Db} {w w' : ℕ} {inv : Invoice}

/-- What `record_external_payment` does to the database. -/
inductive PaidExternally (s : Db) (inv : Invoice) (reference actor : String) : Db → Prop
  | mk (hmode : inv.mode = .external)
      (hstatus : inv.status = .issuedExternal ∨ inv.status = .draft) {now : Time}
      {aud : AuditEvent}
      (haud : aud.entry = ⟨actor, "invoice.external_payment_recorded", "invoice", inv.id,
        .obj [("reference", .str reference)]⟩) :
      PaidExternally s inv reference actor { s with
        invoices := s.invoices.replace { inv with
          status := .paid
          externalPaidReference := some reference
          paidAt := some now }
        auditEvents := s.auditEvents ++ [aud] }

/-- What `create_checkout` does to the database. -/
inductive CheckoutOpened (s : Db) (inv : Invoice) (actor : String) : Db → Prop
  | mk (hstatus : inv.status ∈ PAYABLE_STATUSES) {sessionId : String} {aud : AuditEvent}
      (haud : aud.entry = ⟨actor, "invoice.checkout_created", "invoice", inv.id,
        .obj [("checkout_session_id", .str sessionId)]⟩) :
      CheckoutOpened s inv actor { s with
        invoices := s.invoices.replace { inv with checkoutSessionId := some sessionId }
        auditEvents := s.auditEvents ++ [aud] }

theorem exec_recordExternalPayment {reference actor : String} {r : Invoice}
    (h : machine.Exec (recordExternalPayment env inv reference actor) s w r s' w')
    (hinv : s.invoices.find? inv.id = some inv) (hseq : Audit.SeqBelow s.auditEvents w) :
    PaidExternally s inv reference actor s' ∧ Audit.SeqBelow s'.auditEvents w' := by
  simp only [recordExternalPayment, Machine.exec_ensure_bind, Machine.exec_emit_bind,
    Session.exec_now_bind, machine_apply, Db.apply, Option.some.injEq] at h
  obtain ⟨hmode, hstatus, s₁, rfl, s₂, rfl, now, s₃, rfl, h⟩ := h
  rw [Table.modify_eq_replace hinv, Table.replace_modify rfl, Table.replace_modify rfl,
    Machine.exec_bind] at h
  obtain ⟨aud, s₄, w₄, haud, rfl, rfl, rfl⟩ := h
  obtain ⟨rfl, hentry, hseq'⟩ := Audit.exec_record haud hseq
  exact ⟨.mk hmode hstatus hentry, hseq'⟩

theorem exec_createCheckout {firm : Firm} {successUrl cancelUrl actor : String}
    {r : Invoice × String}
    (h : machine.Exec (createCheckout env inv firm successUrl cancelUrl actor) s w r s' w')
    (hinv : s.invoices.find? inv.id = some inv) (hseq : Audit.SeqBelow s.auditEvents w) :
    CheckoutOpened s inv actor s' ∧ Audit.SeqBelow s'.auditEvents w' := by
  unfold createCheckout at h
  rw [Machine.exec_ensure_bind, Machine.exec_ensure_bind, Machine.exec_bind] at h
  obtain ⟨hstatus, _, ⟨sessionId, url⟩, s₁, w₁, hcreate, h⟩ := h
  have hw₁ := moves_le hcreate.moves
  obtain rfl := hcreate.of_writeless
    (StripeGateway.writeless_createCheckoutSession env firm inv successUrl cancelUrl)
  simp only [Machine.exec_emit_bind, machine_apply, Db.apply, Option.some.injEq] at h
  obtain ⟨s₂, rfl, h⟩ := h
  rw [Table.modify_eq_replace hinv, Machine.exec_bind] at h
  obtain ⟨aud, s₄, w₄, haud, rfl, rfl, rfl⟩ := h
  obtain ⟨rfl, hentry, hseq'⟩ := Audit.exec_record haud (hseq.mono hw₁)
  exact ⟨.mk hstatus hentry, hseq'⟩

/-- The invoice a completed checkout is for, on one state. -/
def invoiceOfKey (s : Db) (key : Json) : Except PyError (Option Invoice) :=
  if key.truthy then do
    let id ← boundText key
    return s.invoices.find? id
  else .ok none

def oneOrNone {α : Type} : List α → Except PyError (Option α)
  | [] => .ok none
  | [a] => .ok (some a)
  | _ => .error .multipleResultsFound

def invoiceOfSession (s : Db) (key : Json) : Except PyError (Option Invoice) :=
  if key.truthy then do
    let id ← boundText key
    oneOrNone (bySession s id)
  else .ok none

def checkoutInvoice (s : Db) (obj : Json) : Except PyError (Option Invoice) := do
  let invoiceId ← metadataInvoiceId obj
  match ← invoiceOfKey s invoiceId with
  | some invoice => return some invoice
  | none => do
      let sessionId ← obj.get "id"
      invoiceOfSession s sessionId

theorem oneOrNone_eq_ok {α : Type} {rows : List α} {a : Option α} :
    oneOrNone rows = .ok a ↔ rows = a.toList := by
  rcases rows with _ | ⟨b, _ | ⟨c, rows⟩⟩
  · cases a <;> simp [oneOrNone]
  · cases a <;> simp [oneOrNone]
  · cases a <;> simp [oneOrNone]

theorem exec_getInvoiceOf {key : Json} {r : Option Invoice} :
    machine.Exec (getInvoiceOf key) s w r s' w' ↔
      invoiceOfKey s key = .ok r ∧ s' = s ∧ w' = w := by
  unfold getInvoiceOf invoiceOfKey
  split
  · simp only [Machine.exec_ofExcept_bind, Machine.exec_select, bind_eq_ok, pure, Except.pure,
      Except.ok.injEq]
    grind
  · simp only [Prog.monad_pure, Machine.exec_pure, Except.ok.injEq, eq_comm]

theorem exec_findBySession {key : Json} {r : Option Invoice} :
    machine.Exec (findBySession key) s w r s' w' ↔
      invoiceOfSession s key = .ok r ∧ s' = s ∧ w' = w := by
  unfold findBySession invoiceOfSession
  split
  · simp only [Machine.exec_ofExcept_bind, Machine.exec_select_bind,
      Session.exec_scalarOneOrNone, bind_eq_ok, oneOrNone_eq_ok]
    grind
  · simp only [Prog.monad_pure, Machine.exec_pure, Except.ok.injEq, eq_comm]

theorem exec_findCheckoutInvoice {obj : Json} {r : Option Invoice} :
    machine.Exec (findCheckoutInvoice obj) s w r s' w' ↔
      checkoutInvoice s obj = .ok r ∧ s' = s ∧ w' = w := by
  unfold findCheckoutInvoice checkoutInvoice
  simp only [Machine.exec_ofExcept_bind, bind_eq_ok]
  constructor
  · rintro ⟨key, hkey, h⟩
    rw [Machine.exec_bind] at h
    obtain ⟨found, s₁, w₁, hget, h⟩ := h
    obtain ⟨hfound, rfl, rfl⟩ := exec_getInvoiceOf.mp hget
    cases found with
    | some inv =>
        obtain ⟨rfl, rfl, rfl⟩ := h
        exact ⟨⟨key, hkey, _, hfound, rfl⟩, rfl, rfl⟩
    | none =>
        simp only [Machine.exec_ofExcept_bind, exec_findBySession] at h
        obtain ⟨sid, hsid, hr, rfl, rfl⟩ := h
        exact ⟨⟨key, hkey, none, hfound, by simp only [bind_eq_ok]; exact ⟨sid, hsid, hr⟩⟩,
          rfl, rfl⟩
  · rintro ⟨⟨key, hkey, found, hfound, h⟩, rfl, rfl⟩
    refine ⟨key, hkey, ?_⟩
    rw [Machine.exec_bind]
    refine ⟨found, s', w', exec_getInvoiceOf.mpr ⟨hfound, rfl, rfl⟩, ?_⟩
    cases found with
    | some inv =>
        cases h
        exact ⟨rfl, rfl, rfl⟩
    | none =>
        simp only [bind_eq_ok] at h
        obtain ⟨sid, hsid, hr⟩ := h
        rw [Machine.exec_ofExcept_bind]
        exact ⟨sid, hsid, exec_findBySession.mpr ⟨hr, rfl, rfl⟩⟩

/-- The invoice found is the row with its own id. -/
theorem find?_of_checkoutInvoice {obj : Json} (h : checkoutInvoice s obj = .ok (some inv)) :
    s.invoices.find? inv.id = some inv := by
  have hmem : ∀ i : Invoice, i ∈ s.invoices.rows → s.invoices.find? i.id = some i :=
    fun i hi ↦ Table.find?_of_mem hi
  simp only [checkoutInvoice, bind_eq_ok] at h
  obtain ⟨key, _, found, hfound, h⟩ := h
  cases found with
  | some i =>
      cases h
      unfold invoiceOfKey at hfound
      split at hfound
      · simp only [bind_eq_ok] at hfound
        obtain ⟨id, _, hid⟩ := hfound
        have hid' : s.invoices.find? id = some inv := Except.ok.inj hid
        rwa [Table.key_of_find? hid']
      · cases hfound
  | none =>
      simp only [bind_eq_ok] at h
      obtain ⟨sid, _, h⟩ := h
      unfold invoiceOfSession at h
      split at h
      · simp only [bind_eq_ok, oneOrNone_eq_ok] at h
        obtain ⟨id, _, hrows⟩ := h
        have hin : inv ∈ bySession s id := by simp [hrows]
        exact hmem inv (List.mem_filter.mp hin).1
      · cases h

/-- What an event asks for on one state. -/
inductive WebhookAction
  | ignore
  | checkout (inv : Invoice) (reference : Json)
  | settle (inv : Invoice) (etype stripeId : String) (status : InvoiceStatus)

def checkoutAction (s : Db) (obj : Json) : Except PyError WebhookAction := do
  match ← checkoutInvoice s obj with
  | none => return .ignore
  | some inv => return .checkout inv (paymentReference obj)

def stripeAction (s : Db) (etype : String) (key : Json) : Except PyError WebhookAction := do
  let stripeId ← boundText key
  match ← oneOrNone (byStripeId s stripeId) with
  | none => return .ignore
  | some inv =>
      match settledStatus etype with
      | some status => return .settle inv etype stripeId status
      | none => return .ignore

def invoiceAction (s : Db) (etype obj : Json) : Except PyError WebhookAction := do
  let key ← obj.get "id"
  if key.truthy then
    match etype with
    | .str etype => if startsWith "invoice." etype then stripeAction s etype key else .ok .ignore
    | _ => .error .attributeError
  else .ok .ignore

def webhookAction (s : Db) (event : Json) : Except PyError WebhookAction := do
  let etype ← event.getD "type" (.str "")
  let obj ← eventObject event
  if etype.isStr "checkout.session.completed" then checkoutAction s obj
  else invoiceAction s etype obj

def settledEntry (inv : Invoice) (etype stripeId : String) (status : InvoiceStatus) :
    Audit.Entry :=
  ⟨"stripe-webhook", s!"invoice.{status.value}", "invoice", inv.id,
    .obj [("stripe_event", .str etype), ("stripe_invoice_id", .str stripeId)]⟩

def completedEntry (inv : Invoice) (reference : Json) : Audit.Entry :=
  ⟨"stripe-webhook", "invoice.paid", "invoice", inv.id,
    .obj [("stripe_event", .str "checkout.session.completed"), ("reference", reference)]⟩

variable (env) in
/-- What the handler does for it. -/
inductive Performed (s : Db) : WebhookAction → Db → Prop
  | ignored : Performed s .ignore s
  | alreadyPaid {inv : Invoice} (hstatus : inv.status = .paid) (reference : Json) :
      Performed s (.checkout inv reference) s
  | completed {inv : Invoice} (hstatus : inv.status ≠ .paid) (reference : Json) {now : Time}
      {aud : AuditEvent} (haud : aud.entry = completedEntry inv reference) :
      Performed s (.checkout inv reference) { s with
        invoices := s.invoices.replace { inv with
          status := .paid
          paidAt := some now
          externalPaidReference :=
            if inv.mode = .external then some ("stripe-checkout:" ++ env.str reference)
            else inv.externalPaidReference }
        auditEvents := s.auditEvents ++ [aud] }
  | settled {inv : Invoice} {etype stripeId : String} {status : InvoiceStatus}
      {paidAt : Option Time} {aud : AuditEvent}
      (haud : aud.entry = settledEntry inv etype stripeId status) :
      Performed s (.settle inv etype stripeId status) { s with
        invoices := s.invoices.replace { inv with status := status, paidAt := paidAt }
        auditEvents := s.auditEvents ++ [aud] }

theorem exec_completeCheckout {obj r : Json}
    (h : machine.Exec (completeCheckout env obj) s w r s' w')
    (hseq : Audit.SeqBelow s.auditEvents w) :
    (∃ act, checkoutAction s obj = .ok act ∧ Performed env s act s') ∧
      Audit.SeqBelow s'.auditEvents w' := by
  unfold completeCheckout at h
  rw [Machine.exec_bind] at h
  obtain ⟨found, s₁, w₁, hfind, h⟩ := h
  obtain ⟨hfound, rfl, rfl⟩ := exec_findCheckoutInvoice.mp hfind
  cases found with
  | none =>
      obtain ⟨rfl, rfl, rfl⟩ := h
      exact ⟨⟨.ignore, bind_eq_ok.mpr ⟨none, hfound, rfl⟩, .ignored⟩, hseq⟩
  | some inv =>
      have hact : checkoutAction s₁ obj = .ok (.checkout inv (paymentReference obj)) :=
        bind_eq_ok.mpr ⟨some inv, hfound, rfl⟩
      have hinv := find?_of_checkoutInvoice hfound
      by_cases hpaid : inv.status = .paid
      · simp only [hpaid, if_true] at h
        obtain ⟨rfl, rfl, rfl⟩ := h
        exact ⟨⟨_, hact, .alreadyPaid hpaid _⟩, hseq⟩
      · simp only [hpaid, if_false, Machine.exec_emit_bind, Session.exec_now_bind,
          machine_apply, Db.apply, Option.some.injEq, Session.exec_writeIf_bind] at h
        obtain ⟨s₂, rfl, now, s₃, rfl, s₄, hs₄, h⟩ := h
        have hs₄' : s₄ = { s₁ with
            invoices := s₁.invoices.replace { inv with
              status := .paid
              paidAt := some now
              externalPaidReference :=
                if inv.mode = .external then
                  some ("stripe-checkout:" ++ env.str (paymentReference obj))
                else inv.externalPaidReference } } := by
          rw [Table.modify_eq_replace hinv, Table.replace_modify rfl] at hs₄
          split at hs₄
          · rename_i hmode
            rw [Table.replace_modify rfl] at hs₄
            simp only [Option.some.injEq] at hs₄
            rw [← hs₄, if_pos hmode]
          · rename_i hmode
            simp only [Option.some.injEq] at hs₄
            rw [← hs₄, if_neg hmode]
        subst hs₄'
        rw [Machine.exec_bind] at h
        obtain ⟨aud, s₅, w₅, haud, rfl, rfl, rfl⟩ := h
        obtain ⟨rfl, hentry, hseq'⟩ := Audit.exec_record haud hseq
        exact ⟨⟨_, hact, .completed hpaid _ hentry⟩, hseq'⟩

/-- The paid branch moves `paid_at`, the other leaves it. -/
theorem exec_markPaidAt {status : InvoiceStatus} {u : Unit}
    (h : machine.Exec (markPaidAt inv status) s w u s' w') (a : Invoice) (hid : a.id = inv.id)
    {t : Table String Invoice Invoice.id} (ht : s.invoices = t.replace a) :
    ∃ paidAt, s' = { s with invoices := t.replace { a with paidAt := paidAt } } ∧ w' = w := by
  cases status with
  | paid =>
      simp only [markPaidAt, Session.exec_now_bind, Machine.exec_emit, machine_apply, Db.apply,
        Option.some.injEq] at h
      obtain ⟨now, rfl, rfl⟩ := h
      refine ⟨some now, ?_, rfl⟩
      rw [ht, Table.replace_modify hid]
  | _ =>
      obtain ⟨rfl, rfl, rfl⟩ := h
      exact ⟨a.paidAt, by rw [← ht], rfl⟩

theorem exec_settle {etype stripeId : String} {status : InvoiceStatus} {r : Json}
    (h : machine.Exec (settle env inv etype stripeId status) s w r s' w')
    (hinv : s.invoices.find? inv.id = some inv) (hseq : Audit.SeqBelow s.auditEvents w) :
    Performed env s (.settle inv etype stripeId status) s' ∧
      Audit.SeqBelow s'.auditEvents w' := by
  unfold settle at h
  rw [Machine.exec_emit_bind] at h
  obtain ⟨s₁, hs₁, h⟩ := h
  simp only [machine_apply, Db.apply, Option.some.injEq] at hs₁
  rw [Table.modify_eq_replace hinv] at hs₁
  subst hs₁
  rw [Machine.exec_bind] at h
  obtain ⟨_, s₂, w₂, hmark, h⟩ := h
  obtain ⟨paidAt, rfl, rfl⟩ := exec_markPaidAt hmark { inv with status := status } rfl rfl
  rw [Machine.exec_bind] at h
  obtain ⟨aud, s₅, w₅, haud, rfl, rfl, rfl⟩ := h
  obtain ⟨rfl, hentry, hseq'⟩ := Audit.exec_record haud hseq
  exact ⟨.settled hentry, hseq'⟩

theorem exec_applyInvoiceEvent {etype : String} {key r : Json}
    (h : machine.Exec (applyInvoiceEvent env etype key) s w r s' w')
    (hseq : Audit.SeqBelow s.auditEvents w) :
    (∃ act, stripeAction s etype key = .ok act ∧ Performed env s act s') ∧
      Audit.SeqBelow s'.auditEvents w' := by
  unfold applyInvoiceEvent at h
  rw [Machine.exec_ofExcept_bind] at h
  obtain ⟨stripeId, hstripeId, h⟩ := h
  rw [Machine.exec_select_bind, Machine.exec_bind] at h
  obtain ⟨found, s₁, w₁, hfound, h⟩ := h
  obtain ⟨hrows, rfl, rfl⟩ := Session.exec_scalarOneOrNone.mp hfound
  have hone : oneOrNone (byStripeId s₁ stripeId) = .ok found := oneOrNone_eq_ok.mpr hrows
  cases found with
  | none =>
      obtain ⟨rfl, rfl, rfl⟩ := h
      exact ⟨⟨.ignore, bind_eq_ok.mpr ⟨_, hstripeId, bind_eq_ok.mpr ⟨_, hone, rfl⟩⟩, .ignored⟩,
        hseq⟩
  | some inv =>
      have hin : inv ∈ byStripeId s₁ stripeId := by simp [hrows]
      have hinv : s₁.invoices.find? inv.id = some inv :=
        Table.find?_of_mem (List.mem_filter.mp hin).1
      cases hstatus : settledStatus etype with
      | none =>
          simp only [hstatus] at h
          obtain ⟨rfl, rfl, rfl⟩ := h
          refine ⟨⟨.ignore, bind_eq_ok.mpr ⟨_, hstripeId, bind_eq_ok.mpr ⟨_, hone, ?_⟩⟩,
            .ignored⟩, hseq⟩
          simp only [hstatus]
          rfl
      | some status =>
          simp only [hstatus] at h
          obtain ⟨hperf, hseq'⟩ := exec_settle h hinv hseq
          refine ⟨⟨_, bind_eq_ok.mpr ⟨_, hstripeId, bind_eq_ok.mpr ⟨_, hone, ?_⟩⟩, hperf⟩, hseq'⟩
          simp only [hstatus]
          rfl

theorem exec_invoiceEvent {etype obj r : Json}
    (h : machine.Exec (invoiceEvent env etype obj) s w r s' w')
    (hseq : Audit.SeqBelow s.auditEvents w) :
    (∃ act, invoiceAction s etype obj = .ok act ∧ Performed env s act s') ∧
      Audit.SeqBelow s'.auditEvents w' := by
  unfold invoiceEvent at h
  rw [Machine.exec_ofExcept_bind] at h
  obtain ⟨key, hkey, h⟩ := h
  by_cases htruthy : key.truthy
  · rw [if_pos htruthy] at h
    cases etype with
    | str etype =>
        by_cases hstart : startsWith "invoice." etype
        · simp only [hstart, if_true] at h
          obtain ⟨⟨act, hact, hperf⟩, hseq'⟩ := exec_applyInvoiceEvent h hseq
          refine ⟨⟨act, bind_eq_ok.mpr ⟨key, hkey, ?_⟩, hperf⟩, hseq'⟩
          simpa only [htruthy, hstart, if_true] using hact
        · simp only [hstart, if_false, Bool.false_eq_true] at h
          obtain ⟨rfl, rfl, rfl⟩ := h
          refine ⟨⟨.ignore, bind_eq_ok.mpr ⟨key, hkey, ?_⟩, .ignored⟩, hseq⟩
          simp only [htruthy, hstart, if_true, if_false, Bool.false_eq_true]
    | _ => exact h.elim
  · rw [if_neg htruthy] at h
    obtain ⟨rfl, rfl, rfl⟩ := h
    refine ⟨⟨.ignore, bind_eq_ok.mpr ⟨key, hkey, ?_⟩, .ignored⟩, hseq⟩
    rw [if_neg htruthy]

theorem exec_handleStripeEvent {event r : Json}
    (h : machine.Exec (handleStripeEvent env event) s w r s' w')
    (hseq : Audit.SeqBelow s.auditEvents w) :
    (∃ act, webhookAction s event = .ok act ∧ Performed env s act s') ∧
      Audit.SeqBelow s'.auditEvents w' := by
  unfold handleStripeEvent at h
  rw [Machine.exec_ofExcept_bind] at h
  obtain ⟨etype, hetype, h⟩ := h
  rw [Machine.exec_ofExcept_bind] at h
  obtain ⟨obj, hobj, h⟩ := h
  by_cases hcompleted : etype.isStr "checkout.session.completed"
  · rw [if_pos hcompleted] at h
    obtain ⟨⟨act, hact, hperf⟩, hseq'⟩ := exec_completeCheckout h hseq
    refine ⟨⟨act, bind_eq_ok.mpr ⟨etype, hetype, bind_eq_ok.mpr ⟨obj, hobj, ?_⟩⟩, hperf⟩, hseq'⟩
    rwa [if_pos hcompleted]
  · rw [if_neg hcompleted] at h
    obtain ⟨⟨act, hact, hperf⟩, hseq'⟩ := exec_invoiceEvent h hseq
    refine ⟨⟨act, bind_eq_ok.mpr ⟨etype, hetype, bind_eq_ok.mpr ⟨obj, hobj, ?_⟩⟩, hperf⟩, hseq'⟩
    rwa [if_neg hcompleted]

end Settlement

end Billing

end HumanDataFactory
