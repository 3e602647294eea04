import HumanDataFactory.Billing.Retries
import HumanDataFactory.Billing.Webhooks
import HumanDataFactory.Transact.Turns

/-!
# Payments that are reported early

`generate_invoice` pushes an invoice to Stripe and commits it later.  Between
the two the customer may pay, and the webhook looks for a row that nobody else
can see yet.  It answers an unknown invoice like any other event, with a 200,
and Stripe does not report the payment again.
-/

namespace HumanDataFactory

open Transact

namespace Deliveries

open Stripe

variable {env : Env} {stripeId : String}

/-! ## The webhook -/

/-- The event that reports the payment of a Stripe invoice. -/
structure PaymentOf (stripeId : String) (event : Json) : Prop where
  type : event.getD "type" (.str "") = .ok (.str "invoice.paid")
  object : ∃ obj, Billing.eventObject event = .ok obj ∧ obj.get "id" = .ok (.str stripeId)
  nonempty : stripeId ≠ ""

variable (env stripeId) in
/-- A delivery of that event; its signature may be refused. -/
def Delivers (http : Api.Http) : Prop :=
  ∃ payload signature, http.request = .stripeWebhook payload signature ∧
    ∀ event, StripeGateway.parseWebhook env payload signature = .ok event →
      PaymentOf stripeId event

theorem handleStripeEvent_of_paymentOf {event : Json} (h : PaymentOf stripeId event) :
    Billing.handleStripeEvent env event =
      Billing.applyInvoiceEvent env "invoice.paid" (.str stripeId) := by
  obtain ⟨obj, hobj, hid⟩ := h.object
  have htruthy : (Json.str stripeId).truthy = true := by simpa [Json.truthy] using h.nonempty
  have hsettled : Billing.settledStatus "invoice.paid" = some .paid := by
    simp [Billing.settledStatus]
  have hstarts := Billing.startsWith_of_settledStatus hsettled
  unfold Billing.handleStripeEvent Billing.invoiceEvent
  simp only [h.type, hobj, hid, Prog.ofExcept, Prog.pure_bind, Json.isStr, htruthy, hstarts,
    if_true]
  rfl

variable {ws : List Write} {seen : List (Query × Db)}

/-- What the lookup of a delivery found. -/
inductive Found (stripeId : String) (s : Db) : List Write → Prop
  | unknown (h : Billing.byStripeId s stripeId = []) : Found stripeId s []
  | known {inv now ev} (h : Billing.byStripeId s stripeId = [inv]) :
      Found stripeId s [.setInvoiceStatus inv.id .paid, .setPaidAt inv.id (some now),
        .insertAuditEvent ev]

theorem runs_record {actor action entityType entityId : String} {payload : Json}
    {r : AuditEvent} {ws₀ : List Write}
    (h : machine.Runs (Audit.record env actor action entityType entityId payload) ws₀ seen ws r) :
    (∃ s, seen = [(.lastEvent, s)]) ∧ ∃ ev, ws = ws₀ ++ [.insertAuditEvent ev] := by
  unfold Audit.record at h
  rw [Machine.runs_select_bind] at h
  obtain ⟨s, v, seen₁, rfl, _, h⟩ := h
  rw [Machine.runs_ask_bind] at h
  obtain ⟨seq, h⟩ := h
  rw [Machine.runs_ask_bind] at h
  obtain ⟨now, h⟩ := h
  rw [Machine.runs_emit_bind] at h
  obtain ⟨rfl, rfl, _⟩ := h
  exact ⟨⟨s, rfl⟩, _, rfl⟩

theorem runs_delivery {http : Api.Http} {r : Json} (hd : Delivers env stripeId http)
    (h : machine.Runs (Api.serve env http) [] seen ws r) :
    ∃ s, (∀ s', (.rows .invoices, s') ∈ seen ↔ s' = s) ∧ Found stripeId s ws := by
  obtain ⟨payload, signature, hrequest, hevents⟩ := hd
  unfold Api.serve at h
  rw [hrequest] at h
  change machine.Runs (Prog.ofExcept (StripeGateway.parseWebhook env payload signature) >>=
    Billing.handleStripeEvent env) [] seen ws r at h
  rw [Machine.runs_ofExcept_bind] at h
  obtain ⟨event, hevent, h⟩ := h
  rw [handleStripeEvent_of_paymentOf (hevents event hevent)] at h
  unfold Billing.applyInvoiceEvent at h
  rw [Machine.runs_ofExcept_bind] at h
  obtain ⟨id, hid, h⟩ := h
  obtain rfl : id = stripeId := (Json.str.inj (Billing.boundText_eq_ok.mp hid)).symm
  rw [Machine.runs_select_bind_nil] at h
  obtain ⟨s, seen₁, rfl, h⟩ := h
  rw [Machine.runs_bind] at h
  obtain ⟨found, ws₁, seen₂, seen₃, rfl, hfound, h⟩ := h
  obtain ⟨hrows, rfl, rfl⟩ := Session.runs_scalarOneOrNone hfound
  cases found with
  | none =>
      obtain ⟨rfl, rfl, _⟩ := h
      exact ⟨s, by simp, .unknown hrows⟩
  | some inv =>
      change machine.Runs (Billing.settle env inv "invoice.paid" id .paid) [] seen₃ ws r at h
      unfold Billing.settle Billing.markPaidAt at h
      rw [Machine.runs_emit_bind, Prog.bind_assoc, Machine.runs_ask_bind] at h
      obtain ⟨now, h⟩ := h
      rw [Machine.runs_emit_bind, Machine.runs_bind] at h
      obtain ⟨aud, ws₂, seen₄, seen₅, rfl, hrecord, rfl, rfl, _⟩ := h
      obtain ⟨⟨s₁, rfl⟩, ev, rfl⟩ := runs_record hrecord
      exact ⟨s, by simp, .known hrows⟩

/-! ## The invoice -/

/-- The writes that issue an invoice. -/
inductive IssuesBy (firm : Firm) (inv : Invoice) : List Write → Prop
  | external : IssuesBy firm inv [.setInvoiceStatus inv.id .issuedExternal]
  | stripe {customer stripeId url} : IssuesBy firm inv
      [.setStripeCustomerId firm.id (some customer),
        .setStripeInvoice inv.id (some stripeId) (some url), .setInvoiceStatus inv.id .open]

/-- The writes of a call of `generate_invoice`. -/
inductive Invoices : List Write → Prop
  | mk {firm inv events us now ev} (hstatus : inv.status = .draft)
      (hid : inv.stripeInvoiceId = none) (hissue : IssuesBy firm inv us) :
      Invoices (.insertInvoice inv ::
        ((events : List UsageEvent).map (fun e ↦ .setInvoiceId e.id (some inv.id)) ++ us ++
          [.setIssuedAt inv.id (some now), .insertAuditEvent ev]))

theorem runs_issue {firm : Firm} {inv r : Invoice} {ws₀ : List Write}
    (h : machine.Runs (Billing.issue env firm inv) ws₀ seen ws r) :
    ∃ us, IssuesBy firm inv us ∧ ws = ws₀ ++ us := by
  unfold Billing.issue at h
  split at h
  · unfold Billing.pushToStripe at h
    rw [Machine.runs_bind] at h
    obtain ⟨customer, ws₁, seen₁, seen₂, rfl, hcustomer, h⟩ := h
    obtain rfl := hcustomer.of_writeless (StripeGateway.writeless_ensureCustomer env firm)
    rw [Machine.runs_emit_bind, Machine.runs_bind] at h
    obtain ⟨⟨id, url⟩, ws₂, seen₃, seen₄, rfl, hpush, h⟩ := h
    obtain rfl := hpush.of_writeless (StripeGateway.writeless_pushInvoice env _ _)
    rw [Machine.runs_emit_bind, Machine.runs_emit_bind] at h
    obtain ⟨rfl, rfl, _⟩ := h
    exact ⟨_, .stripe, by rw [List.append_assoc, List.append_assoc]; rfl⟩
  · rw [Machine.runs_emit_bind] at h
    obtain ⟨rfl, rfl, _⟩ := h
    exact ⟨_, .external, rfl⟩

theorem runs_draft {firm : Firm} {periodStart periodEnd : Time} {issuedBy : String}
    {x : Invoice × ℕ × Time}
    (h : machine.Runs (Retries.draft env firm periodStart periodEnd issuedBy) [] seen ws x) :
    x.1.status = .draft ∧ x.1.stripeInvoiceId = none ∧ ∃ events : List UsageEvent,
      ws = .insertInvoice x.1 :: events.map fun e ↦ .setInvoiceId e.id (some x.1.id) := by
  unfold Retries.draft at h
  rw [Machine.runs_select_bind_nil] at h
  obtain ⟨s, seen₁, rfl, h⟩ := h
  rw [Machine.runs_ensure_bind, Machine.runs_bind] at h
  obtain ⟨_, lines, ws₁, seen₂, seen₃, rfl, hlines, h⟩ := h
  obtain ⟨_, rfl⟩ := Invoicing.runs_describeAll hlines
  rw [Machine.runs_ask_bind] at h
  obtain ⟨now, h⟩ := h
  unfold Billing.nextInvoiceNumber at h
  rw [Prog.bind_assoc, Machine.runs_select_bind_nil] at h
  obtain ⟨s₁, seen₄, rfl, h⟩ := h
  rw [Prog.monad_pure, Prog.pure_bind, Machine.runs_ask_bind] at h
  obtain ⟨id, h⟩ := h
  rw [Machine.runs_ask_bind] at h
  obtain ⟨createdAt, h⟩ := h
  rw [Machine.runs_emit_bind, Machine.runs_emitAll_bind] at h
  obtain ⟨_, rfl, rfl⟩ := h
  exact ⟨rfl, rfl, _, rfl⟩

theorem runs_call {call : Invoicing.InvoiceCall} {r : Json}
    (h : machine.Runs (Api.serve env call.http) [] seen ws r) : Invoices ws := by
  obtain ⟨firm, issuedBy, _, _, seen', _, h⟩ := Invoicing.runs_of_call h
  rw [Retries.generateInvoice_eq, Machine.runs_bind] at h
  obtain ⟨x, ws₃, seen₆, seen₇, rfl, hdraft, h⟩ := h
  obtain ⟨hstatus, hid, events, rfl⟩ := runs_draft hdraft
  rw [Machine.runs_bind] at h
  obtain ⟨issued, ws₄, seen₈, seen₉, rfl, hissue, h⟩ := h
  obtain ⟨us, hus, rfl⟩ := runs_issue hissue
  unfold Retries.record at h
  rw [Machine.runs_emit_bind, Machine.runs_bind] at h
  obtain ⟨aud, ws₅, seen₁₀, seen₁₁, rfl, hrecord, rfl, rfl, _⟩ := h
  obtain ⟨_, ev, rfl⟩ := runs_record hrecord
  have hinvoices := @Invoices.mk _ _ events _ x.2.2 ev hstatus hid hus
  simpa using hinvoices

/-- The row a call leaves, which carries the Stripe identifier it wrote. -/
structure NewRow (ws : List Write) (s s' : Db) (row : Invoice) : Prop where
  vacant : s.invoices.Vacant row.id
  rows : s'.invoices = s.invoices.push row
  unpaid : row.status ≠ .paid
  pushed : ∀ id stripeId url, .setStripeInvoice id stripeId url ∈ ws →
    row.id = id ∧ row.stripeInvoiceId = stripeId

theorem newRow_of_view {s s' : Db} (h : Invoices ws) (hv : machine.view ws s = some s') :
    ∃ row, NewRow ws s s' row := by
  obtain @⟨firm, inv, events, us, now, ev, hstatus, hid, hissue⟩ := h
  rw [Machine.view_cons, machine_apply] at hv
  obtain ⟨s₁, hs₁, hv⟩ := Option.bind_eq_some_iff.mp hv
  obtain ⟨⟨hvac, _⟩, hs₁⟩ := Option.ite_none_right_eq_some.mp hs₁
  obtain rfl := Option.some.inj hs₁
  rw [List.append_assoc, Machine.view_append, Billing.view_setInvoiceId, Option.bind_some] at hv
  cases hissue with
  | external =>
      simp only [List.cons_append, List.nil_append, Machine.view_cons, Machine.view_nil,
        machine_apply, Db.apply, Option.bind_some, Option.some.injEq] at hv
      refine ⟨{ inv with status := .issuedExternal, issuedAt := some now }, hvac, ?_, by simp, ?_⟩
      · rw [← hv]
        simp only [Table.push_modify hvac rfl]
        rw [Table.push_modify (by exact hvac) rfl]
      · intro id v url hmem
        simp at hmem
  | @stripe customer stripeId url =>
      simp only [List.cons_append, List.nil_append, Machine.view_cons, Machine.view_nil,
        machine_apply, Db.apply, Option.bind_some, Option.some.injEq] at hv
      refine ⟨{ inv with
        stripeInvoiceId := some stripeId
        hostedInvoiceUrl := some url
        status := .open
        issuedAt := some now }, hvac, ?_, by simp, ?_⟩
      · rw [← hv]
        simp only [Table.push_modify hvac rfl]
        rw [Table.push_modify (by exact hvac) rfl, Table.push_modify (by exact hvac) rfl]
      · intro id v url' hmem
        obtain ⟨rfl, rfl, _⟩ : id = inv.id ∧ v = some stripeId ∧ url' = some url := by
          simpa using hmem
        exact ⟨rfl, rfl⟩

/-! ## The protocol -/

inductive Party (δ : Type)
  | invoicing
  | delivery (n : δ)
  deriving DecidableEq

/-- The database, the Stripe account, and how far everybody is. -/
abbrev State (δ : Type) := Sys (Party δ) Db Write Query Call Reply Account PyError Json

variable (env) in
/-- One call of `generate_invoice`, and the deliveries of one event. -/
def programs {δ : Type} (call : Invoicing.InvoiceCall) (deliveries : δ → Api.Http) :
    Party δ → Tx Json
  | .invoicing => Api.serve env call.http
  | .delivery n => Api.serve env (deliveries n)

section Protocol

variable {δ : Type}

/-- Stripe got its 2xx response. -/
def Answered (S : State δ) : Prop :=
  ∃ n, (S.txn (.delivery n)).isCommitted = true

/-- A delivery starts after the push and before any 2xx response. -/
def InTurn (stripeId : String) (S : State δ) : Party δ → Prop
  | .invoicing => True
  | .delivery n => S.world.Sent stripeId ∧ ((S.txn (.delivery n)).begun = true ∨ ¬Answered S)

/-- Stripe has finished delivering. -/
structure Finished (S : State δ) : Prop where
  answered : Answered S
  idle : ∀ n, (S.txn (.delivery n)).begun = true → (S.txn (.delivery n)).isRunning = false

/-- The delivery got its 2xx response, and had looked the invoice up when it
was there. -/
def Knew (stripeId : String) (S : State δ) (n : δ) : Prop :=
  ∃ r ws seen s, S.txn (.delivery n) = .committed r ws seen ∧ (.rows .invoices, s) ∈ seen ∧
    Billing.byStripeId s stripeId ≠ []

/-- The invoices that carry the Stripe identifier. -/
def carriers (stripeId : String) (s : Db) : List String :=
  (Billing.byStripeId s stripeId).map Invoice.id

theorem carriers_eq_nil {s : Db} : carriers stripeId s = [] ↔ Billing.byStripeId s stripeId = [] :=
  List.map_eq_nil_iff

theorem mem_carriers {s : Db} {id : String} : id ∈ carriers stripeId s ↔
    ∃ inv ∈ s.invoices, inv.stripeInvoiceId = some stripeId ∧ inv.id = id := by
  simp [carriers, Billing.byStripeId, Table.mem_def, and_assoc]

/-- What decides whether an invoice is a carrier. -/
def carrierOf (inv : Invoice) : Option String × String :=
  (inv.stripeInvoiceId, inv.id)

theorem carriers_eq (s : Db) : carriers stripeId s =
    ((s.invoices.rows.map carrierOf).filter fun x ↦ x.1 = some stripeId).map Prod.snd := by
  rw [List.filter_map, List.map_map]
  rfl

theorem keeps_carriers {u : Write} {k : String} {f : Invoice → Invoice}
    {hf : ∀ a, (f a).id = a.id}
    (hu : ∀ s, Db.apply u s = some { s with invoices := s.invoices.modify k f hf })
    (hcarrier : ∀ a, carrierOf (f a) = carrierOf a) :
    machine.Keeps (fun s ↦ s.invoices.rows.map carrierOf) u := by
  intro s s' hs
  obtain rfl := Option.some.inj ((hu s).symm.trans hs)
  have hrows : (s.invoices.modify k f hf).rows.map carrierOf = s.invoices.rows.map carrierOf :=
    Table.map_modify carrierOf fun a _ _ ↦ hcarrier a
  exact hrows

/-- A delivery that marks an invoice as paid changes no identifier. -/
theorem carriers_of_found {ws : List Write} {s s₁ s' : Db} (h : Found stripeId s ws)
    (hv : machine.view ws s₁ = some s') : carriers stripeId s' = carriers stripeId s₁ := by
  have hkeeps : ∀ u ∈ ws, machine.Keeps (fun s ↦ s.invoices.rows.map carrierOf) u := by
    cases h with
    | unknown h => simp
    | known h =>
        simp only [List.forall_mem_cons, List.not_mem_nil, false_imp_iff, implies_true, and_true]
        refine ⟨keeps_carriers (fun _ ↦ rfl) fun _ ↦ rfl, keeps_carriers (fun _ ↦ rfl) fun _ ↦ rfl,
          ?_⟩
        intro s s' hs
        obtain rfl := Option.some.inj hs
        rfl
  rw [carriers_eq, carriers_eq, Machine.Keeps.view hkeeps hv]

theorem paid_of_view {s s' : Db} {id : String} {now : Time} {ev : AuditEvent}
    (hv : machine.view [.setInvoiceStatus id .paid, .setPaidAt id (some now),
      .insertAuditEvent ev] s = some s') {inv : Invoice} (hinv : inv ∈ s'.invoices)
    (hid : inv.id = id) : inv.status = .paid := by
  simp only [Machine.view_cons, Machine.view_nil, machine_apply, Db.apply, Option.bind_some,
    Option.some.injEq] at hv
  subst hv
  dsimp only at hinv
  rcases Table.mem_modify_cases hinv with ⟨_, hne⟩ | ⟨b, hb, hkey, rfl⟩
  · exact absurd hid hne
  · rcases Table.mem_modify_cases hb with ⟨_, hne⟩ | ⟨c, _, _, rfl⟩
    · exact absurd hkey hne
    · rfl

/-- What holds in every state: the invoice appears once, with the commit of the
call, and is paid if and only if some answered delivery knew it. -/
structure Inv (stripeId : String) (S : State δ) : Prop where
  hidden : (S.txn .invoicing).isCommitted = false → carriers stripeId S.store = []
  carried : ∀ r ws seen id url, S.txn .invoicing = .committed r ws seen →
    .setStripeInvoice id (some stripeId) url ∈ ws → carriers stripeId S.store = [id]
  seen : ∀ i x, x ∈ (S.txn i).seen →
    carriers stripeId x.2 = [] ∨ carriers stripeId x.2 = carriers stripeId S.store
  paid : ∀ inv ∈ S.store.invoices, inv.stripeInvoiceId = some stripeId →
    (inv.status = .paid ↔ ∃ n, Knew stripeId S n)

variable [DecidableEq δ] {S S' : State δ} {i : Party δ}

theorem knew_advance (h : stripeMachine.Advance S i S') {n : δ} :
    Knew stripeId S' n ↔ Knew stripeId S n := by
  simp only [Knew, h.committed_iff]

theorem Inv.advance (hS : Inv stripeId S) (h : stripeMachine.Advance S i S') :
    Inv stripeId S' := by
  have hstore := h.store_eq
  refine ⟨?_, ?_, ?_, ?_⟩
  · intro hcommit
    rw [hstore]
    apply hS.hidden
    by_contra hne
    obtain ⟨a, ws, seen, ht⟩ := Txn.isCommitted_iff.mp (by simpa using hne)
    rw [h.committed_iff.mpr ht] at hcommit
    cases hcommit
  · intro r ws seen id url ht
    rw [hstore]
    exact hS.carried r ws seen id url (h.committed_iff.mp ht)
  · intro j x hx
    rw [hstore]
    rcases h.seen hx with hx | hx
    · exact hS.seen j x hx
    · exact Or.inr (by rw [hx])
  · intro inv hinv hid
    rw [hstore] at hinv
    simp only [knew_advance h]
    exact hS.paid inv hinv hid

section Commit

variable {a : Json} {ws : List Write} {seen : List (Query × Db)} {s' : Db}

/-- The state after a commit. -/
def committed (S : State δ) (i : Party δ) (a : Json) (ws : List Write) (seen : List (Query × Db))
    (s' : Db) : State δ :=
  { S.set i (.committed a ws seen) with store := s' }

@[simp] theorem committed_store : (committed S i a ws seen s').store = s' := rfl

@[simp] theorem committed_txn_self :
    (committed S i a ws seen s').txn i = .committed a ws seen :=
  Sys.set_txn_self ..

theorem committed_txn_ne {j : Party δ} (h : j ≠ i) :
    (committed S i a ws seen s').txn j = S.txn j :=
  Sys.set_txn_ne _ _ _ h

theorem seen_committed (hi : S.txn i = .running (.pure a) ws seen) (j : Party δ) :
    ((committed S i a ws seen s').txn j).seen = (S.txn j).seen := by
  by_cases hj : j = i
  · subst hj
    rw [committed_txn_self, hi]
    rfl
  · rw [committed_txn_ne hj]

theorem knew_committed_ne {n : δ} (hn : Party.delivery n ≠ i) :
    Knew stripeId (committed S i a ws seen s') n ↔ Knew stripeId S n := by
  simp only [Knew, committed_txn_ne hn]

omit [DecidableEq δ] in
theorem not_knew_of_running {n : δ} (hn : S.txn (.delivery n) = .running (.pure a) ws seen) :
    ¬Knew stripeId S n := by
  rintro ⟨r, ws', seen', s, ht, _⟩
  rw [hn] at ht
  cases ht

theorem Inv.commit_invoicing (hS : Inv stripeId S)
    (hi : S.txn .invoicing = .running (.pure a) ws seen) (hinvoices : Invoices ws)
    (hv : machine.view ws S.store = some s') :
    Inv stripeId (committed S .invoicing a ws seen s') := by
  obtain ⟨row, hrow⟩ := newRow_of_view hinvoices hv
  have hnone : carriers stripeId S.store = [] := by
    apply hS.hidden
    rw [hi]
    rfl
  have hunseen : ∀ j x, x ∈ (S.txn j).seen → carriers stripeId x.2 = [] := by
    intro j x hx
    rcases hS.seen j x hx with hx | hx
    · exact hx
    · exact hx.trans hnone
  have hrows : carriers stripeId s' =
      if row.stripeInvoiceId = some stripeId then [row.id] else [] := by
    rw [carriers_eq, hrow.rows, Table.rows_push hrow.vacant, List.map_append, List.filter_append,
      List.map_append, ← carriers_eq, hnone]
    by_cases h : row.stripeInvoiceId = some stripeId <;> simp [carrierOf, h]
  refine ⟨?_, ?_, ?_, ?_⟩
  · intro h
    rw [committed_txn_self] at h
    cases h
  · intro r ws' seen' id url ht hmem
    rw [committed_txn_self] at ht
    cases ht
    obtain ⟨rfl, hid⟩ := hrow.pushed _ _ _ hmem
    rw [committed_store, hrows, if_pos hid]
  · intro j x hx
    rw [seen_committed hi] at hx
    exact Or.inl (hunseen j x hx)
  · intro inv hinv hid
    have hself : inv = row := by
      rw [committed_store, hrow.rows] at hinv
      rcases (Table.mem_push hrow.vacant).mp hinv with hold | hself
      · have hmem := mem_carriers.mpr ⟨inv, hold, hid, rfl⟩
        rw [hnone] at hmem
        cases hmem
      · exact hself
    rw [hself]
    refine ⟨fun h ↦ absurd h hrow.unpaid, ?_⟩
    rintro ⟨n, r, ws', seen', s, ht, hs, hknew⟩
    rw [committed_txn_ne (by simp)] at ht
    have hmem : (.rows .invoices, s) ∈ (S.txn (.delivery n)).seen := by
      rw [ht]
      exact hs
    exact absurd (carriers_eq_nil.mp (hunseen _ _ hmem)) hknew

theorem Inv.commit_delivery {n : δ} (hS : Inv stripeId S)
    (hi : S.txn (.delivery n) = .running (.pure a) ws seen) {s : Db}
    (hseen : ∀ s', (.rows .invoices, s') ∈ seen ↔ s' = s) (hfound : Found stripeId s ws)
    (hv : machine.view ws S.store = some s') :
    Inv stripeId (committed S (.delivery n) a ws seen s') := by
  have hself : Knew stripeId (committed S (.delivery n) a ws seen s') n ↔
      Billing.byStripeId s stripeId ≠ [] := by
    constructor
    · rintro ⟨r, ws', seen', s₁, ht, hs₁, hknew⟩
      rw [committed_txn_self] at ht
      cases ht
      obtain rfl := (hseen s₁).mp hs₁
      exact hknew
    · intro hknew
      exact ⟨a, ws, seen, s, committed_txn_self, (hseen s).mpr rfl, hknew⟩
  have hother : ∀ m, m ≠ n → (Knew stripeId (committed S (.delivery n) a ws seen s') m ↔
      Knew stripeId S m) := fun m hm ↦ knew_committed_ne (by simpa using hm)
  have hmem : (.rows .invoices, s) ∈ (S.txn (.delivery n)).seen := by
    rw [hi]
    exact (hseen s).mpr rfl
  have hcarriers : carriers stripeId s' = carriers stripeId S.store := carriers_of_found hfound hv
  refine ⟨?_, ?_, ?_, ?_⟩
  · intro h
    rw [committed_store, hcarriers]
    rw [committed_txn_ne (by simp)] at h
    exact hS.hidden h
  · intro r ws' seen' id url ht hset
    rw [committed_store, hcarriers]
    rw [committed_txn_ne (by simp)] at ht
    exact hS.carried r ws' seen' id url ht hset
  · intro j x hx
    rw [seen_committed hi] at hx
    rw [committed_store, hcarriers]
    exact hS.seen j x hx
  · intro inv hinv hid
    rw [committed_store] at hinv
    cases hfound with
    | unknown h =>
        obtain rfl : S.store = s' := Option.some.inj hv
        rw [hS.paid inv hinv hid]
        apply exists_congr
        intro m
        by_cases hm : m = n
        · subst hm
          exact iff_of_false (not_knew_of_running hi) (fun hknew ↦ hself.mp hknew h)
        · exact (hother m hm).symm
    | @known paid now ev h =>
        refine iff_of_true ?_ ⟨n, hself.mpr (by simp [h])⟩
        have hpaidId : carriers stripeId s = [paid.id] := by rw [carriers, h]; rfl
        have hsame : inv.id = paid.id := by
          have hmem' := mem_carriers.mpr ⟨inv, hinv, hid, rfl⟩
          rw [hcarriers] at hmem'
          rcases hS.seen _ _ hmem with hnil | heq
          · rw [hpaidId] at hnil
            cases hnil
          · rw [← heq, hpaidId] at hmem'
            exact List.mem_singleton.mp hmem'
        exact paid_of_view hv hinv hsame

end Commit

/-- Once Stripe has finished delivering, no delivery changes anything. -/
theorem Finished.turn (hS : Finished S)
    (h : stripeMachine.Turn (InTurn stripeId) S S') :
    Finished S' ∧ ∀ n, S'.txn (.delivery n) = S.txn (.delivery n) := by
  have hstuck : ∀ n, InTurn stripeId S (.delivery n) →
      (S.txn (.delivery n)).isRunning = true → False := by
    rintro n ⟨_, hbegun | hopen⟩ hrunning
    · simp [hS.idle n hbegun] at hrunning
    · exact hopen hS.answered
  have hsame : ∀ n, S'.txn (.delivery n) = S.txn (.delivery n) := by
    intro n
    cases h with
    | @advance i hturn h =>
        cases i with
        | invoicing => exact h.txn_ne (by simp)
        | delivery m => exact (hstuck m hturn h.running).elim
    | @commit i hturn h =>
        cases i with
        | invoicing => exact h.txn_ne (by simp)
        | delivery m => exact (hstuck m hturn h.running).elim
  obtain ⟨n, hn⟩ := hS.answered
  exact ⟨⟨⟨n, by rwa [hsame n]⟩, fun m ↦ by simpa only [hsame m] using hS.idle m⟩, hsame⟩

/-! ## Every order of steps -/

variable {call : Invoicing.InvoiceCall} {deliveries : δ → Api.Http} {s₀ : Db} {w₀ : Account}

theorem inv_of_turns (hdeliveries : ∀ n, Delivers env stripeId (deliveries n))
    (hnew : ∀ inv ∈ s₀.invoices, inv.stripeInvoiceId ≠ some stripeId)
    (h : stripeMachine.Turns (InTurn stripeId) (.init s₀ w₀ (programs env call deliveries)) S) :
    Inv stripeId S := by
  refine Machine.Turns.invariant ?_ (fun _ _ _ hS hstep ↦ hS.advance hstep) ?_ h
  · refine ⟨?_, ?_, ?_, ?_⟩
    · intro _
      rw [carriers_eq_nil, Billing.byStripeId, List.filter_eq_nil_iff]
      intro inv hinv
      simpa using hnew inv hinv
    · intro r ws seen id url ht
      cases ht
    · intro i x hx
      cases hx
    · intro inv hinv hid
      exact absurd hid (hnew inv hinv)
  · intro S i a ws seen s' hS hi hruns hv
    rw [stripeMachine_refines.view] at hv
    have hruns' := stripeMachine_refines.runs hruns
    cases i with
    | invoicing => exact hS.commit_invoicing hi (runs_call hruns') hv
    | delivery n =>
        obtain ⟨s, hseen, hfound⟩ := runs_delivery (hdeliveries n) hruns'
        exact hS.commit_delivery hi hseen hfound hv

/-- In every state after the commit of the call, the invoice it pushed is paid
exactly if a delivery that got its 2xx response had looked it up after the
commit. -/
theorem paid_iff_knew (hdeliveries : ∀ n, Delivers env stripeId (deliveries n))
    (hnew : ∀ inv ∈ s₀.invoices, inv.stripeInvoiceId ≠ some stripeId)
    (h : stripeMachine.Turns (InTurn stripeId) (.init s₀ w₀ (programs env call deliveries)) S)
    {r : Json} {ws : List Write} {seen : List (Query × Db)} {id : String} {url : Option String}
    (hcommit : S.txn .invoicing = .committed r ws seen)
    (hpushed : .setStripeInvoice id (some stripeId) url ∈ ws) :
    (∃ inv, S.store.invoices.find? id = some inv ∧ inv.status = .paid) ↔
      ∃ n, Knew stripeId S n := by
  have hS := inv_of_turns hdeliveries hnew h
  have hcarrier : id ∈ carriers stripeId S.store := by
    rw [hS.carried r ws seen id url hcommit hpushed]
    exact List.mem_singleton_self id
  obtain ⟨inv, hinv, hid, rfl⟩ := mem_carriers.mp hcarrier
  rw [← hS.paid inv hinv hid, Table.find?_of_mem hinv]
  simp

end Protocol

section Examples

open Development

instance {δ : Type} [Fintype δ] (S : State δ) : Decidable (Answered S) :=
  inferInstanceAs (Decidable (∃ _, _))

instance {δ : Type} [Fintype δ] (stripeId : String) (S : State δ) :
    (i : Party δ) → Decidable (InTurn stripeId S i)
  | .invoicing => inferInstanceAs (Decidable True)
  | .delivery _ => inferInstanceAs (Decidable (_ ∧ _))

/-- Two attempts to deliver the payment, should they be needed. -/
def attempts : Bool → Api.Http :=
  fun _ ↦ http (.stripeWebhook paidBody (some "t=1,v1=0"))

def pushing : State Bool :=
  .init unbilledStore newAccount (programs stripeEnv Retries.firstWindow attempts)

instance {δ : Type} [Fintype δ] (S : State δ) : Decidable (Finished S) :=
  decidable_of_iff (Answered S ∧
      ∀ n, (S.txn (.delivery n)).begun = true → (S.txn (.delivery n)).isRunning = false)
    ⟨fun h ↦ ⟨h.1, h.2⟩, fun h ↦ ⟨h.answered, h.idle⟩⟩

/-- The invoice of the committed call, with its Stripe identifier. -/
def pushedBy (S : State Bool) : Option (String × String) :=
  match S.txn .invoicing with
  | .committed _ ws _ => ws.findSome? fun
      | .setStripeInvoice id (some stripeId) _ => some (id, stripeId)
      | _ => none
  | _ => none

theorem pushedBy_eq_some {S : State Bool} {id stripeId : String}
    (h : pushedBy S = some (id, stripeId)) : ∃ r ws seen url,
      S.txn .invoicing = .committed r ws seen ∧ .setStripeInvoice id (some stripeId) url ∈ ws := by
  unfold pushedBy at h
  split at h
  · rename_i r ws seen ht
    obtain ⟨u, hu, hid⟩ := List.exists_of_findSome?_eq_some h
    split at hid
    · simp only [Option.some.injEq, Prod.mk.injEq] at hid
      obtain ⟨rfl, rfl⟩ := hid
      exact ⟨r, ws, seen, _, ht, hu⟩
    · cases hid
  · cases h

theorem delivers_attempts (n : Bool) : Delivers stripeEnv "in_" (attempts n) := by
  refine ⟨paidBody, some "t=1,v1=0", rfl, ?_⟩
  intro event hevent
  obtain rfl : stripeEvent "invoice.paid" [("id", .str "in_")] = event := Except.ok.inj hevent
  exact ⟨rfl, ⟨_, rfl, rfl⟩, by decide⟩

/-- What a schedule comes to: the invoice, whether Stripe has finished, and the
status of the row. -/
def played (schedule : List (Move (Party Bool))) :
    Option (Option (String × String) × Bool × Option InvoiceStatus) :=
  (stripeMachine.playInTurn (InTurn "in_") stripeAnswers schedule 100 pushing).map fun S ↦
    (pushedBy S, decide (Finished S),
      (pushedBy S).bind fun x ↦ (S.store.invoices.find? x.1).map Invoice.status)

theorem turns_of_played {schedule : List (Move (Party Bool))} {id : String}
    {status : InvoiceStatus}
    (h : played schedule = some (some (id, "in_"), true, some status)) :
    ∃ S r ws seen url, stripeMachine.Turns (InTurn "in_") pushing S ∧
      S.txn .invoicing = .committed r ws seen ∧ .setStripeInvoice id (some "in_") url ∈ ws ∧
        Finished S ∧ ∃ inv, S.store.invoices.find? id = some inv ∧ inv.status = status := by
  obtain ⟨S, hS, hplayed⟩ := Option.map_eq_some_iff.mp h
  simp only [Prod.mk.injEq, decide_eq_true_eq] at hplayed
  obtain ⟨hpushed, hfinished, hstatus⟩ := hplayed
  rw [hpushed, Option.bind_some, Option.map_eq_some_iff] at hstatus
  obtain ⟨r, ws, seen, url, ht, hmem⟩ := pushedBy_eq_some hpushed
  exact ⟨S, r, ws, seen, url, Machine.turns_of_playInTurn hS, ht, hmem, hfinished, hstatus⟩

/-- The call commits, then the payment is delivered. -/
def inOrder : List (Move (Party Bool)) :=
  List.replicate 30 (.advance .invoicing) ++ [.commit .invoicing] ++
    List.replicate 10 (.advance (.delivery false)) ++ [.commit (.delivery false)]

/-- The payment is delivered between the push and the commit. -/
def early : List (Move (Party Bool)) :=
  List.replicate 30 (.advance .invoicing) ++ List.replicate 10 (.advance (.delivery false)) ++
    [.commit (.delivery false), .commit .invoicing]

theorem new_of_unbilledStore (inv : Invoice) (hinv : inv ∈ unbilledStore.invoices) :
    inv.stripeInvoiceId ≠ some "in_" := by
  have hnone : unbilledStore.invoices.rows = [] := by decide +kernel
  rw [Table.mem_def, hnone] at hinv
  cases hinv

theorem paid_iff_knew_inOrder :
    ∃ S id, stripeMachine.Turns (InTurn "in_") pushing S ∧
      (∃ inv, S.store.invoices.find? id = some inv ∧ inv.status = .paid) ∧ ∃ n, Knew "in_" S n := by
  obtain ⟨S, r, ws, seen, url, hturns, ht, hmem, _, hpaid⟩ := turns_of_played
    (show played inOrder = some (some (identifier 105, "in_"), true, some .paid) by decide +kernel)
  exact ⟨S, identifier 105, hturns, hpaid,
    (paid_iff_knew delivers_attempts new_of_unbilledStore hturns ht hmem).mp hpaid⟩

/-- Delivered before the commit, the payment is lost. -/
theorem payment_lost :
    ¬∀ (stripeId : String) (call : Invoicing.InvoiceCall) (deliveries : Bool → Api.Http) (s₀ : Db)
      (w₀ : Account) (S : State Bool) (r : Json) (ws : List Write) (seen : List (Query × Db))
      (id : String) (url : Option String),
      (∀ n, Delivers stripeEnv stripeId (deliveries n)) →
      (∀ inv ∈ s₀.invoices, inv.stripeInvoiceId ≠ some stripeId) →
      stripeMachine.Turns (InTurn stripeId) (.init s₀ w₀ (programs stripeEnv call deliveries)) S →
      S.txn .invoicing = .committed r ws seen → .setStripeInvoice id (some stripeId) url ∈ ws →
      Finished S → ∃ inv, S.store.invoices.find? id = some inv ∧ inv.status = .paid := by
  intro hclaim
  obtain ⟨S, r, ws, seen, url, hturns, ht, hmem, hfinished, inv, hinv, hopen⟩ := turns_of_played
    (show played early = some (some (identifier 105, "in_"), true, some .open) by decide +kernel)
  obtain ⟨inv', hinv', hpaid⟩ := hclaim "in_" Retries.firstWindow attempts unbilledStore newAccount
    S r ws seen (identifier 105) url delivers_attempts new_of_unbilledStore hturns ht hmem hfinished
  obtain rfl : inv = inv' := Option.some.inj (hinv.symm.trans hinv')
  rw [hopen] at hpaid
  cases hpaid

end Examples

end Deliveries

end HumanDataFactory
