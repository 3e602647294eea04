import HumanDataFactory.Billing.Grouping
import HumanDataFactory.Billing.Webhooks
import HumanDataFactory.Metering

/-!
# The invoice ledger

Usage events are swept into invoices, once each.  What requests do to the two
tables comes down to three moves: nothing, one more event, one more invoice
over the events it sweeps.  From these follow the sums on every invoice, the
numbering, and which call of `generate_invoice` an event's `invoice_id` is due
to.
-/

namespace HumanDataFactory

open Transact

namespace Ledger

variable {env : Env}

/-! ## Moves of the ledger -/

/-- What never changes of an invoice. -/
structure Account where
  id : String
  number : String
  firmId : String
  subtotalCents : ℤ
  lineItems : List LineItem

def accountOf (inv : Invoice) : Account :=
  ⟨inv.id, inv.number, inv.firmId, inv.subtotalCents, inv.lineItems⟩

/-- The accounts of all invoices, in the order they were issued. -/
def accounts (s : Db) : List Account :=
  s.invoices.rows.map accountOf

def isGenerateInvoice : Api.Request → Bool
  | .generateInvoice .. => true
  | _ => false

variable (env) in
/-- What a served request does to usage events and invoices. -/
inductive Moved (request : Api.Request) (s s' : Db) : Prop
  | kept (hreq : isGenerateInvoice request = false) (hevents : s'.usageEvents = s.usageEvents)
      (haccounts : accounts s' = accounts s)
  | charged (hreq : isGenerateInvoice request = false) {ev : UsageEvent}
      (hnone : ev.invoiceId = none) (hvac : s.usageEvents.Vacant ev.id)
      (hevents : s'.usageEvents = s.usageEvents.push ev) (haccounts : accounts s' = accounts s)
  | issued {firm : Firm} {periodStart periodEnd : Time} {inv : Invoice}
      (hreq : request = .generateInvoice firm.id periodStart periodEnd)
      (hinv : Billing.Issuance env s firm periodStart periodEnd inv)
      (hevents : s'.usageEvents = s.usageEvents.mapRows
        (Billing.attach inv.id (Billing.uninvoiced env s firm.id periodStart periodEnd))
        (Billing.attach_id _ _))
      (hinvoices : s'.invoices = s.invoices.push inv)

variable {s s' : Db}

/-- Metering moves the ledger by at most one event. -/
theorem moved_of_metered {project : Project} {task : Task} {sub : Submission}
    {request : Api.Request} {s₀ s₁ : Db} (h : Billing.Metered env project task sub s₀ s₁)
    (hreq : isGenerateInvoice request = false) (hevents₀ : s₀.usageEvents = s.usageEvents)
    (hinvoices₀ : s₀.invoices = s.invoices) (hevents : s'.usageEvents = s₁.usageEvents)
    (hinvoices : s'.invoices = s₁.invoices) : Moved env request s s' := by
  have haccounts : s₁.invoices = s₀.invoices → accounts s' = accounts s := by
    intro hsame
    unfold accounts
    rw [hinvoices, hsame, hinvoices₀]
  cases h with
  | skipped => exact .kept hreq (hevents.trans hevents₀) (haccounts rfl)
  | @metered hgold hnew firm hfirm ev hev hid aud haud =>
      obtain ⟨id, now, hev⟩ := hev
      have hnone : ev.invoiceId = none := by rw [hev]; rfl
      rw [hevents₀] at hid
      exact .charged hreq hnone hid (by rw [hevents, hevents₀]) (haccounts rfl)

theorem moved_of_replace {request : Api.Request} (hreq : isGenerateInvoice request = false)
    {inv inv' : Invoice} (hinv : s.invoices.find? inv.id = some inv)
    (hinvoices : s'.invoices = s.invoices.replace inv')
    (hevents : s'.usageEvents = s.usageEvents) (haccount : accountOf inv' = accountOf inv) :
    Moved env request s s' := by
  have hfind : s.invoices.find? inv'.id = some inv := by
    rwa [show inv'.id = inv.id from congrArg Account.id haccount]
  refine .kept hreq hevents ?_
  unfold accounts
  rw [hinvoices, Table.map_replace accountOf hfind haccount]

theorem moved_of_reviewed {sub : Submission} {reviewer : Expert} {verdict : Verdict}
    {request : Api.Request} (h : Engine.Reviewed env sub reviewer verdict s s')
    (hreq : isGenerateInvoice request = false) : Moved env request s s' := by
  obtain ⟨hstatus, hother, hreviewer, hqualified, hid, hdecided, haud⟩ := h
  cases hdecided with
  | pass htask hproject hauthor hmeter => exact moved_of_metered hmeter hreq rfl rfl rfl rfl
  | revise => exact .kept hreq rfl rfl
  | fail hauthor => exact .kept hreq rfl rfl

theorem moved_of_effect {actor : Auth.Actor} {request : Api.Request}
    (h : Api.Effect env actor s request s') : Moved env request s s' := by
  cases h with
  | createSubmission htask hexpert h =>
      obtain ⟨hproject, hqualified, hheld, hassigned, hsub, hid, haud, hprocess⟩ := h
      cases hprocess with
      | autoApproved hpassed hgold hroute hid hid' hmeter haud =>
          exact moved_of_metered hmeter rfl rfl rfl rfl rfl
      | _ => exact .kept rfl rfl rfl
  | postHumanReview hsub hreviewer h => exact moved_of_reviewed h rfl
  | generateInvoice hfirm h =>
      obtain ⟨hinv, hfirms, haud⟩ := h
      rw [← Table.key_of_find? hfirm]
      exact .issued rfl hinv rfl rfl
  | createInvoiceCheckout hinv haccess h =>
      cases h
      exact moved_of_replace rfl (Table.find?_key hinv) rfl rfl rfl
  | recordExternalPayment hinv h =>
      cases h
      exact moved_of_replace rfl (Table.find?_key hinv) rfl rfl rfl
  | stripeWebhook hevent hact h =>
      rcases Billing.webhookAction_cases hact with rfl | ⟨inv, reference, hcompletes, rfl⟩ |
        ⟨inv, etype, stripeId, status, hsettles, rfl⟩
      · cases h
        exact .kept rfl rfl rfl
      · cases h with
        | alreadyPaid => exact .kept rfl rfl rfl
        | completed => exact moved_of_replace rfl hcompletes.find? rfl rfl rfl
      · cases h
        exact moved_of_replace rfl hsettles.find? rfl rfl rfl
  | _ => exact .kept rfl rfl rfl

/-! ## Sweeping -/

/-- Uninvoiced usage of the firm in the half-open window. -/
def Due (firmId : String) (periodStart periodEnd : Time) (ev : UsageEvent) : Prop :=
  ev.firmId = firmId ∧ ev.invoiceId = none ∧ periodStart ≤ ev.createdAt ∧
    ev.createdAt < periodEnd

def billedTo (invoiceId : String) (ev : UsageEvent) : UsageEvent :=
  { ev with invoiceId := some invoiceId }

/-- The events attached to an invoice. -/
def attachedTo (s : Db) (invoiceId : String) : List UsageEvent :=
  s.usageEvents.rows.filter fun ev ↦ ev.invoiceId = some invoiceId

theorem mem_uninvoiced {firmId : String} {periodStart periodEnd : Time} {ev : UsageEvent} :
    ev ∈ Billing.uninvoiced env s firmId periodStart periodEnd ↔
      ev ∈ s.usageEvents ∧ Due firmId periodStart periodEnd ev := by
  simp [Billing.uninvoiced, Env.mem_orderBy, Due, Table.mem_def]

/-- Events that an invoice may take: rows without an invoice, none of them
twice. -/
structure Sweepable (s : Db) (events : List UsageEvent) : Prop where
  recorded : ∀ ev ∈ events, ev ∈ s.usageEvents
  free : ∀ ev ∈ events, ev.invoiceId = none
  nodup : events.Nodup

theorem sweepable_uninvoiced (firmId : String) (periodStart periodEnd : Time) :
    Sweepable s (Billing.uninvoiced env s firmId periodStart periodEnd) := by
  refine ⟨fun ev hev ↦ (mem_uninvoiced.mp hev).1, fun ev hev ↦ (mem_uninvoiced.mp hev).2.2.1, ?_⟩
  exact (env.orderBy_perm _ _).nodup_iff.mpr (s.usageEvents.nodup.of_map.filter _)

section Sweep

variable {invoiceId : String} {events : List UsageEvent} {ev : UsageEvent}

theorem attach_eq (h : Sweepable s events) (hev : ev ∈ s.usageEvents) :
    Billing.attach invoiceId events ev = if ev ∈ events then billedTo invoiceId ev else ev := by
  have hiff : ev.id ∈ events.map UsageEvent.id ↔ ev ∈ events := by
    constructor
    · intro hmem
      obtain ⟨ev', hev', hid⟩ := List.mem_map.mp hmem
      rwa [← Table.eq_of_key (h.recorded ev' hev') hev hid]
    · exact List.mem_map_of_mem
  unfold Billing.attach
  simp only [hiff]
  rfl

variable (h : Sweepable s events)
  (hevents : s'.usageEvents = s.usageEvents.mapRows (Billing.attach invoiceId events)
    (Billing.attach_id _ _))
include h hevents

theorem rows_sweep : s'.usageEvents.rows =
    s.usageEvents.rows.map fun ev ↦ if ev ∈ events then billedTo invoiceId ev else ev := by
  rw [hevents]
  exact List.map_congr_left fun _ hev ↦ attach_eq h hev

theorem mem_sweep : ev ∈ s'.usageEvents ↔ ∃ ev₀ ∈ s.usageEvents,
    (if ev₀ ∈ events then billedTo invoiceId ev₀ else ev₀) = ev := by
  rw [Table.mem_def, rows_sweep h hevents, List.mem_map]
  rfl

/-- An event that has an invoice is left as it is. -/
theorem mem_sweep_of_billed (hev : ev ∈ s.usageEvents) (hset : ev.invoiceId ≠ none) :
    ev ∈ s'.usageEvents :=
  (mem_sweep h hevents).mpr ⟨ev, hev, if_neg fun hmem ↦ hset (h.free ev hmem)⟩

/-- The sweep attaches its events to the new invoice. -/
theorem attachedTo_sweep (hnew : attachedTo s invoiceId = []) :
    (attachedTo s' invoiceId).Perm (events.map (billedTo invoiceId)) := by
  have hfilter : attachedTo s' invoiceId =
      (s.usageEvents.rows.filter fun ev ↦ ev ∈ events).map (billedTo invoiceId) := by
    unfold attachedTo
    rw [rows_sweep h hevents, List.filter_map]
    have hsame : s.usageEvents.rows.filter ((fun ev : UsageEvent ↦
          decide (ev.invoiceId = some invoiceId)) ∘ fun ev ↦
        if ev ∈ events then billedTo invoiceId ev else ev) =
        s.usageEvents.rows.filter fun ev ↦ ev ∈ events := by
      apply List.filter_congr
      intro ev hev
      have hnot : ¬ev.invoiceId = some invoiceId := by
        simpa using List.filter_eq_nil_iff.mp hnew ev hev
      by_cases hmem : ev ∈ events <;> simp [hmem, billedTo, hnot]
    rw [hsame]
    apply List.map_congr_left
    intro ev hev
    rw [if_pos (by simpa using (List.mem_filter.mp hev).2)]
  rw [hfilter]
  refine List.Perm.map _ ?_
  rw [List.perm_ext_iff_of_nodup (s.usageEvents.nodup.of_map.filter _) h.nodup]
  intro ev
  simp only [List.mem_filter, decide_eq_true_eq]
  exact ⟨fun hev ↦ hev.2, fun hev ↦ ⟨h.recorded ev hev, hev⟩⟩

/-- The sweep leaves the other invoices alone. -/
theorem attachedTo_sweep_of_ne {k : String} (hk : k ≠ invoiceId) :
    attachedTo s' k = attachedTo s k := by
  unfold attachedTo
  rw [rows_sweep h hevents, List.filter_map]
  have hfilter : s.usageEvents.rows.filter ((fun ev : UsageEvent ↦
        decide (ev.invoiceId = some k)) ∘ fun ev ↦
      if ev ∈ events then billedTo invoiceId ev else ev) =
      s.usageEvents.rows.filter fun ev ↦ ev.invoiceId = some k := by
    apply List.filter_congr
    intro ev _
    by_cases hmem : ev ∈ events
    · simp [hmem, billedTo, h.free ev hmem, Ne.symm hk]
    · simp [hmem]
  rw [hfilter]
  conv_rhs => rw [← List.map_id (s.usageEvents.rows.filter fun ev ↦ ev.invoiceId = some k)]
  apply List.map_congr_left
  intro ev hev
  have hset : ev.invoiceId = some k := by simpa using (List.mem_filter.mp hev).2
  have hnot : ev ∉ events := by
    intro hmem
    simp [h.free ev hmem] at hset
  rw [if_neg hnot]
  rfl

end Sweep

/-! ## Every invoice is accounted for -/

/-- The lines of an account sum up the events attached to it. -/
structure Accounted (s : Db) (a : Account) : Prop where
  lines : a.subtotalCents = (a.lineItems.map LineItem.amountCents).sum
  tallies : Billing.Tallies a.lineItems (attachedTo s a.id)
  firm : ∀ ev ∈ attachedTo s a.id, ev.firmId = a.firmId

structure Balanced (s : Db) : Prop where
  accounted : ∀ a ∈ accounts s, Accounted s a
  attached : ∀ ev ∈ s.usageEvents, ∀ k, ev.invoiceId = some k → ∃ a ∈ accounts s, a.id = k
  distinct : ((accounts s).map Account.number).Nodup

theorem Accounted.congr {a : Account} (h : Accounted s a)
    (hsame : attachedTo s' a.id = attachedTo s a.id) : Accounted s' a :=
  ⟨h.lines, by rw [hsame]; exact h.tallies, by rw [hsame]; exact h.firm⟩

theorem balanced_empty : Balanced Db.empty := by
  constructor <;> simp [accounts, Db.empty]

theorem accounts_push {inv : Invoice} (hvac : s.invoices.Vacant inv.id)
    (hinvoices : s'.invoices = s.invoices.push inv) :
    accounts s' = accounts s ++ [accountOf inv] := by
  unfold accounts
  rw [hinvoices, Table.rows_push hvac, List.map_append]
  rfl

theorem ne_of_vacant {inv : Invoice} {a : Account} (hvac : s.invoices.Vacant inv.id)
    (ha : a ∈ accounts s) : a.id ≠ inv.id := by
  obtain ⟨inv', hinv', rfl⟩ := List.mem_map.mp ha
  exact hvac inv' hinv'

/-- A new invoice over events that it may take. -/
structure Issue (s s' : Db) (inv : Invoice) (events : List UsageEvent) : Prop where
  sweepable : Sweepable s events
  vacant : s.invoices.Vacant inv.id
  fresh : ∀ b ∈ s.invoices.rows, b.number ≠ inv.number
  lines : inv.lineItems.map Billing.undescribed = Billing.grouped events
  subtotal : inv.subtotalCents = (inv.lineItems.map LineItem.amountCents).sum
  firm : ∀ ev ∈ events, ev.firmId = inv.firmId
  events : s'.usageEvents = s.usageEvents.mapRows (Billing.attach inv.id events)
    (Billing.attach_id _ _)
  accounts : accounts s' = Ledger.accounts s ++ [accountOf inv]

section Issue

variable {inv : Invoice} {events : List UsageEvent}

/-- A new invoice sums up what it sweeps. -/
theorem Issue.accounted (h : Issue s s' inv events) (hnew : attachedTo s inv.id = []) :
    Accounted s' (accountOf inv) := by
  have hattached := attachedTo_sweep h.sweepable h.events hnew
  have htallies := (Billing.tallies_grouped events).of_undescribed h.lines
  have hmapped : Billing.Tallies inv.lineItems (events.map (billedTo inv.id)) :=
    htallies.map_events (fun _ ↦ rfl) (fun _ ↦ rfl) fun _ ↦ rfl
  refine ⟨h.subtotal, hmapped.perm hattached.symm, ?_⟩
  change ∀ ev ∈ attachedTo s' inv.id, ev.firmId = inv.firmId
  intro ev hev
  obtain ⟨ev', hev', rfl⟩ := List.mem_map.mp (hattached.mem_iff.mp hev)
  exact h.firm ev' hev'

theorem Issue.balanced (h : Issue s s' inv events) (hb : Balanced s) : Balanced s' := by
  have hnew : attachedTo s inv.id = [] := by
    refine List.filter_eq_nil_iff.mpr ?_
    intro ev hev hset
    obtain ⟨a, ha, hid⟩ := hb.attached ev hev inv.id (by simpa using hset)
    exact ne_of_vacant h.vacant ha hid
  refine ⟨?_, ?_, ?_⟩
  · rw [h.accounts]
    intro a ha
    rcases List.mem_append.mp ha with ha | ha
    · exact (hb.accounted a ha).congr
        (attachedTo_sweep_of_ne h.sweepable h.events (ne_of_vacant h.vacant ha))
    · obtain rfl : a = accountOf inv := by simpa using ha
      exact h.accounted hnew
  · rw [h.accounts]
    intro e he k hk
    obtain ⟨ev, hev, rfl⟩ := (mem_sweep h.sweepable h.events).mp he
    split at hk
    · exact ⟨accountOf inv, by simp, Option.some.inj hk⟩
    · obtain ⟨a, ha, hid⟩ := hb.attached ev hev k hk
      exact ⟨a, List.mem_append_left _ ha, hid⟩
  · rw [h.accounts, List.map_append, List.nodup_append]
    refine ⟨hb.distinct, by simp, ?_⟩
    intro n hn m hm
    obtain ⟨a, ha, rfl⟩ := List.mem_map.mp hn
    obtain ⟨b, hb', rfl⟩ := List.mem_map.mp ha
    obtain rfl : m = inv.number := by simpa [accountOf] using hm
    exact h.fresh b hb'

end Issue

/-- A served call issues its invoice over what it finds uninvoiced. -/
theorem issue_of_issuance {firm : Firm} {periodStart periodEnd : Time} {inv : Invoice}
    (hinv : Billing.Issuance env s firm periodStart periodEnd inv)
    (hevents : s'.usageEvents = s.usageEvents.mapRows
      (Billing.attach inv.id (Billing.uninvoiced env s firm.id periodStart periodEnd))
      (Billing.attach_id _ _))
    (hinvoices : s'.invoices = s.invoices.push inv) :
    Issue s s' inv (Billing.uninvoiced env s firm.id periodStart periodEnd) := by
  refine ⟨sweepable_uninvoiced _ _ _, hinv.vacant, hinv.fresh, hinv.lines, hinv.subtotal, ?_,
    hevents, accounts_push hinv.vacant hinvoices⟩
  intro ev hev
  rw [hinv.firmId]
  exact (mem_uninvoiced.mp hev).2.1

theorem Moved.balanced {request : Api.Request} (h : Moved env request s s') (hb : Balanced s) :
    Balanced s' := by
  cases h with
  | kept hreq hevents haccounts =>
      have hsame : ∀ k, attachedTo s' k = attachedTo s k := by
        intro k
        unfold attachedTo
        rw [hevents]
      refine ⟨?_, ?_, ?_⟩
      · rw [haccounts]
        exact fun a ha ↦ (hb.accounted a ha).congr (hsame _)
      · rw [hevents, haccounts]
        exact hb.attached
      · rw [haccounts]
        exact hb.distinct
  | @charged hreq ev hnone hvac hevents haccounts =>
      have hsame : ∀ k, attachedTo s' k = attachedTo s k := by
        intro k
        unfold attachedTo
        rw [hevents, Table.rows_push hvac, List.filter_append]
        simp [hnone]
      refine ⟨?_, ?_, ?_⟩
      · rw [haccounts]
        exact fun a ha ↦ (hb.accounted a ha).congr (hsame _)
      · rw [hevents, haccounts]
        intro e he k hk
        rcases (Table.mem_push hvac).mp he with he | rfl
        · exact hb.attached e he k hk
        · simp [hnone] at hk
      · rw [haccounts]
        exact hb.distinct
  | issued hreq hinv hevents hinvoices =>
      exact (issue_of_issuance hinv hevents hinvoices).balanced hb

/-! ## The chronicle of a run -/

/-- A served call of `generate_invoice` for the event's firm, made when the
event was on record, whose window contains the event. -/
def Sweeps (ev : UsageEvent) (e : Served Api.Http Db Json) : Prop :=
  e.outcome.isSome = true ∧
    (∃ periodStart periodEnd, e.request.request =
        .generateInvoice ev.firmId periodStart periodEnd ∧
      periodStart ≤ ev.createdAt ∧ ev.createdAt < periodEnd) ∧
    ∃ r ∈ e.before.usageEvents, r.id = ev.id

def issues (e : Served Api.Http Db Json) : Bool :=
  e.outcome.isSome && isGenerateInvoice e.request.request

/-- The invoice was added by this request. -/
def IssuedBy (invoiceId : String) (e : Served Api.Http Db Json) : Prop :=
  e.before.invoices.Vacant invoiceId ∧ ∃ inv ∈ e.after.invoices, inv.id = invoiceId

/-- Either no call ever swept the event and it has no invoice, or it belongs to
the invoice of the first call that swept it. -/
def Explained (tr : List (Served Api.Http Db Json)) (ev : UsageEvent) : Prop :=
  (ev.invoiceId = none ∧ ∀ e ∈ tr, ¬Sweeps ev e) ∨
    ∃ pre e post k, tr = pre ++ e :: post ∧ (∀ e' ∈ pre, ¬Sweeps ev e') ∧ Sweeps ev e ∧
      ev.invoiceId = some k ∧ IssuedBy k e

structure Chronicle (tr : List (Served Api.Http Db Json)) (s : Db) : Prop where
  explained : ∀ ev ∈ s.usageEvents, Explained tr ev
  persisted : ∀ e ∈ tr, ∀ r ∈ e.before.usageEvents, ∃ r' ∈ s.usageEvents, r'.id = r.id
  fixed : ∀ e ∈ tr, ∀ ev ∈ e.before.usageEvents, ev.invoiceId ≠ none → ev ∈ s.usageEvents
  count : (accounts s).length = (tr.filter issues).length
  numbered : ∀ pre e post, tr = pre ++ e :: post → issues e = true →
    ∃ a, (accounts s)[(pre.filter issues).length]? = some a ∧ IssuedBy a.id e ∧
      ∃ now, a.number = Billing.invoiceNumber now (pre.filter issues).length

section Chronicle

variable {tr : List (Served Api.Http Db Json)} {e : Served Api.Http Db Json} {ev : UsageEvent}

theorem Explained.later (h : Explained tr ev) (hnot : ev.invoiceId = none → ¬Sweeps ev e) :
    Explained (tr ++ [e]) ev := by
  rcases h with ⟨hnone, hfree⟩ | ⟨pre, e₀, post, k, rfl, hrest⟩
  · refine Or.inl ⟨hnone, ?_⟩
    intro e' he'
    rcases List.mem_append.mp he' with he' | he'
    · exact hfree e' he'
    · obtain rfl : e' = e := by simpa using he'
      exact hnot hnone
  · exact Or.inr ⟨pre, e₀, post ++ [e], k, by simp, hrest⟩

/-- An event without an invoice that a call sweeps was not swept before. -/
theorem Explained.first {k : String} (h : Explained tr ev) (hnone : ev.invoiceId = none)
    (hsweeps : Sweeps ev e) (hissued : IssuedBy k e) :
    Explained (tr ++ [e]) (billedTo k ev) := by
  rcases h with ⟨_, hfree⟩ | ⟨pre, e₀, post, k', _, _, _, hset, _⟩
  · exact Or.inr ⟨tr, e, [], k, rfl, hfree, hsweeps, rfl, hissued⟩
  · simp [hnone] at hset

theorem not_sweeps_of_isGenerateInvoice
    (h : isGenerateInvoice e.request.request = false) : ¬Sweeps ev e := by
  rintro ⟨_, ⟨a, b, hreq, _⟩, _⟩
  simp [hreq, isGenerateInvoice] at h

/-- Events stay on record, and those of an invoice stay as they are. -/
theorem Moved.keeps {request : Api.Request} (h : Moved env request s s')
    (hev : ev ∈ s.usageEvents) :
    (∃ r ∈ s'.usageEvents, r.id = ev.id) ∧ (ev.invoiceId ≠ none → ev ∈ s'.usageEvents) := by
  cases h with
  | kept hreq hevents haccounts =>
      rw [hevents]
      exact ⟨⟨ev, hev, rfl⟩, fun _ ↦ hev⟩
  | charged hreq hnone hvac hevents haccounts =>
      rw [hevents]
      have hmem := (Table.mem_push hvac).mpr (Or.inl hev)
      exact ⟨⟨ev, hmem, rfl⟩, fun _ ↦ hmem⟩
  | issued hreq hinv hevents hinvoices =>
      have hissue := issue_of_issuance hinv hevents hinvoices
      constructor
      · refine ⟨_, (mem_sweep hissue.sweepable hevents).mpr ⟨ev, hev, rfl⟩, ?_⟩
        split <;> rfl
      · exact mem_sweep_of_billed hissue.sweepable hevents hev

theorem Chronicle.explained_moved (h : Chronicle tr e.before) (hok : e.outcome.isSome = true)
    (hm : Moved env e.request.request e.before e.after) :
    ∀ ev ∈ e.after.usageEvents, Explained (tr ++ [e]) ev := by
  intro ev hev
  cases hm with
  | kept hreq hevents haccounts =>
      rw [hevents] at hev
      exact (h.explained ev hev).later fun _ ↦ not_sweeps_of_isGenerateInvoice hreq
  | @charged hreq ev₀ hnone hvac hevents haccounts =>
      rw [hevents, Table.mem_push hvac] at hev
      rcases hev with hev | rfl
      · exact (h.explained ev hev).later fun _ ↦ not_sweeps_of_isGenerateInvoice hreq
      · -- a row with this identifier would still be on record
        refine Or.inl ⟨hnone, ?_⟩
        intro e' he'
        rcases List.mem_append.mp he' with he' | he'
        · rintro ⟨_, _, r, hr, hid⟩
          obtain ⟨r', hr', hid'⟩ := h.persisted e' he' r hr
          exact hvac r' hr' (hid'.trans hid)
        · obtain rfl : e' = e := by simpa using he'
          exact not_sweeps_of_isGenerateInvoice hreq
  | @issued firm periodStart periodEnd inv hreq hinv hevents hinvoices =>
      obtain ⟨ev₀, hev₀, rfl⟩ := (mem_sweep (sweepable_uninvoiced _ _ _) hevents).mp hev
      have hexplained := h.explained ev₀ hev₀
      by_cases hmem : ev₀ ∈ Billing.uninvoiced env e.before firm.id periodStart periodEnd
      · have hdue := (mem_uninvoiced.mp hmem).2
        rw [if_pos hmem]
        refine hexplained.first hdue.2.1 ⟨hok, ⟨periodStart, periodEnd, ?_, hdue.2.2⟩,
          ev₀, hev₀, rfl⟩ ⟨hinv.vacant, inv, ?_, rfl⟩
        · rw [hreq, hdue.1]
        · rw [hinvoices, Table.mem_push hinv.vacant]
          exact Or.inr rfl
      · rw [if_neg hmem]
        refine hexplained.later ?_
        rintro hnone ⟨_, ⟨a, b, hreq', ha, hb⟩, _⟩
        rw [hreq, Api.Request.generateInvoice.injEq] at hreq'
        obtain ⟨hfirm, rfl, rfl⟩ := hreq'
        exact hmem (mem_uninvoiced.mpr ⟨hev₀, hfirm.symm, hnone, ha, hb⟩)

theorem Moved.accounts_eq {request : Api.Request} (h : Moved env request s s') :
    (isGenerateInvoice request = false ∧ accounts s' = accounts s) ∨
      (isGenerateInvoice request = true ∧ ∃ inv, s.invoices.Vacant inv.id ∧
        inv ∈ s'.invoices ∧ accounts s' = accounts s ++ [accountOf inv] ∧
        ∃ now, inv.number = Billing.invoiceNumber now (accounts s).length) := by
  cases h with
  | kept hreq _ haccounts => exact Or.inl ⟨hreq, haccounts⟩
  | charged hreq _ _ _ haccounts => exact Or.inl ⟨hreq, haccounts⟩
  | @issued firm periodStart periodEnd inv hreq hinv hevents hinvoices =>
      refine Or.inr ⟨by rw [hreq]; rfl, inv, hinv.vacant, ?_,
        accounts_push hinv.vacant hinvoices, ?_⟩
      · rw [hinvoices, Table.mem_push hinv.vacant]
        exact Or.inr rfl
      · unfold accounts
        rw [List.length_map]
        exact hinv.number

theorem Chronicle.numbered_moved (h : Chronicle tr e.before) (hok : e.outcome.isSome = true)
    (hm : Moved env e.request.request e.before e.after) :
    (accounts e.after).length = ((tr ++ [e]).filter issues).length ∧
      ∀ pre e₀ post, tr ++ [e] = pre ++ e₀ :: post → issues e₀ = true →
        ∃ a, (accounts e.after)[(pre.filter issues).length]? = some a ∧ IssuedBy a.id e₀ ∧
          ∃ now, a.number = Billing.invoiceNumber now (pre.filter issues).length := by
  rcases hm.accounts_eq with ⟨hreq, haccounts⟩ | ⟨hreq, inv, hvac, hmem, haccounts, hnumber⟩
  · have hnot : issues e = false := by simp [issues, hreq]
    rw [haccounts, List.filter_append]
    refine ⟨by simp [h.count, hnot], ?_⟩
    intro pre e₀ post hsplit hissues
    rcases split_concat hsplit with ⟨rfl, rfl, _⟩ | ⟨post', _, htr⟩
    · simp [hnot] at hissues
    · exact h.numbered pre e₀ post' htr hissues
  · have hyes : issues e = true := by simp [issues, hreq, hok]
    rw [haccounts, List.filter_append]
    refine ⟨by simp [h.count, hyes], ?_⟩
    intro pre e₀ post hsplit hissues
    rcases split_concat hsplit with ⟨rfl, rfl, _⟩ | ⟨post', _, htr⟩
    · refine ⟨accountOf inv, ?_, ⟨hvac, inv, hmem, rfl⟩, ?_⟩
      · rw [← h.count]
        simp
      · rw [← h.count]
        exact hnumber
    · obtain ⟨a, ha, hrest⟩ := h.numbered pre e₀ post' htr hissues
      refine ⟨a, ?_, hrest⟩
      rw [List.getElem?_append_left (List.getElem?_eq_some_iff.mp ha).1]
      exact ha

theorem Chronicle.moved (h : Chronicle tr e.before) (hok : e.outcome.isSome = true)
    (hm : Moved env e.request.request e.before e.after) : Chronicle (tr ++ [e]) e.after := by
  obtain ⟨hcount, hnumbered⟩ := h.numbered_moved hok hm
  refine ⟨h.explained_moved hok hm, ?_, ?_, hcount, hnumbered⟩
  · intro e' he' r hr
    rcases List.mem_append.mp he' with he' | he'
    · obtain ⟨r', hr', hid⟩ := h.persisted e' he' r hr
      obtain ⟨⟨r'', hr'', hid'⟩, _⟩ := hm.keeps hr'
      exact ⟨r'', hr'', hid'.trans hid⟩
    · obtain rfl : e' = e := by simpa using he'
      exact (hm.keeps hr).1
  · intro e' he' ev hev hset
    rcases List.mem_append.mp he' with he' | he'
    · exact (hm.keeps (h.fixed e' he' ev hev hset)).2 hset
    · obtain rfl : e' = e := by simpa using he'
      exact (hm.keeps hev).2 hset

/-- A request that was rolled back adds nothing. -/
theorem Chronicle.failed (h : Chronicle tr e.before) (hnone : e.outcome = none)
    (hafter : e.after = e.before) : Chronicle (tr ++ [e]) e.after := by
  have hnot : issues e = false := by simp [issues, hnone]
  rw [hafter]
  refine ⟨?_, ?_, ?_, ?_, ?_⟩
  · intro ev hev
    refine (h.explained ev hev).later ?_
    rintro _ ⟨hok, _⟩
    simp [hnone] at hok
  · intro e' he' r hr
    rcases List.mem_append.mp he' with he' | he'
    · exact h.persisted e' he' r hr
    · obtain rfl : e' = e := by simpa using he'
      exact ⟨r, hr, rfl⟩
  · intro e' he' ev hev hset
    rcases List.mem_append.mp he' with he' | he'
    · exact h.fixed e' he' ev hev hset
    · obtain rfl : e' = e := by simpa using he'
      exact hev
  · simp [h.count, hnot]
  · intro pre e₀ post hsplit hissues
    rcases split_concat hsplit with ⟨rfl, rfl, _⟩ | ⟨post', _, htr⟩
    · simp [hnot] at hissues
    · exact h.numbered pre e₀ post' htr hissues

end Chronicle

/-! ## Ledger integrity -/

/-- An invoice accounts for the events attached to it, line by line. -/
structure InvoiceAccounts (s : Db) (inv : Invoice) : Prop where
  subtotalEvents : inv.subtotalCents = ((attachedTo s inv.id).map UsageEvent.amountCents).sum
  subtotalLines : inv.subtotalCents = (inv.lineItems.map LineItem.amountCents).sum
  groups : (inv.lineItems.map LineItem.group).Nodup
  line : ∀ row ∈ inv.lineItems, row.amountCents = row.quantity * row.unitPriceCents ∧
    row.quantity = (Billing.eventsOf row (attachedTo s inv.id)).length
  firm : ∀ ev ∈ attachedTo s inv.id, ev.firmId = inv.firmId

/-- Every event counts one record at its unit price. -/
def UnitCharges (s : Db) : Prop :=
  ∀ ev ∈ s.usageEvents, ev.quantity = 1 ∧ ev.amountCents = ev.unitPriceCents

theorem unitCharges_of_balanced (hb : (Metering.bookOf s).Balanced) : UnitCharges s := by
  intro ev hev
  obtain ⟨_, _, _, hfor, _⟩ := hb.backed (Metering.chargeOf ev) ⟨ev, hev, rfl⟩
  exact ⟨hfor.quantity, hfor.amount⟩

theorem invoiceAccounts_of_accounted {inv : Invoice} (h : Accounted s (accountOf inv))
    (hunit : UnitCharges s) : InvoiceAccounts s inv := by
  have htallies : Billing.Tallies inv.lineItems (attachedTo s inv.id) := h.tallies
  have hmem : ∀ row, ∀ ev ∈ Billing.eventsOf row (attachedTo s inv.id),
      ev ∈ s.usageEvents ∧ row.group = ev.group := by
    intro row ev hev
    obtain ⟨hattached, hgroup⟩ := List.mem_filter.mp hev
    exact ⟨(List.mem_filter.mp hattached).1, by simpa using hgroup⟩
  have hquantity : ∀ row ∈ inv.lineItems,
      row.quantity = (Billing.eventsOf row (attachedTo s inv.id)).length := by
    intro row hrow
    rw [htallies.quantity row hrow, List.map_congr_left (g := fun _ ↦ (1 : ℤ))
      fun ev hev ↦ (hunit ev (hmem row ev hev).1).1]
    simp
  refine ⟨h.lines.trans htallies.total, h.lines, htallies.nodup, ?_, h.firm⟩
  intro row hrow
  refine ⟨?_, hquantity row hrow⟩
  have hamount : ∀ ev ∈ Billing.eventsOf row (attachedTo s inv.id),
      ev.amountCents = row.unitPriceCents := by
    intro ev hev
    obtain ⟨hin, hgroup⟩ := hmem row ev hev
    rw [(hunit ev hin).2]
    simp only [LineItem.group, UsageEvent.group, Prod.mk.injEq] at hgroup
    exact hgroup.2.2.symm
  rw [htallies.amount row hrow, List.map_congr_left hamount, hquantity row hrow]
  simp

/-- The ledger of a run: where each event went and what each invoice says. -/
structure Integrity (tr : List (Served Api.Http Db Json)) (s : Db) : Prop where
  explained : ∀ ev ∈ s.usageEvents, Explained tr ev
  fixed : ∀ e ∈ tr, ∀ ev ∈ e.before.usageEvents, ev.invoiceId ≠ none → ev ∈ s.usageEvents
  accounted : ∀ inv ∈ s.invoices, InvoiceAccounts s inv
  count : s.invoices.rows.length = (tr.filter issues).length
  numbered : ∀ pre e post, tr = pre ++ e :: post → issues e = true →
    ∃ inv, s.invoices.rows[(pre.filter issues).length]? = some inv ∧ IssuedBy inv.id e ∧
      ∃ now, inv.number = Billing.invoiceNumber now (pre.filter issues).length
  distinct : (s.invoices.rows.map Invoice.number).Nodup

theorem Integrity.of_chronicle {tr : List (Served Api.Http Db Json)} (h : Chronicle tr s)
    (hb : Balanced s) (hunit : UnitCharges s) : Integrity tr s := by
  refine ⟨h.explained, h.fixed, ?_, ?_, ?_, ?_⟩
  · intro inv hinv
    exact invoiceAccounts_of_accounted (hb.accounted _ (List.mem_map_of_mem hinv)) hunit
  · simpa [accounts] using h.count
  · intro pre e post htr hissues
    obtain ⟨a, ha, hissued, hnumber⟩ := h.numbered pre e post htr hissues
    unfold accounts at ha
    rw [List.getElem?_map] at ha
    obtain ⟨inv, hinv, rfl⟩ := Option.map_eq_some_iff.mp ha
    exact ⟨inv, hinv, hissued, hnumber⟩
  · have hdistinct := hb.distinct
    unfold accounts at hdistinct
    rwa [List.map_map] at hdistinct

/-- What a run keeps: sound books, a balanced ledger and its chronicle. -/
structure Kept (tr : List (Served Api.Http Db Json)) (s : Db) (w : ℕ) : Prop where
  sound : Metering.Sound s w
  balanced : Balanced s
  chronicle : Chronicle tr s

theorem Kept.serves {tr : List (Served Api.Http Db Json)} {e : Served Api.Http Db Json}
    {w w' : ℕ} (h : Kept tr e.before w) (he : machine.Serves (Api.serve env) e w w') :
    Kept (tr ++ [e]) e.after w' := by
  refine ⟨h.sound.serves he, ?_, ?_⟩
  · cases he with
    | ok hexec =>
        obtain ⟨⟨actor, heffect⟩, _⟩ := Api.exec_serve hexec h.sound.below
        exact (moved_of_effect heffect).balanced h.balanced
    | failed _ => exact h.balanced
  · cases he with
    | ok hexec =>
        obtain ⟨⟨actor, heffect⟩, _⟩ := Api.exec_serve hexec h.sound.below
        exact h.chronicle.moved rfl (moved_of_effect heffect)
    | failed _ => exact h.chronicle.failed rfl rfl

theorem kept_of_run {tr : List (Served Api.Http Db Json)} {w₀ w : ℕ}
    (h : machine.Run (Api.serve env) Db.empty w₀ tr s w) : Kept tr s w := by
  refine Machine.Run.invariant_trace (C := fun _ _ ↦ True) (I := Kept) ?_
    (fun tr e w w' hk _ he ↦ hk.serves he) h fun _ _ _ _ ↦ trivial
  refine ⟨⟨Metering.balanced_empty, Audit.seqBelow_empty _⟩, balanced_empty, ?_⟩
  constructor <;> simp [Db.empty, accounts]

end Ledger

end HumanDataFactory
