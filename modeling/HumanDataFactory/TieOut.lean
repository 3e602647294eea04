import HumanDataFactory.Billing.Reports
import HumanDataFactory.Ledger
import HumanDataFactory.Rollup
import Mathlib.Data.List.Dedup

/-!
# The reconciliation ties out

Metered cents are summed over usage events and invoiced cents over invoices.
That the two tie out rests on the ledger: every attached event counts in the
subtotal of exactly one invoice, of its own firm.
-/

namespace HumanDataFactory

open Transact

namespace TieOut

open Billing

variable {env : Env} {s s' : Db}

/-- The loop over `per_project`. -/
def projectRollup : Rollup String UsageEvent ProjectRow where
  group := UsageEvent.projectId
  key := ProjectRow.projectId
  opened := emptyRow
  add := addEvent
  key_opened _ := rfl
  key_add _ _ := rfl

theorem perProject_eq (events : List UsageEvent) :
    perProject events = projectRollup.rows events := rfl

def meteredColumn : projectRollup.Column ℤ where
  value := ProjectRow.meteredCents
  weight := UsageEvent.amountCents
  value_opened _ := rfl
  value_add _ _ := rfl

def invoicedColumn : projectRollup.Column ℤ where
  value := ProjectRow.invoicedCents
  weight ev := if invoiced ev then ev.amountCents else 0
  value_opened _ := rfl
  value_add row ev := by
    cases h : invoiced ev <;> simp [projectRollup, addEvent, h]

def uninvoicedColumn : projectRollup.Column ℤ where
  value := ProjectRow.uninvoicedCents
  weight ev := if invoiced ev then 0 else ev.amountCents
  value_opened _ := rfl
  value_add row ev := by
    cases h : invoiced ev <;> simp [projectRollup, addEvent, h]

def recordsColumn : projectRollup.Column ℤ where
  value := ProjectRow.records
  weight := UsageEvent.quantity
  value_opened _ := rfl
  value_add _ _ := rfl

/-- Names and sorting do not change what a column adds up to. -/
theorem sum_column (c : projectRollup.Column ℤ)
    (hname : ∀ row, c.value (withName s row) = c.value row) (firm : Firm)
    (periodStart periodEnd : Option Time) :
    ((reconciliationOf s firm periodStart periodEnd).perProject.map c.value).sum =
      ((firmEvents s firm.id periodStart periodEnd).map c.weight).sum := by
  rw [← c.sum_rows, ← perProject_eq]
  have hperm : (reconciliationOf s firm periodStart periodEnd).perProject.Perm
      ((perProject (firmEvents s firm.id periodStart periodEnd)).map (withName s)) :=
    List.perm_insertionSort _ _
  rw [(hperm.map _).sum_eq, List.map_map]
  exact congrArg List.sum (List.map_congr_left fun row _ ↦ hname row)

theorem sum_ite_filter {p : UsageEvent → Bool} (f : UsageEvent → ℤ) (events : List UsageEvent) :
    (events.map fun ev ↦ if p ev then f ev else 0).sum = ((events.filter p).map f).sum := by
  induction events with
  | nil => rfl
  | cons ev events ih => cases h : p ev <;> simp [h, ih]

/-- The event is attached to an invoice that meets `p`. -/
def Billed (s : Db) (p : Invoice → Prop) (ev : UsageEvent) : Prop :=
  ∃ inv ∈ s.invoices.rows, p inv ∧ ev.invoiceId = some inv.id

instance (p : Invoice → Prop) [DecidablePred p] : DecidablePred (Billed s p) :=
  fun _ ↦ inferInstanceAs (Decidable (∃ _ ∈ _, _))

theorem Billed.mono {p q : Invoice → Prop} (hpq : ∀ inv, p inv → q inv) {ev : UsageEvent}
    (h : Billed s p ev) : Billed s q ev := by
  obtain ⟨inv, hinv, hp, hid⟩ := h
  exact ⟨inv, hinv, hpq inv hp, hid⟩

/-- An event has one invoice. -/
theorem Billed.unique {p : Invoice → Prop} {ev : UsageEvent} {inv : Invoice} (h : Billed s p ev)
    (hinv : inv ∈ s.invoices) (hid : ev.invoiceId = some inv.id) : p inv := by
  obtain ⟨inv', hinv', hp, hid'⟩ := h
  rw [hid, Option.some.injEq] at hid'
  rwa [Table.eq_of_key hinv hinv' hid']

theorem not_billed_of_billed {p q : Invoice → Prop} (hpq : ∀ inv, p inv → ¬q inv)
    {ev : UsageEvent} (h : Billed s p ev) : ¬Billed s q ev := by
  rintro ⟨inv, hinv, hq, hid⟩
  exact hpq inv (h.unique hinv hid) hq

theorem billed_or {p q r : Invoice → Prop} (hr : ∀ inv, r inv ↔ p inv ∨ q inv)
    {ev : UsageEvent} : Billed s r ev ↔ Billed s p ev ∨ Billed s q ev := by
  unfold Billed
  simp only [hr, or_and_right, and_or_left, exists_or]

/-- Subtotals of invoices, counted on the events that are attached to them. -/
theorem subtotals_eq (hb : Ledger.Balanced s) (p : Invoice → Prop) [DecidablePred p] :
    subtotals (s.invoices.rows.filter fun inv ↦ p inv) =
      amounts (s.usageEvents.rows.filter fun ev ↦ Billed s p ev) := by
  have hnodup : ((s.invoices.rows.filter fun inv ↦ p inv).map fun inv ↦ some inv.id).Nodup := by
    have hids := s.invoices.nodup.map (Option.some_injective String)
    rw [List.map_map] at hids
    exact hids.sublist (List.filter_sublist.map _)
  have hfibers := sum_fibers hnodup UsageEvent.invoiceId UsageEvent.amountCents
    s.usageEvents.rows
  rw [List.map_map] at hfibers
  unfold subtotals amounts
  calc ((s.invoices.rows.filter fun inv ↦ p inv).map Invoice.subtotalCents).sum
      = _ := congrArg List.sum (List.map_congr_left ?_)
    _ = _ := hfibers
    _ = _ := ?_
  · intro inv hinv
    have hacc := hb.accounted _ (List.mem_map_of_mem (List.mem_filter.mp hinv).1)
    exact hacc.lines.trans hacc.tallies.total
  · congr 2
    apply List.filter_congr
    intro ev _
    rw [decide_eq_decide]
    simp only [List.mem_map, List.mem_filter, decide_eq_true_eq, Billed, and_assoc]
    simp only [eq_comm]

section Attached

variable {ev : UsageEvent}

/-- Attached events are of the firm of their invoice. -/
theorem firmId_eq (hb : Ledger.Balanced s) (hev : ev ∈ s.usageEvents) {inv : Invoice}
    (hinv : inv ∈ s.invoices) (hid : ev.invoiceId = some inv.id) : ev.firmId = inv.firmId := by
  have hacc := hb.accounted _ (List.mem_map_of_mem hinv)
  exact hacc.firm ev (List.mem_filter.mpr ⟨hev, decide_eq_true hid⟩)

theorem billed_of_attached (hb : Ledger.Balanced s) (hev : ev ∈ s.usageEvents)
    (h : ev.invoiceId ≠ none) : Billed s (fun _ ↦ True) ev := by
  obtain ⟨k, hk⟩ := Option.ne_none_iff_exists'.mp h
  obtain ⟨a, ha, hid⟩ := hb.attached ev hev k hk
  obtain ⟨inv, hinv, rfl⟩ := List.mem_map.mp ha
  exact ⟨inv, hinv, trivial, by rw [hk, ← hid]; rfl⟩

/-- The test of `invoice_id` sees every attached event, since no identifier is
the empty string. -/
theorem invoiced_iff (hb : Ledger.Balanced s) (hids : ∀ inv ∈ s.invoices, inv.id ≠ "")
    (hev : ev ∈ s.usageEvents) : invoiced ev = true ↔ ev.invoiceId ≠ none := by
  constructor
  · intro h hnone
    simp [invoiced, StripeGateway.truthyId, hnone] at h
  · intro h
    obtain ⟨inv, hinv, _, hid⟩ := billed_of_attached hb hev h
    simp [invoiced, StripeGateway.truthyId, hid, hids inv hinv]

theorem invoiced_iff_billed (hb : Ledger.Balanced s) (hids : ∀ inv ∈ s.invoices, inv.id ≠ "")
    (hev : ev ∈ s.usageEvents) :
    invoiced ev = true ↔ Billed s (fun inv ↦ inv.firmId = ev.firmId) ev := by
  rw [invoiced_iff hb hids hev]
  constructor
  · intro h
    obtain ⟨inv, hinv, _, hid⟩ := billed_of_attached hb hev h
    exact ⟨inv, hinv, (firmId_eq hb hev hinv hid).symm, hid⟩
  · rintro ⟨inv, _, _, hid⟩ hnone
    cases hnone.symm.trans hid

end Attached

/-- Drafts are issued in the transaction that makes them. -/
def Issued (s : Db) : Prop :=
  ∀ inv ∈ s.invoices, inv.status ≠ .draft

theorem Issued.replace (h : Issued s) {inv : Invoice}
    (hinvoices : s'.invoices = s.invoices.replace inv) (hstatus : inv.status ≠ .draft) :
    Issued s' := by
  intro inv' hinv'
  rw [hinvoices] at hinv'
  rcases Table.mem_replace hinv' with rfl | ⟨hmem, _⟩
  · exact hstatus
  · exact h inv' hmem

theorem Issued.of_eq (h : Issued s) (hinvoices : s'.invoices = s.invoices) : Issued s' := by
  unfold Issued
  rwa [hinvoices]

theorem Issued.performed (h : Issued s) {event : Json} {act : WebhookAction}
    (hact : webhookAction s event = .ok act) (hp : Performed env s act s') : Issued s' := by
  rcases webhookAction_cases hact with rfl | ⟨inv, reference, hcompletes, rfl⟩ |
      ⟨inv, etype, stripeId, status, hsettles, rfl⟩
  · cases hp
    exact h
  · cases hp with
    | alreadyPaid hpaid => exact h
    | completed hunpaid _ haud => exact h.replace rfl (by simp)
  · cases hp with
    | settled haud =>
        refine h.replace rfl ?_
        rcases settledStatus_eq_some hsettles.settles with ⟨_, hstatus⟩ | ⟨_, hstatus⟩ <;>
          simp [hstatus]

theorem Issued.effect {actor : Auth.Actor} {request : Api.Request} (h : Issued s)
    (heffect : Api.Effect env actor s request s') : Issued s' := by
  cases heffect with
  | createSubmission htask hexpert hsub => exact h.of_eq (Engine.apart_of_submitted hsub).invoices
  | postHumanReview hsub hreviewer hrev => exact h.of_eq (Engine.apart_of_reviewed hrev).invoices
  | @generateInvoice _ _ _ firm _ hfirm hissued =>
      cases hissued with
      | mk hinv hfirms haud =>
          intro inv' hinv'
          rcases (Table.mem_push hinv.vacant).mp hinv' with hmem | rfl
          · exact h inv' hmem
          · rw [hinv.status]
            cases firm.billingMode <;> simp [issuedStatus]
  | createInvoiceCheckout hinv haccess hopened =>
      have hdraft := h _ (Table.mem_of_find? hinv)
      cases hopened with
      | mk hstatus haud => exact h.replace rfl (by exact hdraft)
  | recordExternalPayment hinv hpaid =>
      cases hpaid with
      | mk hmode hstatus haud => exact h.replace rfl (by simp)
  | stripeWebhook hevent hact hperformed => exact h.performed hact hperformed
  | _ => exact h.of_eq rfl

/-- What a run keeps for the reports. -/
structure Kept (s : Db) (w : ℕ) : Prop where
  sound : Metering.Sound s w
  balanced : Ledger.Balanced s
  issued : Issued s

theorem kept_of_run {tr : List (Served Api.Http Db Json)} {w₀ w : ℕ}
    (h : machine.Run (Api.serve env) Db.empty w₀ tr s w) : Kept s w := by
  have hledger := Ledger.kept_of_run h
  have hissued : Issued s :=
    Api.invariant_of_effects (by simp [Issued, Db.empty])
      (fun hissued heffect ↦ Issued.effect hissued heffect) (Audit.seqBelow_empty w₀) h
  exact ⟨hledger.sound, hledger.balanced, hissued⟩

section Sums

variable {invoices : List Invoice}

theorem amounts_split (events : List UsageEvent) {p q r : UsageEvent → Prop} [DecidablePred p]
    [DecidablePred q] [DecidablePred r] (hr : ∀ ev ∈ events, r ev ↔ p ev ∨ q ev)
    (hpq : ∀ ev ∈ events, p ev → ¬q ev) :
    amounts (events.filter fun ev ↦ r ev) =
      amounts (events.filter fun ev ↦ p ev) + amounts (events.filter fun ev ↦ q ev) :=
  sum_filter_add UsageEvent.amountCents hr hpq

theorem subtotals_split (invoices : List Invoice) {p q r : Invoice → Prop} [DecidablePred p]
    [DecidablePred q] [DecidablePred r] (hr : ∀ inv ∈ invoices, r inv ↔ p inv ∨ q inv)
    (hpq : ∀ inv ∈ invoices, p inv → ¬q inv) :
    subtotals (invoices.filter fun inv ↦ r inv) =
      subtotals (invoices.filter fun inv ↦ p inv) + subtotals (invoices.filter fun inv ↦ q inv) :=
  sum_filter_add Invoice.subtotalCents hr hpq

/-- What is not counted as invoiced counts as uninvoiced. -/
theorem amounts_invoiced_add (events : List UsageEvent) :
    amounts events =
      amounts (events.filter invoiced) + amounts (events.filter fun ev ↦ !invoiced ev) := by
  have h := amounts_split events (p := fun ev ↦ invoiced ev = true)
    (q := fun ev ↦ ¬invoiced ev = true) (r := fun _ ↦ True) (fun ev _ ↦ by simp)
    (fun ev _ hp hq ↦ hq hp)
  simpa using h

theorem subtotals_groupByStatus (p : InvoiceStatus → Prop) [DecidablePred p] :
    (((groupByStatus invoices).filter fun g ↦ p g.status).map StatusRow.amountCents).sum =
      subtotals (invoices.filter fun inv ↦ p inv.status) := by
  have hnodup : ((invoices.map Invoice.status).dedup.filter fun st ↦ p st).Nodup :=
    (List.nodup_dedup _).filter _
  have hfibers := sum_fibers hnodup Invoice.status Invoice.subtotalCents invoices
  unfold groupByStatus
  rw [List.filter_map, List.map_map]
  refine hfibers.trans ?_
  unfold subtotals
  congr 2
  apply List.filter_congr
  intro inv hinv
  rw [decide_eq_decide]
  have hmem : inv.status ∈ (invoices.map Invoice.status).dedup :=
    List.mem_dedup.mpr (List.mem_map_of_mem hinv)
  simp only [List.mem_filter, decide_eq_true_eq, hmem, true_and]

end Sums

/-- The amount that the summary gives for a status; 0 if it has no such key. -/
def subtotalOf (b : BillingSummary) (status : InvoiceStatus) : ℤ :=
  (b.invoicesByStatus.find? fun g ↦ g.status = status).elim 0 StatusRow.amountCents

theorem subtotalOf_eq (firm : Firm) (status : InvoiceStatus) :
    subtotalOf (billingSummaryOf s firm) status =
      subtotals ((firmInvoices s firm.id none none).filter fun inv ↦ inv.status = status) := by
  have hrows : s.invoices.rows.filter (fun inv ↦ inv.firmId = firm.id) =
      firmInvoices s firm.id none none := by
    simp [firmInvoices]
  unfold subtotalOf billingSummaryOf groupByStatus
  simp only [hrows, List.find?_map]
  cases hfind : (((firmInvoices s firm.id none none).map Invoice.status).dedup).find?
      ((fun g : StatusRow ↦ decide (g.status = status)) ∘ fun st ↦
        ⟨st, subtotals ((firmInvoices s firm.id none none).filter fun inv ↦ inv.status = st),
          ((firmInvoices s firm.id none none).filter fun inv ↦ inv.status = st).length⟩) with
  | none =>
      have hnone : (firmInvoices s firm.id none none).filter (fun inv ↦ inv.status = status) =
          [] := by
        refine List.filter_eq_nil_iff.mpr fun inv hinv hstatus ↦ ?_
        have hmem : inv.status ∈ ((firmInvoices s firm.id none none).map Invoice.status).dedup :=
          List.mem_dedup.mpr (List.mem_map_of_mem hinv)
        exact List.find?_eq_none.mp hfind _ hmem hstatus
      rw [hnone]
      rfl
  | some st =>
      have hst : st = status := by simpa using List.find?_some hfind
      rw [hst]
      rfl

/-- The two reports on a firm tie out, with each other and within. -/
structure TiesOut (s : Db) (firm : Firm) (r : Reconciliation) (b : BillingSummary) : Prop where
  metered : r.meteredCents = r.meteredInvoicedCents + r.meteredUninvoicedCents
  invoiced : r.meteredInvoicedCents = r.invoicedCents + r.voidedCents
  issued : r.invoicedCents = r.paidCents + r.outstandingCents
  projectsMetered : (r.perProject.map ProjectRow.meteredCents).sum = r.meteredCents
  projectsInvoiced : (r.perProject.map ProjectRow.invoicedCents).sum = r.meteredInvoicedCents
  projectsUninvoiced :
    (r.perProject.map ProjectRow.uninvoicedCents).sum = r.meteredUninvoicedCents
  projectsRecords : (r.perProject.map ProjectRow.records).sum =
    (s.usageEvents.rows.filter fun ev ↦ ev.firmId = firm.id).length
  uninvoiced : b.uninvoicedCents = r.meteredUninvoicedCents
  outstanding : b.outstandingCents = r.outstandingCents
  status : ∀ status, subtotalOf b status =
    ((r.invoices.filter fun row ↦ row.status = status).map InvoiceRow.subtotalCents).sum
  paid : subtotalOf b .paid = r.paidCents
  voided : subtotalOf b .void = r.voidedCents

/-- The amounts of a firm's events that are picked in two ways. -/
theorem amounts_filter_firmEvents {firmId : String} {periodStart periodEnd : Option Time}
    {p : UsageEvent → Bool} {q : UsageEvent → Prop} [DecidablePred q]
    (h : ∀ ev ∈ s.usageEvents, (p ev = true ∧ ev.firmId = firmId ∧
      InPeriod periodStart periodEnd ev.createdAt) ↔ q ev) :
    amounts ((firmEvents s firmId periodStart periodEnd).filter p) =
      amounts (s.usageEvents.rows.filter fun ev ↦ q ev) := by
  unfold firmEvents
  rw [List.filter_filter]
  refine congrArg amounts (List.filter_congr fun ev hev ↦ ?_)
  rw [Bool.eq_iff_iff]
  simpa only [Bool.and_eq_true, decide_eq_true_eq] using h ev hev

section Kept

variable {w : ℕ} (h : Kept s w) (hids : ∀ inv ∈ s.invoices, inv.id ≠ "") (firm : Firm)
include h hids

/-- Attached cents of a firm are the subtotals of its invoices. -/
theorem amounts_invoiced_eq :
    amounts ((firmEvents s firm.id none none).filter invoiced) =
      subtotals (firmInvoices s firm.id none none) := by
  have hsub := subtotals_eq h.balanced fun inv ↦ inv.firmId = firm.id ∧
    InPeriod none none inv.createdAt
  refine (amounts_filter_firmEvents fun ev hev ↦ ?_).trans hsub.symm
  rw [invoiced_iff_billed h.balanced hids hev]
  simp only [inPeriod_none, and_true]
  constructor
  · rintro ⟨hbilled, hfirm⟩
    rwa [hfirm] at hbilled
  · rintro ⟨inv, hinv, hfirm, hid⟩
    have hsame := firmId_eq h.balanced hev hinv hid
    exact ⟨⟨inv, hinv, hsame.symm, hid⟩, hsame.trans hfirm⟩

theorem uninvoiced_eq : amounts (unattached s firm.id) =
    amounts ((firmEvents s firm.id none none).filter fun ev ↦ !invoiced ev) := by
  refine (amounts_filter_firmEvents fun ev hev ↦ ?_).symm
  have hiff := invoiced_iff h.balanced hids hev
  simp only [Bool.not_eq_true', ← Bool.not_eq_true, hiff, inPeriod_none, and_true, not_not]
  exact and_comm

theorem Kept.tiesOut : TiesOut s firm (reconciliationOf s firm none none) (billingSummaryOf s firm)
    where
  metered := (add_sub_cancel _ _).symm
  invoiced := by
    refine (amounts_invoiced_eq h hids firm).trans ?_
    have hsplit := subtotals_split (firmInvoices s firm.id none none)
      (p := fun inv ↦ inv.status ≠ .void) (q := fun inv ↦ inv.status = .void)
      (r := fun _ ↦ True) (fun inv _ ↦ by simp [ne_eq, or_comm, em])
      (fun inv _ hp hq ↦ hp hq)
    simp only [decide_true, List.filter_true] at hsplit
    exact hsplit
  issued := by
    refine subtotals_split (firmInvoices s firm.id none none) ?_ ?_
    · intro inv hinv
      have hdraft := h.issued inv (List.mem_filter.mp hinv).1
      cases hstatus : inv.status <;> simp_all [awaitsPayment]
    · intro inv _ hpaid hawaits
      simp [hpaid, awaitsPayment] at hawaits
  projectsMetered := sum_column meteredColumn (fun _ ↦ rfl) firm none none
  projectsInvoiced :=
    (sum_column invoicedColumn (fun _ ↦ rfl) firm none none).trans (sum_ite_filter _ _)
  projectsUninvoiced := by
    refine (sum_column uninvoicedColumn (fun _ ↦ rfl) firm none none).trans ?_
    refine Eq.trans ?_ (eq_sub_iff_add_eq'.mpr (amounts_invoiced_add _).symm)
    refine Eq.trans ?_ (sum_ite_filter _ _)
    refine congrArg List.sum (List.map_congr_left fun ev _ ↦ ?_)
    cases hev : invoiced ev <;> simp [uninvoicedColumn, hev]
  projectsRecords := by
    refine (sum_column recordsColumn (fun _ ↦ rfl) firm none none).trans ?_
    have hunit := Ledger.unitCharges_of_balanced h.sound.balanced
    have hone : (firmEvents s firm.id none none).map recordsColumn.weight =
        (firmEvents s firm.id none none).map fun _ ↦ (1 : ℤ) :=
      List.map_congr_left fun ev hev ↦ (hunit ev (List.mem_filter.mp hev).1).1
    rw [hone]
    simp [firmEvents]
  uninvoiced := by
    refine (uninvoiced_eq h hids firm).trans (eq_sub_iff_add_eq'.mpr ?_)
    exact (amounts_invoiced_add _).symm
  outstanding := by
    refine (subtotals_groupByStatus awaitsPayment).trans ?_
    simp [reconciliationOf, reconcile, firmInvoices]
  status := by
    intro status
    rw [subtotalOf_eq]
    simp [reconciliationOf, reconcile, subtotals, List.filter_map, Function.comp_def]
  paid := subtotalOf_eq firm .paid
  voided := subtotalOf_eq firm .void

end Kept

theorem tiesOut_of_run {tr : List (Served Api.Http Db Json)} {w₀ w : ℕ}
    (h : machine.Run (Api.serve env) Db.empty w₀ tr s w)
    (hids : ∀ inv ∈ s.invoices, inv.id ≠ "") (firm : Firm) :
    ∃ r b, (reconciliationReport firm none none).answer s = some (.ok r) ∧
      (firmBillingSummary firm).answer s = some (.ok b) ∧ TiesOut s firm r b :=
  ⟨_, _, answer_reconciliationReport none none, answer_firmBillingSummary,
    (kept_of_run h).tiesOut hids firm⟩

/-- The first invoice, settled by wire. -/
def paidByWire : List Api.Request :=
  Development.firstInvoice ++ [.recordExternalPayment Development.invoiceId "WIRE-9"]

def alder : Firm :=
  ⟨Development.firmId, "Alder", "ap@alder.example.com", .external, "usd", "", none⟩

theorem tiesOut_of_paidByWire :
    (Development.run paidByWire).2.1.invoices.rows.map Invoice.status = [.paid] ∧
      ∃ r b,
        (reconciliationReport alder none none).answer (Development.run paidByWire).2.1 =
          some (.ok r) ∧
        (firmBillingSummary alder).answer (Development.run paidByWire).2.1 = some (.ok b) ∧
        TiesOut (Development.run paidByWire).2.1 alder r b :=
  ⟨by decide +kernel, tiesOut_of_run (Development.run_spec _) (by decide +kernel) alder⟩

end TieOut

end HumanDataFactory
