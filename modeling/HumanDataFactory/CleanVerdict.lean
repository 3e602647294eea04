import HumanDataFactory.Provenance.Runs
import HumanDataFactory.TieOut
import Mathlib.Algebra.Order.BigOperators.Group.List

/-!
# The verdict of a reconciliation

A report on a window takes usage events and invoices by their own creation
times.  An event inside the window with an invoice outside it, or the other
way round, counts on one side only.  An event on no invoice is seen by its
price alone; one on a VOID invoice is seen when these crossings leave a
difference.
-/

namespace HumanDataFactory

open Transact

namespace TieOut

open Billing

variable {env : Env} {s : Db}

/-- The cents of the firm's events that meet `p`. -/
def cents (s : Db) (firmId : String) (p : UsageEvent → Prop) [DecidablePred p] : ℤ :=
  amounts (s.usageEvents.rows.filter fun ev ↦ ev.firmId = firmId ∧ p ev)

section Cents

variable {firmId : String} {p q r : UsageEvent → Prop} [DecidablePred p] [DecidablePred q]
  [DecidablePred r]

theorem cents_split (hr : ∀ ev, r ev ↔ p ev ∨ q ev) (hpq : ∀ ev, p ev → ¬q ev) :
    cents s firmId r = cents s firmId p + cents s firmId q := by
  refine amounts_split _ ?_ ?_
  · intro ev _
    rw [hr, and_or_left]
  · rintro ev _ ⟨_, hp⟩ ⟨_, hq⟩
    exact hpq ev hp hq

theorem cents_eq_zero (h : ∀ ev ∈ s.usageEvents, ev.firmId = firmId → ¬p ev) :
    cents s firmId p = 0 := by
  have hnil : s.usageEvents.rows.filter (fun ev ↦ ev.firmId = firmId ∧ p ev) = [] := by
    refine List.filter_eq_nil_iff.mpr fun ev hev hmeets ↦ ?_
    obtain ⟨hfirm, hp⟩ := of_decide_eq_true hmeets
    exact h ev hev hfirm hp
  unfold cents
  rw [hnil]
  rfl

/-- At prices that are not negative, what adds up to nothing is free. -/
theorem amounts_eq_zero_iff {events : List UsageEvent} (h : ∀ ev ∈ events, 0 ≤ ev.amountCents) :
    amounts events = 0 ↔ ∀ ev ∈ events, ev.amountCents = 0 := by
  constructor
  · intro hzero ev hev
    refine List.all_zero_of_le_zero_le_of_sum_eq_zero ?_ hzero (List.mem_map_of_mem hev)
    intro x hx
    obtain ⟨ev', hev', rfl⟩ := List.mem_map.mp hx
    exact h ev' hev'
  · intro hfree
    unfold amounts
    rw [List.map_congr_left hfree]
    simp

end Cents

section Window

variable (s : Db) (firmId : String) (periodStart periodEnd : Option Time)

/-- On an invoice that is not VOID. -/
def Settled (ev : UsageEvent) : Prop :=
  Billed s (fun inv ↦ inv.status ≠ .void) ev

/-- Every event of the firm in the window is on an invoice that is not VOID. -/
def AllSettled : Prop :=
  ∀ ev ∈ s.usageEvents, ev.firmId = firmId → InPeriod periodStart periodEnd ev.createdAt →
    Settled s ev

/-- The firm's events of the window that are on no invoice. -/
def unattached : List UsageEvent :=
  s.usageEvents.rows.filter fun ev ↦ ev.firmId = firmId ∧
    InPeriod periodStart periodEnd ev.createdAt ∧ ev.invoiceId = none

/-- The firm's events of the window that are on a VOID invoice. -/
def onVoid : List UsageEvent :=
  s.usageEvents.rows.filter fun ev ↦ ev.firmId = firmId ∧
    InPeriod periodStart periodEnd ev.createdAt ∧ Billed s (fun inv ↦ inv.status = .void) ev

/-- Metered in the window, on an invoice that meets `p`. -/
def insideOn (p : Invoice → Prop) [DecidablePred p] : ℤ :=
  cents s firmId fun ev ↦ InPeriod periodStart periodEnd ev.createdAt ∧ Billed s p ev

/-- Metered in the window, on an invoice made outside it. -/
def carriedOut : ℤ :=
  insideOn s firmId periodStart periodEnd fun inv ↦
    inv.status ≠ .void ∧ ¬InPeriod periodStart periodEnd inv.createdAt

/-- Metered outside the window, on an invoice made in it. -/
def carriedIn : ℤ :=
  cents s firmId fun ev ↦ ¬InPeriod periodStart periodEnd ev.createdAt ∧
    Billed s (fun inv ↦ inv.status ≠ .void ∧ InPeriod periodStart periodEnd inv.createdAt) ev

/-- Metered in the window, on an invoice made in it. -/
def within : ℤ :=
  insideOn s firmId periodStart periodEnd fun inv ↦
    inv.status ≠ .void ∧ InPeriod periodStart periodEnd inv.createdAt

/-- What leaves the window for invoices made outside it, or is VOID, comes to as
many cents as what enters it. -/
def CrossingsBalance : Prop :=
  carriedOut s firmId periodStart periodEnd + amounts (onVoid s firmId periodStart periodEnd) =
    carriedIn s firmId periodStart periodEnd

instance : Decidable (CrossingsBalance s firmId periodStart periodEnd) :=
  inferInstanceAs (Decidable (_ = _))

/-- In the window, some event that costs something is on no invoice; or some
events are on none, all free, and the crossings do not balance; or every event is
on an invoice, and the crossings balance exactly when none is on a VOID one. -/
def TellsApart : Prop :=
  (∃ ev ∈ unattached s firmId periodStart periodEnd, 0 < ev.amountCents) ∨
  (unattached s firmId periodStart periodEnd ≠ [] ∧
    ¬CrossingsBalance s firmId periodStart periodEnd) ∨
  (unattached s firmId periodStart periodEnd = [] ∧
    (CrossingsBalance s firmId periodStart periodEnd ↔
      onVoid s firmId periodStart periodEnd = []))

instance : Decidable (TellsApart s firmId periodStart periodEnd) :=
  inferInstanceAs (Decidable (_ ∨ _ ∨ _))

end Window

theorem insideOn_split {firmId : String} {periodStart periodEnd : Option Time}
    {p q r : Invoice → Prop} [DecidablePred p] [DecidablePred q] [DecidablePred r]
    (hr : ∀ inv, r inv ↔ p inv ∨ q inv) (hpq : ∀ inv, p inv → ¬q inv) :
    insideOn s firmId periodStart periodEnd r =
      insideOn s firmId periodStart periodEnd p + insideOn s firmId periodStart periodEnd q := by
  refine cents_split ?_ ?_
  · intro ev
    rw [billed_or hr, and_or_left]
  · rintro ev ⟨_, hp⟩ ⟨_, hq⟩
    exact not_billed_of_billed hpq hp hq

section Kept

variable {w : ℕ} (h : Kept s w) (hids : ∀ inv ∈ s.invoices, inv.id ≠ "")
  (firm : Firm) (periodStart periodEnd : Option Time)
include h hids

theorem meteredUninvoiced_eq :
    (reconciliationOf s firm periodStart periodEnd).meteredUninvoicedCents =
      amounts (unattached s firm.id periodStart periodEnd) := by
  have hsplit := amounts_invoiced_add (firmEvents s firm.id periodStart periodEnd)
  refine (sub_eq_iff_eq_add'.mpr hsplit).trans ?_
  refine amounts_filter_firmEvents fun ev hev ↦ ?_
  have hiff := invoiced_iff h.balanced hids hev
  simp only [Bool.not_eq_true', ← Bool.not_eq_true, hiff, not_not]
  tauto

theorem amounts_invoiced :
    amounts ((firmEvents s firm.id periodStart periodEnd).filter invoiced) =
      insideOn s firm.id periodStart periodEnd fun _ ↦ True := by
  refine amounts_filter_firmEvents fun ev hev ↦ ?_
  have hiff : invoiced ev = true ↔ Billed s (fun _ ↦ True) ev := by
    rw [invoiced_iff_billed h.balanced hids hev]
    refine ⟨Billed.mono fun _ _ ↦ trivial, ?_⟩
    rintro ⟨inv, hinv, _, hid⟩
    exact ⟨inv, hinv, (firmId_eq h.balanced hev hinv hid).symm, hid⟩
  simp only [hiff]
  tauto

theorem meteredInvoiced_eq :
    (reconciliationOf s firm periodStart periodEnd).meteredInvoicedCents =
      within s firm.id periodStart periodEnd + carriedOut s firm.id periodStart periodEnd +
        amounts (onVoid s firm.id periodStart periodEnd) := by
  refine (amounts_invoiced h hids firm periodStart periodEnd).trans ?_
  rw [insideOn_split (p := fun inv ↦ inv.status ≠ .void) (q := fun inv ↦ inv.status = .void)
      (fun inv ↦ by simp [ne_eq, em']) (fun inv hp hq ↦ hp hq),
    insideOn_split (r := fun inv ↦ inv.status ≠ .void)
      (p := fun inv ↦ inv.status ≠ .void ∧ InPeriod periodStart periodEnd inv.createdAt)
      (q := fun inv ↦ inv.status ≠ .void ∧ ¬InPeriod periodStart periodEnd inv.createdAt)
      (fun inv ↦ by tauto) (fun inv hp hq ↦ hq.2 hp.2)]
  rfl

omit hids in
theorem invoiced_eq :
    (reconciliationOf s firm periodStart periodEnd).invoicedCents =
      within s firm.id periodStart periodEnd + carriedIn s firm.id periodStart periodEnd := by
  have hsub := subtotals_eq h.balanced fun inv ↦ inv.status ≠ .void ∧ inv.firmId = firm.id ∧
    InPeriod periodStart periodEnd inv.createdAt
  have hbilled : cents s firm.id (Billed s fun inv ↦ inv.status ≠ .void ∧
      InPeriod periodStart periodEnd inv.createdAt) =
      within s firm.id periodStart periodEnd + carriedIn s firm.id periodStart periodEnd :=
    cents_split (fun ev ↦ by tauto) fun ev hp hq ↦ hq.1 hp.1
  rw [← hbilled]
  refine Eq.trans ?_ (hsub.trans ?_)
  · unfold subtotals
    simp [reconciliationOf, reconcile, subtotals, firmInvoices, List.filter_filter]
  · unfold cents
    congr 1
    apply List.filter_congr
    intro ev hev
    rw [decide_eq_decide]
    constructor
    · rintro ⟨inv, hinv, ⟨hlive, hfirm, hin⟩, hid⟩
      exact ⟨(firmId_eq h.balanced hev hinv hid).trans hfirm, inv, hinv, ⟨hlive, hin⟩, hid⟩
    · rintro ⟨hfirm, inv, hinv, ⟨hlive, hin⟩, hid⟩
      have hsame := firmId_eq h.balanced hev hinv hid
      exact ⟨inv, hinv, ⟨hlive, hsame.symm.trans hfirm, hin⟩, hid⟩

/-- The report is clean when what is on no invoice adds up to nothing and the
crossings balance. -/
theorem clean_iff : (reconciliationOf s firm periodStart periodEnd).clean = true ↔
    amounts (unattached s firm.id periodStart periodEnd) = 0 ∧
      CrossingsBalance s firm.id periodStart periodEnd := by
  have hmissing := meteredUninvoiced_eq h hids firm periodStart periodEnd
  have hinvoiced := meteredInvoiced_eq h hids firm periodStart periodEnd
  have hissued := invoiced_eq h firm periodStart periodEnd
  have hclean : (reconciliationOf s firm periodStart periodEnd).clean = true ↔
      (reconciliationOf s firm periodStart periodEnd).meteredUninvoicedCents = 0 ∧
        (reconciliationOf s firm periodStart periodEnd).meteredInvoicedCents =
          (reconciliationOf s firm periodStart periodEnd).invoicedCents := decide_eq_true_iff
  rw [hclean, hmissing, hinvoiced, hissued, CrossingsBalance]
  omega

omit hids in
theorem allSettled_iff : AllSettled s firm.id periodStart periodEnd ↔
    unattached s firm.id periodStart periodEnd = [] ∧
      onVoid s firm.id periodStart periodEnd = [] := by
  simp only [unattached, onVoid, List.filter_eq_nil_iff, decide_eq_true_eq]
  constructor
  · intro hall
    refine ⟨?_, ?_⟩
    · rintro ev hev ⟨hfirm, hin, hnone⟩
      obtain ⟨inv, _, _, hid⟩ := hall ev hev hfirm hin
      cases hnone.symm.trans hid
    · rintro ev hev ⟨hfirm, hin, hvoid⟩
      exact not_billed_of_billed (fun _ hp hq ↦ hp hq) (hall ev hev hfirm hin) hvoid
  · rintro ⟨hattached, hlive⟩ ev hev hfirm hin
    have hon : ev.invoiceId ≠ none := fun hnone ↦ hattached ev hev ⟨hfirm, hin, hnone⟩
    obtain ⟨inv, hinv, _, hid⟩ := billed_of_attached h.balanced hev hon
    exact ⟨inv, hinv, fun hvoid ↦ hlive ev hev ⟨hfirm, hin, inv, hinv, hvoid, hid⟩, hid⟩

section Prices

variable (hprice : ∀ ev ∈ s.usageEvents, 0 ≤ ev.amountCents)
include hprice

omit h hids in
theorem amounts_unattached_eq_zero_iff : amounts (unattached s firm.id periodStart periodEnd) = 0 ↔
    ∀ ev ∈ unattached s firm.id periodStart periodEnd, ev.amountCents = 0 :=
  amounts_eq_zero_iff fun ev hev ↦ hprice ev (List.mem_filter.mp hev).1

theorem Kept.clean_exact_iff :
    ((reconciliationOf s firm periodStart periodEnd).clean = true ↔
      AllSettled s firm.id periodStart periodEnd) ↔
      TellsApart s firm.id periodStart periodEnd := by
  rw [clean_iff h hids, allSettled_iff h, amounts_unattached_eq_zero_iff firm _ _ hprice,
    TellsApart]
  by_cases hcosts : ∃ ev ∈ unattached s firm.id periodStart periodEnd, 0 < ev.amountCents
  · -- seen by its price, and not settled
    obtain ⟨ev, hev, hpos⟩ := hcosts
    have hne : unattached s firm.id periodStart periodEnd ≠ [] := List.ne_nil_of_mem hev
    have hsum : ¬∀ ev ∈ unattached s firm.id periodStart periodEnd, ev.amountCents = 0 :=
      fun hfree ↦ hpos.ne' (hfree ev hev)
    exact iff_of_true (by simp [hsum, hne]) (Or.inl ⟨ev, hev, hpos⟩)
  · have hfree : ∀ ev ∈ unattached s firm.id periodStart periodEnd, ev.amountCents = 0 := by
      intro ev hev
      have hnonneg := hprice ev (List.mem_filter.mp hev).1
      have hnot : ¬0 < ev.amountCents := fun hpos ↦ hcosts ⟨ev, hev, hpos⟩
      omega
    by_cases hnone : unattached s firm.id periodStart periodEnd = []
    · simp [hnone]
    · simp only [hcosts, hnone, false_or, ne_eq, not_false_eq_true, true_and, false_and, or_false,
        iff_false, and_iff_right hfree]

end Prices

end Kept

/-- At positive prices an event on no invoice never goes unseen. -/
theorem tellsApart_iff_of_positive {firmId : String} {periodStart periodEnd : Option Time}
    (hprice : ∀ ev ∈ s.usageEvents, 0 < ev.amountCents) :
    TellsApart s firmId periodStart periodEnd ↔
      unattached s firmId periodStart periodEnd ≠ [] ∨
        (CrossingsBalance s firmId periodStart periodEnd ↔
          onVoid s firmId periodStart periodEnd = []) := by
  unfold TellsApart
  by_cases hnone : unattached s firmId periodStart periodEnd = []
  · simp [hnone]
  · obtain ⟨ev, hev⟩ := List.exists_mem_of_ne_nil _ hnone
    exact iff_of_true (Or.inl ⟨ev, hev, hprice ev (List.mem_filter.mp hev).1⟩) (Or.inl hnone)

/-- Without bounds nothing crosses them, so that positive prices make the
verdict exact. -/
theorem tellsApart_unbounded {firmId : String}
    (hprice : ∀ ev ∈ s.usageEvents, 0 < ev.amountCents) : TellsApart s firmId none none := by
  have hin : carriedIn s firmId none none = 0 :=
    cents_eq_zero fun ev _ _ hmeets ↦ hmeets.1 (inPeriod_none _)
  have hout : carriedOut s firmId none none = 0 := by
    refine cents_eq_zero fun ev _ _ hmeets ↦ ?_
    obtain ⟨inv, _, hinv, _⟩ := hmeets.2
    exact hinv.2 (inPeriod_none _)
  have hpositive : ∀ ev ∈ onVoid s firmId none none, 0 < ev.amountCents :=
    fun ev hev ↦ hprice ev (List.mem_filter.mp hev).1
  refine (tellsApart_iff_of_positive hprice).mpr (Or.inr ?_)
  rw [CrossingsBalance, hin, hout, zero_add,
    amounts_eq_zero_iff fun ev hev ↦ (hpositive ev hev).le]
  constructor
  · intro hfree
    by_contra hne
    obtain ⟨ev, hev⟩ := List.exists_mem_of_ne_nil _ hne
    exact (hpositive ev hev).ne' (hfree ev hev)
  · intro hnone
    simp [hnone]

/-- Rate cards ask for positive prices, so that only a default rate could be
negative. -/
theorem amountCents_nonneg (h : Provenance.Reached env s)
    (hrates : ∀ taskType, 0 ≤ env.defaultRatesCents taskType) {ev : UsageEvent}
    (hev : ev ∈ s.usageEvents) : 0 ≤ ev.amountCents := by
  have hgrounds : Provenance.UsageGrounds env s ev := h.grounded (x := .usageEvent ev) hev
  obtain ⟨project, _, _, _, hpriced⟩ := hgrounds.project
  rw [hgrounds.record.2.2]
  rcases hpriced with ⟨card, hcard, _, _, hprice⟩ | hdefault
  · have hcard : Provenance.RateGrounds s card := h.grounded (x := .rateCard card) hcard
    exact hprice ▸ hcard.positive.le
  · exact hdefault ▸ hrates _

/-- The verdict is exact for the windows whose crossings tell settled usage
apart from the rest, and for no other. -/
theorem clean_exact_of_run {tr : List (Served Api.Http Db Json)} {w₀ w : ℕ}
    (h : machine.Run (Api.serve env) Db.empty w₀ tr s w)
    (hids : ∀ inv ∈ s.invoices, inv.id ≠ "")
    (hrates : ∀ taskType, 0 ≤ env.defaultRatesCents taskType) (firm : Firm)
    (periodStart periodEnd : Option Time) :
    (∃ r, (reconciliationReport firm periodStart periodEnd).answer s = some (.ok r) ∧
      (r.clean = true ↔ AllSettled s firm.id periodStart periodEnd)) ↔
      TellsApart s firm.id periodStart periodEnd := by
  have hprice : ∀ ev ∈ s.usageEvents, 0 ≤ ev.amountCents :=
    fun ev hev ↦ amountCents_nonneg (.of_run h) hrates hev
  rw [← (kept_of_run h).clean_exact_iff hids firm periodStart periodEnd hprice,
    answer_reconciliationReport]
  constructor
  · rintro ⟨r, hr, hexact⟩
    obtain rfl := Except.ok.inj (Option.some.inj hr)
    exact hexact
  · intro hexact
    exact ⟨_, rfl, hexact⟩

/-- A window that holds both the approval at 36 and its invoice at 43. -/
theorem clean_exact_of_firstInvoice :
    TellsApart (Development.run Development.firstInvoice).2.1 alder.id (some 30) (some 50) ∧
      ∃ r, (reconciliationReport alder (some 30) (some 50)).answer
          (Development.run Development.firstInvoice).2.1 = some (.ok r) ∧
        (r.clean = true ↔ AllSettled (Development.run Development.firstInvoice).2.1 alder.id
          (some 30) (some 50)) := by
  have hapart : TellsApart (Development.run Development.firstInvoice).2.1 alder.id (some 30)
      (some 50) := by decide +kernel
  exact ⟨hapart, (clean_exact_of_run (Development.run_spec _) (by decide +kernel)
    (fun _ ↦ show (0 : ℤ) ≤ 1500 by decide) alder (some 30) (some 50)).mpr hapart⟩

/-- A window that ends between the approval at 36 and its invoice at 43. -/
theorem settled_month_not_clean :
    ¬∀ (env : Env) (tr : List (Served Api.Http Db Json)) (w₀ w : ℕ) (s : Db) (firm : Firm)
      (periodStart periodEnd : Option Time),
      machine.Run (Api.serve env) Db.empty w₀ tr s w → (∀ inv ∈ s.invoices, inv.id ≠ "") →
      ∃ r, (reconciliationReport firm periodStart periodEnd).answer s = some (.ok r) ∧
        (r.clean = true ↔ ∀ ev ∈ s.usageEvents, ev.firmId = firm.id →
          InPeriod periodStart periodEnd ev.createdAt →
          ∃ inv ∈ s.invoices, ev.invoiceId = some inv.id ∧ inv.status ≠ .void) := by
  intro hclaim
  obtain ⟨r, hr, hexact⟩ := hclaim _ _ _ _ _ alder none (some 41)
    (Development.run_spec Development.firstInvoice) (by decide +kernel)
  rw [answer_reconciliationReport] at hr
  obtain rfl := Except.ok.inj (Option.some.inj hr)
  have hsettled : ∀ ev ∈ (Development.run Development.firstInvoice).2.1.usageEvents.rows,
      ∃ inv ∈ (Development.run Development.firstInvoice).2.1.invoices.rows,
        ev.invoiceId = some inv.id ∧ inv.status ≠ .void := by
    decide +kernel
  have hclean : (reconciliationOf (Development.run Development.firstInvoice).2.1 alder none
      (some 41)).clean = false := by
    decide +kernel
  rw [hexact.mpr fun ev hev _ _ ↦ hsettled ev hev] at hclean
  cases hclean

end TieOut

end HumanDataFactory
