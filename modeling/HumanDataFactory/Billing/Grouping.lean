import HumanDataFactory.Billing.Effects
import HumanDataFactory.Rollup

/-!
# The lines of an invoice

What the grouping loop of `generate_invoice` leaves in its rows: one line for
each project, kind and unit price, which sums exactly the events of its group.
-/

namespace HumanDataFactory

def LineItem.group (row : LineItem) : String × String × ℤ :=
  (row.projectId, row.kind, row.unitPriceCents)

def UsageEvent.group (ev : UsageEvent) : String × String × ℤ :=
  (ev.projectId, ev.kind, ev.unitPriceCents)

namespace Billing

theorem sameGroup_iff {row : LineItem} {ev : UsageEvent} :
    sameGroup row ev ↔ row.group = ev.group := by
  simp [sameGroup, LineItem.group, UsageEvent.group]

/-- The events a line stands for. -/
def eventsOf (row : LineItem) (evs : List UsageEvent) : List UsageEvent :=
  evs.filter fun ev ↦ row.group = ev.group

/-- The rows sum up the events. -/
structure Tallies (rows : List LineItem) (evs : List UsageEvent) : Prop where
  nodup : (rows.map LineItem.group).Nodup
  quantity : ∀ row ∈ rows, row.quantity = ((eventsOf row evs).map UsageEvent.quantity).sum
  amount : ∀ row ∈ rows, row.amountCents = ((eventsOf row evs).map UsageEvent.amountCents).sum
  covered : ∀ ev ∈ evs, ∃ row ∈ rows, row.group = ev.group
  total : (rows.map LineItem.amountCents).sum = (evs.map UsageEvent.amountCents).sum

/-- The grouping loop, by project, kind and unit price. -/
def lineRollup : Rollup (String × String × ℤ) UsageEvent LineItem where
  group := UsageEvent.group
  key := LineItem.group
  opened := fun (projectId, kind, unitPriceCents) ↦
    { projectId := projectId
      kind := kind
      unitPriceCents := unitPriceCents
      quantity := 0
      amountCents := 0
      description := "" }
  add row ev :=
    { row with
      quantity := row.quantity + ev.quantity
      amountCents := row.amountCents + ev.amountCents }
  key_opened _ := rfl
  key_add _ _ := rfl

def quantityColumn : lineRollup.Column ℤ where
  value := LineItem.quantity
  weight := UsageEvent.quantity
  value_opened _ := rfl
  value_add _ _ := rfl

def amountColumn : lineRollup.Column ℤ where
  value := LineItem.amountCents
  weight := UsageEvent.amountCents
  value_opened _ := rfl
  value_add _ _ := rfl

theorem addToGroup_eq (rows : List LineItem) (ev : UsageEvent) :
    addToGroup rows ev = lineRollup.step rows ev := by
  unfold addToGroup Rollup.step
  simp only [sameGroup_iff]
  rfl

theorem grouped_eq (evs : List UsageEvent) : grouped evs = lineRollup.rows evs := by
  have hstep : addToGroup = lineRollup.step := funext fun rows ↦ funext (addToGroup_eq rows)
  unfold grouped Rollup.rows
  rw [hstep]

theorem tallies_grouped (evs : List UsageEvent) : Tallies (grouped evs) evs := by
  rw [grouped_eq]
  exact
    { nodup := lineRollup.nodup_keys evs
      quantity := fun _ hrow ↦ quantityColumn.value_row hrow
      amount := fun _ hrow ↦ amountColumn.value_row hrow
      covered := fun _ hev ↦ lineRollup.exists_row hev
      total := amountColumn.sum_rows evs }

theorem Tallies.perm {rows : List LineItem} {evs evs' : List UsageEvent} (h : Tallies rows evs)
    (hp : evs.Perm evs') : Tallies rows evs' := by
  have hof : ∀ row, (eventsOf row evs).Perm (eventsOf row evs') := fun row ↦ hp.filter _
  refine ⟨h.nodup, ?_, ?_, ?_, ?_⟩
  · intro row hrow
    rw [h.quantity row hrow]
    exact ((hof row).map _).sum_eq
  · intro row hrow
    rw [h.amount row hrow]
    exact ((hof row).map _).sum_eq
  · intro ev hev
    exact h.covered ev (hp.mem_iff.mpr hev)
  · rw [h.total]
    exact (hp.map _).sum_eq

/-- The invoice an event is attached to does not matter. -/
theorem Tallies.map_events {rows : List LineItem} {evs : List UsageEvent} (h : Tallies rows evs)
    {f : UsageEvent → UsageEvent} (hgroup : ∀ ev, (f ev).group = ev.group)
    (hquantity : ∀ ev, (f ev).quantity = ev.quantity)
    (hamount : ∀ ev, (f ev).amountCents = ev.amountCents) : Tallies rows (evs.map f) := by
  have hof : ∀ row, eventsOf row (evs.map f) = (eventsOf row evs).map f := by
    intro row
    simp [eventsOf, List.filter_map, Function.comp_def, hgroup]
  refine ⟨h.nodup, ?_, ?_, ?_, ?_⟩
  · intro row hrow
    rw [hof, List.map_map, h.quantity row hrow]
    simp [Function.comp_def, hquantity]
  · intro row hrow
    rw [hof, List.map_map, h.amount row hrow]
    simp [Function.comp_def, hamount]
  · intro e he
    obtain ⟨ev, hev, rfl⟩ := List.mem_map.mp he
    rw [hgroup]
    exact h.covered ev hev
  · rw [List.map_map, h.total]
    simp [Function.comp_def, hamount]

/-- The descriptions do not matter. -/
theorem Tallies.of_undescribed {rows lines : List LineItem} {evs : List UsageEvent}
    (h : Tallies rows evs) (hlines : lines.map undescribed = rows) : Tallies lines evs := by
  subst hlines
  have hof : ∀ row, eventsOf (undescribed row) evs = eventsOf row evs := fun _ ↦ rfl
  refine ⟨?_, ?_, ?_, ?_, ?_⟩
  · have hnodup := h.nodup
    rw [List.map_map] at hnodup
    exact hnodup
  · intro row hrow
    exact h.quantity (undescribed row) (List.mem_map_of_mem hrow)
  · intro row hrow
    exact h.amount (undescribed row) (List.mem_map_of_mem hrow)
  · intro ev hev
    obtain ⟨_, hmem, hg⟩ := h.covered ev hev
    obtain ⟨row, hrow, rfl⟩ := List.mem_map.mp hmem
    exact ⟨row, hrow, hg⟩
  · have htotal := h.total
    rw [List.map_map] at htotal
    exact htotal

end Billing

end HumanDataFactory
