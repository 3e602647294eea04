import HumanDataFactory.Billing.Effects

/-!
# What webhook events ask for

The handler finds its way through an event by its type, its object and the
invoices on record.  Two kinds of events reach an invoice: a completed
checkout, and an invoice event that settles the one invoice with its Stripe
identifier.
-/

namespace HumanDataFactory

namespace Billing

variable {s : Db} {event : Json} {inv : Invoice}

/-- A completed checkout of a known invoice, with the payment it reports. -/
structure CompletesCheckout (s : Db) (event : Json) (inv : Invoice) (reference : Json) :
    Prop where
  type : event.getD "type" (.str "") = .ok (.str "checkout.session.completed")
  object : ∃ obj, eventObject event = .ok obj ∧ checkoutInvoice s obj = .ok (some inv) ∧
    reference = paymentReference obj

/-- An invoice event that settles a known invoice. -/
structure SettlesInvoice (s : Db) (event : Json) (inv : Invoice) (etype stripeId : String)
    (status : InvoiceStatus) : Prop where
  type : event.getD "type" (.str "") = .ok (.str etype)
  settles : settledStatus etype = some status
  object : ∃ obj, eventObject event = .ok obj ∧ obj.get "id" = .ok (.str stripeId)
  nonempty : stripeId ≠ ""
  known : byStripeId s stripeId = [inv]

theorem settledStatus_eq_some {etype : String} {status : InvoiceStatus}
    (h : settledStatus etype = some status) :
    ((etype = "invoice.paid" ∨ etype = "invoice.payment_succeeded") ∧ status = .paid) ∨
      (etype = "invoice.voided" ∧ status = .void) := by
  unfold settledStatus at h
  split at h
  · rename_i hpaid
    exact Or.inl ⟨hpaid, (Option.some.inj h).symm⟩
  · split at h
    · rename_i hvoid
      exact Or.inr ⟨hvoid, (Option.some.inj h).symm⟩
    · cases h

theorem startsWith_of_settledStatus {etype : String} {status : InvoiceStatus}
    (h : settledStatus etype = some status) : startsWith "invoice." etype = true := by
  rcases settledStatus_eq_some h with ⟨rfl | rfl, _⟩ | ⟨rfl, _⟩ <;> decide +kernel

theorem isStr_eq_true {x : Json} {t : String} : x.isStr t = true ↔ x = .str t := by
  cases x <;> simp [Json.isStr]

theorem boundText_eq_ok {x : Json} {t : String} : boundText x = .ok t ↔ x = .str t := by
  cases x <;> simp [boundText]

theorem checkoutAction_eq_ok {obj : Json} {act : WebhookAction} :
    checkoutAction s obj = .ok act ↔
      (checkoutInvoice s obj = .ok none ∧ act = .ignore) ∨
        ∃ inv, checkoutInvoice s obj = .ok (some inv) ∧
          act = .checkout inv (paymentReference obj) := by
  simp only [checkoutAction, bind_eq_ok]
  constructor
  · rintro ⟨_ | inv, hfound, hact⟩
    · cases hact
      exact Or.inl ⟨hfound, rfl⟩
    · cases hact
      exact Or.inr ⟨inv, hfound, rfl⟩
  · rintro (⟨hfound, rfl⟩ | ⟨inv, hfound, rfl⟩)
    · exact ⟨none, hfound, rfl⟩
    · exact ⟨some inv, hfound, rfl⟩

/-- An invoice event either settles the one matching invoice or does nothing. -/
theorem stripeAction_eq_ok {etype : String} {key : Json} {act : WebhookAction}
    (h : stripeAction s etype key = .ok act) :
    act = .ignore ∨ ∃ inv stripeId status, key = .str stripeId ∧
      byStripeId s stripeId = [inv] ∧ settledStatus etype = some status ∧
      act = .settle inv etype stripeId status := by
  simp only [stripeAction, bind_eq_ok] at h
  obtain ⟨stripeId, hkey, found, hfound, hact⟩ := h
  cases found with
  | none =>
      cases hact
      exact Or.inl rfl
  | some inv =>
      cases hstatus : settledStatus etype with
      | none =>
          simp only [hstatus] at hact
          cases hact
          exact Or.inl rfl
      | some status =>
          simp only [hstatus] at hact
          cases hact
          exact Or.inr ⟨inv, stripeId, status, boundText_eq_ok.mp hkey,
            oneOrNone_eq_ok.mp hfound, rfl, rfl⟩

theorem invoiceAction_eq_ok {etype obj : Json} {act : WebhookAction}
    (h : invoiceAction s etype obj = .ok act) :
    act = .ignore ∨ ∃ inv t stripeId status, etype = .str t ∧ obj.get "id" = .ok (.str stripeId) ∧
      stripeId ≠ "" ∧ byStripeId s stripeId = [inv] ∧ settledStatus t = some status ∧
      act = .settle inv t stripeId status := by
  simp only [invoiceAction, bind_eq_ok] at h
  obtain ⟨key, hkey, h⟩ := h
  split at h
  · rename_i htruthy
    cases etype with
    | str t =>
        simp only at h
        split at h
        · rcases stripeAction_eq_ok h with rfl | ⟨inv, stripeId, status, rfl, hknown, hst, rfl⟩
          · exact Or.inl rfl
          · have hne : stripeId ≠ "" := by simpa [Json.truthy] using htruthy
            exact Or.inr ⟨inv, t, stripeId, status, rfl, hkey, hne, hknown, hst, rfl⟩
        · cases h
          exact Or.inl rfl
    | _ => cases h
  · cases h
    exact Or.inl rfl

/-- What an event can ask for. -/
theorem webhookAction_cases {act : WebhookAction} (h : webhookAction s event = .ok act) :
    act = .ignore ∨
      (∃ inv reference, CompletesCheckout s event inv reference ∧
        act = .checkout inv reference) ∨
      ∃ inv etype stripeId status, SettlesInvoice s event inv etype stripeId status ∧
        act = .settle inv etype stripeId status := by
  simp only [webhookAction, bind_eq_ok] at h
  obtain ⟨ty, hty, obj, hobj, h⟩ := h
  split at h
  · rename_i hcompleted
    rw [isStr_eq_true.mp hcompleted] at hty
    rcases checkoutAction_eq_ok.mp h with ⟨_, rfl⟩ | ⟨inv, hfound, rfl⟩
    · exact Or.inl rfl
    · exact Or.inr (Or.inl ⟨inv, _, ⟨hty, obj, hobj, hfound, rfl⟩, rfl⟩)
  · rcases invoiceAction_eq_ok h with rfl | ⟨inv, t, stripeId, status, rfl, hkey, hne, hknown,
      hst, rfl⟩
    · exact Or.inl rfl
    · exact Or.inr (Or.inr ⟨inv, t, stripeId, status, ⟨hty, hst, ⟨obj, hobj, hkey⟩, hne, hknown⟩,
        rfl⟩)

theorem CompletesCheckout.action {reference : Json} (h : CompletesCheckout s event inv reference) :
    webhookAction s event = .ok (.checkout inv reference) := by
  obtain ⟨obj, hobj, hfound, rfl⟩ := h.object
  simp only [webhookAction, bind_eq_ok]
  refine ⟨_, h.type, obj, hobj, ?_⟩
  rw [if_pos (isStr_eq_true.mpr rfl)]
  exact checkoutAction_eq_ok.mpr (Or.inr ⟨inv, hfound, rfl⟩)

theorem SettlesInvoice.not_checkout {etype stripeId : String} {status : InvoiceStatus}
    (h : SettlesInvoice s event inv etype stripeId status) :
    ¬(Json.str etype).isStr "checkout.session.completed" = true := by
  rw [isStr_eq_true]
  rintro heq
  cases heq
  have hst := h.settles
  simp [settledStatus] at hst

theorem SettlesInvoice.action {etype stripeId : String} {status : InvoiceStatus}
    (h : SettlesInvoice s event inv etype stripeId status) :
    webhookAction s event = .ok (.settle inv etype stripeId status) := by
  obtain ⟨obj, hobj, hkey⟩ := h.object
  simp only [webhookAction, bind_eq_ok]
  refine ⟨_, h.type, obj, hobj, ?_⟩
  rw [if_neg h.not_checkout]
  simp only [invoiceAction, bind_eq_ok]
  refine ⟨_, hkey, ?_⟩
  have htruthy : (Json.str stripeId).truthy = true := by simpa [Json.truthy] using h.nonempty
  simp only [htruthy, if_true, startsWith_of_settledStatus h.settles, stripeAction, bind_eq_ok]
  refine ⟨stripeId, rfl, some inv, oneOrNone_eq_ok.mpr h.known, ?_⟩
  simp only [h.settles]
  rfl

/-- The invoice an event reaches is the row with its own id. -/
theorem CompletesCheckout.find? {reference : Json}
    (h : CompletesCheckout s event inv reference) : s.invoices.find? inv.id = some inv := by
  obtain ⟨obj, _, hfound, _⟩ := h.object
  exact find?_of_checkoutInvoice hfound

theorem SettlesInvoice.find? {etype stripeId : String} {status : InvoiceStatus}
    (h : SettlesInvoice s event inv etype stripeId status) :
    s.invoices.find? inv.id = some inv := by
  have hin : inv ∈ byStripeId s stripeId := by simp [h.known]
  exact Table.find?_of_mem (List.mem_filter.mp hin).1

/-! ## Events after an update

An update that keeps the columns an event is matched by keeps what the event
reaches. -/

section Update

variable {s' : Db} {inv' : Invoice} (hs : s'.invoices = s.invoices.replace inv')
  (hid : inv'.id = inv.id)
include hs hid

theorem invoiceOfKey_replace {key : Json} {found : Option Invoice}
    (hself : s.invoices.find? inv.id = some inv) (h : invoiceOfKey s key = .ok found) :
    invoiceOfKey s' key = .ok (found.map fun i ↦ if i.id = inv.id then inv' else i) := by
  unfold invoiceOfKey at h ⊢
  by_cases htruthy : key.truthy = true
  · rw [if_pos htruthy] at h ⊢
    simp only [bind_eq_ok] at h ⊢
    obtain ⟨id, hbound, hrow⟩ := h
    obtain rfl : s.invoices.find? id = found := Except.ok.inj hrow
    refine ⟨id, hbound, congrArg Except.ok ?_⟩
    rw [hs, Table.find?_replace (by rwa [hid]), hid]
    by_cases hk : inv.id = id
    · rw [if_pos hk, ← hk, hself]
      simp
    · rw [if_neg hk]
      cases hold : s.invoices.find? id with
      | none => rfl
      | some i =>
          have hne : i.id ≠ inv.id := by
            rw [Table.key_of_find? hold]
            exact Ne.symm hk
          simp [hne]
  · rw [if_neg htruthy] at h ⊢
    cases h
    rfl

theorem invoiceOfSession_replace {key : Json} (hself : s.invoices.find? inv.id = some inv)
    (hsession : inv'.checkoutSessionId = inv.checkoutSessionId)
    (h : invoiceOfSession s key = .ok (some inv)) : invoiceOfSession s' key = .ok (some inv') := by
  have hfind : s.invoices.find? inv'.id = some inv := by rwa [hid]
  unfold invoiceOfSession at h ⊢
  by_cases htruthy : key.truthy = true
  · rw [if_pos htruthy] at h ⊢
    simp only [bind_eq_ok, oneOrNone_eq_ok] at h ⊢
    obtain ⟨id, hbound, hrows⟩ := h
    refine ⟨id, hbound, ?_⟩
    unfold bySession at hrows ⊢
    rw [hs, Table.filter_replace hfind (by rw [hsession]), hrows]
    simp [hid]
  · rw [if_neg htruthy] at h
    cases h

theorem CompletesCheckout.replace {reference : Json} (h : CompletesCheckout s event inv reference)
    (hsession : inv'.checkoutSessionId = inv.checkoutSessionId) :
    CompletesCheckout s' event inv' reference := by
  have hself := h.find?
  obtain ⟨obj, hobj, hfound, hreference⟩ := h.object
  refine ⟨h.type, obj, hobj, ?_, hreference⟩
  simp only [checkoutInvoice, bind_eq_ok] at hfound ⊢
  obtain ⟨key, hkey, found, hrow, hrest⟩ := hfound
  refine ⟨key, hkey, _, invoiceOfKey_replace hs hid hself hrow, ?_⟩
  cases found with
  | some i =>
      cases hrest
      simp
      rfl
  | none =>
      simp only [bind_eq_ok] at hrest ⊢
      obtain ⟨sessionId, hsessionId, hrow'⟩ := hrest
      exact bind_eq_ok.mpr ⟨sessionId, hsessionId,
        invoiceOfSession_replace hs hid hself hsession hrow'⟩

theorem SettlesInvoice.replace {etype stripeId : String} {status : InvoiceStatus}
    (h : SettlesInvoice s event inv etype stripeId status)
    (hstripe : inv'.stripeInvoiceId = inv.stripeInvoiceId) :
    SettlesInvoice s' event inv' etype stripeId status := by
  have hfind : s.invoices.find? inv'.id = some inv := by rw [hid]; exact h.find?
  refine ⟨h.type, h.settles, h.object, h.nonempty, ?_⟩
  have hknown := h.known
  unfold byStripeId at hknown ⊢
  rw [hs, Table.filter_replace hfind (by rw [hstripe]), hknown]
  simp [hid]

end Update

end Billing

end HumanDataFactory
