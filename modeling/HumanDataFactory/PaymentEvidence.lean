import HumanDataFactory.Api.Effects
import HumanDataFactory.Billing.Webhooks
import HumanDataFactory.Development

/-!
# Payment evidence

A completed checkout reports a payment reference, and a client's payment comes
with one.  Both are recorded in the payload of an invoice event, but a checkout
that completes on a paid invoice is taken for a replay.  A reference is on
record exactly once as long as replays are all that such checkouts are.
-/

namespace HumanDataFactory

open Transact

/-! ## Lists with one occurrence -/

/-- `x` occurs in `l`, and only once. -/
def Once {γ : Type} (x : γ) (l : List γ) : Prop :=
  ∃ l₁ l₂, l = l₁ ++ x :: l₂ ∧ x ∉ l₁ ∧ x ∉ l₂

namespace Once

variable {γ : Type} {x y : γ} {l : List γ}

theorem mem (h : Once x l) : x ∈ l := by
  obtain ⟨l₁, l₂, rfl, _⟩ := h
  simp

theorem of_not_mem (h : x ∉ l) : Once x (l ++ [x]) :=
  ⟨l, [], rfl, h, by simp⟩

theorem concat (h : Once x l) (hne : x ≠ y) : Once x (l ++ [y]) := by
  obtain ⟨l₁, l₂, rfl, h₁, h₂⟩ := h
  exact ⟨l₁, l₂ ++ [y], by simp, h₁, by simp [h₂, hne]⟩

/-- The one occurrence is in front of another last element, or is the last. -/
theorem of_concat (h : Once x (l ++ [y])) : (x ≠ y ∧ Once x l) ∨ (x = y ∧ x ∉ l) := by
  obtain ⟨l₁, l₂, heq, h₁, h₂⟩ := h
  rcases split_concat heq with ⟨rfl, rfl, _⟩ | ⟨l₂', rfl, rfl⟩
  · exact Or.inr ⟨rfl, h₁⟩
  · simp only [List.mem_append, List.mem_singleton, not_or] at h₂
    exact Or.inl ⟨h₂.2, l₁, l₂', rfl, h₁, h₂.1⟩

end Once

namespace PaymentEvidence

variable {env : Env} {s s' : Db}

/-! ## References on record -/

/-- The payment reference in the payload of an invoice event. -/
def referenceOf (e : Audit.Entry) : Option Json :=
  if e.entityType = "invoice" then
    match e.payload with
    | .obj kvs => Json.lookup kvs "reference"
    | _ => none
  else none

def references (s : Db) : List Json :=
  s.auditEvents.filterMap fun ev ↦ referenceOf ev.entry

theorem references_concat {aud : AuditEvent} {entry : Audit.Entry} (haud : aud.entry = entry)
    (h : s'.auditEvents = s.auditEvents ++ [aud]) :
    references s' = references s ++ (referenceOf entry).toList := by
  unfold references
  rw [h, List.filterMap_append]
  cases hr : referenceOf entry <;> simp [haud, hr]

theorem references_of_apart (h : Engine.Apart s s') : references s' = references s := by
  obtain ⟨_, evs, hevs, hother⟩ := h
  have hnone : (evs.filterMap fun ev ↦ referenceOf ev.entry) = [] := by
    refine List.filterMap_eq_nil_iff.mpr ?_
    intro ev hev
    exact if_neg (hother ev hev)
  unfold references
  rw [hevs, List.filterMap_append, hnone, List.append_nil]

/-! ## References reported and given -/

variable (env) in
/-- A request that reports the payment of a known invoice. -/
def Reports (s : Db) (request : Api.Request) (inv : Invoice) (reference : Json) : Prop :=
  ∃ payload signature event, request = .stripeWebhook payload signature ∧
    StripeGateway.parseWebhook env payload signature = .ok event ∧
    Billing.CompletesCheckout s event inv reference

/-- The reference of a client's payment. -/
def givenBy : Api.Request → Option Json
  | .recordExternalPayment _ reference => some (.str reference)
  | _ => none

theorem not_reports_of_given {request : Api.Request} {given reference : Json} {inv : Invoice}
    (h : givenBy request = some given) : ¬Reports env s request inv reference := by
  rintro ⟨payload, signature, event, rfl, _⟩
  cases h

theorem Reports.unique {request : Api.Request} {inv inv' : Invoice} {reference reference' : Json}
    (h : Reports env s request inv reference) (h' : Reports env s request inv' reference') :
    inv = inv' ∧ reference = reference' := by
  obtain ⟨payload, signature, event, rfl, hevent, hcompletes⟩ := h
  obtain ⟨payload', signature', event', hreq, hevent', hcompletes'⟩ := h'
  obtain ⟨rfl, rfl⟩ := Api.Request.stripeWebhook.inj hreq
  obtain rfl := Except.ok.inj (hevent.symm.trans hevent')
  have hact := Except.ok.inj (hcompletes.action.symm.trans hcompletes'.action)
  cases hact
  exact ⟨rfl, rfl⟩

/-- What a served request records of payments. -/
inductive Recorded (env : Env) (request : Api.Request) (s s' : Db) : Prop
  | none (hgiven : givenBy request = .none)
      (hreports : ∀ inv reference, Reports env s request inv reference → inv.status = .paid)
      (h : references s' = references s)
  | given {reference : Json} (hgiven : givenBy request = some reference)
      (h : references s' = references s ++ [reference])
  | reported {inv : Invoice} {reference : Json} (hreports : Reports env s request inv reference)
      (hunpaid : inv.status ≠ .paid) (h : references s' = references s ++ [reference])

theorem recorded_of_performed {payload : String} {signature : Option String} {event : Json}
    {act : Billing.WebhookAction}
    (hevent : StripeGateway.parseWebhook env payload signature = .ok event)
    (hact : Billing.webhookAction s event = .ok act) (h : Billing.Performed env s act s') :
    Recorded env (.stripeWebhook payload signature) s s' := by
  have hreported : ∀ inv reference, Reports env s (.stripeWebhook payload signature) inv reference →
      act = .checkout inv reference := by
    rintro inv reference ⟨_, _, event', hreq, hevent', hcompletes⟩
    obtain ⟨rfl, rfl⟩ := Api.Request.stripeWebhook.inj hreq
    obtain rfl := Except.ok.inj (hevent.symm.trans hevent')
    exact Except.ok.inj (hact.symm.trans hcompletes.action)
  rcases Billing.webhookAction_cases hact with rfl | ⟨inv, reference, hcompletes, rfl⟩ |
      ⟨inv, etype, stripeId, status, hsettles, rfl⟩
  · cases h
    refine .none rfl ?_ rfl
    intro inv reference hreports
    cases hreported inv reference hreports
  · cases h with
    | alreadyPaid hpaid =>
        refine .none rfl ?_ rfl
        intro inv' reference' hreports
        cases hreported inv' reference' hreports
        exact hpaid
    | completed hunpaid _ haud =>
        refine .reported ⟨payload, signature, event, rfl, hevent, hcompletes⟩ hunpaid ?_
        rw [references_concat haud rfl]
        rfl
  · cases h with
    | settled haud =>
        refine .none rfl ?_ ?_
        · intro inv' reference hreports
          cases hreported inv' reference hreports
        · rw [references_concat haud rfl]
          exact List.append_nil _

/-- Any other event leaves the references alone. -/
theorem Recorded.of_other {request : Api.Request} {aud : AuditEvent} {entry : Audit.Entry}
    (hgiven : givenBy request = Option.none)
    (hnot : ∀ inv reference, ¬Reports env s request inv reference) (haud : aud.entry = entry)
    (hother : referenceOf entry = Option.none)
    (hevents : s'.auditEvents = s.auditEvents ++ [aud]) : Recorded env request s s' := by
  refine .none hgiven (fun inv reference hreports ↦ absurd hreports (hnot inv reference)) ?_
  rw [references_concat haud hevents, hother]
  exact List.append_nil _

theorem recorded_of_effect {actor : Auth.Actor} {request : Api.Request}
    (h : Api.Effect env actor s request s') : Recorded env request s s' := by
  have hnot : (∀ payload signature, request ≠ .stripeWebhook payload signature) →
      ∀ inv reference, ¬Reports env s request inv reference := by
    rintro hother inv reference ⟨payload, signature, event, hreq, _⟩
    exact hother payload signature hreq
  cases h with
  | createSubmission htask hexpert h =>
      refine .none rfl (fun inv reference hreports ↦ absurd hreports (hnot nofun inv reference)) ?_
      exact references_of_apart (Engine.apart_of_submitted h)
  | postHumanReview hsub hreviewer h =>
      refine .none rfl (fun inv reference hreports ↦ absurd hreports (hnot nofun inv reference)) ?_
      exact references_of_apart (Engine.apart_of_reviewed h)
  | generateInvoice hfirm h =>
      cases h with
      | mk hinv hfirms haud => exact .of_other rfl (hnot nofun) haud rfl rfl
  | createInvoiceCheckout hinv haccess h =>
      cases h with
      | mk hstatus haud => exact .of_other rfl (hnot nofun) haud rfl rfl
  | recordExternalPayment hinv h =>
      cases h with
      | mk hmode hstatus haud =>
          refine .given rfl ?_
          rw [references_concat haud rfl]
          rfl
  | stripeWebhook hevent hact h => exact recorded_of_performed hevent hact h
  | bootstrap hempty hid haud => exact .of_other rfl (hnot nofun) haud rfl rfl
  | createUser hid haud => exact .of_other rfl (hnot nofun) haud rfl rfl
  | revokeUser huser haud => exact .of_other rfl (hnot nofun) haud rfl rfl
  | createFirm hid haud => exact .of_other rfl (hnot nofun) haud rfl rfl
  | createRateCard hfirm hid haud => exact .of_other rfl (hnot nofun) haud rfl rfl
  | createExpert hid haud => exact .of_other rfl (hnot nofun) haud rfl rfl
  | recordExam hexpert hid haud => exact .of_other rfl (hnot nofun) haud rfl rfl
  | createProject hfirm hrubric hid haud => exact .of_other rfl (hnot nofun) haud rfl rfl
  | createTask hproject hgold hid haud => exact .of_other rfl (hnot nofun) haud rfl rfl
  | assignTask htask hexpert hproject hqualified haud =>
      exact .of_other rfl (hnot nofun) haud rfl rfl
  | requestExport hproject hclean hid haud => exact .of_other rfl (hnot nofun) haud rfl rfl
  | approveExport hbatch hstatus hdual haud => exact .of_other rfl (hnot nofun) haud rfl rfl

/-! ## References of a run -/

/-- The references of the clients' payments, oldest first. -/
def givenIn (tr : List (Served Api.Http Db Json)) : List Json :=
  tr.filterMap fun e ↦ if e.outcome.isSome then givenBy e.request.request else none

variable (env) in
/-- A completed checkout with this reference was handled. -/
def Reported (tr : List (Served Api.Http Db Json)) (reference : Json) : Prop :=
  ∃ e ∈ tr, e.outcome.isSome = true ∧ ∃ inv, Reports env e.before e.request.request inv reference

variable (env) in
/-- The condition on a run.  A reference is reported again only for a paid
invoice, and reported first for an unpaid one, unless a client gave it when
paying.  No client pays with a reference that was reported. -/
structure Traceable (tr : List (Served Api.Http Db Json)) (e : Served Api.Http Db Json) :
    Prop where
  again : e.outcome.isSome = true → ∀ inv reference,
    Reports env e.before e.request.request inv reference → Reported env tr reference →
      inv.status = .paid
  first : e.outcome.isSome = true → ∀ inv reference,
    Reports env e.before e.request.request inv reference → ¬Reported env tr reference →
      (inv.status ≠ .paid ∧ reference ∉ givenIn tr) ∨
        (inv.status = .paid ∧ Once reference (givenIn tr))
  given : e.outcome.isSome = true → ∀ reference, givenBy e.request.request = some reference →
    ¬Reported env tr reference

section Run

variable {tr : List (Served Api.Http Db Json)} {e : Served Api.Http Db Json} {reference : Json}

theorem reported_concat : Reported env (tr ++ [e]) reference ↔ Reported env tr reference ∨
    (e.outcome.isSome = true ∧ ∃ inv, Reports env e.before e.request.request inv reference) := by
  simp only [Reported, List.mem_append, List.mem_singleton, or_and_right, exists_or,
    exists_eq_left]

theorem givenIn_concat (tr : List (Served Api.Http Db Json)) (e : Served Api.Http Db Json) :
    givenIn (tr ++ [e]) =
      givenIn tr ++ (if e.outcome.isSome then givenBy e.request.request else none).toList := by
  unfold givenIn
  rw [List.filterMap_append]
  by_cases hok : e.outcome.isSome = true
  · cases hgiven : givenBy e.request.request <;> simp [hok, hgiven]
  · simp [hok]

/-- What a run keeps: what was reported is on record once, and any other
reference as often as clients gave it, none or one time. -/
structure Kept (env : Env) (tr : List (Served Api.Http Db Json)) (s : Db) (w : ℕ) : Prop where
  below : Audit.SeqBelow s.auditEvents w
  reported : ∀ reference, Reported env tr reference → Once reference (references s)
  absent : ∀ reference, ¬Reported env tr reference → reference ∉ givenIn tr →
    reference ∉ references s
  once : ∀ reference, ¬Reported env tr reference → Once reference (givenIn tr) →
    Once reference (references s)

theorem Kept.failed {w w' : ℕ} (h : Kept env tr e.before w) (hnone : e.outcome = none)
    (hafter : e.after = e.before) (hw : w ≤ w') : Kept env (tr ++ [e]) e.after w' := by
  have hreported : ∀ reference, Reported env (tr ++ [e]) reference ↔ Reported env tr reference := by
    intro reference
    rw [reported_concat]
    simp [hnone]
  have hgiven : givenIn (tr ++ [e]) = givenIn tr := by
    rw [givenIn_concat]
    simp [hnone]
  rw [hafter]
  refine ⟨h.below.mono hw, ?_, ?_, ?_⟩
  · intro reference
    rw [hreported]
    exact h.reported reference
  · intro reference
    rw [hreported, hgiven]
    exact h.absent reference
  · intro reference
    rw [hreported, hgiven]
    exact h.once reference

theorem givenIn_concat_none (hgiven : givenBy e.request.request = none) :
    givenIn (tr ++ [e]) = givenIn tr := by
  rw [givenIn_concat, hgiven, ite_self]
  exact List.append_nil _

theorem not_reported_of_concat (hnot : ¬Reported env (tr ++ [e]) reference) :
    ¬Reported env tr reference :=
  fun hold ↦ hnot (reported_concat.mpr (Or.inl hold))

theorem Reports.givenBy_eq_none {s : Db} {request : Api.Request} {inv : Invoice}
    (h : Reports env s request inv reference) : givenBy request = none := by
  obtain ⟨payload, signature, event, hreq, _⟩ := h
  rw [hreq]
  rfl

section Handled

variable {w w' : ℕ} (h : Kept env tr e.before w) (hok : e.outcome.isSome = true)
  (hC : Traceable env tr e) (hbelow : Audit.SeqBelow e.after.auditEvents w')
include h hok hC hbelow

/-- A report for a paid invoice was seen before, or is of a client's
reference. -/
theorem Kept.silent (hgiven : givenBy e.request.request = none)
    (hreports : ∀ inv reference, Reports env e.before e.request.request inv reference →
      inv.status = .paid) (href : references e.after = references e.before) :
    Kept env (tr ++ [e]) e.after w' := by
  refine ⟨hbelow, ?_, ?_, ?_⟩
  · intro reference hreported
    rw [href]
    rcases reported_concat.mp hreported with hold | ⟨_, inv, hnew⟩
    · exact h.reported reference hold
    · by_cases hold : Reported env tr reference
      · exact h.reported reference hold
      · rcases hC.first hok inv reference hnew hold with ⟨hunpaid, _⟩ | ⟨_, honce⟩
        · exact absurd (hreports inv reference hnew) hunpaid
        · exact h.once reference hold honce
  · intro reference hnot hgone
    rw [href]
    rw [givenIn_concat_none hgiven] at hgone
    exact h.absent reference (not_reported_of_concat hnot) hgone
  · intro reference hnot honce
    rw [href]
    rw [givenIn_concat_none hgiven] at honce
    exact h.once reference (not_reported_of_concat hnot) honce

theorem Kept.gave {given : Json} (hgiven : givenBy e.request.request = some given)
    (href : references e.after = references e.before ++ [given]) :
    Kept env (tr ++ [e]) e.after w' := by
  have hgivenIn : givenIn (tr ++ [e]) = givenIn tr ++ [given] := by
    rw [givenIn_concat, if_pos hok, hgiven, Option.toList_some]
  have hfresh := hC.given hok given hgiven
  refine ⟨hbelow, ?_, ?_, ?_⟩
  · intro reference hreported
    rcases reported_concat.mp hreported with hold | ⟨_, inv, hnew⟩
    · rw [href]
      refine (h.reported reference hold).concat ?_
      rintro rfl
      exact hfresh hold
    · exact absurd hnew (not_reports_of_given hgiven)
  · intro reference hnot hgone
    rw [hgivenIn, List.mem_append, List.mem_singleton, not_or] at hgone
    rw [href, List.mem_append, List.mem_singleton, not_or]
    exact ⟨h.absent reference (not_reported_of_concat hnot) hgone.1, hgone.2⟩
  · intro reference hnot honce
    have hold := not_reported_of_concat hnot
    rw [hgivenIn] at honce
    rw [href]
    rcases honce.of_concat with ⟨hne, honce⟩ | ⟨rfl, hgone⟩
    · exact (h.once reference hold honce).concat hne
    · exact .of_not_mem (h.absent reference hold hgone)

theorem Kept.told {inv : Invoice} {new : Json}
    (hreports : Reports env e.before e.request.request inv new) (hunpaid : inv.status ≠ .paid)
    (href : references e.after = references e.before ++ [new]) :
    Kept env (tr ++ [e]) e.after w' := by
  have hsame : givenIn (tr ++ [e]) = givenIn tr :=
    givenIn_concat_none hreports.givenBy_eq_none
  have hfresh : ¬Reported env tr new :=
    fun hold ↦ hunpaid (hC.again hok inv new hreports hold)
  have hgone : new ∉ givenIn tr := by
    rcases hC.first hok inv new hreports hfresh with ⟨_, hgone⟩ | ⟨hpaid, _⟩
    · exact hgone
    · exact absurd hpaid hunpaid
  have hnow : Reported env (tr ++ [e]) new :=
    reported_concat.mpr (Or.inr ⟨hok, inv, hreports⟩)
  have hne : ∀ reference, ¬Reported env (tr ++ [e]) reference → reference ≠ new := by
    rintro reference hnot rfl
    exact hnot hnow
  refine ⟨hbelow, ?_, ?_, ?_⟩
  · intro reference hreported
    rw [href]
    rcases reported_concat.mp hreported with hold | ⟨_, inv', hnew⟩
    · refine (h.reported reference hold).concat ?_
      rintro rfl
      exact hfresh hold
    · obtain ⟨_, rfl⟩ := hreports.unique hnew
      exact .of_not_mem (h.absent new hfresh hgone)
  · intro reference hnot hgone'
    rw [hsame] at hgone'
    rw [href, List.mem_append, List.mem_singleton, not_or]
    exact ⟨h.absent reference (not_reported_of_concat hnot) hgone', hne reference hnot⟩
  · intro reference hnot honce
    rw [hsame] at honce
    rw [href]
    exact (h.once reference (not_reported_of_concat hnot) honce).concat (hne reference hnot)

theorem Kept.recorded (hm : Recorded env e.request.request e.before e.after) :
    Kept env (tr ++ [e]) e.after w' := by
  cases hm with
  | none hgiven hreports href => exact h.silent hok hC hbelow hgiven hreports href
  | given hgiven href => exact h.gave hok hC hbelow hgiven href
  | reported hreports hunpaid href => exact h.told hok hC hbelow hreports hunpaid href

end Handled

theorem Kept.serves {w w' : ℕ} (h : Kept env tr e.before w) (hC : Traceable env tr e)
    (he : machine.Serves (Api.serve env) e w w') : Kept env (tr ++ [e]) e.after w' := by
  cases he with
  | ok hexec =>
      obtain ⟨⟨actor, heffect⟩, hbelow⟩ := Api.exec_serve hexec h.below
      exact h.recorded rfl hC hbelow (recorded_of_effect heffect)
  | failed hmoves => exact h.failed rfl rfl (moves_le hmoves)

/-- Every payment reference that was reported is on record exactly once. -/
theorem recorded_once_of_traceable {w₀ w : ℕ}
    (h : machine.Run (Api.serve env) Db.empty w₀ tr s w)
    (hC : Throughout (Traceable env) tr) :
    ∀ reference, Reported env tr reference → Once reference (references s) := by
  have hkept : Kept env tr s w := by
    refine Machine.Run.invariant_trace (I := Kept env) ?_
      (fun _ _ _ _ hk hC he ↦ hk.serves hC he) h hC
    refine ⟨Audit.seqBelow_empty w₀, ?_, ?_, ?_⟩
    · rintro reference ⟨e, he, _⟩
      cases he
    · intro reference _ _
      simp [references, Db.empty]
    · rintro reference _ ⟨l₁, l₂, hnil, _⟩
      simp [givenIn] at hnil
  exact hkept.reported

end Run

def oneSession : List Api.Request :=
  Development.firstInvoice ++ [Development.openCheckout,
    Development.webhook (Development.checkoutCompleted "pi_1")]

def twoSessions : List Api.Request :=
  Development.firstInvoice ++ [Development.openCheckout, Development.openCheckout,
    Development.webhook (Development.checkoutCompleted "pi_1"),
    Development.webhook (Development.checkoutCompleted "pi_2")]

def textOf : Json → String
  | .str t => t
  | _ => ""

theorem traceable_oneSession :
    Throughout (Traceable Development.env) (Development.run oneSession).1 := by
  have hcheck : ∀ e ∈ (Development.run oneSession).1,
      (givenBy e.request.request).isSome = false ∧
        ∀ inv ∈ e.before.invoices.rows, inv.status ≠ .paid := by
    decide +kernel
  have hone : ((Development.run oneSession).1.filter
      fun e ↦ (Development.bodyOf? e.request.request).isSome).length = 1 := by
    decide +kernel
  have hbody : ∀ (s : Db) request inv reference,
      Reports Development.env s request inv reference →
        (Development.bodyOf? request).isSome = true := by
    rintro s request inv reference ⟨payload, signature, event, rfl, _⟩
    rfl
  intro pre e post htr
  have hgiven : givenIn pre = [] := by
    refine List.filterMap_eq_nil_iff.mpr ?_
    intro e' he'
    have hnone := (hcheck e' (by simp [htr, he'])).1
    split
    · simpa using hnone
    · rfl
  refine ⟨?_, ?_, ?_⟩
  · rintro _ inv reference hreports ⟨e', he', _, inv', hreports'⟩
    -- there is only one webhook in this run
    rw [htr, List.filter_append, List.length_append] at hone
    have hpos : ∀ l : List (Served Api.Http Db Json), ∀ x ∈ l, ∀ inv reference,
        Reports Development.env x.before x.request.request inv reference →
          0 < (l.filter fun x ↦ (Development.bodyOf? x.request.request).isSome).length :=
      fun l x hx _ _ hx' ↦
        List.length_pos_of_mem (List.mem_filter.mpr ⟨hx, hbody _ _ _ _ hx'⟩)
    have hpre := hpos pre e' he' inv' reference hreports'
    have hpost := hpos (e :: post) e List.mem_cons_self inv reference hreports
    omega
  · rintro _ inv reference ⟨_, _, _, _, _, hcompletes⟩ _
    refine Or.inl ⟨?_, by simp [hgiven]⟩
    exact (hcheck e (by simp [htr])).2 inv (Table.mem_of_find? hcompletes.find?)
  · intro _ reference hsome
    have hnone := (hcheck e (by simp [htr])).1
    simp [hsome] at hnone

theorem recorded_once_of_traceable_oneSession :
    (references (Development.run oneSession).2.1).map textOf = ["pi_1"] ∧
      ∀ reference, Reported Development.env (Development.run oneSession).1 reference →
        Once reference (references (Development.run oneSession).2.1) :=
  ⟨by decide +kernel,
    recorded_once_of_traceable (Development.run_spec oneSession) traceable_oneSession⟩

/-- The development checkouts report their payment intent. -/
theorem completesCheckout_development {inv : Invoice}
    (h : s.invoices.find? Development.invoiceId = some inv) :
    Billing.CompletesCheckout s (Development.checkoutCompleted "pi_2") inv (.str "pi_2") := by
  refine ⟨rfl, _, rfl, ?_, rfl⟩
  refine bind_eq_ok.mpr ⟨.str Development.invoiceId, rfl, bind_eq_ok.mpr ⟨some inv, ?_, rfl⟩⟩
  exact congrArg Except.ok h

/-- The payment of the second session is reported, and recorded nowhere. -/
theorem second_payment_lost :
    ¬∀ tr s w, machine.Run (Api.serve Development.env) Db.empty 1 tr s w →
      ∀ reference, Reported Development.env tr reference → Once reference (references s) := by
  intro hclaim
  have hlast : (Development.run twoSessions).1.getLast?.map
      (fun e ↦ (Development.bodyOf? e.request.request, e.outcome.isSome,
        (e.before.invoices.find? Development.invoiceId).isSome)) =
      some (some (Development.bodyOf (Development.checkoutCompleted "pi_2")), true, true) := by
    decide +kernel
  have hreferences : (references (Development.run twoSessions).2.1).map textOf = ["pi_1"] := by
    decide +kernel
  obtain ⟨e, he, hfacts⟩ := Option.map_eq_some_iff.mp hlast
  simp only [Prod.mk.injEq] at hfacts
  obtain ⟨hbody, hok, hfound⟩ := hfacts
  obtain ⟨signature, hrequest⟩ := Development.bodyOf?_eq_some hbody
  obtain ⟨inv, hinv⟩ := Option.isSome_iff_exists.mp hfound
  have hreported : Reported Development.env (Development.run twoSessions).1 (.str "pi_2") :=
    ⟨e, List.mem_of_getLast? he, hok, inv, _, signature, _, hrequest,
      Development.parseWebhook_bodyOf (by simp [Development.events, Table.mem_def]) signature,
      completesCheckout_development hinv⟩
  have hmem := (hclaim _ _ _ (Development.run_spec twoSessions) _ hreported).mem
  have htext := List.mem_map_of_mem (f := textOf) hmem
  rw [hreferences] at htext
  simp [textOf] at htext

end PaymentEvidence

end HumanDataFactory
