import HumanDataFactory.Development
import HumanDataFactory.Evidence

/-!
# Prices

Only one rate card of a firm is active for each task type, the last one that
was created, and no card holds for all firms.  What the lookup finds is
therefore a function of the requests before the approval, and what it found
then stays in the usage event.
-/

namespace HumanDataFactory

open Transact

namespace Billing

variable {env : Env} {s s' : Db}

/-! ## The card in force -/

/-- The price of a card that the entry creates for this firm and task type. -/
def newPrice (firmId : String) (taskType : TaskType) (e : Served Api.Http Db Json) : Option ℤ :=
  match e.outcome, e.request.request with
  | some _, .createRateCard id body =>
      if id = firmId ∧ body.taskType = taskType then some body.unitPriceCents else none
  | _, _ => none

/-- The price of the last card created. -/
def lastPrice (tr : List (Served Api.Http Db Json)) (firmId : String) (taskType : TaskType) :
    Option ℤ :=
  (tr.filterMap (newPrice firmId taskType)).getLast?

variable (env) in
def priceInForce (tr : List (Served Api.Http Db Json)) (firmId : String) (taskType : TaskType) :
    ℤ :=
  (lastPrice tr firmId taskType).getD (env.defaultRatesCents taskType)

theorem lastPrice_concat (tr : List (Served Api.Http Db Json)) (e : Served Api.Http Db Json)
    (firmId : String) (taskType : TaskType) :
    lastPrice (tr ++ [e]) firmId taskType =
      (newPrice firmId taskType e).or (lastPrice tr firmId taskType) := by
  unfold lastPrice
  rw [List.filterMap_append]
  cases h : newPrice firmId taskType e <;> simp [h]

/-- The active cards are those last created, one for each firm and task type. -/
structure InForce (tr : List (Served Api.Http Db Json)) (s : Db) : Prop where
  own : ∀ firmId taskType, (rateCardsFor s (some firmId) taskType).map RateCard.unitPriceCents =
    (lastPrice tr firmId taskType).toList
  common : ∀ taskType, rateCardsFor s none taskType = []

theorem InForce.length_le {tr : List (Served Api.Http Db Json)} (h : InForce tr s)
    (firmId : String) (taskType : TaskType) :
    (rateCardsFor s (some firmId) taskType).length ≤ 1 := by
  have hlen := congrArg List.length (h.own firmId taskType)
  rw [List.length_map] at hlen
  rw [hlen]
  exact Option.length_toList_le

/-- The lookup finds the card in force, whatever the order of equal times. -/
theorem InForce.unitPriceCents_eq {tr : List (Served Api.Http Db Json)} (h : InForce tr s)
    (firmId : String) (taskType : TaskType) :
    unitPriceCents env s firmId taskType = priceInForce env tr firmId taskType := by
  have hown := h.own firmId taskType
  have hperm := env.orderBy_perm (fun c ↦ -c.createdAt) (rateCardsFor s (some firmId) taskType)
  have hnone : newestRate env s none taskType = none := by
    have hnil := env.orderBy_perm (fun c : RateCard ↦ -c.createdAt) []
    rw [newestRate, h.common, List.perm_nil.mp hnil]
    rfl
  unfold unitPriceCents priceInForce
  rw [hnone, newestRate]
  cases hprice : lastPrice tr firmId taskType with
  | none =>
      rw [hprice] at hown
      rw [List.map_eq_nil_iff.mp hown] at hperm ⊢
      rw [List.perm_nil.mp hperm]
      rfl
  | some price =>
      rw [hprice] at hown
      obtain ⟨card, hcards, rfl⟩ := List.map_eq_singleton_iff.mp hown
      rw [hcards] at hperm ⊢
      rw [List.perm_singleton.mp hperm]
      rfl

theorem rateCardsFor_congr (h : s'.rateCards = s.rateCards) (scope : Option String)
    (taskType : TaskType) : rateCardsFor s' scope taskType = rateCardsFor s scope taskType := by
  unfold rateCardsFor
  rw [h]

theorem mem_rateCardsFor {scope : Option String} {taskType : TaskType} {c : RateCard} :
    c ∈ rateCardsFor s scope taskType ↔
      c ∈ s.rateCards ∧ c.firmId = scope ∧ c.taskType = taskType ∧ c.active = true := by
  simp [rateCardsFor, Table.mem_def]

/-- Retired are exactly the cards that were found. -/
theorem retire_of_mem {scope : Option String} {taskType : TaskType} {c : RateCard}
    (hc : c ∈ s.rateCards) : Api.retire (rateCardsFor s scope taskType) c =
      if c ∈ rateCardsFor s scope taskType then { c with active := false } else c := by
  unfold Api.retire
  refine if_congr ?_ rfl rfl
  constructor
  · intro hid
    obtain ⟨old, hold, heq⟩ := List.mem_map.mp hid
    obtain rfl := Table.eq_of_key (mem_rateCardsFor.mp hold).1 hc heq
    exact hold
  · exact List.mem_map_of_mem

section Created

variable {scope scope' : Option String} {taskType taskType' : TaskType}

/-- Cards of other scopes and task types are not retired. -/
theorem retire_of_other (hother : ¬(scope' = scope ∧ taskType' = taskType)) {c : RateCard}
    (hc : c ∈ rateCardsFor s scope' taskType') :
    Api.retire (rateCardsFor s scope taskType) c = c := by
  obtain ⟨hmem, rfl, rfl, _⟩ := mem_rateCardsFor.mp hc
  rw [retire_of_mem hmem]
  refine if_neg fun hfound ↦ ?_
  obtain ⟨_, hfirm, htask, _⟩ := mem_rateCardsFor.mp hfound
  exact hother ⟨hfirm, htask⟩

theorem mem_rateCardsFor_retired {c : RateCard} (hc : c ∈ s.rateCards) :
    (Api.retire (rateCardsFor s scope taskType) c).firmId = scope' ∧
        (Api.retire (rateCardsFor s scope taskType) c).taskType = taskType' ∧
        (Api.retire (rateCardsFor s scope taskType) c).active = true ↔
      c ∈ rateCardsFor s scope' taskType' ∧ ¬(scope' = scope ∧ taskType' = taskType) := by
  by_cases hfound : c ∈ rateCardsFor s scope taskType
  · rw [(retire_of_mem hc).trans (if_pos hfound), mem_rateCardsFor]
    obtain ⟨_, rfl, rfl, _⟩ := mem_rateCardsFor.mp hfound
    grind
  · rw [(retire_of_mem hc).trans (if_neg hfound), mem_rateCardsFor]
    rw [mem_rateCardsFor] at hfound
    grind

/-- What is active after a card was created. -/
theorem rateCardsFor_created {card : RateCard} (hscope : card.firmId = scope)
    (htype : card.taskType = taskType) (hactive : card.active = true)
    (hvac : s.rateCards.Vacant card.id)
    (hcards : s'.rateCards = (s.rateCards.mapRows
      (Api.retire (rateCardsFor s scope taskType)) (Api.retire_id _)).push card) :
    rateCardsFor s' scope' taskType' =
      if scope' = scope ∧ taskType' = taskType then [card]
      else rateCardsFor s scope' taskType' := by
  have hrows : s'.rateCards.rows =
      s.rateCards.rows.map (Api.retire (rateCardsFor s scope taskType)) ++ [card] := by
    rw [hcards, Table.rows_push (Table.vacant_mapRows.mpr hvac), Table.rows_mapRows]
  subst hscope htype
  by_cases hsame : scope' = card.firmId ∧ taskType' = card.taskType
  · rw [if_pos hsame, rateCardsFor, hrows, List.filter_append]
    have hnone : (s.rateCards.rows.map
        (Api.retire (rateCardsFor s card.firmId card.taskType))).filter (fun c ↦
          c.firmId = scope' ∧ c.taskType = taskType' ∧ c.active = true) = [] := by
      rw [List.filter_eq_nil_iff]
      intro c' hc'
      obtain ⟨c, hc, rfl⟩ := List.mem_map.mp hc'
      rw [decide_eq_true_eq, mem_rateCardsFor_retired hc]
      exact fun h ↦ h.2 hsame
    rw [hnone, List.nil_append, List.filter_singleton, hsame.1, hsame.2, hactive]
    simp
  · have hcard : ¬(card.firmId = scope' ∧ card.taskType = taskType' ∧ card.active = true) :=
      fun h ↦ hsame ⟨h.1.symm, h.2.1.symm⟩
    have hkept : s.rateCards.rows.filter ((fun c : RateCard ↦ decide (c.firmId = scope' ∧
        c.taskType = taskType' ∧ c.active = true)) ∘
          Api.retire (rateCardsFor s card.firmId card.taskType)) =
        rateCardsFor s scope' taskType' := by
      refine List.filter_congr fun c hc ↦ decide_eq_decide.mpr ?_
      rw [mem_rateCardsFor_retired hc, mem_rateCardsFor]
      simp only [hsame, not_false_eq_true, and_true]
      exact and_iff_right hc
    rw [if_neg hsame, rateCardsFor, hrows, List.filter_append, List.filter_map, hkept,
      List.filter_singleton, decide_eq_false hcard]
    rw [cond_false, List.append_nil]
    conv_rhs => rw [← List.map_id (rateCardsFor s scope' taskType')]
    exact List.map_congr_left fun c hc ↦ retire_of_other hsame hc

end Created

theorem rateCards_of_effect {actor : Auth.Actor} {request : Api.Request}
    (h : Api.Effect env actor s request s')
    (hother : ∀ firmId body, request ≠ .createRateCard firmId body) :
    s'.rateCards = s.rateCards := by
  cases h with
  | createRateCard _ _ _ => exact absurd rfl (hother _ _)
  | createSubmission _ _ h => exact (Engine.setting_of_submitted h).rateCards
  | postHumanReview _ _ h => exact (Engine.setting_of_reviewed h).rateCards
  | generateInvoice _ h =>
      cases h
      rfl
  | createInvoiceCheckout _ _ h =>
      cases h
      rfl
  | recordExternalPayment _ h =>
      cases h
      rfl
  | stripeWebhook _ _ h => cases h <;> rfl
  | _ => rfl

variable {tr : List (Served Api.Http Db Json)} {e : Served Api.Http Db Json} {w₀ w w' : ℕ}

theorem InForce.same (h : InForce tr s) (hcards : s'.rateCards = s.rateCards)
    (hnone : ∀ firmId taskType, newPrice firmId taskType e = none) : InForce (tr ++ [e]) s' := by
  refine ⟨fun firmId taskType ↦ ?_, fun taskType ↦ ?_⟩
  · rw [rateCardsFor_congr hcards, h.own, lastPrice_concat, hnone, Option.none_or]
  · rw [rateCardsFor_congr hcards, h.common]

theorem InForce.created (h : InForce tr s) (card : RateCard) {firmId : String}
    (hscope : card.firmId = some firmId) (hactive : card.active = true)
    (hvac : s.rateCards.Vacant card.id)
    (hcards : s'.rateCards = (s.rateCards.mapRows
      (Api.retire (rateCardsFor s (some firmId) card.taskType)) (Api.retire_id _)).push card)
    (hnew : ∀ id taskType, newPrice id taskType e =
      if firmId = id ∧ card.taskType = taskType then some card.unitPriceCents else none) :
    InForce (tr ++ [e]) s' := by
  constructor
  · intro id taskType
    rw [rateCardsFor_created hscope rfl hactive hvac hcards, lastPrice_concat, hnew]
    by_cases hsame : firmId = id ∧ card.taskType = taskType
    · obtain ⟨rfl, rfl⟩ := hsame
      simp
    · have hother : ¬(some id = some firmId ∧ taskType = card.taskType) :=
        fun h ↦ hsame ⟨(Option.some.inj h.1).symm, h.2.symm⟩
      rw [if_neg hother, if_neg hsame, Option.none_or, h.own]
  · intro taskType
    rw [rateCardsFor_created hscope rfl hactive hvac hcards, if_neg (by simp), h.common]

theorem InForce.serves (h : InForce tr e.before) (he : machine.Serves (Api.serve env) e w w')
    (hseq : Audit.SeqBelow e.before.auditEvents w) : InForce (tr ++ [e]) e.after := by
  cases he with
  | failed _ => exact h.same rfl fun _ _ ↦ rfl
  | @ok r s a s' w w' hexec =>
      obtain ⟨⟨actor, heffect⟩, _⟩ := Api.exec_serve hexec hseq
      obtain ⟨authorization, xActorId, request⟩ := r
      by_cases hcard : ∃ firmId body, request = .createRateCard firmId body
      · obtain ⟨firmId, body, rfl⟩ := hcard
        cases heffect with
        | @createRateCard _ _ firm id now _ hfirm hid _ =>
            obtain rfl := Table.key_of_find? hfirm
            exact h.created ⟨id, some firm.id, body.taskType, body.unitPriceCents, true, now⟩
              rfl rfl hid rfl fun _ _ ↦ rfl
      · have hother : ∀ firmId body, request ≠ .createRateCard firmId body :=
          fun firmId body heq ↦ hcard ⟨firmId, body, heq⟩
        refine h.same (rateCards_of_effect heffect hother) fun firmId taskType ↦ ?_
        cases request <;> first | rfl | exact absurd rfl (hother _ _)

theorem inForce_of_run (h : machine.Run (Api.serve env) Db.empty w₀ tr s w) : InForce tr s := by
  induction h with
  | nil => exact ⟨fun _ _ ↦ rfl, fun _ ↦ rfl⟩
  | @snoc tr s w e w' h hb he ih =>
      subst hb
      exact ih.serves he (Api.below_of_run (Audit.seqBelow_empty w₀) h)

/-! ## Metered events -/

/-- What serving a request does to the usage events. -/
inductive Usage (env : Env) (s s' : Db) : Prop
  | kept (hevents : s'.usageEvents = s.usageEvents)
  | invoiced {invoiceId : String} {events : List UsageEvent}
      (hevents : s'.usageEvents =
        s.usageEvents.mapRows (attach invoiceId events) (attach_id invoiceId events))
  | metered {project : Project} {task : Task} {sub : Submission} {firm : Firm} {id : String}
      {now : Time} (hproject : project ∈ s.projects) (hfirm : firm.id = project.firmId)
      (hvac : s.usageEvents.Vacant id)
      (hevents : s'.usageEvents = s.usageEvents.push (newUsageEvent project task sub firm
        (unitPriceCents env s firm.id project.taskType) id now))
      (happroved : ∃ sub' ∈ s'.submissions, sub'.id = sub.id ∧ sub'.status = .approved)
      (hbefore : ∀ sub' ∈ s.submissions, sub'.id = sub.id → sub'.status ≠ .approved)

theorem usage_of_metered {project : Project} {task : Task} {sub : Submission} {s₁ s₂ : Db}
    (h : Metered env project task sub s₁ s₂) (hproject : project ∈ s.projects)
    (hcards : s₁.rateCards = s.rateCards) (hevents : s₁.usageEvents = s.usageEvents)
    (hsubs : s'.submissions = s₂.submissions) (hevents' : s'.usageEvents = s₂.usageEvents)
    (happroved : ∃ sub' ∈ s₁.submissions, sub'.id = sub.id ∧ sub'.status = .approved)
    (hbefore : ∀ sub' ∈ s.submissions, sub'.id = sub.id → sub'.status ≠ .approved) :
    Usage env s s' := by
  cases h with
  | skipped _ => exact .kept (hevents'.trans hevents)
  | @metered _ _ firm hfirm ev hev hvac _ _ =>
      obtain ⟨id, now, rfl⟩ := hev
      have hprice : unitPriceCents env s₁ firm.id project.taskType =
          unitPriceCents env s firm.id project.taskType := by
        simp only [unitPriceCents, newestRate, rateCardsFor_congr hcards]
      have hpush : s'.usageEvents = s.usageEvents.push (newUsageEvent project task sub firm
          (unitPriceCents env s firm.id project.taskType) id now) := by
        rw [← hprice, ← hevents]
        exact hevents'
      rw [hevents] at hvac
      exact .metered hproject (Table.key_of_find? hfirm) hvac hpush (hsubs ▸ happroved) hbefore

theorem usage_of_submitted {task : Task} {expert : Expert} {content : Json}
    (h : Engine.Submitted env task expert content s s') : Usage env s s' := by
  obtain ⟨hproject, hqualified, hheld, hassigned, ⟨id, now, rfl⟩, hid, haud, hprocess⟩ := h
  cases hprocess with
  | autoCheckFailed _ _ _ => exact .kept rfl
  | goldChecked _ _ _ _ _ _ => exact .kept rfl
  | heldBack _ _ _ _ _ _ _ => exact .kept rfl
  | autoApproved _ _ _ _ _ hmeter _ =>
      exact usage_of_metered hmeter (Table.mem_of_find? hproject) rfl rfl rfl rfl
        ⟨_, (Table.mem_push (by exact hid)).mpr (Or.inr rfl), rfl, rfl⟩
        fun sub hsub heq _ ↦ hid sub hsub heq

theorem usage_of_reviewed {sub : Submission} {reviewer : Expert} {verdict : Verdict}
    (h : Engine.Reviewed env sub reviewer verdict s s')
    (hsub : s.submissions.find? sub.id = some sub) : Usage env s s' := by
  obtain ⟨hstatus, hother, hrole, hqualified, hid, hdecided, haud⟩ := h
  have hmem := Table.mem_of_find? hsub
  cases hdecided with
  | pass _ hproject _ hmeter =>
      refine usage_of_metered hmeter (Table.mem_of_find? hproject) rfl rfl rfl rfl
        ⟨_, Table.mem_replace_self hmem rfl, rfl, rfl⟩ fun sub' hsub' heq happroved ↦ ?_
      obtain rfl := Table.eq_of_key hsub' hmem heq
      rw [hstatus] at happroved
      cases happroved
  | revise => exact .kept rfl
  | fail _ => exact .kept rfl

theorem usage_of_effect {actor : Auth.Actor} {request : Api.Request}
    (h : Api.Effect env actor s request s') : Usage env s s' := by
  cases h with
  | createSubmission _ _ h => exact usage_of_submitted h
  | postHumanReview hsub _ h => exact usage_of_reviewed h (Table.find?_key hsub)
  | generateInvoice _ h =>
      cases h
      exact .invoiced rfl
  | createInvoiceCheckout _ _ h =>
      cases h
      exact .kept rfl
  | recordExternalPayment _ h =>
      cases h
      exact .kept rfl
  | stripeWebhook _ _ h => cases h <;> exact .kept rfl
  | _ => exact .kept rfl

/-- Of an event on record only the invoice it is on ever changes. -/
def EventsStay (s s' : Db) : Prop :=
  ∀ ev ∈ s.usageEvents, ∃ invoiceId, { ev with invoiceId := invoiceId } ∈ s'.usageEvents

theorem EventsStay.refl (s : Db) : EventsStay s s :=
  fun ev hev ↦ ⟨ev.invoiceId, hev⟩

theorem EventsStay.trans {s₁ s₂ s₃ : Db} (h : EventsStay s₁ s₂) (h' : EventsStay s₂ s₃) :
    EventsStay s₁ s₃ := by
  intro ev hev
  obtain ⟨invoiceId, hmem⟩ := h ev hev
  obtain ⟨invoiceId', hmem'⟩ := h' _ hmem
  exact ⟨invoiceId', hmem'⟩

theorem attach_eq_with (invoiceId : String) (events : List UsageEvent) (ev : UsageEvent) :
    ∃ v, attach invoiceId events ev = { ev with invoiceId := v } := by
  unfold attach
  split
  · exact ⟨_, rfl⟩
  · exact ⟨ev.invoiceId, rfl⟩

theorem Usage.eventsStay (h : Usage env s s') : EventsStay s s' := by
  intro ev hev
  cases h with
  | kept hevents =>
      rw [hevents]
      exact ⟨ev.invoiceId, hev⟩
  | @invoiced invoiceId events hevents =>
      obtain ⟨v, hattach⟩ := attach_eq_with invoiceId events ev
      rw [hevents]
      exact ⟨v, Table.mem_mapRows.mpr ⟨ev, hev, hattach⟩⟩
  | metered _ _ hvac hevents _ _ =>
      rw [hevents]
      exact ⟨ev.invoiceId, (Table.mem_push (by exact hvac)).mpr (Or.inl hev)⟩

/-! ## The price of an event -/

/-- The entry `e`, after the entries `pre`, approved the submission of `ev` and
metered it at the price in force. -/
structure MeteredAt (env : Env) (pre : List (Served Api.Http Db Json))
    (e : Served Api.Http Db Json) (ev : UsageEvent) : Prop where
  new : e.before.usageEvents.Vacant ev.id
  approval : ∃ sub ∈ e.after.submissions, sub.id = ev.submissionId ∧ sub.status = .approved
  unapproved : ∀ sub ∈ e.before.submissions, sub.id = ev.submissionId → sub.status ≠ .approved
  price : ∃ project ∈ e.before.projects, project.id = ev.projectId ∧
    project.firmId = ev.firmId ∧
    ev.unitPriceCents = priceInForce env pre ev.firmId project.taskType

theorem MeteredAt.attach {pre : List (Served Api.Http Db Json)} {ev : UsageEvent}
    (h : MeteredAt env pre e ev) (invoiceId : Option String) :
    MeteredAt env pre e { ev with invoiceId := invoiceId } :=
  ⟨h.new, h.approval, h.unapproved, h.price⟩

theorem usage_of_serves (he : machine.Serves (Api.serve env) e w w')
    (hseq : Audit.SeqBelow e.before.auditEvents w) : Usage env e.before e.after := by
  cases he with
  | failed _ => exact .kept rfl
  | ok hexec =>
      obtain ⟨⟨actor, heffect⟩, _⟩ := Api.exec_serve hexec hseq
      exact usage_of_effect heffect

theorem metered_of_usage (h : Usage env e.before e.after) (hcards : InForce tr e.before)
    {ev : UsageEvent} (hev : ev ∈ e.after.usageEvents) :
    (∃ ev₀ ∈ e.before.usageEvents, ∃ invoiceId, ev = { ev₀ with invoiceId := invoiceId }) ∨
      MeteredAt env tr e ev := by
  cases h with
  | kept hevents => exact Or.inl ⟨ev, hevents ▸ hev, ev.invoiceId, rfl⟩
  | @invoiced invoiceId events hevents =>
      rw [hevents] at hev
      obtain ⟨ev₀, hev₀, rfl⟩ := Table.mem_mapRows.mp hev
      obtain ⟨v, hattach⟩ := attach_eq_with invoiceId events ev₀
      exact Or.inl ⟨ev₀, hev₀, v, hattach⟩
  | metered hproject hfirm hvac hevents happroved hbefore =>
      rw [hevents] at hev
      rcases (Table.mem_push (by exact hvac)).mp hev with hold | rfl
      · exact Or.inl ⟨ev, hold, ev.invoiceId, rfl⟩
      · exact Or.inr ⟨hvac, happroved, hbefore, _, hproject, rfl, hfirm.symm,
          hcards.unitPriceCents_eq _ _⟩

theorem metered_of_run (h : machine.Run (Api.serve env) Db.empty w₀ tr s w) :
    ∀ ev ∈ s.usageEvents, ∃ pre e post, tr = pre ++ e :: post ∧ MeteredAt env pre e ev := by
  induction h with
  | nil => simp [Db.empty]
  | @snoc tr s w e w' h hb he ih =>
      subst hb
      intro ev hev
      have husage := usage_of_serves he (Api.below_of_run (Audit.seqBelow_empty w₀) h)
      rcases metered_of_usage husage (inForce_of_run h) hev with ⟨ev₀, hev₀, v, rfl⟩ | hmetered
      · obtain ⟨pre, e', post, rfl, hmetered⟩ := ih ev₀ hev₀
        exact ⟨pre, e', post ++ [e], by simp, hmetered.attach v⟩
      · exact ⟨tr, e, [], rfl, hmetered⟩

theorem stay_of_mem (h : machine.Run (Api.serve env) Db.empty w₀ tr s w) (he : e ∈ tr) :
    EventsStay e.before e.after := by
  rcases Api.effect_of_mem (Audit.seqBelow_empty w₀) h he with ⟨actor, heffect⟩ | ⟨_, hsame⟩
  · exact (usage_of_effect heffect).eventsStay
  · rw [hsame]
    exact .refl _

theorem events_of_createRateCard {actor : Auth.Actor} {firmId : String} {body : Api.RateCardIn}
    (h : Api.Effect env actor s (.createRateCard firmId body) s') :
    s'.usageEvents = s.usageEvents := by
  cases h
  rfl

/-- What the prices of a run rest on. -/
structure Priced (env : Env) (tr : List (Served Api.Http Db Json)) (s : Db) : Prop where
  events : ∀ ev ∈ s.usageEvents, ∃ pre e post, tr = pre ++ e :: post ∧ MeteredAt env pre e ev
  single : ∀ firmId taskType, (rateCardsFor s (some firmId) taskType).length ≤ 1
  stay : ∀ e ∈ tr, EventsStay e.before s
  untouched : ∀ e ∈ tr, ∀ firmId body, e.request.request = .createRateCard firmId body →
    e.after.usageEvents = e.before.usageEvents

/-- Every event has the price of the last card created before its approval, one
card is active, and no later card reaches an event. -/
theorem pricing_of_run (h : machine.Run (Api.serve env) Db.empty w₀ tr s w) :
    Priced env tr s := by
  refine ⟨metered_of_run h, (inForce_of_run h).length_le, ?_, ?_⟩
  · intro e he
    obtain ⟨pre, post, rfl⟩ := List.append_of_mem he
    exact Machine.Run.relates_from EventsStay.refl (fun _ _ _ ↦ EventsStay.trans) h
      fun e' he' ↦ stay_of_mem h (List.mem_append_right _ he')
  · intro e he firmId body hrequest
    rcases Api.effect_of_mem (Audit.seqBelow_empty w₀) h he with ⟨actor, heffect⟩ | ⟨_, hsame⟩
    · rw [hrequest] at heffect
      exact events_of_createRateCard heffect
    · rw [hsame]

/-- A card before the approval and a dearer one after it. -/
def repriced : List Api.Request :=
  Development.firstSubmission ++
    [.createRateCard Development.firmId ⟨.sft, 2500, by decide⟩, Development.review .pass,
      .createRateCard Development.firmId ⟨.sft, 9900, by decide⟩]

theorem pricing_of_repriced :
    (Development.run repriced).2.1.usageEvents.rows.map UsageEvent.unitPriceCents = [2500] ∧
      Priced Development.env (Development.run repriced).1 (Development.run repriced).2.1 :=
  ⟨by decide +kernel, pricing_of_run (Development.run_spec _)⟩

end Billing

end HumanDataFactory
