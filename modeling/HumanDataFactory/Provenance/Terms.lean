import HumanDataFactory.Provenance.Grounds

/-!
# The terms of the API's transactions

Before a write is made its grounds must be known, and whatever is created,
released, paid or revoked has to be recorded before the transaction commits.
-/

namespace HumanDataFactory

open Transact

namespace Provenance

variable (env : Env)

inductive Deed
  | created (entityType id : String)
  | released (batchId : String)
  | paid (invoiceId : String)
  | revoked (userId : String)

/-- What the row tells of. -/
def deedsOf : Row → Set Deed
  | .firm a => {.created "firm" a.id}
  | .user a => {d | d = .created "user" a.id ∨ a.active = false ∧ d = .revoked a.id}
  | .expert a => {.created "expert" a.id}
  | .project a => {.created "project" a.id}
  | .task a => {.created "task" a.id}
  | .submission a => {.created "submission" a.id}
  | .rateCard a => {.created "rate_card" a.id}
  | .usageEvent a => {.created "usage_event" a.id}
  | .invoice a => {d | d = .created "invoice" a.id ∨ a.status = .paid ∧ d = .paid a.id}
  | .exportBatch a =>
      {d | d = .created "export_batch" a.id ∨ a.status = .released ∧ d = .released a.id}
  | _ => ∅

/-- The actions that record a creation. -/
def CREATIONS : List String :=
  ["user.bootstrapped", "user.created", "firm.created", "rate_card.created", "expert.created",
    "project.created", "task.created", "submission.created", "usage.recorded", "invoice.issued",
    "export.requested"]

/-- The event is the record of the deed. -/
def Shows (ev : AuditEvent) : Deed → Prop
  | .created entityType id =>
      ev.action ∈ CREATIONS ∧ ev.entityType = entityType ∧ ev.entityId = id
  | .released id => ev.action = "export.released" ∧ ev.entityId = id
  | .paid id =>
      ev.action ∈ ["invoice.paid", "invoice.external_payment_recorded"] ∧ ev.entityId = id
  | .revoked id => ev.action = "user.revoked" ∧ ev.entityId = id

/-- What a write leaves to be recorded. -/
def owes : Write → Set Deed
  | .deactivateUser id => {.revoked id}
  | .setInvoiceStatus id v => {d | v = .paid ∧ d = .paid id}
  | .releaseBatch id .. => {.released id}
  | u => {d | ∃ y, u.adds = some y ∧ d ∈ deedsOf y}

def next : Write → Set Deed → Set Deed
  | .insertAuditEvent ev, owed => {d ∈ owed | ¬Shows ev d}
  | u, owed => owed ∪ owes u

/-- Everything the rows tell of is in the trail, except for what is owed. -/
def Covered (owed : Set Deed) (s : Db) : Prop :=
  ∀ x d, s.Has x → d ∈ deedsOf x → d ∈ owed ∨ ∃ ev ∈ s.auditEvents, Shows ev d

theorem deedsOf_touch {u : Write} {x : Row} {d : Deed} (h : d ∈ deedsOf (u.touch x)) :
    d ∈ deedsOf x ∨ d ∈ owes u := by
  cases u <;> cases x <;> try exact Or.inl h
  all_goals
    simp only [Write.touch] at h
    split at h <;> try exact Or.inl h
  case deactivateUser.user.isTrue id a hid =>
    rcases h with rfl | ⟨_, rfl⟩
    · exact Or.inl (Or.inl rfl)
    · exact Or.inr (congrArg Deed.revoked hid)
  case setInvoiceStatus.invoice.isTrue id v a hid =>
    rcases h with rfl | ⟨hpaid, rfl⟩
    · exact Or.inl (Or.inl rfl)
    · exact Or.inr ⟨hpaid, congrArg Deed.paid hid⟩
  case releaseBatch.exportBatch.isTrue id a hid =>
    rcases h with rfl | ⟨_, rfl⟩
    · exact Or.inl (Or.inl rfl)
    · exact Or.inr (congrArg Deed.released hid)

theorem deedsOf_adds {u : Write} {y : Row} {d : Deed} (hy : u.adds = some y) (h : d ∈ deedsOf y) :
    d ∈ owes u := by
  cases u <;> first
    | exact ⟨y, hy, h⟩
    | cases hy

theorem Covered.next {owed : Set Deed} {u : Write} {s s' : Db} (h : Covered owed s)
    (happ : Db.apply u s = some s') : Covered (next u owed) s' := by
  intro y d hy hd
  have hkeep : ∀ ev ∈ s.auditEvents, ev ∈ s'.auditEvents :=
    fun ev hev ↦ (Db.Grows.of_apply happ).auditEvent hev
  have hold : d ∈ owed ∪ owes u ∨ ∃ ev ∈ s.auditEvents, Shows ev d := by
    rcases Db.has_cases happ hy with ⟨x, hx, rfl⟩ | hadds
    · rcases deedsOf_touch hd with hd | hd
      · exact (h x d hx hd).imp_left Or.inl
      · exact Or.inl (Or.inr hd)
    · exact Or.inl (Or.inr (deedsOf_adds hadds hd))
  rcases hold with hd | ⟨ev, hev, hshows⟩
  · by_cases hrec : ∃ ev, u = .insertAuditEvent ev
    · obtain ⟨ev, rfl⟩ := hrec
      have hd : d ∈ owed := by
        refine hd.resolve_right ?_
        rintro ⟨y, hy, hd⟩
        cases hy
        exact hd
      by_cases hshows : Shows ev d
      · exact Or.inr ⟨ev, Db.has_adds (y := .auditEvent ev) happ rfl, hshows⟩
      · exact Or.inl ⟨hd, hshows⟩
    · refine Or.inl ?_
      cases u <;> first
        | exact hd
        | exact absurd ⟨_, rfl⟩ hrec
  · exact Or.inr ⟨ev, hkeep ev hev, hshows⟩

/-- The grounds of a write in the database it is made over. -/
def Due (holds : Auth.Actor → Db → Prop) (s : Db) : Write → Prop
  | .insertUser a => Linked s a ∧ a.active = true
  | .insertApiKey a => ∃ u ∈ s.users, u.id = a.userId
  | .insertExpert a => a.status = .pending
  | .setExpertStatus id v => v ≠ .pending → ∃ track, Qualified s id track
  | .insertQualification a => ExamGrounds s a
  | .insertProject a => ProjectGrounds env s a
  | .insertTask a => TaskGrounds s a
  | .setAssignedTo id v => ∀ e, v = some e → HasExpert s e ∧ EntitledTo s e id
  | .setTaskStatus id v => v = .completed → Finished s id
  | .insertSubmission a => SubmissionGrounds s a
  | .setSubmissionStatus id v => ∃ taskId expertId,
      SubmissionOf s id taskId expertId ∧ Cleared s id taskId v
  | .insertReview a => ReviewGrounds s a
  | .insertAuditEvent a => Signed holds s a
  | .insertRateCard a => RateGrounds s a
  | .insertUsageEvent a => UsageGrounds env s a
  | .setInvoiceId id v => ∀ i, v = some i → ∃ ev ∈ s.usageEvents, ev.id = id ∧
      ∃ inv ∈ s.invoices, inv.id = i ∧ inv.firmId = ev.firmId
  | .insertInvoice a => InvoiceGrounds env s a ∧ a.status = .draft
  | .setStripeInvoice id .. => InvoiceIs s id .stripe
  | .setInvoiceStatus id v => (v = .issuedExternal → InvoiceIs s id .external) ∧
      (v = .open → InvoiceIs s id .stripe)
  | .setExternalPaidReference id _ => InvoiceIs s id .external
  | .insertExportBatch a => BatchGrounds env s a ∧ a.status = .pendingApproval
  | .releaseBatch id approvedBy _ _ => ∃ b ∈ s.exportBatches, b.id = id ∧ ∃ approver,
      approvedBy = some approver ∧ approver ≠ b.requestedBy ∧
        By (Known env) s Api.internal approver
  | _ => True

theorem Due.mono {holds : Auth.Actor → Db → Prop} {s t : Db} {u : Write} (h : s.Grows t)
    (hmono : ∀ actor, holds actor s → holds actor t) (hs : Due env holds s u) :
    Due env holds t u := by
  cases u with
  | insertUser a => exact ⟨hs.1.mono h, hs.2⟩
  | insertApiKey a =>
      obtain ⟨user, hu, hid⟩ := hs
      obtain ⟨_, hb, _⟩ := h.user hu
      exact ⟨_, hb, hid⟩
  | insertExpert a => exact hs
  | setExpertStatus id v =>
      intro hv
      obtain ⟨track, hq⟩ := hs hv
      exact ⟨track, hq.mono h⟩
  | insertQualification a => exact ExamGrounds.mono h hs
  | insertProject a => exact ProjectGrounds.mono h hs
  | insertTask a => exact TaskGrounds.mono h hs
  | setAssignedTo id v => exact fun e he ↦ ⟨(hs e he).1.mono h, (hs e he).2.mono h⟩
  | setTaskStatus id v => exact fun hv ↦ (hs hv).mono h
  | insertSubmission a => exact SubmissionGrounds.mono h hs
  | setSubmissionStatus id v =>
      obtain ⟨taskId, expertId, hof, hclear⟩ := hs
      exact ⟨taskId, expertId, hof.mono h, hclear.mono h⟩
  | insertReview a => exact ReviewGrounds.mono h hs
  | insertAuditEvent a => exact Signed.mono h hmono hs
  | insertRateCard a => exact RateGrounds.mono h hs
  | insertUsageEvent a => exact UsageGrounds.mono h hs
  | setInvoiceId id v =>
      intro i hi
      obtain ⟨ev, hev, hid, inv, hinv, hinvid, hfirm⟩ := hs i hi
      obtain ⟨_, hev'⟩ := h.usageEvent hev
      obtain ⟨b, hb, hbid, hbfirm, _⟩ := h.invoice hinv
      exact ⟨_, hev', hid, b, hb, hbid.trans hinvid, hbfirm.trans hfirm⟩
  | insertInvoice a => exact ⟨hs.1.mono h, hs.2⟩
  | setStripeInvoice id stripeId url => exact InvoiceIs.mono h hs
  | setInvoiceStatus id v =>
      exact ⟨fun hv ↦ (hs.1 hv).mono h, fun hv ↦ (hs.2 hv).mono h⟩
  | setExternalPaidReference id v => exact InvoiceIs.mono h hs
  | insertExportBatch a => exact ⟨hs.1.mono h, hs.2⟩
  | releaseBatch id approvedBy path manifest =>
      obtain ⟨b, hb, hid, approver, happ, hne, hby⟩ := hs
      obtain ⟨b', hb', hbid, _, hreq, _⟩ := h.exportBatch hb
      exact ⟨b', hb', hbid.trans hid, approver, happ, by rwa [hreq],
        hby.imp fun _ ↦ Known.mono h⟩
  | _ => trivial

variable {env} {holds : Auth.Actor → Db → Prop} {u : Write} {s s' : Db}

theorem mode_eq {a : Invoice} {mode : BillingMode} (ha : a ∈ s.invoices)
    (h : InvoiceIs s a.id mode) : a.mode = mode := by
  obtain ⟨b, hb, hid, rfl⟩ := h
  rw [Table.eq_of_key ha hb hid.symm]

theorem Cleared.of_submissionOf {a : Submission} (ha : a ∈ s.submissions) {taskId expertId : String}
    {status : SubmissionStatus} (hof : SubmissionOf s a.id taskId expertId)
    (h : Cleared s a.id taskId status) : Cleared s a.id a.taskId status := by
  obtain ⟨b, hb, hid, rfl, _⟩ := hof
  obtain rfl := Table.eq_of_key ha hb hid.symm
  exact h

/-- A row that was touched rests on what it rested on and on the grounds of the
write. -/
theorem Grounded.touch {x : Row} (hx : s.Has x) (hg : Grounded env s x) (hdue : Due env holds s u) :
    Grounded env s (u.touch x) := by
  cases u <;> cases x <;> try exact hg
  all_goals
    simp only [Write.touch]
    split <;> try exact hg
  case deactivateUser.user.isTrue => exact ⟨hg.firm, hg.expert, hg.client, hg.linked⟩
  case setExpertStatus.expert.isTrue id v a hid =>
    subst hid
    exact hdue
  case setAssignedTo.task.isTrue id v a hid =>
    subst hid
    exact ⟨hg.project, hg.gold, hdue, hg.finished⟩
  case setTaskStatus.task.isTrue id v a hid =>
    subst hid
    exact ⟨hg.project, hg.gold, hg.assigned, hdue⟩
  case setSubmissionStatus.submission.isTrue id v a hid =>
    subst hid
    obtain ⟨taskId, expertId, hof, hclear⟩ := hdue
    exact ⟨hg.expert, hg.entitled, hg.version, hclear.of_submissionOf hx hof⟩
  case setSampledForHumanReview.submission.isTrue =>
    exact ⟨hg.expert, hg.entitled, hg.version, hg.cleared⟩
  case deactivateRateCard.rateCard.isTrue => exact ⟨hg.firm, hg.positive⟩
  case setInvoiceId.usageEvent.isTrue id v a hid =>
    subst hid
    refine ⟨hg.firm, hg.project, hg.task, hg.submission, hg.screened, hg.passed, hg.record, ?_⟩
    intro i hi
    obtain ⟨ev, hev, hid, inv, hinv, hof, hfirm⟩ := hdue i hi
    rw [Table.eq_of_key hev hx hid] at hfirm
    exact ⟨inv, hinv, hof, hfirm⟩
  case setStripeInvoice.invoice.isTrue id stripeId url a hid =>
    subst hid
    exact ⟨hg.firm, hg.subtotal, hg.issuer, hg.reference, fun _ ↦ mode_eq (a := a) hx hdue,
      hg.issuedExternal, hg.payOnline⟩
  case setInvoiceStatus.invoice.isTrue id v a hid =>
    subst hid
    exact ⟨hg.firm, hg.subtotal, hg.issuer, hg.reference, hg.stripe,
      fun hv ↦ mode_eq (a := a) hx (hdue.1 hv), fun hv ↦ mode_eq (a := a) hx (hdue.2 hv)⟩
  case setExternalPaidReference.invoice.isTrue id v a hid =>
    subst hid
    exact ⟨hg.firm, hg.subtotal, hg.issuer, fun _ ↦ mode_eq (a := a) hx hdue, hg.stripe,
      hg.issuedExternal, hg.payOnline⟩
  case setIssuedAt.invoice.isTrue =>
    exact ⟨hg.firm, hg.subtotal, hg.issuer, hg.reference, hg.stripe, hg.issuedExternal,
      hg.payOnline⟩
  case setPaidAt.invoice.isTrue =>
    exact ⟨hg.firm, hg.subtotal, hg.issuer, hg.reference, hg.stripe, hg.issuedExternal,
      hg.payOnline⟩
  case setCheckoutSessionId.invoice.isTrue =>
    exact ⟨hg.firm, hg.subtotal, hg.issuer, hg.reference, hg.stripe, hg.issuedExternal,
      hg.payOnline⟩
  case releaseBatch.exportBatch.isTrue id approvedBy path manifest a hid =>
    subst hid
    obtain ⟨b, hb, hid, approver, hby, hne, hknown⟩ := hdue
    rw [Table.eq_of_key hb hx hid] at hne
    refine ⟨hg.project, hg.requester, fun _ ↦ ⟨approver, hby, hne, hknown⟩, ?_⟩
    intro hpending
    cases hpending

theorem Grounded.added {y : Row} (hknown : ∀ actor, holds actor s → Known env actor s)
    (hdue : Due env holds s u) (hy : u.adds = some y) : Grounded env s y := by
  cases u <;> cases hy
  case insertFirm a => trivial
  case insertUser a => exact hdue.1
  case insertApiKey a => exact hdue
  case insertExpert a => exact fun hne ↦ absurd hdue hne
  case insertQualification a => exact hdue
  case insertProject a => exact hdue
  case insertTask a => exact hdue
  case insertSubmission a => exact hdue
  case insertReview a => exact hdue
  case insertAuditEvent a => exact Signed.mono (.refl s) hknown hdue
  case insertRateCard a => exact hdue
  case insertUsageEvent a => exact hdue
  case insertInvoice a => exact hdue.1
  case insertExportBatch a => exact hdue.1

variable (env) in
/-- Every row has its grounds, and what happened is in the trail but for what
is owed. -/
structure Accounted (owed : Set Deed) (s : Db) : Prop where
  grounded : ∀ x, s.Has x → Grounded env s x
  covered : Covered owed s

theorem Accounted.next {owed : Set Deed} (hknown : ∀ actor, holds actor s → Known env actor s)
    (h : Accounted env owed s) (hdue : Due env holds s u) (happ : Db.apply u s = some s') :
    Accounted env (next u owed) s' where
  grounded := by
    intro y hy
    refine Grounded.mono (Db.Grows.of_apply happ) ?_
    rcases Db.has_cases happ hy with ⟨x, hx, rfl⟩ | hadds
    · exact (h.grounded x hx).touch hx hdue
    · exact Grounded.added hknown hdue hadds
  covered := h.covered.next happ

/-- The terms, for transactions whose actors have this authority. -/
def terms (A : Authority env) : Contract machine (Set Deed) where
  le := Db.Grows
  inv := Accounted env
  due := fun u s ↦ Due env A.holds s u
  next := next
  refl := .refl
  trans := .trans
  up := .of_apply
  mono := .apply
  due_mono := fun h hs ↦ hs.mono env h fun _ ↦ A.mono h
  keep := fun hI hdue happ ↦ hI.next (fun _ ↦ A.known) hdue happ

end Provenance

end HumanDataFactory
