import HumanDataFactory.Api
import HumanDataFactory.Provenance.Growth
import HumanDataFactory.Transact.Rely

/-!
# What every row rests on

For each kind of row the facts that have to be in the database with it: the
rows it refers to, the exam behind a qualified expert, the reviews behind a
verdict, the users behind an action.  All of them are facts nobody can take
back, so a row that is well founded once stays so.
-/

namespace HumanDataFactory

open Transact

namespace Provenance

variable (env : Env)

def HasFirm (s : Db) (id : String) : Prop := ∃ a ∈ s.firms, a.id = id

def HasExpert (s : Db) (id : String) : Prop := ∃ a ∈ s.experts, a.id = id

/-- The expert has passed an exam of the track. -/
def Qualified (s : Db) (expertId : String) (track : DomainTrack) : Prop :=
  ∃ q ∈ s.qualifications, q.expertId = expertId ∧ q.track = track ∧ q.passed = true

def TaskIs (s : Db) (id : String) (gold : Bool) : Prop :=
  ∃ a ∈ s.tasks, a.id = id ∧ a.isGold = gold

def SubmissionOf (s : Db) (id taskId expertId : String) : Prop :=
  ∃ a ∈ s.submissions, a.id = id ∧ a.taskId = taskId ∧ a.expertId = expertId

def Reviewed (s : Db) (submissionId : String) (kind : ReviewKind) (verdict : Verdict) : Prop :=
  ∃ r ∈ s.reviews, r.submissionId = submissionId ∧ r.kind = kind ∧ r.verdict = verdict

/-- Gate 1 passed the submission. -/
abbrev Screened (s : Db) (submissionId : String) : Prop :=
  Reviewed s submissionId .deterministic .pass

/-- Gate 3 looked at the submission. -/
def AutoReviewed (s : Db) (submissionId : String) : Prop :=
  ∃ verdict, Reviewed s submissionId .autoLlm verdict

/-- The model or a human passed the submission. -/
def Passed (s : Db) (submissionId : String) : Prop :=
  Reviewed s submissionId .autoLlm .pass ∨ Reviewed s submissionId .human .pass

/-- What a submission in this status has behind it. -/
def Cleared (s : Db) (id taskId : String) : SubmissionStatus → Prop
  | .submitted => True
  | .autoCheckFailed => Reviewed s id .deterministic .fail
  | .autoQcPending => Screened s id ∧ TaskIs s taskId false
  | .humanReview => Screened s id ∧ TaskIs s taskId false ∧ AutoReviewed s id
  | .needsRevision => Screened s id ∧ TaskIs s taskId false ∧ AutoReviewed s id
  | .approved => Screened s id ∧
      (TaskIs s taskId true ∧ Reviewed s id .goldCheck .pass ∨
        TaskIs s taskId false ∧ AutoReviewed s id ∧ Passed s id)
  | .rejected => Screened s id ∧
      (TaskIs s taskId true ∧ Reviewed s id .goldCheck .fail ∨
        TaskIs s taskId false ∧ AutoReviewed s id ∧ Reviewed s id .human .fail)

/-- The expert is qualified for the project of the task. -/
def EntitledTo (s : Db) (expertId taskId : String) : Prop :=
  ∃ t ∈ s.tasks, t.id = taskId ∧ ∃ p ∈ s.projects, p.id = t.projectId ∧
    Qualified s expertId p.track

/-- Some submission of the task was judged for good. -/
def Finished (s : Db) (taskId : String) : Prop :=
  ∃ id expertId, SubmissionOf s id taskId expertId ∧
    (Cleared s id taskId .approved ∨ Cleared s id taskId .rejected)

/-- It is the expert's first version of the task, or the one before is there. -/
def Follows (s : Db) (taskId expertId : String) (version : ℕ) : Prop :=
  version = 1 ∨
    ∃ a ∈ s.submissions, a.taskId = taskId ∧ a.expertId = expertId ∧ a.version + 1 = version

def InvoiceIs (s : Db) (id : String) (mode : BillingMode) : Prop :=
  ∃ a ∈ s.invoices, a.id = id ∧ a.mode = mode

def actorOf (user : User) : Auth.Actor :=
  ⟨user.id, user.name, user.role, user.firmId, user.expertId⟩

/-- With authentication on, the actor is one of the users. -/
def Known (actor : Auth.Actor) (s : Db) : Prop :=
  env.authDisabled = false → ∃ user ∈ s.users, actorOf user = actor

/-- A condition on actors that stays true, and holds of users only; with
authentication off it asks for nothing. -/
structure Authority where
  holds : Auth.Actor → Db → Prop
  mono : ∀ {actor s t}, s.Grows t → holds actor s → holds actor t
  known : ∀ {actor s}, holds actor s → Known env actor s
  dev : env.authDisabled = true → ∀ actor s, holds actor s

variable {env} in
/-- An actor in one of these roles goes by this id. -/
def By (holds : Auth.Actor → Db → Prop) (s : Db) (roles : List Role) (id : String) : Prop :=
  ∃ actor, holds actor s ∧ actor.id = id ∧ actor.role ∈ roles

/-- The roles behind the actions of the API that are recorded under the
caller's name. -/
def actionRoles : String → Option (List Role)
  | "user.created" => some Api.adminOnly
  | "user.revoked" => some Api.adminOnly
  | "firm.created" => some Api.adminOnly
  | "rate_card.created" => some Api.adminOnly
  | "expert.created" => some Api.internal
  | "expert.exam_recorded" => some Api.internal
  | "project.created" => some Api.internal
  | "task.created" => some Api.internal
  | "task.assigned" => some Api.internal
  | "invoice.issued" => some Api.internal
  | "invoice.external_payment_recorded" => some Api.internal
  | "invoice.checkout_created" => some Api.anyAuthenticated
  | "export.requested" => some Api.internal
  | "export.released" => some Api.internal
  | _ => none

/-- The event was recorded for an actor who may do what it says; a checkout is
opened only by somebody with access to the invoice's firm. -/
def Signed (holds : Auth.Actor → Db → Prop) (s : Db) (ev : AuditEvent) : Prop :=
  ∀ roles, actionRoles ev.action = some roles →
    ∃ actor, holds actor s ∧ actor.id = ev.actor ∧ actor.role ∈ roles ∧
      (ev.action = "invoice.checkout_created" →
        ∃ inv ∈ s.invoices, inv.id = ev.entityId ∧ Auth.firmAccess actor inv.firmId)

/-- A client has a firm, a reviewer or author an expert record, and what a user
is linked to is there. -/
structure Linked (s : Db) (a : User) : Prop where
  firm : ∀ id, StripeGateway.truthyId a.firmId = some id → HasFirm s id
  expert : ∀ id, StripeGateway.truthyId a.expertId = some id → HasExpert s id
  client : a.role = .client → StripeGateway.truthyId a.firmId ≠ none
  linked : a.role = .reviewer ∨ a.role = .expert → StripeGateway.truthyId a.expertId ≠ none

structure ExamGrounds (s : Db) (a : Qualification) : Prop where
  expert : HasExpert s a.expertId
  passed : a.passed = Api.EXAM_PASS_SCORE.le a.examScore
  inRange : PyFloat.le (.finite 0) a.examScore = true ∧ a.examScore.le (.finite 100) = true

structure ProjectGrounds (s : Db) (a : Project) : Prop where
  firm : HasFirm s a.firmId
  rubric : a.rubricId ∈ Rubrics.all.map Rubric.id
  creator : By (Known env) s Api.internal a.createdBy

structure TaskGrounds (s : Db) (a : Task) : Prop where
  project : ∃ p ∈ s.projects, p.id = a.projectId
  gold : a.isGold = true → (Engine.goldAnswerOf a).isSome = true
  assigned : ∀ e, a.assignedTo = some e → HasExpert s e ∧ EntitledTo s e a.id
  finished : a.status = .completed → Finished s a.id

structure SubmissionGrounds (s : Db) (a : Submission) : Prop where
  expert : HasExpert s a.expertId
  entitled : EntitledTo s a.expertId a.taskId
  version : Follows s a.taskId a.expertId a.version
  cleared : Cleared s a.id a.taskId a.status

/-- A human review is another qualified reviewer's; gold tasks are judged by
comparison and by nothing else. -/
def JudgedBy (s : Db) (reviewerId taskId expertId : String) : ReviewKind → Prop
  | .deterministic => True
  | .goldCheck => TaskIs s taskId true
  | .autoLlm => TaskIs s taskId false
  | .human => TaskIs s taskId false ∧ reviewerId ≠ expertId ∧
      (∃ e ∈ s.experts, e.id = reviewerId ∧ e.isReviewer = true) ∧
        ∃ track, Qualified s reviewerId track

def ReviewGrounds (s : Db) (a : Review) : Prop :=
  ∃ taskId expertId, SubmissionOf s a.submissionId taskId expertId ∧
    JudgedBy s a.reviewerId taskId expertId a.kind

structure RateGrounds (s : Db) (a : RateCard) : Prop where
  firm : ∃ f, a.firmId = some f ∧ HasFirm s f
  positive : 0 < a.unitPriceCents

/-- The price of a record comes from a rate card for the firm and the kind of
work, or is the default. -/
def PricedBy (s : Db) (firmId : String) (taskType : TaskType) (price : ℤ) : Prop :=
  (∃ c ∈ s.rateCards, (c.firmId = some firmId ∨ c.firmId = none) ∧ c.taskType = taskType ∧
    c.unitPriceCents = price) ∨ price = env.defaultRatesCents taskType

structure UsageGrounds (s : Db) (a : UsageEvent) : Prop where
  firm : ∃ f ∈ s.firms, f.id = a.firmId ∧ f.currency = a.currency
  project : ∃ p ∈ s.projects, p.id = a.projectId ∧ p.firmId = a.firmId ∧
    PricedBy env s a.firmId p.taskType a.unitPriceCents
  task : ∃ t ∈ s.tasks, t.id = a.taskId ∧ t.projectId = a.projectId ∧ t.isGold = false
  submission : ∃ expertId, SubmissionOf s a.submissionId a.taskId expertId
  screened : Screened s a.submissionId
  passed : Passed s a.submissionId
  record : a.kind = "approved_record" ∧ a.quantity = 1 ∧ a.amountCents = a.unitPriceCents
  invoice : ∀ id, a.invoiceId = some id → ∃ inv ∈ s.invoices, inv.id = id ∧ inv.firmId = a.firmId

structure InvoiceGrounds (s : Db) (a : Invoice) : Prop where
  firm : ∃ f ∈ s.firms, f.id = a.firmId ∧ f.billingMode = a.mode ∧ f.currency = a.currency
  subtotal : a.subtotalCents = (a.lineItems.map LineItem.amountCents).sum
  issuer : By (Known env) s Api.internal a.issuedBy
  reference : a.externalPaidReference ≠ none → a.mode = .external
  stripe : a.stripeInvoiceId ≠ none → a.mode = .stripe
  issuedExternal : a.status = .issuedExternal → a.mode = .external
  payOnline : a.status = .open → a.mode = .stripe

structure BatchGrounds (s : Db) (a : ExportBatch) : Prop where
  project : ∃ p ∈ s.projects, p.id = a.projectId
  requester : By (Known env) s Api.internal a.requestedBy
  released : a.status = .released → ∃ approver, a.approvedBy = some approver ∧
    approver ≠ a.requestedBy ∧ By (Known env) s Api.internal approver
  pending : a.status = .pendingApproval → a.approvedBy = none

def Grounded (s : Db) : Row → Prop
  | .firm _ => True
  | .user a => Linked s a
  | .apiKey a => ∃ u ∈ s.users, u.id = a.userId
  | .expert a => a.status ≠ .pending → ∃ track, Qualified s a.id track
  | .qualification a => ExamGrounds s a
  | .project a => ProjectGrounds env s a
  | .task a => TaskGrounds s a
  | .submission a => SubmissionGrounds s a
  | .review a => ReviewGrounds s a
  | .auditEvent a => Signed (Known env) s a
  | .rateCard a => RateGrounds s a
  | .usageEvent a => UsageGrounds env s a
  | .invoice a => InvoiceGrounds env s a
  | .exportBatch a => BatchGrounds env s a

theorem By.imp {holds holds' : Auth.Actor → Db → Prop} {s t : Db} {roles : List Role}
    {id : String} (himp : ∀ actor, holds actor s → holds' actor t) (hs : By holds s roles id) :
    By holds' t roles id := by
  obtain ⟨actor, hactor, hid, hrole⟩ := hs
  exact ⟨actor, himp actor hactor, hid, hrole⟩

section Mono

variable {env} {s t : Db} (h : s.Grows t)
include h

theorem HasFirm.mono {id : String} (hs : HasFirm s id) : HasFirm t id := by
  obtain ⟨a, ha, rfl⟩ := hs
  obtain ⟨_, hb⟩ := h.firm ha
  exact ⟨_, hb, rfl⟩

theorem HasExpert.mono {id : String} (hs : HasExpert s id) : HasExpert t id := by
  obtain ⟨a, ha, rfl⟩ := hs
  obtain ⟨b, hb, hid, _⟩ := h.expert ha
  exact ⟨b, hb, hid⟩

theorem Qualified.mono {id : String} {track : DomainTrack} (hs : Qualified s id track) :
    Qualified t id track := by
  obtain ⟨q, hq, hof⟩ := hs
  exact ⟨q, h.qualification hq, hof⟩

theorem TaskIs.mono {id : String} {gold : Bool} (hs : TaskIs s id gold) : TaskIs t id gold := by
  obtain ⟨a, ha, rfl, rfl⟩ := hs
  obtain ⟨_, _, hb⟩ := h.task ha
  exact ⟨_, hb, rfl, rfl⟩

theorem SubmissionOf.mono {id taskId expertId : String} (hs : SubmissionOf s id taskId expertId) :
    SubmissionOf t id taskId expertId := by
  obtain ⟨a, ha, rfl, rfl, rfl⟩ := hs
  obtain ⟨_, _, hb⟩ := h.submission ha
  exact ⟨_, hb, rfl, rfl, rfl⟩

theorem Reviewed.mono {id : String} {kind : ReviewKind} {verdict : Verdict}
    (hs : Reviewed s id kind verdict) : Reviewed t id kind verdict := by
  obtain ⟨r, hr, hof⟩ := hs
  exact ⟨r, h.review hr, hof⟩

theorem AutoReviewed.mono {id : String} (hs : AutoReviewed s id) : AutoReviewed t id := by
  obtain ⟨verdict, hr⟩ := hs
  exact ⟨verdict, hr.mono h⟩

theorem Passed.mono {id : String} (hs : Passed s id) : Passed t id :=
  hs.imp (Reviewed.mono h) (Reviewed.mono h)

theorem Cleared.mono {id taskId : String} {status : SubmissionStatus}
    (hs : Cleared s id taskId status) : Cleared t id taskId status := by
  cases status with
  | submitted => trivial
  | autoCheckFailed => exact Reviewed.mono h hs
  | autoQcPending => exact ⟨hs.1.mono h, hs.2.mono h⟩
  | humanReview => exact ⟨hs.1.mono h, hs.2.1.mono h, hs.2.2.mono h⟩
  | needsRevision => exact ⟨hs.1.mono h, hs.2.1.mono h, hs.2.2.mono h⟩
  | approved =>
      refine ⟨hs.1.mono h, hs.2.imp ?_ ?_⟩
      · exact fun ⟨hgold, hpass⟩ ↦ ⟨hgold.mono h, hpass.mono h⟩
      · exact fun ⟨hplain, hauto, hpass⟩ ↦ ⟨hplain.mono h, hauto.mono h, hpass.mono h⟩
  | rejected =>
      refine ⟨hs.1.mono h, hs.2.imp ?_ ?_⟩
      · exact fun ⟨hgold, hfail⟩ ↦ ⟨hgold.mono h, hfail.mono h⟩
      · exact fun ⟨hplain, hauto, hfail⟩ ↦ ⟨hplain.mono h, hauto.mono h, hfail.mono h⟩

theorem EntitledTo.mono {expertId taskId : String} (hs : EntitledTo s expertId taskId) :
    EntitledTo t expertId taskId := by
  obtain ⟨a, ha, rfl, p, hp, hpid, hq⟩ := hs
  obtain ⟨_, _, hb⟩ := h.task ha
  exact ⟨_, hb, rfl, p, h.project hp, hpid, hq.mono h⟩

theorem Finished.mono {taskId : String} (hs : Finished s taskId) : Finished t taskId := by
  obtain ⟨id, expertId, hof, hdone⟩ := hs
  exact ⟨id, expertId, hof.mono h, hdone.imp (Cleared.mono h) (Cleared.mono h)⟩

theorem Follows.mono {taskId expertId : String} {version : ℕ}
    (hs : Follows s taskId expertId version) : Follows t taskId expertId version := by
  refine hs.imp_right ?_
  rintro ⟨a, ha, hof⟩
  obtain ⟨_, _, hb⟩ := h.submission ha
  exact ⟨_, hb, hof⟩

theorem InvoiceIs.mono {id : String} {mode : BillingMode} (hs : InvoiceIs s id mode) :
    InvoiceIs t id mode := by
  obtain ⟨a, ha, rfl, rfl⟩ := hs
  obtain ⟨b, hb, hid, _, hmode, _⟩ := h.invoice ha
  exact ⟨b, hb, hid, hmode⟩

theorem Known.mono {actor : Auth.Actor} (hs : Known env actor s) : Known env actor t := by
  intro henv
  obtain ⟨user, hu, rfl⟩ := hs henv
  obtain ⟨_, hb, _⟩ := h.user hu
  exact ⟨_, hb, rfl⟩

theorem Signed.mono {holds holds' : Auth.Actor → Db → Prop} {ev : AuditEvent}
    (himp : ∀ actor, holds actor s → holds' actor t) (hs : Signed holds s ev) :
    Signed holds' t ev := by
  intro roles hroles
  obtain ⟨actor, hactor, hid, hrole, hcheckout⟩ := hs roles hroles
  refine ⟨actor, himp actor hactor, hid, hrole, ?_⟩
  intro haction
  obtain ⟨inv, hinv, hof, haccess⟩ := hcheckout haction
  obtain ⟨b, hb, hbid, hfirm, _⟩ := h.invoice hinv
  exact ⟨b, hb, hbid.trans hof, by rwa [hfirm]⟩

theorem Linked.mono {a : User} (hs : Linked s a) : Linked t a where
  firm := fun id hid ↦ (hs.firm id hid).mono h
  expert := fun id hid ↦ (hs.expert id hid).mono h
  client := hs.client
  linked := hs.linked

theorem ExamGrounds.mono {a : Qualification} (hs : ExamGrounds s a) : ExamGrounds t a :=
  { hs with expert := hs.expert.mono h }

theorem ProjectGrounds.mono {a : Project} (hs : ProjectGrounds env s a) :
    ProjectGrounds env t a where
  firm := hs.firm.mono h
  rubric := hs.rubric
  creator := hs.creator.imp fun _ ↦ Known.mono h

theorem TaskGrounds.mono {a : Task} (hs : TaskGrounds s a) : TaskGrounds t a where
  project := by
    obtain ⟨p, hp, hid⟩ := hs.project
    exact ⟨p, h.project hp, hid⟩
  gold := hs.gold
  assigned := fun e he ↦ ⟨(hs.assigned e he).1.mono h, (hs.assigned e he).2.mono h⟩
  finished := fun hdone ↦ (hs.finished hdone).mono h

theorem SubmissionGrounds.mono {a : Submission} (hs : SubmissionGrounds s a) :
    SubmissionGrounds t a where
  expert := hs.expert.mono h
  entitled := hs.entitled.mono h
  version := hs.version.mono h
  cleared := hs.cleared.mono h

theorem JudgedBy.mono {reviewerId taskId expertId : String} {kind : ReviewKind}
    (hs : JudgedBy s reviewerId taskId expertId kind) :
    JudgedBy t reviewerId taskId expertId kind := by
  cases kind with
  | deterministic => trivial
  | goldCheck => exact TaskIs.mono h hs
  | autoLlm => exact TaskIs.mono h hs
  | human =>
      obtain ⟨hplain, hne, ⟨e, he, hid, hrev⟩, track, hq⟩ := hs
      obtain ⟨b, hb, hbid, hbrev⟩ := h.expert he
      exact ⟨hplain.mono h, hne, ⟨b, hb, hbid.trans hid, hbrev.trans hrev⟩, track, hq.mono h⟩

theorem ReviewGrounds.mono {a : Review} (hs : ReviewGrounds s a) : ReviewGrounds t a := by
  obtain ⟨taskId, expertId, hof, hjudged⟩ := hs
  exact ⟨taskId, expertId, hof.mono h, hjudged.mono h⟩

theorem RateGrounds.mono {a : RateCard} (hs : RateGrounds s a) : RateGrounds t a where
  firm := by
    obtain ⟨f, hf, hhas⟩ := hs.firm
    exact ⟨f, hf, hhas.mono h⟩
  positive := hs.positive

theorem PricedBy.mono {firmId : String} {taskType : TaskType} {price : ℤ}
    (hs : PricedBy env s firmId taskType price) : PricedBy env t firmId taskType price := by
  refine hs.imp_left ?_
  rintro ⟨c, hc, hof⟩
  obtain ⟨_, hb⟩ := h.rateCard hc
  exact ⟨_, hb, hof⟩

theorem UsageGrounds.mono {a : UsageEvent} (hs : UsageGrounds env s a) : UsageGrounds env t a where
  firm := by
    obtain ⟨f, hf, hof⟩ := hs.firm
    obtain ⟨_, hb⟩ := h.firm hf
    exact ⟨_, hb, hof⟩
  project := by
    obtain ⟨p, hp, hid, hfirm, hprice⟩ := hs.project
    exact ⟨p, h.project hp, hid, hfirm, hprice.mono h⟩
  task := by
    obtain ⟨a, ha, hof⟩ := hs.task
    obtain ⟨_, _, hb⟩ := h.task ha
    exact ⟨_, hb, hof⟩
  submission := by
    obtain ⟨expertId, hof⟩ := hs.submission
    exact ⟨expertId, hof.mono h⟩
  screened := hs.screened.mono h
  passed := hs.passed.mono h
  record := hs.record
  invoice := by
    intro id hid
    obtain ⟨inv, hinv, hof, hfirm⟩ := hs.invoice id hid
    obtain ⟨b, hb, hbid, hbfirm, _⟩ := h.invoice hinv
    exact ⟨b, hb, hbid.trans hof, hbfirm.trans hfirm⟩

theorem InvoiceGrounds.mono {a : Invoice} (hs : InvoiceGrounds env s a) : InvoiceGrounds env t a :=
  { hs with
    firm := by
      obtain ⟨f, hf, hof⟩ := hs.firm
      obtain ⟨_, hb⟩ := h.firm hf
      exact ⟨_, hb, hof⟩
    issuer := hs.issuer.imp fun _ ↦ Known.mono h }

theorem BatchGrounds.mono {a : ExportBatch} (hs : BatchGrounds env s a) : BatchGrounds env t a where
  project := by
    obtain ⟨p, hp, hid⟩ := hs.project
    exact ⟨p, h.project hp, hid⟩
  requester := hs.requester.imp fun _ ↦ Known.mono h
  released := by
    intro hrel
    obtain ⟨approver, hby, hne, hknown⟩ := hs.released hrel
    exact ⟨approver, hby, hne, hknown.imp fun _ ↦ Known.mono h⟩
  pending := hs.pending

theorem Grounded.mono {x : Row} (hs : Grounded env s x) : Grounded env t x := by
  cases x with
  | firm a => trivial
  | user a => exact Linked.mono h hs
  | apiKey a =>
      obtain ⟨u, hu, hid⟩ := hs
      obtain ⟨_, hb, _⟩ := h.user hu
      exact ⟨_, hb, hid⟩
  | expert a =>
      intro hstatus
      obtain ⟨track, hq⟩ := hs hstatus
      exact ⟨track, hq.mono h⟩
  | qualification a => exact ExamGrounds.mono h hs
  | project a => exact ProjectGrounds.mono h hs
  | task a => exact TaskGrounds.mono h hs
  | submission a => exact SubmissionGrounds.mono h hs
  | review a => exact ReviewGrounds.mono h hs
  | auditEvent a => exact Signed.mono h (fun _ ↦ Known.mono h) hs
  | rateCard a => exact RateGrounds.mono h hs
  | usageEvent a => exact UsageGrounds.mono h hs
  | invoice a => exact InvoiceGrounds.mono h hs
  | exportBatch a => exact BatchGrounds.mono h hs

end Mono

end Provenance

end HumanDataFactory
