import Mathlib.Data.List.Induction
import HumanDataFactory.Api.Effects
import HumanDataFactory.Billing.Webhooks
import HumanDataFactory.Concurrency.AuditChain

/-!
# Replaying the audit trail

Every operation that changes the status of a submission, an invoice or an
export batch, or the standing of an expert, says so in the event it records.
The replica below is computed from the events alone; it agrees with the tables
after every request.
-/

namespace HumanDataFactory

open Transact

namespace Replay

/-! ## Standings -/

/-- What the factory keeps about the work of an expert. -/
structure Standing where
  status : ExpertStatus
  approvedCount : ℕ
  goldPassCount : ℕ
  goldFailCount : ℕ
  qualityScore : PyFloat
  deriving DecidableEq, Repr

namespace Standing

def hired : Standing :=
  ⟨.pending, 0, 0, 0, .finite (7 / 2)⟩

def examined (passed : Bool) (st : Standing) : Standing :=
  if passed = true ∧ st.status = .pending then { st with status := .qualified } else st

def suspendedIfDue (st : Standing) : Standing :=
  if st.qualityScore.lt Controls.SUSPEND_BELOW = true ∨
      Controls.GOLD_SUSPEND_FAILS ≤ st.goldFailCount then { st with status := .suspended }
  else st

def scored (score : PyFloat) (st : Standing) : Standing :=
  suspendedIfDue { st with qualityScore := Controls.ewma score st.qualityScore }

def approved (score : PyFloat) (st : Standing) : Standing :=
  scored score { st with approvedCount := st.approvedCount + 1 }

def goldChecked (passed : Bool) (st : Standing) : Standing :=
  if passed then suspendedIfDue { st with goldPassCount := st.goldPassCount + 1 }
  else suspendedIfDue { st with
    goldFailCount := st.goldFailCount + 1
    qualityScore := PyFloat.round 4 (PyFloat.scale Settings.goldFailPenalty st.qualityScore) }

end Standing

/-! ## What an event tells -/

inductive Fact
  | hired (expertId : String)
  | examined (expertId : String) (passed : Bool)
  | submitted (submissionId authorId : String)
  | decided (submissionId : String) (status : SubmissionStatus)
  | goldChecked (submissionId : String) (passed : Bool)
  | approved (submissionId : String) (score : PyFloat)
  | rejected (submissionId : String) (score : PyFloat)
  | invoiced (invoiceId : String) (status : InvoiceStatus)
  | exported (batchId : String) (status : BatchStatus)
  | unrelated

def scoreOf (default : ℚ) : Json → PyFloat
  | .float x => x
  | _ => .finite default

def issuedStatusOf (mode : Json) : InvoiceStatus :=
  if mode.isStr "external" then .issuedExternal else .open

/-- An event, read by its action and its payload. -/
def factOf (e : Audit.Entry) : Fact :=
  match e.action with
  | "expert.created" => .hired e.entityId
  | "expert.exam_recorded" => .examined e.entityId (e.payload.field "passed").truthy
  | "submission.created" => .submitted e.entityId e.actor
  | "submission.auto_check_failed" => .decided e.entityId .autoCheckFailed
  | "submission.gold_checked" => .goldChecked e.entityId (e.payload.field "passed").truthy
  | "submission.needs_revision" => .decided e.entityId .needsRevision
  | "submission.human_review" => .decided e.entityId .humanReview
  | "submission.auto_approved" => .approved e.entityId (scoreOf 4 (e.payload.field "score"))
  | "submission.human_pass" => .approved e.entityId (scoreOf 4 (e.payload.field "overall_score"))
  | "submission.human_revise" => .decided e.entityId .needsRevision
  | "submission.human_fail" => .rejected e.entityId (scoreOf 1 (e.payload.field "overall_score"))
  | "invoice.issued" => .invoiced e.entityId (issuedStatusOf (e.payload.field "mode"))
  | "invoice.external_payment_recorded" => .invoiced e.entityId .paid
  | "invoice.paid" => .invoiced e.entityId .paid
  | "invoice.void" => .invoiced e.entityId .void
  | "export.requested" => .exported e.entityId .pendingApproval
  | "export.released" => .exported e.entityId .released
  | _ => .unrelated

def Fact.author? : Fact → Option (String × String)
  | .submitted id author => some (id, author)
  | _ => none

def Fact.submission? : Fact → Option (String × SubmissionStatus)
  | .submitted id _ => some (id, .submitted)
  | .decided id status => some (id, status)
  | .goldChecked id passed => some (id, if passed then .approved else .rejected)
  | .approved id _ => some (id, .approved)
  | .rejected id _ => some (id, .rejected)
  | _ => none

def Fact.invoice? : Fact → Option (String × InvoiceStatus)
  | .invoiced id status => some (id, status)
  | _ => none

def Fact.batch? : Fact → Option (String × BatchStatus)
  | .exported id status => some (id, status)
  | _ => none

/-! ## The replica -/

/-- What one line of the trail says about a key. -/
def note {β : Type} (m : String → Option β) : Option (String × β) → String → Option β
  | some (k, b) => Function.update m k (some b)
  | none => m

/-- The tables as far as the trail tells them. -/
structure Replica where
  authors : String → Option String
  submissions : String → Option SubmissionStatus
  invoices : String → Option InvoiceStatus
  batches : String → Option BatchStatus
  experts : String → Option Standing

namespace Replica

def empty : Replica :=
  ⟨fun _ ↦ none, fun _ ↦ none, fun _ ↦ none, fun _ ↦ none, fun _ ↦ none⟩

def change (r : Replica) (expertId : String) (f : Standing → Standing) :
    String → Option Standing :=
  Function.update r.experts expertId ((r.experts expertId).map f)

/-- The change goes to the author of the submission. -/
def changeAuthor (r : Replica) (submissionId : String) (f : Standing → Standing) :
    String → Option Standing :=
  match r.authors submissionId with
  | some authorId => r.change authorId f
  | none => r.experts

def standings (r : Replica) : Fact → String → Option Standing
  | .hired id => Function.update r.experts id (some .hired)
  | .examined id passed => r.change id (.examined passed)
  | .goldChecked id passed => r.changeAuthor id (.goldChecked passed)
  | .approved id score => r.changeAuthor id (.approved score)
  | .rejected id score => r.changeAuthor id (.scored score)
  | _ => r.experts

def told (r : Replica) (fact : Fact) : Replica where
  authors := note r.authors fact.author?
  submissions := note r.submissions fact.submission?
  invoices := note r.invoices fact.invoice?
  batches := note r.batches fact.batch?
  experts := r.standings fact

@[simp] theorem told_unrelated (r : Replica) : r.told .unrelated = r := rfl

end Replica

/-- The fold over the trail. -/
def replay (trail : List Audit.Entry) : Replica :=
  trail.foldl (fun r e ↦ r.told (factOf e)) .empty

theorem replay_concat (trail : List Audit.Entry) (e : Audit.Entry) :
    replay (trail ++ [e]) = (replay trail).told (factOf e) := by
  simp [replay]

/-- The status that an event gives to a submission. -/
def statusEvent (submissionId : String) (e : Audit.Entry) : Option SubmissionStatus :=
  match (factOf e).submission? with
  | some (id, status) => if id = submissionId then some status else none
  | none => none

/-- The status of a submission is the one its last event gave it. -/
theorem replay_submissions (trail : List Audit.Entry) (submissionId : String) :
    (replay trail).submissions submissionId =
      (trail.filterMap (statusEvent submissionId)).getLast? := by
  induction trail using List.reverseRecOn with
  | nil => rfl
  | append_singleton trail e ih =>
      rw [replay_concat, List.filterMap_append]
      change note (replay trail).submissions (factOf e).submission? submissionId = _
      rcases hfact : (factOf e).submission? with _ | ⟨id, status⟩
      · simp [note, statusEvent, hfact, ih]
      · by_cases hid : id = submissionId
        · simp [note, statusEvent, hfact, hid]
        · simp [note, statusEvent, hfact, hid, Ne.symm hid, ih]

/-! ## The replica of a database -/

def standing (e : Expert) : Standing :=
  ⟨e.status, e.approvedCount, e.goldPassCount, e.goldFailCount, e.qualityScore⟩

theorem standing_suspendedIfDue (e : Expert) :
    standing (Controls.suspendedIfDue e) = (standing e).suspendedIfDue := by
  by_cases hdue : Controls.dueForSuspension e
  · rw [Controls.suspendedIfDue, if_pos hdue]
    exact (if_pos hdue).symm
  · rw [Controls.suspendedIfDue, if_neg hdue]
    exact (if_neg hdue).symm

theorem standing_withReviewScore (score : PyFloat) (e : Expert) :
    standing (Controls.withReviewScore score e) = (standing e).scored score :=
  standing_suspendedIfDue _

theorem standing_creditedWith (score : PyFloat) (e : Expert) :
    standing (Engine.creditedWith score e) = (standing e).approved score :=
  standing_suspendedIfDue _

theorem standing_withGoldResult (passed : Bool) (e : Expert) :
    standing (Controls.withGoldResult passed e) = (standing e).goldChecked passed := by
  cases passed with
  | true => exact standing_suspendedIfDue _
  | false => exact standing_suspendedIfDue _

theorem standing_afterExam (passed : Bool) (e : Expert) :
    standing (Api.afterExam passed e) = (standing e).examined passed := by
  by_cases hq : Api.qualifies e passed
  · rw [Api.afterExam, if_pos hq]
    exact (if_pos hq).symm
  · rw [Api.afterExam, if_neg hq]
    exact (if_neg hq).symm

def replicaOf (s : Db) : Replica where
  authors := s.submissions.read Submission.expertId
  submissions := s.submissions.read Submission.status
  invoices := s.invoices.read Invoice.status
  batches := s.exportBatches.read ExportBatch.status
  experts := s.experts.read standing

theorem replicaOf_empty : replicaOf Db.empty = .empty := by
  simp [replicaOf, Replica.empty, Db.empty]

def entries (s : Db) : List Audit.Entry :=
  s.auditEvents.map AuditEvent.entry

section Requests

variable {env : Env} {s s' : Db}

/-- The events recorded between two states tell what changed between them. -/
def Told (s s' : Db) : Prop :=
  ∃ es : List Audit.Entry, entries s' = entries s ++ es ∧
    replicaOf s' = es.foldl (fun r e ↦ r.told (factOf e)) (replicaOf s)

theorem Told.trans {s₁ s₂ s₃ : Db} (h : Told s₁ s₂) (h' : Told s₂ s₃) : Told s₁ s₃ := by
  obtain ⟨es, hentries, hreplica⟩ := h
  obtain ⟨es', hentries', hreplica'⟩ := h'
  refine ⟨es ++ es', ?_, ?_⟩
  · rw [hentries', hentries, List.append_assoc]
  · rw [hreplica', hreplica, List.foldl_append]

theorem Told.single {aud : AuditEvent} {e : Audit.Entry} {fact : Fact} (haud : aud.entry = e)
    (hfact : factOf e = fact) (hevents : s'.auditEvents = s.auditEvents ++ [aud])
    (hreplica : replicaOf s' = (replicaOf s).told fact) : Told s s' := by
  refine ⟨[aud.entry], ?_, ?_⟩
  · simp [entries, hevents]
  · rw [haud, hreplica, ← hfact]
    rfl

theorem Told.unrelated {aud : AuditEvent} {e : Audit.Entry} (haud : aud.entry = e)
    (hfact : factOf e = .unrelated) (hevents : s'.auditEvents = s.auditEvents ++ [aud])
    (hreplica : replicaOf s' = replicaOf s) : Told s s' :=
  .single haud hfact hevents hreplica

/-- Metering tells of nothing that the replica keeps. -/
theorem replicaOf_metered {project : Project} {task : Task} {sub : Submission}
    (h : Billing.Metered env project task sub s s') :
    replicaOf s' = replicaOf s ∧ ∃ es : List Audit.Entry, entries s' = entries s ++ es ∧
      ∀ e ∈ es, factOf e = .unrelated := by
  cases h with
  | skipped hfree => exact ⟨rfl, [], by simp, by simp⟩
  | @metered hgold hnew firm hfirm ev hev hvac aud haud =>
      refine ⟨rfl, [aud.entry], by simp [entries], ?_⟩
      intro e he
      obtain rfl : e = aud.entry := by simpa using he
      rw [haud]
      rfl

theorem foldl_unrelated {es : List Audit.Entry} (h : ∀ e ∈ es, factOf e = .unrelated)
    (r : Replica) : es.foldl (fun r e ↦ r.told (factOf e)) r = r := by
  induction es with
  | nil => rfl
  | cons e es ih =>
      rw [List.foldl_cons, h e (by simp), Replica.told_unrelated]
      exact ih fun e' he' ↦ h e' (by simp [he'])

/-- An approval that is metered before it is recorded. -/
theorem Told.metered {project : Project} {task : Task} {sub : Submission} {s₁ s₂ : Db}
    {aud : AuditEvent} {e : Audit.Entry} {fact : Fact}
    (hmeter : Billing.Metered env project task sub s₁ s₂) (hevents : s₁.auditEvents = s.auditEvents)
    (hreplica : replicaOf s₁ = (replicaOf s).told fact) (haud : aud.entry = e)
    (hfact : factOf e = fact) :
    Told s { s₂ with auditEvents := s₂.auditEvents ++ [aud] } := by
  obtain ⟨hsame, es, hentries, hes⟩ := replicaOf_metered hmeter
  refine ⟨es ++ [aud.entry], ?_, ?_⟩
  · have hstart : entries s₁ = entries s := congrArg (List.map AuditEvent.entry) hevents
    rw [← List.append_assoc, ← hstart, ← hentries]
    simp [entries]
  · rw [List.foldl_append, foldl_unrelated hes, haud]
    change replicaOf s₂ = (replicaOf s).told (factOf e)
    rw [hsame, hreplica, hfact]

/-- A submission that gets another status, and its author another standing. -/
theorem replicaOf_decided {sub : Submission} (sub' : Submission) {fact : Fact}
    (hsub : s.submissions.find? sub.id = some sub) (hid : sub'.id = sub.id)
    (hauthor : sub'.expertId = sub.expertId)
    (hsubs : s'.submissions = s.submissions.replace sub') (hinvoices : s'.invoices = s.invoices)
    (hbatches : s'.exportBatches = s.exportBatches)
    (hfact : fact.submission? = some (sub.id, sub'.status))
    (hother : fact.author? = none ∧ fact.invoice? = none ∧ fact.batch? = none)
    (hexperts : s'.experts.read standing = (replicaOf s).standings fact) :
    replicaOf s' = (replicaOf s).told fact := by
  have hfind : s.submissions.find? sub'.id = some sub := by rwa [hid]
  have hauthors := Table.read_replace_of_eq (g := Submission.expertId) hfind hauthor
  have hstatuses := Table.read_replace (g := Submission.status) hfind
  rw [hid] at hstatuses
  obtain ⟨hnone, hnone', hnone''⟩ := hother
  simp only [replicaOf] at hexperts ⊢
  simp only [Replica.told, hsubs, hinvoices, hbatches, hauthors, hstatuses, hfact, hnone, hnone',
    hnone'', note, hexperts]

theorem changeAuthor_eq {sub : Submission} {e e' : Expert} {f : Standing → Standing}
    (hsub : s.submissions.find? sub.id = some sub)
    (he : s.experts.find? sub.expertId = some e) (hid : e'.id = e.id)
    (hf : standing e' = f (standing e)) :
    (s.experts.replace e').read standing = (replicaOf s).changeAuthor sub.id f := by
  have hkey := Table.key_of_find? he
  have hauthor : (replicaOf s).authors sub.id = some e.id := by
    rw [hkey]
    exact Table.read_key hsub
  have hself : s.experts.find? e.id = some e := by rwa [hkey]
  unfold Replica.changeAuthor
  rw [hauthor, Table.read_replace (by rwa [hid]), hid, hf]
  change _ = Function.update (s.experts.read standing) e.id ((s.experts.read standing e.id).map f)
  rw [Table.read_key hself, Option.map_some]

theorem told_of_processed {t : Table String Submission Submission.id} {sub : Submission}
    {task : Task} {project : Project} {expert : Expert}
    (h : Engine.Processed env t sub task project expert s s') (hs : s.submissions = t.push sub)
    (hv : t.Vacant sub.id) (hof : sub.expertId = expert.id)
    (hexpert : s.experts.find? expert.id = some expert) : Told s s' := by
  have hsub : s.submissions.find? sub.id = some sub := by
    rw [hs, Table.find?_push hv, if_pos rfl]
  have hpush : ∀ sub' : Submission, sub'.id = sub.id →
      t.push sub' = s.submissions.replace sub' := by
    intro sub' hid
    rw [hs, Table.push_replace hv hid]
  rw [← hof] at hexpert
  cases h with
  | autoCheckFailed hfailed hid haud =>
      refine .single haud rfl rfl (replicaOf_decided { sub with
        status := .autoCheckFailed } hsub rfl rfl (hpush _ rfl) rfl rfl rfl ⟨rfl, rfl, rfl⟩ rfl)
  | goldChecked hpassed hgold passed hid hid' haud =>
      refine .single haud rfl rfl (replicaOf_decided { sub with
        status := if passed then .approved else .rejected } hsub rfl rfl (hpush _ rfl) rfl rfl rfl
        ⟨rfl, rfl, rfl⟩ ?_)
      exact changeAuthor_eq hsub hexpert (by simp) (standing_withGoldResult passed expert)
  | @heldBack validation hpassed hgold result sampled status hstatus hroute id now hid id' now'
      hid' aud' haud =>
      have hfact : factOf ⟨result.reviewerId, s!"submission.{status.value}", "submission", sub.id,
          Engine.autoOutcomeEntry result sampled⟩ = .decided sub.id status := by
        rcases hstatus with rfl | rfl <;> rfl
      exact .single haud hfact rfl (replicaOf_decided { sub with
        status := status, sampledForHumanReview := sampled } hsub rfl rfl (hpush _ rfl) rfl rfl rfl
        ⟨rfl, rfl, rfl⟩ rfl)
  | @autoApproved validation hpassed hgold result sampled hroute id now hid id' now' hid' s₁ hmeter
      aud' haud =>
      refine .metered hmeter rfl (replicaOf_decided { sub with
        status := .approved, sampledForHumanReview := sampled } hsub rfl rfl (hpush _ rfl)
        rfl rfl rfl
        ⟨rfl, rfl, rfl⟩ ?_) haud rfl
      exact changeAuthor_eq hsub hexpert (by simp) (standing_creditedWith _ expert)

theorem told_of_submitted {task : Task} {expert : Expert} {content : Json}
    (h : Engine.Submitted env task expert content s s')
    (hexpert : s.experts.find? expert.id = some expert) : Told s s' := by
  obtain ⟨hproject, hqualified, hheld, hassigned, ⟨id, now, rfl⟩, hid, haud, hprocess⟩ := h
  refine .trans (.single haud rfl rfl ?_) (told_of_processed hprocess rfl hid rfl hexpert)
  have hauthors := Table.read_push (g := Submission.expertId) hid
  have hstatuses := Table.read_push (g := Submission.status) hid
  exact congrArg₂ (fun x y ↦ { replicaOf s with authors := x, submissions := y }) hauthors hstatuses

theorem factOf_humanPass (sub : Submission) (reviewer : Expert) (overall : Option PyFloat)
    (comments : String) : factOf (Engine.humanEntry sub reviewer .pass overall comments) =
      .approved sub.id (overall.getD (.finite 4)) := by
  cases overall <;> rfl

theorem factOf_humanFail (sub : Submission) (reviewer : Expert) (overall : Option PyFloat)
    (comments : String) : factOf (Engine.humanEntry sub reviewer .fail overall comments) =
      .rejected sub.id (overall.getD (.finite 1)) := by
  cases overall <;> rfl

theorem told_of_reviewed {sub : Submission} {reviewer : Expert} {verdict : Verdict}
    (h : Engine.Reviewed env sub reviewer verdict s s')
    (hsub : s.submissions.find? sub.id = some sub) : Told s s' := by
  rcases h with @⟨hstatus, hother, hrole, hqualified, overall, _, _, _, hid, _, hdecided, _, _,
    haud⟩
  cases hdecided with
  | @pass task htask project hproject author hauthor s₁ hmeter =>
      refine .metered hmeter rfl (replicaOf_decided { sub with status := .approved } hsub rfl rfl
        rfl rfl rfl rfl ⟨rfl, rfl, rfl⟩ ?_) haud (factOf_humanPass sub reviewer overall _)
      exact changeAuthor_eq hsub hauthor (by simp) (standing_creditedWith _ author)
  | revise =>
      exact .single haud rfl rfl (replicaOf_decided { sub with status := .needsRevision } hsub
        rfl rfl rfl rfl rfl rfl ⟨rfl, rfl, rfl⟩ rfl)
  | @fail author hauthor =>
      refine .single haud (factOf_humanFail sub reviewer overall _) rfl
        (replicaOf_decided { sub with status := .rejected } hsub
        rfl rfl rfl rfl rfl rfl ⟨rfl, rfl, rfl⟩ ?_)
      exact changeAuthor_eq hsub hauthor (by simp) (standing_withReviewScore _ author)

/-- An invoice that is settled, or keeps its status. -/
theorem replicaOf_invoiced {inv inv' : Invoice} (hinv : s.invoices.find? inv.id = some inv)
    (hid : inv'.id = inv.id) {evs : List AuditEvent} :
    replicaOf { s with invoices := s.invoices.replace inv', auditEvents := evs } =
      (replicaOf s).told (.invoiced inv.id inv'.status) := by
  have hstatuses := Table.read_replace (g := Invoice.status) (by rwa [← hid] at hinv)
  rw [hid] at hstatuses
  exact congrArg (fun x ↦ { replicaOf s with invoices := x }) hstatuses

theorem told_of_performed {event : Json} {act : Billing.WebhookAction}
    (hact : Billing.webhookAction s event = .ok act) (h : Billing.Performed env s act s') :
    Told s s' := by
  rcases Billing.webhookAction_cases hact with rfl | ⟨inv, reference, hcompletes, rfl⟩ |
      ⟨inv, etype, stripeId, status, hsettles, rfl⟩
  · cases h
    exact ⟨[], by simp, rfl⟩
  · cases h with
    | alreadyPaid hstatus => exact ⟨[], by simp, rfl⟩
    | completed hstatus _ haud =>
        exact .single haud rfl rfl (replicaOf_invoiced hcompletes.find? (by rfl))
  · cases h with
    | settled haud =>
        have hfact : factOf (Billing.settledEntry inv etype stripeId status) =
            .invoiced inv.id status := by
          rcases Billing.settledStatus_eq_some hsettles.settles with ⟨_, rfl⟩ | ⟨_, rfl⟩ <;> rfl
        exact .single haud hfact rfl (replicaOf_invoiced hsettles.find? (by rfl))

theorem told_of_issued {firm : Firm} {periodStart periodEnd : Time} {issuedBy : String}
    (h : Billing.Issued env firm periodStart periodEnd issuedBy s s') : Told s s' := by
  rcases h with @⟨inv, hinv, _, _, _, haud⟩
  have hfact : ∀ n, factOf (Billing.issuedEntry inv issuedBy n) =
      .invoiced inv.id inv.status := by
    intro n
    rw [hinv.status]
    change Fact.invoiced inv.id (issuedStatusOf (.str inv.mode.value)) = _
    rw [hinv.mode]
    cases firm.billingMode <;> rfl
  refine .single haud (hfact _) rfl ?_
  · have hstatuses := Table.read_push (g := Invoice.status) hinv.vacant
    exact congrArg (fun x ↦ { replicaOf s with invoices := x }) hstatuses

theorem told_of_effect {actor : Auth.Actor} {request : Api.Request}
    (h : Api.Effect env actor s request s') : Told s s' := by
  cases h with
  | @createExpert body id aud hid haud =>
      refine .single haud rfl rfl ?_
      have hexperts := Table.read_push (g := standing) (a := Api.newExpert body id) hid
      exact congrArg (fun x ↦ { replicaOf s with experts := x }) hexperts
  | @recordExam expertId body expert id aud hexpert hid haud =>
      refine .single haud rfl rfl ?_
      have hself := Table.find?_key hexpert
      have hexperts := Table.read_replace (t := s.experts) (g := standing)
        (a := Api.afterExam (Api.EXAM_PASS_SCORE.le body.examScore) expert) (by simpa using hself)
      rw [standing_afterExam, Api.afterExam_id, ← Option.map_some, ← Table.read_key hself]
        at hexperts
      exact congrArg (fun x ↦ { replicaOf s with experts := x }) hexperts
  | createSubmission htask hexpert h => exact told_of_submitted h (Table.find?_key hexpert)
  | postHumanReview hsub hreviewer h => exact told_of_reviewed h (Table.find?_key hsub)
  | generateInvoice hfirm h => exact told_of_issued h
  | @createInvoiceCheckout _ _ _ inv s' hinv haccess h =>
      cases h with
      | @mk hstatus sessionId aud haud =>
          refine .unrelated haud rfl rfl ?_
          have hself := Table.find?_key hinv
          have hstatuses := Table.read_replace_of_eq (g := Invoice.status)
            (a := { inv with checkoutSessionId := some sessionId }) hself rfl
          exact congrArg (fun x ↦ { replicaOf s with invoices := x }) hstatuses
  | recordExternalPayment hinv h =>
      cases h with
      | mk hmode hstatus haud =>
          exact .single haud rfl rfl (replicaOf_invoiced (Table.find?_key hinv) (by rfl))
  | stripeWebhook hevent hact h => exact told_of_performed hact h
  | @requestExport _ project id aud hproject hclean hid haud =>
      refine .single haud rfl rfl ?_
      have hbatches := Table.read_push (g := ExportBatch.status)
        (a := Export.newBatch project actor.id (Export.reportOf env s project) id) hid
      exact congrArg (fun x ↦ { replicaOf s with batches := x }) hbatches
  | @approveExport _ approvedBy batch path manifest payload aud hbatch hstatus hdual haud =>
      refine .single haud rfl rfl ?_
      have hself := Table.find?_key hbatch
      have hbatches := Table.read_replace (g := ExportBatch.status)
        (a := { batch with
          approvedBy := some (Api.approver env actor approvedBy)
          path := some path
          manifest := manifest
          status := .released }) hself
      exact congrArg (fun x ↦ { replicaOf s with batches := x }) hbatches
  | bootstrap hempty hid haud => exact .unrelated haud rfl rfl rfl
  | createUser hid haud => exact .unrelated haud rfl rfl rfl
  | revokeUser huser haud => exact .unrelated haud rfl rfl rfl
  | createFirm hid haud => exact .unrelated haud rfl rfl rfl
  | createRateCard hfirm hid haud => exact .unrelated haud rfl rfl rfl
  | createProject hfirm hrubric hid haud => exact .unrelated haud rfl rfl rfl
  | createTask hproject hgold hid haud => exact .unrelated haud rfl rfl rfl
  | assignTask htask hexpert hproject hqualified haud => exact .unrelated haud rfl rfl rfl

end Requests

/-! ## The trail is complete -/

/-- What a run keeps: an intact chain, and a trail that tells every change. -/
structure Sound (env : Env) (s : Db) (w : ℕ) : Prop where
  intact : Audit.Intact env s w
  replayed : replay (entries s) = replicaOf s

variable {env : Env} {s : Db}

theorem Sound.serves {e : Served Api.Http Db Json} {w w' : ℕ} (hs : Sound env e.before w)
    (h : machine.Serves (Api.serve env) e w w') : Sound env e.after w' := by
  cases h with
  | ok hexec =>
      obtain ⟨⟨actor, heffect⟩, _⟩ := Api.exec_serve hexec hs.intact.below
      obtain ⟨es, hentries, hreplica⟩ := told_of_effect heffect
      refine ⟨Audit.exec_intact hexec hs.intact, ?_⟩
      rw [hentries, hreplica, ← hs.replayed]
      exact List.foldl_append
  | failed hmoves => exact ⟨hs.intact.moves _ _ _ hmoves, hs.replayed⟩

theorem sound_of_run {tr : List (Served Api.Http Db Json)} {w₀ w : ℕ}
    (h : machine.Run (Api.serve env) Db.empty w₀ tr s w) : Sound env s w := by
  refine Machine.Run.invariant (I := Sound env) ⟨⟨(Audit.verifyChain_eq env).mp rfl, ?_⟩, ?_⟩
    (fun _ _ _ hs he ↦ hs.serves he) h
  · exact Audit.seqBelow_empty w₀
  · exact replicaOf_empty.symm

variable (env) in
/-- The trail verifies, and alone gives back every status and every standing. -/
structure Complete (s : Db) : Prop where
  verified : Audit.verifyChain env s = (true, s.auditEvents.length)
  submissions : ∀ id, (replay (entries s)).submissions id =
    (s.submissions.find? id).map Submission.status
  lastEvent : ∀ id, (s.submissions.find? id).map Submission.status =
    ((entries s).filterMap (statusEvent id)).getLast?
  invoices : ∀ id, (replay (entries s)).invoices id = (s.invoices.find? id).map Invoice.status
  batches : ∀ id, (replay (entries s)).batches id =
    (s.exportBatches.find? id).map ExportBatch.status
  experts : ∀ id, (replay (entries s)).experts id = (s.experts.find? id).map standing

theorem complete_of_run {tr : List (Served Api.Http Db Json)} {w₀ w : ℕ}
    (h : machine.Run (Api.serve env) Db.empty w₀ tr s w) : Complete env s := by
  obtain ⟨hintact, hreplayed⟩ := sound_of_run h
  have hsubs : ∀ id, (replay (entries s)).submissions id =
      (s.submissions.find? id).map Submission.status := by
    intro id
    rw [hreplayed]
    rfl
  refine ⟨(Audit.verifyChain_eq env).mpr hintact.linked, hsubs, ?_, ?_, ?_, ?_⟩
  · intro id
    rw [← replay_submissions, hsubs]
  all_goals
    intro id
    rw [hreplayed]
    rfl

theorem complete_of_firstInvoice :
    (Development.run Development.firstInvoice).2.1.auditEvents.length = 12 ∧
      Complete Development.env (Development.run Development.firstInvoice).2.1 :=
  ⟨by decide +kernel, complete_of_run (Development.run_spec _)⟩

end Replay

end HumanDataFactory
