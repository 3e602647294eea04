import HumanDataFactory.Api
import HumanDataFactory.Qc.Effects

/-!
# What a served request does to the database

One constructor for each endpoint, with the guards it passed and the exact
state it leaves.  Every invariant of the factory is a case analysis on this
relation.
-/

namespace HumanDataFactory

open Transact

namespace Api

variable {env : Env}

/-! ## The small effects -/

def retire (cards : List RateCard) (card : RateCard) : RateCard :=
  if card.id ∈ cards.map RateCard.id then { card with active := false } else card

@[simp] theorem retire_id (cards : List RateCard) (card : RateCard) :
    (retire cards card).id = card.id := by
  unfold retire
  split <;> rfl

def revokeKey (keys : List ApiKey) (key : ApiKey) : ApiKey :=
  if key.id ∈ keys.map ApiKey.id then { key with active := false } else key

@[simp] theorem revokeKey_id (keys : List ApiKey) (key : ApiKey) :
    (revokeKey keys key).id = key.id := by
  unfold revokeKey
  split <;> rfl

@[simp] theorem afterExam_id (passed : Bool) (expert : Expert) :
    (afterExam passed expert).id = expert.id := by
  unfold afterExam
  split <;> rfl

@[simp] theorem afterExam_isReviewer (passed : Bool) (expert : Expert) :
    (afterExam passed expert).isReviewer = expert.isReviewer := by
  unfold afterExam
  split <;> rfl

def assigned (task : Task) (expert : Expert) : Task :=
  { task with assignedTo := some expert.id, status := .assigned }

def examEntry (actorId : String) (expert : Expert) (body : ExamIn) : Audit.Entry :=
  ⟨actorId, "expert.exam_recorded", "expert", expert.id,
    .obj [("track", .str body.track.value), ("score", .float body.examScore),
      ("passed", .bool (EXAM_PASS_SCORE.le body.examScore))]⟩

def requestedEntry (batch : ExportBatch) (records : ℕ) : Audit.Entry :=
  ⟨batch.requestedBy, "export.requested", "export_batch", batch.id,
    .obj [("project_id", .str batch.projectId), ("records", .int records)]⟩

variable (env) in
/-- What serving a request does to the database. -/
inductive Effect (actor : Auth.Actor) (s : Db) : Request → Db → Prop
  | bootstrap {name email id : String} {key : ApiKey} {aud : AuditEvent}
      (hempty : s.users.rows = []) (hid : s.users.Vacant id)
      (haud : aud.entry = ⟨id, "user.bootstrapped", "user", id, .obj [("email", .str email)]⟩) :
      Effect actor s (.bootstrap name email) { s with
        users := s.users.push ⟨id, name, email, .admin, none, none, true⟩
        apiKeys := s.apiKeys.push key
        auditEvents := s.auditEvents ++ [aud] }
  | createUser {body : UserIn} {id : String} {key : ApiKey} {aud : AuditEvent}
      (hid : s.users.Vacant id)
      (haud : aud.entry = ⟨actor.id, "user.created", "user", id,
        .obj [("email", .str body.email), ("role", .str body.role.value)]⟩) :
      Effect actor s (.createUser body) { s with
        users := s.users.push
          ⟨id, body.name, body.email, body.role, body.firmId, body.expertId, true⟩
        apiKeys := s.apiKeys.push key
        auditEvents := s.auditEvents ++ [aud] }
  | revokeUser {userId : String} {user : User} {aud : AuditEvent}
      (huser : s.users.find? userId = some user)
      (haud : aud.entry = ⟨actor.id, "user.revoked", "user", user.id, .obj []⟩) :
      Effect actor s (.revokeUser userId) { s with
        users := s.users.replace { user with active := false }
        apiKeys := s.apiKeys.mapRows
          (revokeKey (s.apiKeys.rows.filter fun k ↦ k.userId = user.id)) (revokeKey_id _)
        auditEvents := s.auditEvents ++ [aud] }
  | createFirm {body : FirmIn} {id : String} {aud : AuditEvent} (hid : s.firms.Vacant id)
      (haud : aud.entry = ⟨actor.id, "firm.created", "firm", id,
        .obj [("name", .str body.name), ("billing_mode", .str body.billingMode.value)]⟩) :
      Effect actor s (.createFirm body) { s with
        firms := s.firms.push ⟨id, body.name, body.billingEmail, body.billingMode,
          body.currency, body.externalReference, none⟩
        auditEvents := s.auditEvents ++ [aud] }
  | createRateCard {firmId : String} {body : RateCardIn} {firm : Firm} {id : String}
      {now : Time} {aud : AuditEvent} (hfirm : s.firms.find? firmId = some firm)
      (hid : s.rateCards.Vacant id)
      (haud : aud.entry = ⟨actor.id, "rate_card.created", "rate_card", id,
        .obj [("firm_id", .str firm.id), ("task_type", .str body.taskType.value),
          ("unit_price_cents", .int body.unitPriceCents)]⟩) :
      Effect actor s (.createRateCard firmId body) { s with
        rateCards := (s.rateCards.mapRows
          (retire (Billing.rateCardsFor s (some firm.id) body.taskType)) (retire_id _)).push
          ⟨id, some firm.id, body.taskType, body.unitPriceCents, true, now⟩
        auditEvents := s.auditEvents ++ [aud] }
  | createExpert {body : ExpertIn} {id : String} {aud : AuditEvent}
      (hid : s.experts.Vacant id)
      (haud : aud.entry = ⟨actor.id, "expert.created", "expert", id,
        .obj [("email", .str body.email)]⟩) :
      Effect actor s (.createExpert body) { s with
        experts := s.experts.push (newExpert body id)
        auditEvents := s.auditEvents ++ [aud] }
  | recordExam {expertId : String} {body : ExamIn} {expert : Expert} {id : String}
      {aud : AuditEvent} (hexpert : s.experts.find? expertId = some expert)
      (hid : s.qualifications.Vacant id)
      (haud : aud.entry = examEntry actor.id expert body) :
      Effect actor s (.recordExam expertId body) { s with
        experts := s.experts.replace
          (afterExam (EXAM_PASS_SCORE.le body.examScore) expert)
        qualifications := s.qualifications.push ⟨id, expert.id, body.track, body.examScore,
          EXAM_PASS_SCORE.le body.examScore⟩
        auditEvents := s.auditEvents ++ [aud] }
  | createProject {body : ProjectIn} {id rubricId : String} {aud : AuditEvent}
      (hfirm : ∃ firm, s.firms.find? body.firmId = some firm)
      (hrubric : rubricId ∈ Rubrics.all.map Rubric.id) (hid : s.projects.Vacant id)
      (haud : aud.entry = ⟨actor.id, "project.created", "project", id,
        .obj [("name", .str body.name), ("firm_id", .str body.firmId)]⟩) :
      Effect actor s (.createProject body) { s with
        projects := s.projects.push ⟨id, body.name, body.firmId, body.track, body.taskType,
          body.guidelines, rubricId, actor.id⟩
        auditEvents := s.auditEvents ++ [aud] }
  | createTask {projectId : String} {body : TaskIn} {project : Project} {id : String}
      {now : Time} {aud : AuditEvent} (hproject : s.projects.find? projectId = some project)
      (hgold : ¬(body.isGold = true ∧ lacksGoldAnswer body = true)) (hid : s.tasks.Vacant id)
      (haud : aud.entry = ⟨actor.id, "task.created", "task", id,
        .obj [("project_id", .str project.id), ("is_gold", .bool body.isGold)]⟩) :
      Effect actor s (.createTask projectId body) { s with
        tasks := s.tasks.push (newTask project body id now)
        auditEvents := s.auditEvents ++ [aud] }
  | assignTask {taskId expertId : String} {task : Task} {expert : Expert} {project : Project}
      {aud : AuditEvent} (htask : s.tasks.find? taskId = some task)
      (hexpert : s.experts.find? expertId = some expert)
      (hproject : s.projects.find? task.projectId = some project)
      (hqualified : expert.status = .qualified)
      (haud : aud.entry = ⟨actor.id, "task.assigned", "task", task.id,
        .obj [("expert_id", .str expert.id)]⟩) :
      Effect actor s (.assignTask taskId expertId) { s with
        tasks := s.tasks.replace (assigned task expert)
        auditEvents := s.auditEvents ++ [aud] }
  | createSubmission {taskId expertId : String} {content : List (String × Json)} {task : Task}
      {expert : Expert} {s' : Db} (htask : s.tasks.find? taskId = some task)
      (hexpert : s.experts.find? expertId = some expert)
      (h : Engine.Submitted env task expert (.obj content) s s') :
      Effect actor s (.createSubmission taskId expertId content) s'
  | postHumanReview {submissionId : String} {body : HumanReviewIn} {sub : Submission}
      {reviewer : Expert} {s' : Db} (hsub : s.submissions.find? submissionId = some sub)
      (hreviewer : s.experts.find? body.reviewerId = some reviewer)
      (h : Engine.Reviewed env sub reviewer body.verdict s s') :
      Effect actor s (.postHumanReview submissionId body) s'
  | generateInvoice {firmId : String} {periodStart periodEnd : Time} {firm : Firm} {s' : Db}
      (hfirm : s.firms.find? firmId = some firm)
      (h : Billing.Issued env firm periodStart periodEnd actor.id s s') :
      Effect actor s (.generateInvoice firmId periodStart periodEnd) s'
  | createInvoiceCheckout {invoiceId successUrl cancelUrl : String} {inv : Invoice} {s' : Db}
      (hinv : s.invoices.find? invoiceId = some inv)
      (haccess : Auth.firmAccess actor inv.firmId)
      (h : Billing.CheckoutOpened s inv actor.id s') :
      Effect actor s (.createInvoiceCheckout invoiceId successUrl cancelUrl) s'
  | recordExternalPayment {invoiceId reference : String} {inv : Invoice} {s' : Db}
      (hinv : s.invoices.find? invoiceId = some inv)
      (h : Billing.PaidExternally s inv reference actor.id s') :
      Effect actor s (.recordExternalPayment invoiceId reference) s'
  | stripeWebhook {payload : String} {signature : Option String} {event : Json}
      {act : Billing.WebhookAction} {s' : Db}
      (hevent : StripeGateway.parseWebhook env payload signature = .ok event)
      (hact : Billing.webhookAction s event = .ok act) (h : Billing.Performed env s act s') :
      Effect actor s (.stripeWebhook payload signature) s'
  | requestExport {projectId : String} {project : Project} {id : String} {aud : AuditEvent}
      (hproject : s.projects.find? projectId = some project)
      (hclean : (Export.reportOf env s project).clean = true)
      (hid : s.exportBatches.Vacant id)
      (haud : aud.entry =
        requestedEntry (Export.newBatch project actor.id (Export.reportOf env s project) id)
          (Export.reportOf env s project).approvedRecords) :
      Effect actor s (.requestExport projectId) { s with
        exportBatches := s.exportBatches.push
          (Export.newBatch project actor.id (Export.reportOf env s project) id)
        auditEvents := s.auditEvents ++ [aud] }
  | approveExport {batchId approvedBy : String} {batch : ExportBatch} {path : String}
      {manifest payload : Json} {aud : AuditEvent}
      (hbatch : s.exportBatches.find? batchId = some batch)
      (hstatus : batch.status = .pendingApproval)
      (hdual : batch.requestedBy ≠ approver env actor approvedBy)
      (haud : aud.entry = ⟨approver env actor approvedBy, "export.released", "export_batch",
        batch.id, payload⟩) :
      Effect actor s (.approveExport batchId approvedBy) { s with
        exportBatches := s.exportBatches.replace { batch with
          approvedBy := some (approver env actor approvedBy)
          path := some path
          manifest := manifest
          status := .released }
        auditEvents := s.auditEvents ++ [aud] }

/-! ## The endpoints -/

variable {actor : Auth.Actor} {s s' : Db} {w w' : ℕ} {r : Json}

theorem exec_getOr404_bind {α β : Type} {model id : String} {t : TableName}
    {find : Db → Option α} {k : α → Tx β} {b : β} :
    machine.Exec (getOr404 model id t find >>= k) s w b s' w' ↔
      ∃ a, find s = some a ∧ machine.Exec (k a) s w b s' w' := by
  simp only [getOr404, Machine.exec_bind, Machine.exec_select, Machine.exec_getSome]
  constructor
  · rintro ⟨a, s₁, w₁, ⟨_, _, _, ⟨rfl, rfl, rfl⟩, ha, rfl, rfl⟩, h⟩
    exact ⟨a, ha, h⟩
  · rintro ⟨a, ha, h⟩
    exact ⟨a, s, w, ⟨_, s, w, ⟨rfl, rfl, rfl⟩, ha, rfl, rfl⟩, h⟩

/-- Looking up a linked row changes nothing. -/
theorem exec_checkLinked_bind {α β : Type} {model : String} {t : TableName}
    {find : String → Db → Option α} {id : Option String} {k : Unit → Tx β} {b : β}
    (h : machine.Exec (checkLinked (fun id ↦ getOr404 model id t (find id)) id >>= k)
      s w b s' w') :
    machine.Exec (k ()) s w b s' w' := by
  unfold checkLinked at h
  split at h
  · rw [Prog.bind_assoc, exec_getOr404_bind] at h
    obtain ⟨_, _, h⟩ := h
    exact h
  · exact h

theorem exec_issueKey_bind {user : User} {k : String → Tx Json}
    (h : machine.Exec (Auth.issueKey env user >>= k) s w r s' w') :
    ∃ key apiKey, machine.Exec (k key) { s with apiKeys := s.apiKeys.push apiKey } w r s' w' := by
  unfold Auth.issueKey at h
  rw [Machine.exec_bind] at h
  obtain ⟨key, s₁, w₁, hkey, h⟩ := h
  rw [Machine.exec_ask_bind] at hkey
  obtain ⟨secret, w₂, hw₂, hkey⟩ := hkey
  obtain rfl : w = w₂ := by simpa [accept] using hw₂
  simp only [Session.exec_uuid4_bind, Machine.exec_emit_bind, machine_apply, Db.apply,
    Option.ite_none_right_eq_some, Option.some.injEq, Prog.monad_pure, Machine.exec_pure] at hkey
  obtain ⟨id, _, ⟨_, rfl⟩, rfl, rfl, rfl⟩ := hkey
  exact ⟨_, _, h⟩

theorem exec_bootstrap {name email : String}
    (h : machine.Exec (bootstrap env name email) s w r s' w')
    (hseq : Audit.SeqBelow s.auditEvents w) :
    Effect env actor s (.bootstrap name email) s' ∧ Audit.SeqBelow s'.auditEvents w' := by
  unfold bootstrap at h
  simp only [Machine.exec_select_bind, Machine.exec_ensure_bind, Session.exec_uuid4_bind,
    Machine.exec_emit_bind, machine_apply, Db.apply, Option.ite_none_right_eq_some,
    Option.some.injEq] at h
  obtain ⟨hcount, id, s₁, ⟨⟨hid, _⟩, rfl⟩, h⟩ := h
  obtain ⟨key, apiKey, h⟩ := exec_issueKey_bind h
  rw [Machine.exec_bind] at h
  obtain ⟨aud, s₂, w₂, haud, rfl, rfl, rfl⟩ := h
  obtain ⟨rfl, hentry, hseq'⟩ := Audit.exec_record haud hseq
  exact ⟨.bootstrap (List.length_eq_zero_iff.mp hcount) hid hentry, hseq'⟩

theorem exec_createUser {body : UserIn}
    (h : machine.Exec (createUser env actor body) s w r s' w')
    (hseq : Audit.SeqBelow s.auditEvents w) :
    Effect env actor s (.createUser body) s' ∧ Audit.SeqBelow s'.auditEvents w' := by
  unfold createUser at h
  rw [Machine.exec_select_bind, Machine.exec_bind] at h
  obtain ⟨other, s₁, w₁, hother, h⟩ := h
  obtain ⟨_, rfl, rfl⟩ := Session.exec_scalarOneOrNone.mp hother
  simp only [Machine.exec_ensure_bind] at h
  obtain ⟨_, _, _, h⟩ := h
  replace h := exec_checkLinked_bind (exec_checkLinked_bind h)
  simp only [Session.exec_uuid4_bind, Machine.exec_emit_bind, machine_apply, Db.apply,
    Option.ite_none_right_eq_some, Option.some.injEq] at h
  obtain ⟨id, s₂, ⟨⟨hid, _⟩, rfl⟩, h⟩ := h
  obtain ⟨key, apiKey, h⟩ := exec_issueKey_bind h
  rw [Machine.exec_bind] at h
  obtain ⟨aud, s₃, w₃, haud, rfl, rfl, rfl⟩ := h
  obtain ⟨rfl, hentry, hseq'⟩ := Audit.exec_record haud hseq
  exact ⟨.createUser hid hentry, hseq'⟩

theorem exec_revokeUser {userId : String}
    (h : machine.Exec (revokeUser env actor userId) s w r s' w')
    (hseq : Audit.SeqBelow s.auditEvents w) :
    Effect env actor s (.revokeUser userId) s' ∧ Audit.SeqBelow s'.auditEvents w' := by
  unfold revokeUser getUser at h
  rw [exec_getOr404_bind] at h
  obtain ⟨user, huser, h⟩ := h
  simp only [Machine.exec_emit_bind, Machine.exec_select_bind, machine_apply, Db.apply,
    Option.some.injEq] at h
  obtain ⟨s₁, rfl, h⟩ := h
  have hview := view_modifyAll (fun s ↦ s.apiKeys) (fun s t ↦ { s with apiKeys := t })
    (fun _ _ ↦ rfl) (fun _ _ _ ↦ rfl) (fun _ ↦ rfl) .deactivateApiKey
    (fun k ↦ { k with active := false }) (fun _ ↦ rfl) (fun _ ↦ rfl) (fun _ _ ↦ rfl)
    ((s.apiKeys.rows.filter fun k ↦ k.userId = user.id).map ApiKey.id)
    { s with users :=
        s.users.modify user.id (fun a ↦ { a with active := false }) fun _ ↦ rfl }
  rw [List.map_map] at hview
  rw [Machine.exec_emitAll_bind] at h
  obtain ⟨s₂, hs₂, h⟩ := h
  obtain rfl := Option.some.inj (hs₂.symm.trans hview)
  rw [Machine.exec_bind] at h
  obtain ⟨aud, s₃, w₃, haud, rfl, rfl, rfl⟩ := h
  obtain ⟨rfl, hentry, hseq'⟩ := Audit.exec_record haud hseq
  refine ⟨?_, hseq'⟩
  rw [Table.modify_eq_replace (by rwa [Table.key_of_find? huser])]
  exact .revokeUser huser hentry

theorem exec_createFirm {body : FirmIn}
    (h : machine.Exec (createFirm env actor body) s w r s' w')
    (hseq : Audit.SeqBelow s.auditEvents w) :
    Effect env actor s (.createFirm body) s' ∧ Audit.SeqBelow s'.auditEvents w' := by
  unfold createFirm at h
  rw [Machine.exec_select_bind, Machine.exec_bind] at h
  obtain ⟨other, s₁, w₁, hother, h⟩ := h
  obtain ⟨_, rfl, rfl⟩ := Session.exec_scalarOneOrNone.mp hother
  simp only [Machine.exec_ensure_bind, Session.exec_uuid4_bind, Machine.exec_emit_bind,
    machine_apply, Db.apply, Option.ite_none_right_eq_some, Option.some.injEq] at h
  obtain ⟨_, id, s₂, ⟨⟨hid, _⟩, rfl⟩, h⟩ := h
  rw [Machine.exec_bind] at h
  obtain ⟨aud, s₃, w₃, haud, rfl, rfl, rfl⟩ := h
  obtain ⟨rfl, hentry, hseq'⟩ := Audit.exec_record haud hseq
  exact ⟨.createFirm hid hentry, hseq'⟩

theorem exec_createRateCard {firmId : String} {body : RateCardIn}
    (h : machine.Exec (createRateCard env actor firmId body) s w r s' w')
    (hseq : Audit.SeqBelow s.auditEvents w) :
    Effect env actor s (.createRateCard firmId body) s' ∧
      Audit.SeqBelow s'.auditEvents w' := by
  unfold createRateCard getFirm at h
  rw [exec_getOr404_bind] at h
  obtain ⟨firm, hfirm, h⟩ := h
  rw [Machine.exec_select_bind, Machine.exec_emitAll_bind] at h
  obtain ⟨s₁, hs₁, h⟩ := h
  have hview := view_modifyAll (fun s ↦ s.rateCards) (fun s t ↦ { s with rateCards := t })
    (fun _ _ ↦ rfl) (fun _ _ _ ↦ rfl) (fun _ ↦ rfl) .deactivateRateCard
    (fun c ↦ { c with active := false }) (fun _ ↦ rfl) (fun _ ↦ rfl) (fun _ _ ↦ rfl)
    ((Billing.rateCardsFor s (some firm.id) body.taskType).map RateCard.id) s
  rw [List.map_map] at hview
  obtain rfl := Option.some.inj (hs₁.symm.trans hview)
  simp only [Session.exec_uuid4_bind, Session.exec_now_bind, Machine.exec_emit_bind,
    machine_apply, Db.apply, Option.ite_none_right_eq_some, Option.some.injEq] at h
  obtain ⟨id, now, s₂, ⟨hid, rfl⟩, h⟩ := h
  rw [Machine.exec_bind] at h
  obtain ⟨aud, s₃, w₃, haud, rfl, rfl, rfl⟩ := h
  obtain ⟨rfl, hentry, hseq'⟩ := Audit.exec_record haud hseq
  exact ⟨.createRateCard hfirm (Table.vacant_mapRows.mp hid) hentry, hseq'⟩

theorem exec_createExpert {body : ExpertIn}
    (h : machine.Exec (createExpert env actor body) s w r s' w')
    (hseq : Audit.SeqBelow s.auditEvents w) :
    Effect env actor s (.createExpert body) s' ∧ Audit.SeqBelow s'.auditEvents w' := by
  unfold createExpert at h
  rw [Machine.exec_select_bind, Machine.exec_bind] at h
  obtain ⟨other, s₁, w₁, hother, h⟩ := h
  obtain ⟨_, rfl, rfl⟩ := Session.exec_scalarOneOrNone.mp hother
  simp only [Machine.exec_ensure_bind, Session.exec_uuid4_bind, Machine.exec_emit_bind,
    machine_apply, Db.apply, Option.ite_none_right_eq_some, Option.some.injEq] at h
  obtain ⟨_, id, s₂, ⟨⟨hid, _⟩, rfl⟩, h⟩ := h
  rw [Machine.exec_bind] at h
  obtain ⟨aud, s₃, w₃, haud, rfl, rfl, rfl⟩ := h
  obtain ⟨rfl, hentry, hseq'⟩ := Audit.exec_record haud hseq
  exact ⟨.createExpert hid hentry, hseq'⟩

theorem exec_recordExam {expertId : String} {body : ExamIn}
    (h : machine.Exec (recordExam env actor expertId body) s w r s' w')
    (hseq : Audit.SeqBelow s.auditEvents w) :
    Effect env actor s (.recordExam expertId body) s' ∧
      Audit.SeqBelow s'.auditEvents w' := by
  unfold recordExam getExpert at h
  rw [exec_getOr404_bind] at h
  obtain ⟨expert, hexpert, h⟩ := h
  have hself : s.experts.find? expert.id = some expert := by
    rwa [Table.key_of_find? hexpert]
  simp only [Session.exec_uuid4_bind, Machine.exec_emit_bind, Session.exec_writeIf_bind,
    machine_apply, Db.apply, Option.ite_none_right_eq_some, Option.some.injEq] at h
  obtain ⟨id, s₁, ⟨hid, rfl⟩, s₂, hs₂, h⟩ := h
  have hs₂' : s₂ = { s with
      experts := s.experts.replace (afterExam (EXAM_PASS_SCORE.le body.examScore) expert)
      qualifications := s.qualifications.push ⟨id, expert.id, body.track, body.examScore,
        EXAM_PASS_SCORE.le body.examScore⟩ } := by
    unfold afterExam
    split at hs₂
    · rename_i hq
      rw [if_pos hq, ← Option.some.inj hs₂, Table.modify_eq_replace hself]
    · rename_i hq
      rw [if_neg hq, ← Option.some.inj hs₂, Table.replace_self hself]
  subst hs₂'
  rw [Machine.exec_bind] at h
  obtain ⟨aud, s₃, w₃, haud, rfl, rfl, rfl⟩ := h
  obtain ⟨rfl, hentry, hseq'⟩ := Audit.exec_record haud hseq
  exact ⟨.recordExam hexpert hid hentry, hseq'⟩

theorem exec_createProject {body : ProjectIn}
    (h : machine.Exec (createProject env actor body) s w r s' w')
    (hseq : Audit.SeqBelow s.auditEvents w) :
    Effect env actor s (.createProject body) s' ∧ Audit.SeqBelow s'.auditEvents w' := by
  unfold createProject getFirm at h
  rw [exec_getOr404_bind] at h
  obtain ⟨firm, hfirm, h⟩ := h
  simp only [Machine.exec_ensure_bind, Session.exec_uuid4_bind, Machine.exec_emit_bind,
    machine_apply, Db.apply, Option.ite_none_right_eq_some, Option.some.injEq] at h
  obtain ⟨hrubric, id, s₂, ⟨hid, rfl⟩, h⟩ := h
  rw [Machine.exec_bind] at h
  obtain ⟨aud, s₃, w₃, haud, rfl, rfl, rfl⟩ := h
  obtain ⟨rfl, hentry, hseq'⟩ := Audit.exec_record haud hseq
  exact ⟨.createProject ⟨firm, hfirm⟩ hrubric hid hentry, hseq'⟩

theorem exec_createTask {projectId : String} {body : TaskIn}
    (h : machine.Exec (createTask env actor projectId body) s w r s' w')
    (hseq : Audit.SeqBelow s.auditEvents w) :
    Effect env actor s (.createTask projectId body) s' ∧
      Audit.SeqBelow s'.auditEvents w' := by
  unfold createTask getProject at h
  rw [exec_getOr404_bind] at h
  obtain ⟨project, hproject, h⟩ := h
  simp only [Machine.exec_ensure_bind, Session.exec_uuid4_bind, Session.exec_now_bind,
    Machine.exec_emit_bind, machine_apply, Db.apply, Option.ite_none_right_eq_some,
    Option.some.injEq] at h
  obtain ⟨hgold, id, now, s₂, ⟨hid, rfl⟩, h⟩ := h
  rw [Machine.exec_bind] at h
  obtain ⟨aud, s₃, w₃, haud, rfl, rfl, rfl⟩ := h
  obtain ⟨rfl, hentry, hseq'⟩ := Audit.exec_record haud hseq
  exact ⟨.createTask hproject hgold hid hentry, hseq'⟩

theorem exec_assignTask {taskId expertId : String}
    (h : machine.Exec (assignTask env actor taskId expertId) s w r s' w')
    (hseq : Audit.SeqBelow s.auditEvents w) :
    Effect env actor s (.assignTask taskId expertId) s' ∧
      Audit.SeqBelow s'.auditEvents w' := by
  unfold assignTask getTask getExpert at h
  rw [exec_getOr404_bind] at h
  obtain ⟨task, htask, h⟩ := h
  rw [exec_getOr404_bind] at h
  obtain ⟨expert, hexpert, h⟩ := h
  rw [Machine.exec_select_bind, Machine.exec_getSome_bind] at h
  obtain ⟨project, hproject, h⟩ := h
  rw [Machine.exec_bind] at h
  obtain ⟨_, s₁, w₁, hqual, h⟩ := h
  obtain ⟨hqualified, _, rfl, rfl⟩ :=
    Controls.exec_assertQualified (Machine.exec_mapErr.mp hqual)
  simp only [Machine.exec_emit_bind, machine_apply, Db.apply, Option.some.injEq] at h
  obtain ⟨s₂, rfl, s₃, rfl, h⟩ := h
  have hself : s₁.tasks.find? task.id = some task := by
    rwa [Table.key_of_find? htask]
  rw [Table.modify_eq_replace hself, Table.replace_modify rfl, Machine.exec_bind] at h
  change ∃ a s₂ w₂, machine.Exec _ { s₁ with tasks := s₁.tasks.replace (assigned task expert) }
    _ _ _ _ ∧ _ at h
  obtain ⟨aud, s₄, w₄, haud, rfl, rfl, rfl⟩ := h
  obtain ⟨rfl, hentry, hseq'⟩ := Audit.exec_record haud hseq
  exact ⟨.assignTask htask hexpert hproject hqualified hentry, hseq'⟩

/-- The endpoint finds the task and the expert and submits. -/
theorem exec_submit_of_createSubmission {taskId expertId : String}
    {content : List (String × Json)}
    (h : machine.Exec (createSubmission env actor taskId expertId content) s w r s' w') :
    ∃ task expert sub, s.tasks.find? taskId = some task ∧ s.experts.find? expertId = some expert ∧
      machine.Exec (Engine.submit env task expert (.obj content)) s w sub s' w' := by
  unfold createSubmission getTask getExpert at h
  rw [Machine.exec_ensure_bind, exec_getOr404_bind] at h
  obtain ⟨_, task, htask, h⟩ := h
  rw [exec_getOr404_bind] at h
  obtain ⟨expert, hexpert, h⟩ := h
  rw [Machine.exec_bind] at h
  obtain ⟨sub, s₁, w₁, hsubmit, _, rfl, rfl⟩ := h
  exact ⟨task, expert, sub, htask, hexpert, Machine.exec_mapErr.mp hsubmit⟩

theorem exec_createSubmission {taskId expertId : String} {content : List (String × Json)}
    (h : machine.Exec (createSubmission env actor taskId expertId content) s w r s' w')
    (hseq : Audit.SeqBelow s.auditEvents w) :
    Effect env actor s (.createSubmission taskId expertId content) s' ∧
      Audit.SeqBelow s'.auditEvents w' := by
  obtain ⟨task, expert, sub, htask, hexpert, hsubmit⟩ := exec_submit_of_createSubmission h
  obtain ⟨hsubmitted, hseq'⟩ := Engine.exec_submit hsubmit
    (by rwa [Table.key_of_find? htask]) (by rwa [Table.key_of_find? hexpert]) hseq
  exact ⟨.createSubmission htask hexpert hsubmitted, hseq'⟩

theorem exec_postHumanReview {submissionId : String} {body : HumanReviewIn}
    (h : machine.Exec (postHumanReview env actor submissionId body) s w r s' w')
    (hseq : Audit.SeqBelow s.auditEvents w) :
    Effect env actor s (.postHumanReview submissionId body) s' ∧
      Audit.SeqBelow s'.auditEvents w' := by
  unfold postHumanReview getSubmission getExpert at h
  rw [Machine.exec_ensure_bind, exec_getOr404_bind] at h
  obtain ⟨_, sub, hsub, h⟩ := h
  rw [exec_getOr404_bind] at h
  obtain ⟨reviewer, hreviewer, h⟩ := h
  rw [Machine.exec_bind] at h
  obtain ⟨rev, s₁, w₁, hreview, _, rfl, rfl⟩ := h
  obtain ⟨hreviewed, hseq'⟩ := Engine.exec_humanReview (Machine.exec_mapErr.mp hreview)
    (by rwa [Table.key_of_find? hsub]) hseq
  exact ⟨.postHumanReview hsub hreviewer hreviewed, hseq'⟩

theorem exec_generateInvoice {firmId : String} {periodStart periodEnd : Time}
    (h : machine.Exec (generateInvoice env actor firmId periodStart periodEnd) s w r s' w')
    (hseq : Audit.SeqBelow s.auditEvents w) :
    Effect env actor s (.generateInvoice firmId periodStart periodEnd) s' ∧
      Audit.SeqBelow s'.auditEvents w' := by
  unfold generateInvoice getFirm at h
  rw [exec_getOr404_bind] at h
  obtain ⟨firm, hfirm, h⟩ := h
  rw [Machine.exec_bind] at h
  obtain ⟨inv, s₁, w₁, hgen, _, rfl, rfl⟩ := h
  obtain ⟨hissued, hseq'⟩ := Billing.exec_generateInvoice (Machine.exec_mapErr.mp hgen) hseq
  exact ⟨.generateInvoice hfirm hissued, hseq'⟩

theorem exec_createInvoiceCheckout {invoiceId successUrl cancelUrl : String}
    (h : machine.Exec (createInvoiceCheckout env actor invoiceId successUrl cancelUrl)
      s w r s' w')
    (hseq : Audit.SeqBelow s.auditEvents w) :
    Effect env actor s (.createInvoiceCheckout invoiceId successUrl cancelUrl) s' ∧
      Audit.SeqBelow s'.auditEvents w' := by
  unfold createInvoiceCheckout getInvoice getFirm Auth.assertFirmAccess at h
  rw [exec_getOr404_bind] at h
  obtain ⟨inv, hinv, h⟩ := h
  rw [Machine.exec_ensure_bind, exec_getOr404_bind] at h
  obtain ⟨haccess, firm, hfirm, h⟩ := h
  rw [Machine.exec_bind] at h
  obtain ⟨⟨inv', url⟩, s₁, w₁, hcheckout, _, rfl, rfl⟩ := h
  obtain ⟨hopened, hseq'⟩ := Billing.exec_createCheckout (Machine.exec_mapErr.mp hcheckout)
    (by rwa [Table.key_of_find? hinv]) hseq
  exact ⟨.createInvoiceCheckout hinv haccess hopened, hseq'⟩

theorem exec_recordExternalPayment {invoiceId reference : String}
    (h : machine.Exec (recordExternalPayment env actor invoiceId reference) s w r s' w')
    (hseq : Audit.SeqBelow s.auditEvents w) :
    Effect env actor s (.recordExternalPayment invoiceId reference) s' ∧
      Audit.SeqBelow s'.auditEvents w' := by
  unfold recordExternalPayment getInvoice at h
  rw [exec_getOr404_bind] at h
  obtain ⟨inv, hinv, h⟩ := h
  rw [Machine.exec_bind] at h
  obtain ⟨paid, s₁, w₁, hpay, _, rfl, rfl⟩ := h
  obtain ⟨hpaid, hseq'⟩ := Billing.exec_recordExternalPayment (Machine.exec_mapErr.mp hpay)
    (by rwa [Table.key_of_find? hinv]) hseq
  exact ⟨.recordExternalPayment hinv hpaid, hseq'⟩

theorem exec_stripeWebhook {payload : String} {signature : Option String}
    (h : machine.Exec (stripeWebhook env payload signature) s w r s' w')
    (hseq : Audit.SeqBelow s.auditEvents w) :
    Effect env actor s (.stripeWebhook payload signature) s' ∧
      Audit.SeqBelow s'.auditEvents w' := by
  unfold stripeWebhook at h
  rw [Machine.exec_ofExcept_bind] at h
  obtain ⟨event, hevent, h⟩ := h
  obtain ⟨⟨act, hact, hperf⟩, hseq'⟩ := Billing.exec_handleStripeEvent h hseq
  exact ⟨.stripeWebhook hevent hact hperf, hseq'⟩

theorem exec_requestExport {projectId : String}
    (h : machine.Exec (requestExport env actor projectId) s w r s' w')
    (hseq : Audit.SeqBelow s.auditEvents w) :
    Effect env actor s (.requestExport projectId) s' ∧ Audit.SeqBelow s'.auditEvents w' := by
  unfold requestExport getProject at h
  rw [exec_getOr404_bind] at h
  obtain ⟨project, hproject, h⟩ := h
  rw [Machine.exec_bind] at h
  obtain ⟨batch, s₁, w₁, hreq, _, rfl, rfl⟩ := h
  replace hreq := Machine.exec_mapErr.mp hreq
  unfold Export.requestExport at hreq
  rw [Machine.exec_bind] at hreq
  obtain ⟨report, s₂, w₂, hreport, h⟩ := hreq
  obtain ⟨rfl, rfl, rfl⟩ := Export.exec_controlReport hreport
  simp only [Machine.exec_ensure_bind, Session.exec_uuid4_bind, Machine.exec_emit_bind,
    machine_apply, Db.apply, Option.ite_none_right_eq_some, Option.some.injEq] at h
  obtain ⟨hclean, id, s₃, ⟨hid, rfl⟩, h⟩ := h
  rw [Machine.exec_bind] at h
  obtain ⟨aud, s₄, w₄, haud, rfl, rfl, rfl⟩ := h
  obtain ⟨rfl, hentry, hseq'⟩ := Audit.exec_record haud hseq
  exact ⟨.requestExport hproject hclean hid hentry, hseq'⟩

theorem exec_approveAndMaterialize {batch released : ExportBatch} {approvedBy : String}
    (h : machine.Exec (Export.approveAndMaterialize env batch approvedBy) s w released s' w')
    (hbatch : s.exportBatches.find? batch.id = some batch)
    (hseq : Audit.SeqBelow s.auditEvents w) :
    batch.status = .pendingApproval ∧ batch.requestedBy ≠ approvedBy ∧
      Audit.SeqBelow s'.auditEvents w' ∧
      ∃ (path : String) (manifest payload : Json) (aud : AuditEvent),
        aud.entry = ⟨approvedBy, "export.released", "export_batch", batch.id, payload⟩ ∧
        s' = { s with
          exportBatches := s.exportBatches.replace { batch with
            approvedBy := some approvedBy
            path := some path
            manifest := manifest
            status := .released }
          auditEvents := s.auditEvents ++ [aud] } := by
  unfold Export.approveAndMaterialize Controls.assertExportDualControl at h
  rw [Machine.exec_ensure_bind, Machine.exec_ensure_bind] at h
  obtain ⟨hstatus, hdual, h⟩ := h
  rw [Machine.exec_select_bind, Machine.exec_getSome_bind] at h
  obtain ⟨project, _, h⟩ := h
  rw [Machine.exec_select_bind, Machine.exec_ofExcept_bind] at h
  obtain ⟨records, _, h⟩ := h
  rw [Machine.exec_ask_bind] at h
  obtain ⟨made, w₁, hmade, h⟩ := h
  have hw₁ := moves_le (Machine.Moves.single hmade)
  unfold Session.returned at h
  rw [Machine.exec_getSome_bind] at h
  obtain ⟨_, _, h⟩ := h
  rw [Machine.exec_bind] at h
  obtain ⟨files, s₂, w₂, hfiles, h⟩ := h
  have hw₂ := moves_le hfiles.moves
  obtain rfl := hfiles.of_writeless (Export.writeless_writeFiles _ _ _)
  rw [Machine.exec_select_bind, Machine.exec_getSome_bind] at h
  obtain ⟨firm, _, h⟩ := h
  rw [Machine.exec_select_bind, Session.exec_now_bind] at h
  obtain ⟨now, h⟩ := h
  rw [Machine.exec_ofExcept_bind] at h
  obtain ⟨old, _, h⟩ := h
  rw [Machine.exec_bind] at h
  obtain ⟨manifest, s₃, w₃, hstore, h⟩ := h
  have hw₃ := moves_le hstore.moves
  obtain rfl := hstore.of_writeless (Export.writeless_storeFiles _ _ _)
  rw [Machine.exec_ofExcept_bind] at h
  obtain ⟨backend, _, h⟩ := h
  simp only [Machine.exec_emit_bind, machine_apply, Db.apply, Option.some.injEq] at h
  obtain ⟨s₄, rfl, h⟩ := h
  rw [Table.modify_eq_replace hbatch, Machine.exec_bind] at h
  obtain ⟨aud, s₅, w₅, haud, rfl, rfl, rfl⟩ := h
  obtain ⟨rfl, hentry, hseq'⟩ := Audit.exec_record haud (hseq.mono (by omega))
  exact ⟨hstatus, hdual, hseq', _, _, _, aud, hentry, rfl⟩

theorem exec_approveExport {batchId approvedBy : String}
    (h : machine.Exec (approveExport env actor batchId approvedBy) s w r s' w')
    (hseq : Audit.SeqBelow s.auditEvents w) :
    Effect env actor s (.approveExport batchId approvedBy) s' ∧
      Audit.SeqBelow s'.auditEvents w' := by
  unfold approveExport getExportBatch at h
  rw [exec_getOr404_bind] at h
  obtain ⟨batch, hbatch, h⟩ := h
  rw [Machine.exec_bind] at h
  obtain ⟨released, s₁, w₁, happrove, _, rfl, rfl⟩ := h
  obtain ⟨hstatus, hdual, hseq', path, manifest, payload, aud, hentry, rfl⟩ :=
    exec_approveAndMaterialize (Machine.exec_mapErr.mp happrove)
      (by rwa [Table.key_of_find? hbatch]) hseq
  exact ⟨.approveExport hbatch hstatus hdual hentry, hseq'⟩

/-! ## Serving -/

theorem exec_handle {req : Request} (h : machine.Exec (handle env actor req) s w r s' w')
    (hseq : Audit.SeqBelow s.auditEvents w) :
    Effect env actor s req s' ∧ Audit.SeqBelow s'.auditEvents w' := by
  cases req with
  | bootstrap => exact exec_bootstrap h hseq
  | createUser => exact exec_createUser h hseq
  | revokeUser => exact exec_revokeUser h hseq
  | createFirm => exact exec_createFirm h hseq
  | createRateCard => exact exec_createRateCard h hseq
  | createExpert => exact exec_createExpert h hseq
  | recordExam => exact exec_recordExam h hseq
  | createProject => exact exec_createProject h hseq
  | createTask => exact exec_createTask h hseq
  | assignTask => exact exec_assignTask h hseq
  | createSubmission => exact exec_createSubmission h hseq
  | postHumanReview => exact exec_postHumanReview h hseq
  | generateInvoice => exact exec_generateInvoice h hseq
  | createInvoiceCheckout => exact exec_createInvoiceCheckout h hseq
  | recordExternalPayment => exact exec_recordExternalPayment h hseq
  | stripeWebhook => exact exec_stripeWebhook h hseq
  | requestExport => exact exec_requestExport h hseq
  | approveExport => exact exec_approveExport h hseq

/-- A served request has the effect of its endpoint, on behalf of some actor. -/
theorem exec_serve {http : Http} (h : machine.Exec (serve env http) s w r s' w')
    (hseq : Audit.SeqBelow s.auditEvents w) :
    (∃ actor, Effect env actor s http.request s') ∧ Audit.SeqBelow s'.auditEvents w' := by
  unfold serve at h
  split at h
  · rw [Machine.exec_bind] at h
    obtain ⟨actor, s₁, w₁, hactor, h⟩ := h
    obtain ⟨rfl, rfl⟩ := Auth.exec_currentActor env hactor
    obtain ⟨heffect, hseq'⟩ := exec_handle h hseq
    exact ⟨⟨actor, heffect⟩, hseq'⟩
  · obtain ⟨heffect, hseq'⟩ := exec_handle h hseq
    exact ⟨⟨nobody, heffect⟩, hseq'⟩

section Runs

variable {s₀ : Db} {w₀ : ℕ} {tr : List (Served Http Db Json)} {e : Served Http Db Json}

theorem below_of_serves (he : machine.Serves (serve env) e w w')
    (hseq : Audit.SeqBelow e.before.auditEvents w) : Audit.SeqBelow e.after.auditEvents w' := by
  cases he with
  | ok hexec => exact (exec_serve hexec hseq).2
  | failed hmoves => exact hseq.mono (moves_le hmoves)

theorem below_of_run (hseq : Audit.SeqBelow s₀.auditEvents w₀)
    (h : machine.Run (serve env) s₀ w₀ tr s w) : Audit.SeqBelow s.auditEvents w :=
  Machine.Run.invariant (I := fun s w ↦ Audit.SeqBelow s.auditEvents w) hseq
    (fun _ _ _ hbelow he ↦ below_of_serves he hbelow) h

/-- An entry of a run has the effect of its endpoint, or failed and left the
database as it was. -/
theorem effect_of_mem (hseq : Audit.SeqBelow s₀.auditEvents w₀)
    (h : machine.Run (serve env) s₀ w₀ tr s w) (he : e ∈ tr) :
    (∃ actor, Effect env actor e.before e.request.request e.after) ∨
      e.outcome = none ∧ e.after = e.before := by
  obtain ⟨pre, post, rfl⟩ := List.append_of_mem he
  obtain ⟨w₁, w₂, hpre, hserves, _⟩ := h.split
  cases hserves with
  | ok hexec => exact Or.inl (exec_serve hexec (below_of_run hseq hpre)).1
  | failed _ => exact Or.inr ⟨rfl, rfl⟩

/-- What every effect preserves holds in every state of a run. -/
theorem invariant_of_effects {I : Db → Prop} (h₀ : I s₀)
    (hstep : ∀ {actor s s' request}, I s → Effect env actor s request s' → I s')
    (hseq : Audit.SeqBelow s₀.auditEvents w₀) (h : machine.Run (serve env) s₀ w₀ tr s w) :
    I s := by
  refine (Machine.Run.invariant (I := fun s w ↦ Audit.SeqBelow s.auditEvents w ∧ I s)
    ⟨hseq, h₀⟩ ?_ h).2
  rintro e w w' ⟨hbelow, hI⟩ he
  refine ⟨below_of_serves he hbelow, ?_⟩
  cases he with
  | ok hexec =>
      obtain ⟨⟨actor, heffect⟩, _⟩ := exec_serve hexec hbelow
      exact hstep hI heffect
  | failed _ => exact hI

end Runs

/-- What serving a submission request runs. -/
theorem exec_serve_submission {http : Http} {taskId expertId : String}
    {content : List (String × Json)} (h : machine.Exec (serve env http) s w r s' w')
    (hrequest : http.request = .createSubmission taskId expertId content) :
    ∃ task expert sub, s.tasks.find? taskId = some task ∧ s.experts.find? expertId = some expert ∧
      machine.Exec (Engine.submit env task expert (.obj content)) s w sub s' w' := by
  obtain ⟨authorization, xActorId, request⟩ := http
  subst hrequest
  have hserve : serve env ⟨authorization, xActorId, .createSubmission taskId expertId content⟩ =
      Auth.currentActor env submitRoles authorization xActorId >>= fun actor ↦
        createSubmission env actor taskId expertId content := rfl
  rw [hserve, Machine.exec_bind] at h
  obtain ⟨actor, s₁, w₁, hactor, h⟩ := h
  obtain ⟨rfl, rfl⟩ := Auth.exec_currentActor env hactor
  exact exec_submit_of_createSubmission h

end Api

end HumanDataFactory
