import HumanDataFactory.Provenance.Billing
import HumanDataFactory.Provenance.Workflow

/-!
# The endpoints keep to the terms

Each endpoint for an actor with the authority it asks for, and the routing
that finds the actor.
-/

namespace HumanDataFactory

open Transact

namespace Provenance

variable {env : Env} {A : Authority env} {s t : Db} {actor : Auth.Actor}

theorem settles_getOr404_bind {α β : Type} {model id : String} {q : TableName}
    {find : Db → Option α} {f : α → Tx β} {R : β → Db → Prop} {e : Set Deed}
    (hf : ∀ a t, s.Grows t → AllGrounded env t → find t = some a → Settles A e (f a) R t) :
    Settles A e (Api.getOr404 model id q find >>= f) R s := by
  rw [Api.getOr404, Prog.bind_assoc]
  exact Settles.select_bind fun t hst hI ↦ Settles.getSome_bind fun a ha ↦ hf a t hst hI ha

/-- A row is added and its creation recorded under the caller's name. -/
theorem settles_create_bind {β : Type} {u : Write} {action entityType id : String} {payload : Json}
    {f : AuditEvent → Tx β} {R : β → Db → Prop} (hdue : Due env A.holds s u)
    (howes : owes u = {.created entityType id}) (hactor : A.holds actor s) {roles : List Role}
    (hroles : actionRoles action = some roles) (hrole : actor.role ∈ roles)
    (haction : action ∈ CREATIONS) (hf : ∀ ev t, s.Grows t → Settles A ∅ (f ev) R t) :
    Settles A ∅ (Session.write u >>= fun _ ↦
      Audit.record env actor.id action entityType id payload >>= f) R s := by
  refine Settles.emit_bind hdue fun t hst _ ↦ ?_
  refine (settles_sign (A.mono hst hactor) ?_ ?_ ?_).bind_paid fun ev u htu _ ↦ ?_
  · intro roles' hroles'
    obtain rfl := Option.some.inj (hroles.symm.trans hroles')
    exact hrole
  · rintro rfl
    exact absurd haction (by decide)
  · exact shows_created howes.subset haction
  · exact hf ev u (hst.trans htu)

theorem settles_issueKey {user : User} (huser : user ∈ s.users) :
    Settles A ∅ (Auth.issueKey env user) (fun _ _ ↦ True) s := by
  refine Settles.ask_bind fun secret ↦ Settles.ask_bind fun id ↦ ?_
  refine (Settles.emit ?_ (by simp [owes, Write.adds, deedsOf])).bind fun _ _ _ _ ↦ .pure trivial
  exact ⟨user, huser, rfl⟩

theorem settles_checkLinked {α : Type} {model : String} {q : TableName} {id : Option String}
    {find : String → Db → Option α} {P : String → Db → Prop}
    (hfind : ∀ id a t, find id t = some a → P id t) :
    Settles A ∅ (Api.checkLinked (fun id ↦ Api.getOr404 model id q (find id)) id)
      (fun _ t ↦ ∀ i, StripeGateway.truthyId id = some i → P i t) s := by
  unfold Api.checkLinked
  cases hid : StripeGateway.truthyId id with
  | none =>
      refine .pure ?_
      rintro i ⟨⟩
  | some i =>
      refine settles_getOr404_bind fun a t _ _ ha ↦ .pure ?_
      rintro _ ⟨⟩
      exact hfind i a t ha

theorem settles_bootstrap {name email : String} :
    Settles A ∅ (Api.bootstrap env name email) (fun _ _ ↦ True) s := by
  refine Settles.select_bind fun t₁ _ _ ↦ Settles.ensure_bind fun _ ↦ Settles.ask_bind fun id ↦ ?_
  refine Settles.emit_bind ?_ fun t₂ _ hadds ↦ ?_
  · have hrole {role : Role} (hne : Role.admin ≠ role) {c : Prop} (h : Role.admin = role) : c :=
      absurd h hne
    exact ⟨{
      firm := by rintro _ ⟨⟩
      expert := by rintro _ ⟨⟩
      client := hrole (by decide)
      linked := fun h ↦ h.elim (hrole (by decide)) (hrole (by decide)) }, rfl⟩
  · refine (settles_issueKey (hadds _ rfl)).bind fun key t₃ _ _ ↦ ?_
    refine (Settles.note_for rfl ?_).bind_paid fun _ _ _ _ ↦ .pure trivial
    exact shows_created (by simp [owes, Write.adds, deedsOf]) (by decide)

theorem settles_createUser {body : Api.UserIn} (hactor : A.holds actor s)
    (hrole : actor.role ∈ Api.adminOnly) :
    Settles A ∅ (Api.createUser env actor body) (fun _ _ ↦ True) s := by
  refine Settles.select_bind fun t₁ h₁ _ ↦ Settles.scalarOneOrNone_bind fun other _ ↦ ?_
  refine Settles.ensure_bind fun _ ↦ Settles.ensure_bind fun hclient ↦ ?_
  refine Settles.ensure_bind fun hlinked ↦ ?_
  refine (settles_checkLinked (P := fun id t ↦ HasFirm t id) ?_).bind fun _ t₂ h₂ hfirm ↦ ?_
  · exact fun id a t ha ↦ ⟨a, Table.find?_eq_some.mp ha⟩
  refine (settles_checkLinked (P := fun id t ↦ HasExpert t id) ?_).bind fun _ t₃ h₃ hexpert ↦ ?_
  · exact fun id a t ha ↦ ⟨a, Table.find?_eq_some.mp ha⟩
  refine Settles.ask_bind fun id ↦ Settles.emit_bind ?_ fun t₄ h₄ hadds ↦ ?_
  · exact ⟨{
      firm := fun i hi ↦ (hfirm i hi).mono h₃
      expert := hexpert
      client := fun hrole hnone ↦ hclient ⟨hrole, hnone⟩
      linked := fun hrole hnone ↦ hlinked ⟨hrole, hnone⟩ }, rfl⟩
  · refine (settles_issueKey (hadds _ rfl)).bind fun key t₅ h₅ _ ↦ ?_
    have hst : s.Grows t₅ := h₁.trans (h₂.trans (h₃.trans (h₄.trans h₅)))
    refine (settles_sign (A.mono hst hactor) ?_ (by decide) ?_).bind_paid
      fun _ _ _ _ ↦ .pure trivial
    · rintro roles ⟨⟩
      exact hrole
    · exact shows_created (by simp [owes, Write.adds, deedsOf]) (by decide)

theorem settles_revokeUser {userId : String} (hactor : A.holds actor s)
    (hrole : actor.role ∈ Api.adminOnly) :
    Settles A ∅ (Api.revokeUser env actor userId) (fun _ _ ↦ True) s := by
  refine settles_getOr404_bind fun user t₁ h₁ _ _ ↦ ?_
  refine Settles.emit_bind (by exact trivial) fun t₂ h₂ _ ↦ Settles.select_bind fun t₃ h₃ _ ↦ ?_
  refine (Settles.emitAll ?_ ?_).bind fun _ t₄ h₄ _ ↦ ?_
  · intro u hu
    obtain ⟨k, _, rfl⟩ := List.mem_map.mp hu
    exact trivial
  · intro u hu
    obtain ⟨k, _, rfl⟩ := List.mem_map.mp hu
    simp [owes, Write.adds]
  · have hst : s.Grows t₄ := h₁.trans (h₂.trans (h₃.trans h₄))
    refine (settles_sign (A.mono hst hactor) ?_ (by decide) ?_).bind_paid
      fun _ _ _ _ ↦ .pure trivial
    · rintro roles ⟨⟩
      exact hrole
    · rintro ev hev d (hd | rfl)
      · exact hd.elim
      · exact ⟨congrArg Audit.Entry.action hev, congrArg Audit.Entry.entityId hev⟩

theorem settles_createFirm {body : Api.FirmIn} (hactor : A.holds actor s)
    (hrole : actor.role ∈ Api.adminOnly) :
    Settles A ∅ (Api.createFirm env actor body) (fun _ _ ↦ True) s := by
  refine Settles.select_bind fun t₁ h₁ _ ↦ Settles.scalarOneOrNone_bind fun other _ ↦ ?_
  refine Settles.ensure_bind fun _ ↦ Settles.ask_bind fun id ↦ ?_
  refine settles_create_bind (by exact trivial) (by simp [owes, Write.adds, deedsOf])
    (A.mono h₁ hactor) rfl hrole (by decide) fun _ _ _ ↦ ?_
  exact .pure trivial

theorem settles_createRateCard {firmId : String} {body : Api.RateCardIn}
    (hactor : A.holds actor s) (hrole : actor.role ∈ Api.adminOnly) :
    Settles A ∅ (Api.createRateCard env actor firmId body) (fun _ _ ↦ True) s := by
  refine settles_getOr404_bind fun firm t₁ h₁ _ hfirm ↦ Settles.select_bind fun t₂ h₂ _ ↦ ?_
  have hfirm : HasFirm t₁ firm.id := ⟨firm, Table.mem_of_find? hfirm, rfl⟩
  refine (Settles.emitAll ?_ ?_).bind fun _ t₃ h₃ _ ↦ ?_
  · intro u hu
    obtain ⟨k, _, rfl⟩ := List.mem_map.mp hu
    exact trivial
  · intro u hu
    obtain ⟨k, _, rfl⟩ := List.mem_map.mp hu
    simp [owes, Write.adds]
  · refine Settles.ask_bind fun id ↦ Settles.ask_bind fun now ↦ ?_
    refine settles_create_bind ?_ (by simp [owes, Write.adds, deedsOf])
      (A.mono (h₁.trans (h₂.trans h₃)) hactor) rfl hrole (by decide) fun _ _ _ ↦ ?_
    · exact ⟨⟨firm.id, rfl, hfirm.mono (h₂.trans h₃)⟩, body.positive⟩
    · exact .pure trivial

theorem settles_createExpert {body : Api.ExpertIn} (hactor : A.holds actor s)
    (hrole : actor.role ∈ Api.internal) :
    Settles A ∅ (Api.createExpert env actor body) (fun _ _ ↦ True) s := by
  refine Settles.select_bind fun t₁ h₁ _ ↦ Settles.scalarOneOrNone_bind fun other _ ↦ ?_
  refine Settles.ensure_bind fun _ ↦ Settles.ask_bind fun id ↦ ?_
  refine settles_create_bind (by exact rfl) (by simp [owes, Write.adds, deedsOf])
    (A.mono h₁ hactor) rfl hrole (by decide) fun _ _ _ ↦ ?_
  exact .pure trivial

theorem settles_recordExam {expertId : String} {body : Api.ExamIn} (hactor : A.holds actor s)
    (hrole : actor.role ∈ Api.internal) :
    Settles A ∅ (Api.recordExam env actor expertId body) (fun _ _ ↦ True) s := by
  refine settles_getOr404_bind fun expert t₁ h₁ _ hexpert ↦ Settles.ask_bind fun id ↦ ?_
  refine (Settles.emit ?_ (by simp [owes, Write.adds, deedsOf])).bind fun _ t₂ h₂ hadds ↦ ?_
  · exact {
      expert := ⟨expert, Table.mem_of_find? hexpert, rfl⟩
      passed := rfl
      inRange := body.inRange }
  · refine (Settles.writeIf ?_ (by simp [owes, Write.adds])).bind fun _ t₃ h₃ _ ↦ ?_
    · exact fun hq _ ↦ ⟨body.track, _, hadds _ rfl, rfl, rfl, hq.1⟩
    · refine (settles_sign (A.mono (h₁.trans (h₂.trans h₃)) hactor) ?_ (by decide) ?_).bind
        fun _ _ _ _ ↦ .pure trivial
      · rintro roles ⟨⟩
        exact hrole
      · simp

theorem settles_createProject {body : Api.ProjectIn} (hactor : A.holds actor s)
    (hrole : actor.role ∈ Api.internal) :
    Settles A ∅ (Api.createProject env actor body) (fun _ _ ↦ True) s := by
  refine settles_getOr404_bind fun firm t₁ h₁ _ hfirm ↦ Settles.ensure_bind fun hrubric ↦ ?_
  refine Settles.ask_bind fun id ↦ ?_
  refine settles_create_bind ?_ (by simp [owes, Write.adds, deedsOf])
    (A.mono h₁ hactor) rfl hrole (by decide) fun _ _ _ ↦ ?_
  · exact {
      firm := ⟨firm, Table.find?_eq_some.mp hfirm⟩
      rubric := hrubric
      creator := by_known (A.mono h₁ hactor) hrole }
  · exact .pure trivial

/-- A gold task that is admitted has an answer to compare with. -/
theorem goldAnswerOf_newTask {project : Project} {body : Api.TaskIn} {id : String} {now : Time}
    (h : ¬(body.isGold = true ∧ Api.lacksGoldAnswer body = true))
    (hgold : (Api.newTask project body id now).isGold = true) :
    (Engine.goldAnswerOf (Api.newTask project body id now)).isSome = true := by
  have hbody : body.isGold = true := hgold
  have hsome : Api.lacksGoldAnswer body = false := by simpa [hbody] using h
  unfold Api.lacksGoldAnswer at hsome
  cases hanswer : body.goldAnswer with
  | none => simp [hanswer] at hsome
  | some kvs =>
      rw [hanswer] at hsome
      simp_all [Engine.goldAnswerOf, Api.newTask, Option.filter, Json.truthy]

theorem settles_createTask {projectId : String} {body : Api.TaskIn} (hactor : A.holds actor s)
    (hrole : actor.role ∈ Api.internal) :
    Settles A ∅ (Api.createTask env actor projectId body) (fun _ _ ↦ True) s := by
  refine settles_getOr404_bind fun project t₁ h₁ _ hproject ↦ Settles.ensure_bind fun hgold ↦ ?_
  refine Settles.ask_bind fun id ↦ Settles.ask_bind fun now ↦ ?_
  refine settles_create_bind ?_ (by simp [owes, Write.adds, deedsOf, Api.newTask])
    (A.mono h₁ hactor) rfl hrole (by decide) fun _ _ _ ↦ ?_
  · exact {
      project := ⟨project, Table.mem_of_find? hproject, rfl⟩
      gold := goldAnswerOf_newTask hgold
      assigned := by rintro e ⟨⟩
      finished := fun h ↦ absurd h (by simp [Api.newTask]) }
  · exact .pure trivial

theorem settles_assignTask {taskId expertId : String} (hactor : A.holds actor s)
    (hrole : actor.role ∈ Api.internal) :
    Settles A ∅ (Api.assignTask env actor taskId expertId) (fun _ _ ↦ True) s := by
  refine settles_getOr404_bind fun task t₁ h₁ _ htask ↦ ?_
  refine settles_getOr404_bind fun expert t₂ h₂ _ hexpert ↦ ?_
  refine Settles.select_bind fun t₃ h₃ _ ↦ Settles.getSome_bind fun project hproject ↦ ?_
  refine settles_assertQualified.mapErr.bind fun _ t₄ h₄ hq ↦ ?_
  obtain ⟨hproject, hpid⟩ := Table.find?_eq_some.mp hproject
  have hassigned : HasExpert t₄ expert.id ∧ EntitledTo t₄ expert.id task.id := by
    have hexpert₂ : HasExpert t₂ expert.id := ⟨expert, Table.mem_of_find? hexpert, rfl⟩
    obtain ⟨_, _, htask₄⟩ := (h₂.trans (h₃.trans h₄)).task (Table.mem_of_find? htask)
    exact ⟨hexpert₂.mono (h₃.trans h₄), _, htask₄, rfl, project, h₄.project hproject, hpid, hq⟩
  refine (Settles.emit ?_ (by simp [owes, Write.adds])).bind fun _ t₅ h₅ _ ↦ ?_
  · rintro e ⟨⟩
    exact hassigned
  · refine (Settles.emit ?_ (by simp [owes, Write.adds])).bind fun _ t₆ h₆ _ ↦ ?_
    · exact fun h ↦ absurd h (by decide)
    · have hst : s.Grows t₆ := h₁.trans (h₂.trans (h₃.trans (h₄.trans (h₅.trans h₆))))
      refine (settles_sign (A.mono hst hactor) ?_ (by decide) (by simp)).bind
        fun _ _ _ _ ↦ .pure trivial
      rintro roles ⟨⟩
      exact hrole

theorem settles_createSubmission {taskId expertId : String} {content : List (String × Json)} :
    Settles A ∅ (Api.createSubmission env actor taskId expertId content) (fun _ _ ↦ True) s := by
  refine Settles.ensure_bind fun _ ↦ settles_getOr404_bind fun task t₁ _ hI htask ↦ ?_
  refine settles_getOr404_bind fun expert t₂ h₂ _ hexpert ↦ ?_
  have htask₁ := Table.mem_of_find? htask
  obtain ⟨_, _, htask₂⟩ := h₂.task htask₁
  refine (settles_submit ?_ ?_ ?_).mapErr.bind fun sub _ _ _ ↦
    Settles.select_bind fun _ _ _ ↦ .pure trivial
  · exact ⟨_, htask₂, rfl, rfl, rfl⟩
  · have hgrounds : TaskGrounds t₁ task := hI (.task task) htask₁
    exact hgrounds.gold
  · exact ⟨expert, Table.mem_of_find? hexpert, rfl⟩

theorem settles_postHumanReview {submissionId : String} {body : Api.HumanReviewIn} :
    Settles A ∅ (Api.postHumanReview env actor submissionId body) (fun _ _ ↦ True) s := by
  refine Settles.ensure_bind fun _ ↦ settles_getOr404_bind fun sub t₁ _ hI₁ hsub ↦ ?_
  refine settles_getOr404_bind fun reviewer t₂ h₂ hI₂ hreviewer ↦ ?_
  have hsub₁ := Table.mem_of_find? hsub
  have hreviewer₂ := Table.mem_of_find? hreviewer
  have hgrounds : SubmissionGrounds t₁ sub := hI₁ (.submission sub) hsub₁
  obtain ⟨_, _, hsub₂⟩ := h₂.submission hsub₁
  refine (settles_humanReview ?_ (hgrounds.mono h₂) ?_ ?_).mapErr.bind fun _ _ _ _ ↦ .pure trivial
  · exact ⟨_, hsub₂, rfl, rfl, rfl⟩
  · exact ⟨reviewer, hreviewer₂, rfl, rfl⟩
  · exact hI₂ (.expert reviewer) hreviewer₂

theorem settles_postInvoice {firmId : String} {periodStart periodEnd : Time}
    (hactor : A.holds actor s) (hrole : actor.role ∈ Api.internal) :
    Settles A ∅ (Api.generateInvoice env actor firmId periodStart periodEnd)
      (fun _ _ ↦ True) s := by
  refine settles_getOr404_bind fun firm t h _ hfirm ↦ ?_
  exact (settles_generateInvoice (Table.mem_of_find? hfirm) (A.mono h hactor) hrole).mapErr.bind
    fun _ _ _ _ ↦ .pure trivial

theorem settles_createInvoiceCheckout {invoiceId successUrl cancelUrl : String}
    (hactor : A.holds actor s) (hrole : actor.role ∈ Api.anyAuthenticated) :
    Settles A ∅ (Api.createInvoiceCheckout env actor invoiceId successUrl cancelUrl)
      (fun _ _ ↦ True) s := by
  refine settles_getOr404_bind fun inv t₁ h₁ _ hinv ↦ Settles.ensure_bind fun haccess ↦ ?_
  refine settles_getOr404_bind fun firm t₂ h₂ _ _ ↦ ?_
  obtain ⟨b, hb, hid, hfirm, _⟩ := h₂.invoice (Table.mem_of_find? hinv)
  refine (settles_createCheckout ?_ (A.mono (h₁.trans h₂) hactor) hrole haccess).mapErr.bind
    fun _ _ _ _ ↦ .pure trivial
  exact ⟨b, hb, hid, hfirm⟩

theorem settles_postPayment {invoiceId reference : String} (hactor : A.holds actor s)
    (hrole : actor.role ∈ Api.internal) :
    Settles A ∅ (Api.recordExternalPayment env actor invoiceId reference) (fun _ _ ↦ True) s := by
  refine settles_getOr404_bind fun inv t h _ hinv ↦ ?_
  have hmode : InvoiceIs t inv.id inv.mode := ⟨inv, Table.mem_of_find? hinv, rfl, rfl⟩
  exact (settles_recordExternalPayment hmode (A.mono h hactor) hrole).mapErr.bind
    fun _ _ _ _ ↦ .pure trivial

theorem writeless_unreviewed (rows : List (Task × Submission)) :
    (Export.unreviewed rows).Writeless := by
  induction rows with
  | nil => exact .pure _
  | cons row rows ih => exact (Prog.Writeless.select _ _).bind fun _ ↦ ih.bind fun _ ↦ .pure _

theorem writeless_controlReport (project : Project) :
    (Export.controlReport env project).Writeless :=
  (Prog.Writeless.select _ _).bind fun _ ↦ (Prog.Writeless.select _ _).bind fun _ ↦
    (writeless_unreviewed _).bind fun _ ↦ (Prog.Writeless.select _ _).bind fun _ ↦ .pure _

theorem settles_requestExport {projectId : String} (hactor : A.holds actor s)
    (hrole : actor.role ∈ Api.internal) :
    Settles A ∅ (Api.requestExport env actor projectId) (fun _ _ ↦ True) s := by
  refine settles_getOr404_bind fun project t₁ h₁ _ hproject ↦ ?_
  refine Settles.bind (P := fun _ _ ↦ True) (Settles.mapErr ?_) fun _ _ _ _ ↦ .pure trivial
  refine (Settles.of_writeless (writeless_controlReport project)).bind fun report t₂ h₂ _ ↦ ?_
  refine Settles.ensure_bind fun _ ↦ Settles.ask_bind fun id ↦ ?_
  have hactor₂ := A.mono (h₁.trans h₂) hactor
  refine settles_create_bind ?_ (by simp [owes, Write.adds, deedsOf, Export.newBatch])
    hactor₂ rfl hrole (by decide) fun _ _ _ ↦ ?_
  · exact ⟨{
      project := ⟨project, h₂.project (Table.mem_of_find? hproject), rfl⟩
      requester := by_known hactor₂ hrole
      released := fun h ↦ absurd h (by simp [Export.newBatch])
      pending := fun _ ↦ rfl }, rfl⟩
  · exact .pure trivial

theorem settles_approveAndMaterialize {batch : ExportBatch} {approvedBy : String}
    (hbatch : batch ∈ s.exportBatches) (hby : By A.holds s Api.internal approvedBy) :
    Settles A ∅ (Export.approveAndMaterialize env batch approvedBy) (fun _ _ ↦ True) s := by
  obtain ⟨actor, hactor, rfl, hrole⟩ := hby
  refine Settles.ensure_bind fun _ ↦ Settles.ensure_bind fun hdual ↦ ?_
  refine Settles.select_bind fun t₁ h₁ _ ↦ Settles.getSome_bind fun project _ ↦ ?_
  refine Settles.select_bind fun t₂ h₂ _ ↦ Settles.ofExcept_bind fun records _ ↦ ?_
  refine Settles.ask_bind fun made ↦ Settles.getSome_bind fun _ _ ↦ ?_
  refine (Settles.of_writeless (Export.writeless_writeFiles _ _ _)).bind fun files t₃ h₃ _ ↦ ?_
  refine Settles.select_bind fun t₄ h₄ _ ↦ Settles.getSome_bind fun firm _ ↦ ?_
  refine Settles.select_bind fun t₅ h₅ _ ↦ Settles.ask_bind fun now ↦ ?_
  refine Settles.ofExcept_bind fun old _ ↦ ?_
  refine (Settles.of_writeless (Export.writeless_storeFiles _ _ _)).bind fun manifest t₆ h₆ _ ↦ ?_
  refine Settles.ofExcept_bind fun backend _ ↦ ?_
  have hst : s.Grows t₆ := h₁.trans (h₂.trans (h₃.trans (h₄.trans (h₅.trans h₆))))
  obtain ⟨b, hb, hid, _, hreq, _⟩ := hst.exportBatch hbatch
  have hactor₆ := A.mono hst hactor
  refine Settles.emit_bind ?_ fun t₇ h₇ _ ↦ ?_
  · exact ⟨b, hb, hid, actor.id, rfl, by rw [hreq]; exact hdual.symm, by_known hactor₆ hrole⟩
  · refine (settles_sign (A.mono h₇ hactor₆) ?_ (by decide) ?_).bind_paid
      fun _ _ _ _ ↦ .pure trivial
    · rintro roles ⟨⟩
      exact hrole
    · rintro ev hev d (hd | rfl)
      · exact hd.elim
      · exact ⟨congrArg Audit.Entry.action hev, congrArg Audit.Entry.entityId hev⟩

theorem settles_approveExport {batchId approvedBy : String} (hactor : A.holds actor s)
    (hrole : actor.role ∈ Api.internal) :
    Settles A ∅ (Api.approveExport env actor batchId approvedBy) (fun _ _ ↦ True) s := by
  refine settles_getOr404_bind fun batch t h _ hbatch ↦ ?_
  refine (settles_approveAndMaterialize (Table.mem_of_find? hbatch) ?_).mapErr.bind
    fun _ _ _ _ ↦ .pure trivial
  unfold Api.approver
  split
  · rename_i hdev
    -- in dev mode the approver is whoever the request names
    exact ⟨⟨approvedBy, "", .admin, none, none⟩, A.dev hdev _ _, rfl, List.mem_cons_self⟩
  · exact ⟨actor, A.mono h hactor, rfl, hrole⟩

/-- What authentication makes sure of: the actor is an active user. -/
def Resolved (env : Env) (actor : Auth.Actor) (s : Db) : Prop :=
  env.authDisabled = false → ∃ user ∈ s.users, user.active = true ∧ actorOf user = actor

theorem settles_currentActor {allowed : List Role} {authorization xActorId : Option String} :
    Settles A ∅ (Auth.currentActor env allowed authorization xActorId)
      (fun actor t ↦ Resolved env actor t ∧ actor.role ∈ allowed) s := by
  have hresolve : Settles A ∅ (Auth.resolve env authorization xActorId)
      (fun actor t ↦ Resolved env actor t) s := by
    unfold Auth.resolve
    split
    · rename_i hdev
      exact .pure fun henv ↦ by simp [hdev] at henv
    · refine Settles.getSome_bind fun token _ ↦ Settles.select_bind fun t _ _ ↦ ?_
      refine Settles.getSome_bind fun user hfound ↦ .pure fun _ ↦ ?_
      obtain ⟨k, _, hmem⟩ := List.mem_flatMap.mp (List.mem_of_mem_head? hfound)
      obtain ⟨huser, hof⟩ := List.mem_filter.mp hmem
      exact ⟨user, huser, (of_decide_eq_true hof).2, rfl⟩
  intro d d₀ hd
  refine hresolve.bind (P := fun actor t ↦ Resolved env actor t) (fun actor t _ hres ↦ ?_) d d₀ hd
  exact Settles.ensure_bind fun hrole ↦ .pure ⟨hres, hrole⟩

/-- Each endpoint, for an actor its guard admits. -/
theorem settles_handle {req : Api.Request}
    (h : ∀ roles, Api.rolesOf req = some roles → A.holds actor s ∧ actor.role ∈ roles) :
    Settles A ∅ (Api.handle env actor req) (fun _ _ ↦ True) s := by
  cases req with
  | bootstrap name email => exact settles_bootstrap
  | createUser body => exact settles_createUser (h _ rfl).1 (h _ rfl).2
  | revokeUser userId => exact settles_revokeUser (h _ rfl).1 (h _ rfl).2
  | createFirm body => exact settles_createFirm (h _ rfl).1 (h _ rfl).2
  | createRateCard firmId body => exact settles_createRateCard (h _ rfl).1 (h _ rfl).2
  | createExpert body => exact settles_createExpert (h _ rfl).1 (h _ rfl).2
  | recordExam expertId body => exact settles_recordExam (h _ rfl).1 (h _ rfl).2
  | createProject body => exact settles_createProject (h _ rfl).1 (h _ rfl).2
  | createTask projectId body => exact settles_createTask (h _ rfl).1 (h _ rfl).2
  | assignTask taskId expertId => exact settles_assignTask (h _ rfl).1 (h _ rfl).2
  | createSubmission taskId expertId content => exact settles_createSubmission
  | postHumanReview submissionId body => exact settles_postHumanReview
  | generateInvoice firmId periodStart periodEnd =>
      exact settles_postInvoice (h _ rfl).1 (h _ rfl).2
  | createInvoiceCheckout invoiceId successUrl cancelUrl =>
      exact settles_createInvoiceCheckout (h _ rfl).1 (h _ rfl).2
  | recordExternalPayment invoiceId reference => exact settles_postPayment (h _ rfl).1 (h _ rfl).2
  | stripeWebhook payload signature =>
      exact Settles.ofExcept_bind fun event _ ↦ settles_handleStripeEvent
  | requestExport projectId => exact settles_requestExport (h _ rfl).1 (h _ rfl).2
  | approveExport batchId approvedBy => exact settles_approveExport (h _ rfl).1 (h _ rfl).2

/-- A whole request, under any authority that authentication gives. -/
theorem settles_serve {http : Api.Http}
    (h : ∀ actor t, s.Grows t → Resolved env actor t → A.holds actor t) :
    Settles A ∅ (Api.serve env http) (fun _ _ ↦ True) s := by
  unfold Api.serve
  cases hroles : Api.rolesOf http.request with
  | none => exact settles_handle (by simp [hroles])
  | some allowed =>
      refine settles_currentActor.bind fun actor t hst ⟨hres, hrole⟩ ↦ settles_handle ?_
      rw [hroles]
      rintro _ ⟨⟩
      exact ⟨h actor t hst hres, hrole⟩

end Provenance

end HumanDataFactory
