import HumanDataFactory.Provenance.Statements

/-!
# The workflow keeps to the terms

From a submission to its verdict and its charge: every part of the engine makes
its writes on the facts it has read or written before.
-/

namespace HumanDataFactory

open Transact

namespace Provenance

variable {env : Env} {A : Authority env} {s t : Db}

/-! ## Parts of the workflow -/

theorem settles_addReview {submissionId reviewerId taskId expertId : String} {kind : ReviewKind}
    {verdict : Verdict} {overall : Option PyFloat} {detail : Json}
    (hof : SubmissionOf s submissionId taskId expertId)
    (hjudged : JudgedBy s reviewerId taskId expertId kind) :
    Settles A ∅ (Engine.addReview submissionId kind reviewerId verdict overall detail)
      (fun _ t ↦ Reviewed t submissionId kind verdict) s := by
  refine Settles.ask_bind fun id ↦ Settles.ask_bind fun now ↦ ?_
  refine (Settles.emit ?_ (by simp [owes, Write.adds, deedsOf])).bind fun _ t _ hadds ↦ ?_
  · exact ⟨taskId, expertId, hof, hjudged⟩
  · exact .pure ⟨_, hadds _ rfl, rfl, rfl, rfl⟩

/-- Only an expert with a passed exam is suspended. -/
theorem settles_maybeSuspend {expert : Expert} (hq : ∃ track, Qualified s expert.id track) :
    Settles A ∅ (Controls.maybeSuspend expert) (fun _ _ ↦ True) s := by
  unfold Controls.maybeSuspend
  split
  · refine (Settles.emit (by exact fun _ ↦ hq) (by simp [owes, Write.adds])).bind fun _ _ _ _ ↦ ?_
    exact .pure trivial
  · exact .pure trivial

theorem Qualified.some_mono {id : String} (h : s.Grows t) (hq : ∃ track, Qualified s id track) :
    ∃ track, Qualified t id track := by
  obtain ⟨track, hq⟩ := hq
  exact ⟨track, hq.mono h⟩

theorem settles_updateQualityScore {expert : Expert} {score : PyFloat}
    (hq : ∃ track, Qualified s expert.id track) :
    Settles A ∅ (Controls.updateQualityScore expert score) (fun _ _ ↦ True) s :=
  (Settles.emit (by exact trivial) (by simp [owes, Write.adds])).bind fun _ _ hst _ ↦
    settles_maybeSuspend (Qualified.some_mono hst hq)

theorem settles_registerGoldResult {expert : Expert} {passed : Bool}
    (hq : ∃ track, Qualified s expert.id track) :
    Settles A ∅ (Controls.registerGoldResult expert passed) (fun _ _ ↦ True) s := by
  have hcount {u : Write} (hdue : ∀ t, Due env A.holds t u) (howes : owes u = ∅)
      {f : Unit → Tx Expert} (hf : ∀ t, s.Grows t → Settles A ∅ (f ()) (fun _ _ ↦ True) t) :
      Settles A ∅ (Session.write u >>= f) (fun _ _ ↦ True) s :=
    (Settles.emit (hdue s) howes).bind fun _ t hst _ ↦ hf t hst
  cases passed with
  | true =>
      refine hcount (fun _ ↦ by exact trivial) (by simp [owes, Write.adds]) fun t hst ↦ ?_
      exact settles_maybeSuspend (Qualified.some_mono hst hq)
  | false =>
      refine hcount (fun _ ↦ by exact trivial) (by simp [owes, Write.adds]) fun t hst ↦ ?_
      refine (Settles.emit (by exact trivial) (by simp [owes, Write.adds])).bind fun _ u htu _ ↦ ?_
      exact settles_maybeSuspend (Qualified.some_mono (hst.trans htu) hq)

/-! ## Charging -/

theorem pricedBy_newestRate {scope : Option String} {firmId : String} {taskType : TaskType}
    {card : RateCard} (hscope : scope = some firmId ∨ scope = none)
    (h : Billing.newestRate env s scope taskType = some card) :
    PricedBy env s firmId taskType card.unitPriceCents := by
  have hmem : card ∈ Billing.rateCardsFor s scope taskType :=
    (env.orderBy_perm _ _).mem_iff.mp (List.mem_of_mem_head? h)
  obtain ⟨hc, hof⟩ := List.mem_filter.mp hmem
  obtain ⟨rfl, htype, _⟩ := of_decide_eq_true hof
  exact Or.inl ⟨card, hc, hscope, htype, rfl⟩

theorem settles_resolveUnitPriceCents (firmId : String) (taskType : TaskType) :
    Settles A ∅ (Billing.resolveUnitPriceCents env firmId taskType)
      (fun price t ↦ PricedBy env t firmId taskType price) s := by
  refine Settles.select_bind fun t _ _ ↦ ?_
  cases hown : Billing.newestRate env t (some firmId) taskType with
  | some card => exact .pure (pricedBy_newestRate (Or.inl rfl) hown)
  | none =>
      refine Settles.select_bind fun u _ _ ↦ ?_
      cases hcommon : Billing.newestRate env u none taskType with
      | some card => exact .pure (pricedBy_newestRate (Or.inr rfl) hcommon)
      | none => exact .pure (Or.inr rfl)

/-- What the charge for an approved submission rests on. -/
structure Chargeable (s : Db) (project : Project) (task : Task) (sub : Submission) : Prop where
  row : project ∈ s.projects
  taskRow : task.isGold = false → ∃ a ∈ s.tasks,
    a.id = task.id ∧ a.projectId = project.id ∧ a.isGold = false
  submission : ∃ expertId, SubmissionOf s sub.id task.id expertId
  screened : Screened s sub.id
  passed : Passed s sub.id

theorem Chargeable.mono {project : Project} {task : Task} {sub : Submission} (h : s.Grows t)
    (hs : Chargeable s project task sub) : Chargeable t project task sub where
  row := h.project hs.row
  taskRow := by
    intro hgold
    obtain ⟨a, ha, hof⟩ := hs.taskRow hgold
    obtain ⟨_, _, hb⟩ := h.task ha
    exact ⟨_, hb, hof⟩
  submission := by
    obtain ⟨expertId, hof⟩ := hs.submission
    exact ⟨expertId, hof.mono h⟩
  screened := hs.screened.mono h
  passed := hs.passed.mono h

theorem settles_meter {project : Project} {task : Task} {sub : Submission}
    (hgold : task.isGold = false) (hc : Chargeable s project task sub) :
    Settles A ∅ (Billing.meter env project task sub) (fun _ _ ↦ True) s := by
  refine Settles.select_bind fun t₁ h₁ _ ↦ Settles.getSome_bind fun firm hfound ↦ ?_
  obtain ⟨hfirm, hfid⟩ := Table.find?_eq_some.mp hfound
  refine (settles_resolveUnitPriceCents firm.id project.taskType).bind fun price t₂ h₂ hprice ↦ ?_
  refine Settles.ask_bind fun id ↦ Settles.ask_bind fun now ↦ ?_
  have hc₂ : Chargeable t₂ project task sub := hc.mono (h₁.trans h₂)
  obtain ⟨_, hfirm₂⟩ := h₂.firm hfirm
  refine Settles.emit_bind ?_ fun _ _ _ ↦ ?_
  · exact {
      firm := ⟨_, hfirm₂, rfl, rfl⟩
      project := ⟨project, hc₂.row, rfl, hfid.symm, hprice⟩
      task := hc₂.taskRow hgold
      submission := hc₂.submission
      screened := hc₂.screened
      passed := hc₂.passed
      record := ⟨rfl, rfl, rfl⟩
      invoice := by simp [Billing.newUsageEvent] }
  · refine (Settles.note_for rfl ?_).bind_paid fun _ _ _ _ ↦ .pure trivial
    exact shows_created (by simp [owes, Write.adds, deedsOf]) (by decide)

theorem settles_recordApprovedRecord {project : Project} {task : Task} {sub : Submission}
    (hc : Chargeable s project task sub) :
    Settles A ∅ (Billing.recordApprovedRecord env project task sub) (fun _ _ ↦ True) s := by
  unfold Billing.recordApprovedRecord
  split
  · exact .pure trivial
  · rename_i hgold
    refine Settles.select_bind fun t hst _ ↦ Settles.scalarOneOrNone_bind fun existing _ ↦ ?_
    cases existing with
    | some ev => exact .pure trivial
    | none => exact settles_meter (by simpa using hgold) (hc.mono hst)

/-! ## The gates -/

/-- A submission in the engine's hands: its rows and what is known of its
author. -/
structure InHand (s : Db) (project : Project) (task : Task) (sub : Submission) : Prop where
  row : project ∈ s.projects
  taskRow : ∃ a ∈ s.tasks, a.id = task.id ∧ a.projectId = project.id ∧ a.isGold = task.isGold
  submission : SubmissionOf s sub.id task.id sub.expertId
  author : ∃ track, Qualified s sub.expertId track

namespace InHand

variable {project : Project} {task : Task} {sub : Submission}

theorem mono (h : s.Grows t) (hs : InHand s project task sub) : InHand t project task sub where
  row := h.project hs.row
  taskRow := by
    obtain ⟨a, ha, hof⟩ := hs.taskRow
    obtain ⟨_, _, hb⟩ := h.task ha
    exact ⟨_, hb, hof⟩
  submission := hs.submission.mono h
  author := Qualified.some_mono h hs.author

theorem taskIs (hs : InHand s project task sub) : TaskIs s task.id task.isGold := by
  obtain ⟨a, ha, hid, _, hgold⟩ := hs.taskRow
  exact ⟨a, ha, hid, hgold⟩

theorem chargeable (hs : InHand s project task sub) (hscreened : Screened s sub.id)
    (hpassed : Passed s sub.id) : Chargeable s project task sub where
  row := hs.row
  taskRow := by
    intro hgold
    obtain ⟨a, ha, hid, hof, hgold'⟩ := hs.taskRow
    exact ⟨a, ha, hid, hof, hgold'.trans hgold⟩
  submission := ⟨_, hs.submission⟩
  screened := hscreened
  passed := hpassed

end InHand

section Gates

variable {project : Project} {task : Task} {sub : Submission} {expert : Expert}

theorem settles_setStatus (hin : InHand s project task sub) {status : SubmissionStatus}
    (hclear : Cleared s sub.id task.id status) :
    Settles A ∅ (Session.write (.setSubmissionStatus sub.id status)) (fun _ _ ↦ True) s :=
  (Settles.emit (by exact ⟨task.id, sub.expertId, hin.submission, hclear⟩)
    (by simp [owes, Write.adds])).imp fun _ _ _ _ ↦ trivial

/-- A task is closed when a submission of it has been judged. -/
theorem settles_closeTask (hin : InHand s project task sub)
    (hclear : Cleared s sub.id task.id .approved ∨ Cleared s sub.id task.id .rejected) :
    Settles A ∅ (Session.write (.setTaskStatus task.id .completed)) (fun _ _ ↦ True) s :=
  (Settles.emit (by exact fun _ ↦ ⟨sub.id, sub.expertId, hin.submission, hclear⟩)
    (by simp [owes, Write.adds])).imp fun _ _ _ _ ↦ trivial

theorem settles_failAutoCheck {validation : ValidationResult} (hin : InHand s project task sub)
    (hfail : Reviewed s sub.id .deterministic .fail) :
    Settles A ∅ (Engine.failAutoCheck env sub validation) (fun _ _ ↦ True) s := by
  refine (settles_setStatus hin (by exact hfail)).bind fun _ _ _ _ ↦ ?_
  exact (Settles.note rfl).bind fun _ _ _ _ ↦ .pure trivial

theorem settles_goldCheck {answer : Json} (hin : InHand s project task sub)
    (hgold : task.isGold = true) (hexpert : expert.id = sub.expertId)
    (hscreened : Screened s sub.id) :
    Settles A ∅ (Engine.goldCheck env sub task answer project expert) (fun _ _ ↦ True) s := by
  refine Settles.ofExcept_bind fun passed _ ↦ ?_
  refine (settles_registerGoldResult ?_).bind fun expert' t₂ h₁₂ _ ↦ ?_
  · rw [hexpert]
    exact hin.author
  have hjudged : JudgedBy t₂ Engine.ENGINE_ACTOR task.id sub.expertId .goldCheck := by
    have hin₂ := (hin.mono h₁₂).taskIs
    rwa [hgold] at hin₂
  refine (settles_addReview (hin.mono h₁₂).submission hjudged).bind fun _ t₃ h₃ hreviewed ↦ ?_
  have hin₃ := hin.mono (h₁₂.trans h₃)
  have hclear : Cleared t₃ sub.id task.id (if passed then .approved else .rejected) := by
    have hscreened₃ := hscreened.mono (h₁₂.trans h₃)
    cases passed with
    | true => exact ⟨hscreened₃, Or.inl ⟨hjudged.mono h₃, hreviewed⟩⟩
    | false => exact ⟨hscreened₃, Or.inl ⟨hjudged.mono h₃, hreviewed⟩⟩
  refine (settles_setStatus hin₃ hclear).bind fun _ t₄ h₄ _ ↦ ?_
  refine (settles_closeTask (hin₃.mono h₄) ?_).bind fun _ _ _ _ ↦ ?_
  · cases passed with
    | true => exact Or.inl (hclear.mono h₄)
    | false => exact Or.inr (hclear.mono h₄)
  · exact (Settles.note rfl).bind fun _ _ _ _ ↦ .pure trivial

theorem actionRoles_submission (status : SubmissionStatus) :
    actionRoles s!"submission.{status.value}" = none := by
  cases status <;> rfl

theorem settles_holdBack {result : AutoReviewer.AutoReview} {sampled : Bool}
    {status : SubmissionStatus} (hin : InHand s project task sub)
    (hclear : Cleared s sub.id task.id status) :
    Settles A ∅ (Engine.holdBack env sub result sampled status) (fun _ _ ↦ True) s :=
  (settles_setStatus hin hclear).bind fun _ _ _ _ ↦
    (Settles.note (actionRoles_submission status)).bind fun _ _ _ _ ↦ .pure trivial

theorem settles_autoApprove {result : AutoReviewer.AutoReview} {sampled : Bool}
    (hin : InHand s project task sub) (hexpert : expert.id = sub.expertId)
    (hplain : TaskIs s task.id false) (hscreened : Screened s sub.id)
    (hpass : Reviewed s sub.id .autoLlm .pass) :
    Settles A ∅ (Engine.autoApprove env sub task project expert result sampled)
      (fun _ _ ↦ True) s := by
  have hclear : Cleared s sub.id task.id .approved :=
    ⟨hscreened, Or.inr ⟨hplain, ⟨_, hpass⟩, Or.inl hpass⟩⟩
  refine (settles_setStatus hin hclear).bind fun _ t₁ h₁ _ ↦ ?_
  refine (settles_closeTask (hin.mono h₁) (Or.inl (hclear.mono h₁))).bind fun _ t₂ h₂ _ ↦ ?_
  refine (Settles.emit (by exact trivial) (by simp [owes, Write.adds])).bind fun _ t₃ h₃ _ ↦ ?_
  have h₁₃ : s.Grows t₃ := h₁.trans (h₂.trans h₃)
  refine (settles_updateQualityScore ?_).bind fun _ t₄ h₄ _ ↦ ?_
  · rw [show ({ expert with approvedCount := expert.approvedCount + 1 } : Expert).id =
      sub.expertId from hexpert]
    exact (hin.mono h₁₃).author
  · have h₁₄ : s.Grows t₄ := h₁₃.trans h₄
    refine (settles_recordApprovedRecord
      ((hin.chargeable hscreened (Or.inl hpass)).mono h₁₄)).bind fun _ _ _ _ ↦ ?_
    exact (Settles.note rfl).bind fun _ _ _ _ ↦ .pure trivial

theorem writeless_autoReviewer {taskType : TaskType} {prompt : String} {context content : Json}
    {rubric : Rubric} {validation : ValidationResult} :
    (AutoReviewer.review env prompt context taskType content rubric validation).Writeless := by
  unfold AutoReviewer.review
  split
  · refine (Prog.Writeless.ask _).bind fun reply ↦ ?_
    split <;> exact .pure _
  · exact .pure _

theorem settles_autoReview {rubric : Rubric} {validation : ValidationResult}
    (hin : InHand s project task sub) (hexpert : expert.id = sub.expertId)
    (hplain : task.isGold = false) (hscreened : Screened s sub.id) :
    Settles A ∅ (Engine.autoReview env sub task project expert rubric validation)
      (fun _ _ ↦ True) s := by
  have htask : TaskIs s task.id false := by
    rw [← hplain]
    exact hin.taskIs
  refine (settles_setStatus hin (by exact ⟨hscreened, htask⟩)).bind fun _ t₁ h₁ _ ↦ ?_
  refine (Settles.of_writeless writeless_autoReviewer).bind fun result t₂ h₂ _ ↦ ?_
  have h₁₂ := h₁.trans h₂
  refine (settles_addReview (hin.mono h₁₂).submission (by exact htask.mono h₁₂)).bind
    fun _ t₃ h₃ hreviewed ↦ ?_
  refine Settles.ofExcept_bind fun critical _ ↦ Settles.ofExcept_bind fun sampled _ ↦ ?_
  refine (Settles.emit (by exact trivial) (by simp [owes, Write.adds])).bind fun _ t₄ h₄ _ ↦ ?_
  have h₁₄ : s.Grows t₄ := h₁₂.trans (h₃.trans h₄)
  have hin₄ := hin.mono h₁₄
  have hauto : Screened t₄ sub.id ∧ TaskIs t₄ task.id false ∧ AutoReviewed t₄ sub.id :=
    ⟨hscreened.mono h₁₄, htask.mono h₁₄, _, hreviewed.mono h₄⟩
  split
  · exact settles_holdBack hin₄ hauto
  · split
    · exact settles_holdBack hin₄ hauto
    · rename_i hheld
      have hpassed : result.passed = true := by
        simpa using fun h ↦ hheld (Or.inr (Or.inr h))
      rw [hpassed] at hreviewed
      exact settles_autoApprove hin₄ hexpert hauto.2.1 hauto.1 (hreviewed.mono h₄)

theorem settles_process (hin : InHand s project task sub) (hexpert : expert.id = sub.expertId)
    (hgold : task.isGold = true → (Engine.goldAnswerOf task).isSome = true) :
    Settles A ∅ (Engine.process env sub task project expert) (fun _ _ ↦ True) s := by
  refine Settles.ofExcept_bind fun rubric _ ↦ Settles.select_bind fun t₁ h₁ _ ↦ ?_
  refine Settles.ofExcept_bind fun validation _ ↦ ?_
  have hjudged : JudgedBy t₁ "validators-v1" task.id sub.expertId .deterministic := trivial
  refine (settles_addReview (hin.mono h₁).submission hjudged).bind
    fun _ t₂ h₂ hreviewed ↦ ?_
  have hin₂ := hin.mono (h₁.trans h₂)
  split
  · rename_i hinvalid
    rw [if_neg (by simp [hinvalid])] at hreviewed
    exact settles_failAutoCheck hin₂ hreviewed
  · rename_i hvalid
    rw [if_pos (by simpa using hvalid)] at hreviewed
    cases hanswer : Engine.goldAnswerOf task with
    | some answer =>
        have hisGold : task.isGold = true := by
          by_contra hnot
          simp [Engine.goldAnswerOf, hnot] at hanswer
        exact settles_goldCheck hin₂ hisGold hexpert hreviewed
    | none =>
        have hplain : task.isGold = false := by
          by_contra hnot
          simpa [hanswer] using hgold (by simpa using hnot)
        exact settles_autoReview hin₂ hexpert hplain hreviewed

end Gates

/-! ## Submitting -/

theorem settles_assertQualified {expert : Expert} {track : DomainTrack} :
    Settles A ∅ (Controls.assertQualified expert track)
      (fun _ t ↦ Qualified t expert.id track) s := by
  refine Settles.ensure_bind fun _ ↦ Settles.select_bind fun t _ _ ↦ ?_
  refine Settles.scalarOneOrNone_bind fun found hfound ↦ Settles.ensure.imp fun _ u htu hsome ↦ ?_
  obtain ⟨q, rfl⟩ := Option.isSome_iff_exists.mp hsome
  have hq : q ∈ Controls.passedQualifications t expert.id track := by simp [hfound]
  obtain ⟨hq, hof⟩ := List.mem_filter.mp hq
  exact ⟨q, htu.qualification hq, of_decide_eq_true hof⟩

theorem follows_nextVersion {taskId expertId : String} :
    Follows s taskId expertId
      (Engine.nextVersion (Engine.priorSubmissions env s taskId expertId).head?) := by
  cases hprior : (Engine.priorSubmissions env s taskId expertId).head? with
  | none => exact Or.inl rfl
  | some prior =>
      have hmem : prior ∈ Engine.priorSubmissions env s taskId expertId :=
        List.mem_of_mem_head? hprior
      unfold Engine.priorSubmissions at hmem
      rw [Env.mem_orderBy] at hmem
      obtain ⟨hsub, hof⟩ := List.mem_filter.mp hmem
      obtain ⟨htask, hexpert⟩ := of_decide_eq_true hof
      exact Or.inr ⟨prior, hsub, htask, hexpert, rfl⟩

theorem settles_submit {task : Task} {expert : Expert} {content : Json}
    (htask : ∃ a ∈ s.tasks, a.id = task.id ∧ a.projectId = task.projectId ∧ a.isGold = task.isGold)
    (hgold : task.isGold = true → (Engine.goldAnswerOf task).isSome = true)
    (hexpert : HasExpert s expert.id) :
    Settles A ∅ (Engine.submit env task expert content) (fun _ _ ↦ True) s := by
  refine Settles.select_bind fun t₁ h₁ _ ↦ Settles.getSome_bind fun project hproject ↦ ?_
  obtain ⟨hproject, hpid⟩ := Table.find?_eq_some.mp hproject
  refine settles_assertQualified.bind fun _ t₂ h₂ hq ↦ Settles.ensure_bind fun _ ↦ ?_
  refine Settles.select_bind fun t₃ h₃ _ ↦ Settles.ask_bind fun id ↦ Settles.ask_bind fun now ↦ ?_
  have h₁₃ : t₁.Grows t₃ := h₂.trans h₃
  obtain ⟨a, ha, htid, htpid, htgold⟩ := htask
  obtain ⟨_, _, htask₃⟩ := (h₁.trans h₁₃).task ha
  have hproject₃ := h₁₃.project hproject
  have hq₃ := hq.mono h₃
  refine Settles.emit_bind ?_ fun t₄ h₄ hadds ↦ ?_
  · exact {
      expert := hexpert.mono (h₁.trans h₁₃)
      entitled := ⟨_, htask₃, htid, project, hproject₃, hpid.trans htpid.symm, hq₃⟩
      version := follows_nextVersion
      cleared := trivial }
  · refine (Settles.note_for rfl (shows_created (by simp [owes, Write.adds, deedsOf])
      (by decide))).bind_paid fun _ t₅ h₅ _ ↦ ?_
    obtain ⟨_, _, htask₄⟩ := h₄.task htask₃
    have hin : InHand t₄ project task
        (Engine.newSubmission task expert content (Engine.nextVersion _) id now) := {
      row := h₄.project hproject₃
      taskRow := ⟨_, htask₄, htid, htpid.trans hpid.symm, htgold⟩
      submission := ⟨_, hadds _ rfl, rfl, rfl, rfl⟩
      author := ⟨_, hq₃.mono h₄⟩ }
    exact (settles_process (hin.mono h₅) rfl hgold).bind fun _ _ _ _ ↦ .pure trivial

/-! ## The human gate -/

theorem settles_assertReviewerIndependent {sub : Submission} {reviewer : Expert} :
    Settles A ∅ (Controls.assertReviewerIndependent sub reviewer)
      (fun _ _ ↦ reviewer.id ≠ sub.expertId ∧ reviewer.isReviewer = true ∧
        reviewer.status = .qualified) s :=
  Settles.ensure_bind fun hne ↦ Settles.ensure_bind fun hrev ↦
    Settles.ensure.imp fun _ _ _ hq ↦ ⟨hne, hrev, hq⟩

theorem settles_applyVerdict {sub : Submission} {task : Task} {project : Project}
    {author : Option Expert} {overall : Option PyFloat} {verdict : Verdict}
    (hin : InHand s project task sub) (hauthor : ∀ a, author = some a → a.id = sub.expertId)
    (hwaiting : Cleared s sub.id task.id .humanReview)
    (hreviewed : Reviewed s sub.id .human verdict) :
    Settles A ∅ (Engine.applyVerdict env sub task project author overall verdict)
      (fun _ _ ↦ True) s := by
  obtain ⟨hscreened, hplain, hauto⟩ := hwaiting
  have hknown {t : Db} (hst : s.Grows t) {a : Expert} (ha : author = some a) :
      ∃ track, Qualified t a.id track := by
    rw [hauthor a ha]
    exact Qualified.some_mono hst hin.author
  cases verdict with
  | pass =>
      have hclear : Cleared s sub.id task.id .approved :=
        ⟨hscreened, Or.inr ⟨hplain, hauto, Or.inr hreviewed⟩⟩
      refine (settles_setStatus hin hclear).bind fun _ t₁ h₁ _ ↦ ?_
      refine (settles_closeTask (hin.mono h₁) (Or.inl (hclear.mono h₁))).bind fun _ t₂ h₂ _ ↦ ?_
      refine Settles.getSome_bind fun a ha ↦ ?_
      refine (Settles.emit (by exact trivial) (by simp [owes, Write.adds])).bind fun _ t₃ h₃ _ ↦ ?_
      have h₁₃ : s.Grows t₃ := h₁.trans (h₂.trans h₃)
      have hexam : ∃ track, Qualified t₃ a.id track := hknown h₁₃ ha
      refine (settles_updateQualityScore (by exact hexam)).bind fun _ t₄ h₄ _ ↦ ?_
      exact (settles_recordApprovedRecord ((hin.chargeable hscreened
        (Or.inr hreviewed)).mono (h₁₃.trans h₄))).bind fun _ _ _ _ ↦ .pure trivial
  | revise =>
      exact (settles_setStatus hin (by exact ⟨hscreened, hplain, hauto⟩)).bind
        fun _ _ _ _ ↦ .pure trivial
  | fail =>
      have hclear : Cleared s sub.id task.id .rejected :=
        ⟨hscreened, Or.inr ⟨hplain, hauto, hreviewed⟩⟩
      refine (settles_setStatus hin hclear).bind fun _ t₁ h₁ _ ↦ Settles.getSome_bind fun a ha ↦ ?_
      exact (settles_updateQualityScore (hknown h₁ ha)).bind fun _ _ _ _ ↦ .pure trivial

theorem actionRoles_human (verdict : Verdict) :
    actionRoles s!"submission.human_{verdict.value}" = none := by
  cases verdict <;> rfl

/-- A verdict is given on a submission that was waiting for it when it was
read, by a reviewer who was independent then. -/
theorem settles_humanReview {sub : Submission} {reviewer : Expert} {verdict : Verdict}
    {scores : List Json} {comments : String}
    (hsub : SubmissionOf s sub.id sub.taskId sub.expertId)
    (hgrounds : SubmissionGrounds s sub)
    (hreviewer : ∃ e ∈ s.experts, e.id = reviewer.id ∧ e.isReviewer = reviewer.isReviewer)
    (hexam : reviewer.status ≠ .pending → ∃ track, Qualified s reviewer.id track) :
    Settles A ∅ (Engine.humanReview env sub reviewer verdict scores comments)
      (fun _ _ ↦ True) s := by
  refine Settles.ensure_bind fun hwaiting ↦ ?_
  have hclear : Cleared s sub.id sub.taskId .humanReview := by
    rw [← hwaiting]
    exact hgrounds.cleared
  refine settles_assertReviewerIndependent.bind fun _ t₁ h₁ hind ↦ ?_
  obtain ⟨hne, hisReviewer, hqualified⟩ := hind
  refine Settles.select_bind fun t₂ h₂ _ ↦ Settles.getSome_bind fun task htask ↦ ?_
  obtain ⟨htask, htid⟩ := Table.find?_eq_some.mp htask
  refine Settles.select_bind fun t₃ h₃ _ ↦ Settles.getSome_bind fun project hproject ↦ ?_
  obtain ⟨hproject, hpid⟩ := Table.find?_eq_some.mp hproject
  refine Settles.ofExcept_bind fun rubric _ ↦ Settles.select_bind fun t₄ h₄ _ ↦ ?_
  refine Settles.ofExcept_bind fun overall _ ↦ ?_
  have h₁₄ : s.Grows t₄ := h₁.trans (h₂.trans (h₃.trans h₄))
  have hin : InHand t₄ project task sub := by
    obtain ⟨_, _, htask₄⟩ := (h₃.trans h₄).task htask
    have hsub₄ := hsub.mono h₁₄
    obtain ⟨_, _, _, _, _, _, hq⟩ := hgrounds.entitled
    exact {
      row := h₄.project hproject
      taskRow := ⟨_, htask₄, rfl, hpid.symm, rfl⟩
      submission := by rwa [htid]
      author := ⟨_, hq.mono h₁₄⟩ }
  rw [← htid] at hclear
  have hjudged : JudgedBy t₄ reviewer.id task.id sub.expertId .human := by
    obtain ⟨e, he, hid, hrev⟩ := hreviewer
    obtain ⟨e', he', hid', hrev'⟩ := h₁₄.expert he
    refine ⟨hclear.2.1.mono h₁₄, hne, ⟨e', he', hid'.trans hid, ?_⟩, ?_⟩
    · rw [hrev', hrev, hisReviewer]
    · exact Qualified.some_mono h₁₄ (hexam (by simp [hqualified]))
  refine (settles_addReview hin.submission hjudged).bind fun rev t₅ h₅ hreviewed ↦ ?_
  refine (settles_applyVerdict (hin.mono h₅) ?_ (hclear.mono (h₁₄.trans h₅)) hreviewed).bind
    fun _ _ _ _ ↦ ?_
  · exact fun a ha ↦ Table.key_of_find? ha
  · exact (Settles.note (actionRoles_human verdict)).bind fun _ _ _ _ ↦ .pure trivial

end Provenance

end HumanDataFactory
