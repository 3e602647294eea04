import HumanDataFactory.Concurrency.HumanReview
import HumanDataFactory.Provenance.Endpoints
import HumanDataFactory.Release.Selection
import Mathlib.Order.Interval.Finset.Nat

/-!
# Every state the API reaches

Requests are served one after another from an empty database, and then any
number of them at the same time, under Read Committed and in any order of
steps.  In every state on the way each row has its grounds and each creation,
release, payment and revocation is in the trail.
-/

namespace HumanDataFactory

open Transact

namespace Provenance

variable {env : Env}

/-- The databases the API reaches. -/
inductive Reached (env : Env) : Db → Prop
  | mk {ι : Type} [DecidableEq ι] {w₀ w : ℕ} {tr : List (Served Api.Http Db Json)} {s : Db}
      {http : ι → Api.Http} {S : Sys ι Db Write Query Call Reply ℕ PyError Json}
      (hrun : machine.Run (Api.serve env) Db.empty w₀ tr s w)
      (hS : machine.Interleaves (.init s w fun i ↦ Api.serve env (http i)) S) :
      Reached env S.store

theorem accounted_empty : Accounted env ∅ Db.empty := by
  have hnone (x : Row) : ¬Db.empty.Has x := by
    cases x <;> exact List.not_mem_nil
  exact ⟨fun x hx ↦ absurd hx (hnone x), fun x d hx ↦ absurd hx (hnone x)⟩

/-- Everybody the database knows may act. -/
def everybody (env : Env) : Authority env where
  holds := Known env
  mono := fun h hs ↦ Known.mono h hs
  known := id
  dev := fun hdev _ _ henv ↦ by simp [hdev] at henv

theorem Resolved.known {actor : Auth.Actor} {s : Db} (h : Resolved env actor s) :
    Known env actor s := by
  intro henv
  obtain ⟨user, hu, _, hof⟩ := h henv
  exact ⟨user, hu, hof⟩

/-- A request that owes nothing at its start owes nothing at its end. -/
theorem honours_serve {A : Authority env} {s : Db} {http : Api.Http}
    (h : ∀ actor t, s.Grows t → Resolved env actor t → A.holds actor t) :
    (terms A).Honours (Api.serve env http) (fun _ d _ ↦ d = ∅) ∅ s :=
  Contract.Honours.imp (settles_serve h ∅ ∅ (Set.empty_subset _)) fun _ _ _ _ hq ↦
    Set.subset_empty_iff.mp hq.1

theorem honours_serve_everybody {s : Db} {http : Api.Http} :
    (terms (everybody env)).Honours (Api.serve env http) (fun _ d _ ↦ d = ∅) ∅ s :=
  honours_serve fun _ _ _ hres ↦ by exact hres.known

theorem accounted_of_run {w₀ w : ℕ} {tr : List (Served Api.Http Db Json)} {s : Db}
    (hrun : machine.Run (Api.serve env) Db.empty w₀ tr s w) : Accounted env ∅ s := by
  refine Machine.Run.invariant (I := fun s _ ↦ Accounted env ∅ s) accounted_empty ?_ hrun
  intro e w w' hI he
  cases he with
  | ok hexec =>
      obtain ⟨d, hI', rfl, _⟩ := Contract.Honours.exec (C := terms (everybody env))
        honours_serve_everybody hI hexec
      exact hI'
  | failed _ => exact hI

section Concurrent

variable {ι : Type} [DecidableEq ι] {http : ι → Api.Http} {s : Db} {w : ℕ}
  {S : Sys ι Db Write Query Call Reply ℕ PyError Json}

theorem accounted_of_interleaves (hs : Accounted env ∅ s)
    (hS : machine.Interleaves (.init s w fun i ↦ Api.serve env (http i)) S) :
    Accounted env ∅ S.store :=
  (Contract.inv_of_steps (C := terms (everybody env)) (Q := fun _ d _ ↦ d = ∅)
    (fun _ _ _ _ _ h ↦ h) (fun _ _ _ h _ hI ↦ h ▸ hI) hs (fun _ ↦ honours_serve_everybody) hS).1

end Concurrent

theorem Reached.of_run {w₀ w : ℕ} {tr : List (Served Api.Http Db Json)} {s : Db}
    (hrun : machine.Run (Api.serve env) Db.empty w₀ tr s w) : Reached env s := by
  have hnone : machine.Interleaves (.init s w fun i : Empty ↦ Api.serve env i.elim)
      (.init s w fun i : Empty ↦ Api.serve env i.elim) := .refl
  exact .mk hrun hnone

/-- What every request keeps on the terms of a contract holds in every state the
API reaches. -/
theorem Reached.inv_of_honours {C : Contract machine Unit} (hempty : C.inv () Db.empty)
    (hserve : ∀ http s, C.Honours (Api.serve env http) (fun _ _ _ ↦ True) () s) {s : Db}
    (h : Reached env s) : C.inv () s := by
  obtain ⟨hrun, hS⟩ := h
  refine (Contract.inv_of_steps (Q := fun _ _ _ ↦ True) (fun _ _ _ _ _ h ↦ h)
    (fun _ _ _ _ _ h ↦ h) ?_ (fun i ↦ hserve _ _) hS).1
  refine Machine.Run.invariant (I := fun s _ ↦ C.inv () s) hempty ?_ hrun
  intro e w w' hI he
  cases he with
  | ok hexec =>
      obtain ⟨_, hI', _⟩ := (hserve _ _).exec hI hexec
      exact hI'
  | failed _ => exact hI

theorem Reached.accounted {s : Db} (h : Reached env s) : Accounted env ∅ s := by
  obtain ⟨hrun, hS⟩ := h
  exact accounted_of_interleaves (accounted_of_run hrun) hS

theorem Reached.grounded {s : Db} (h : Reached env s) {x : Row} (hx : s.Has x) :
    Grounded env s x :=
  h.accounted.grounded x hx

/-- Whatever runs, no row goes away and none of its fixed columns changes; what
was switched off or released stays so. -/
theorem rows_are_permanent {ι : Type} [DecidableEq ι]
    {S S' : Sys ι Db Write Query Call Reply ℕ PyError Json} (h : machine.Interleaves S S') :
    S.store.Grows S'.store :=
  Contract.le_of_steps (terms (everybody Development.env)) h

/-- Every identifier a row refers to is the identifier of a row. -/
structure Referential (s : Db) : Prop where
  userFirm : ∀ a ∈ s.users, ∀ id, StripeGateway.truthyId a.firmId = some id → HasFirm s id
  userExpert : ∀ a ∈ s.users, ∀ id, StripeGateway.truthyId a.expertId = some id → HasExpert s id
  apiKey : ∀ a ∈ s.apiKeys, ∃ u ∈ s.users, u.id = a.userId
  qualification : ∀ a ∈ s.qualifications, HasExpert s a.expertId
  project : ∀ a ∈ s.projects, HasFirm s a.firmId
  task : ∀ a ∈ s.tasks, ∃ p ∈ s.projects, p.id = a.projectId
  assigned : ∀ a ∈ s.tasks, ∀ id, a.assignedTo = some id → HasExpert s id
  submission : ∀ a ∈ s.submissions, (∃ t ∈ s.tasks, t.id = a.taskId) ∧ HasExpert s a.expertId
  review : ∀ a ∈ s.reviews, ∃ sub ∈ s.submissions, sub.id = a.submissionId
  rateCard : ∀ a ∈ s.rateCards, ∃ id, a.firmId = some id ∧ HasFirm s id
  usageEvent : ∀ a ∈ s.usageEvents, HasFirm s a.firmId ∧ (∃ p ∈ s.projects, p.id = a.projectId) ∧
    (∃ t ∈ s.tasks, t.id = a.taskId) ∧ ∃ sub ∈ s.submissions, sub.id = a.submissionId
  charged : ∀ a ∈ s.usageEvents, ∀ id, a.invoiceId = some id → ∃ inv ∈ s.invoices, inv.id = id
  invoice : ∀ a ∈ s.invoices, HasFirm s a.firmId
  exportBatch : ∀ a ∈ s.exportBatches, ∃ p ∈ s.projects, p.id = a.projectId

/-- No reference dangles, whatever runs at the same time. -/
theorem references_resolve {s : Db} (h : Reached env s) : Referential s where
  userFirm := fun a ha ↦ (h.grounded (x := .user a) ha).firm
  userExpert := fun a ha ↦ (h.grounded (x := .user a) ha).expert
  apiKey := fun a ha ↦ h.grounded (x := .apiKey a) ha
  qualification := fun a ha ↦ (h.grounded (x := .qualification a) ha).expert
  project := fun a ha ↦ (h.grounded (x := .project a) ha).firm
  task := fun a ha ↦ (h.grounded (x := .task a) ha).project
  assigned := fun a ha id hid ↦ ((h.grounded (x := .task a) ha).assigned id hid).1
  submission := by
    intro a ha
    have hg : SubmissionGrounds s a := h.grounded (x := .submission a) ha
    obtain ⟨t, ht, hid, _⟩ := hg.entitled
    exact ⟨⟨t, ht, hid⟩, hg.expert⟩
  review := by
    intro a ha
    obtain ⟨taskId, expertId, ⟨sub, hsub, hid, _⟩, _⟩ := h.grounded (x := .review a) ha
    exact ⟨sub, hsub, hid⟩
  rateCard := fun a ha ↦ (h.grounded (x := .rateCard a) ha).firm
  usageEvent := by
    intro a ha
    have hg : UsageGrounds env s a := h.grounded (x := .usageEvent a) ha
    obtain ⟨f, hf, hfid, _⟩ := hg.firm
    obtain ⟨p, hp, hpid, _⟩ := hg.project
    obtain ⟨t, ht, htid, _⟩ := hg.task
    obtain ⟨_, sub, hsub, hsid, _⟩ := hg.submission
    exact ⟨⟨f, hf, hfid⟩, ⟨p, hp, hpid⟩, ⟨t, ht, htid⟩, sub, hsub, hsid⟩
  charged := by
    intro a ha id hid
    have hg : UsageGrounds env s a := h.grounded (x := .usageEvent a) ha
    obtain ⟨inv, hinv, hof, _⟩ := hg.invoice id hid
    exact ⟨inv, hinv, hof⟩
  invoice := by
    intro a ha
    have hg : InvoiceGrounds env s a := h.grounded (x := .invoice a) ha
    obtain ⟨f, hf, hid, _⟩ := hg.firm
    exact ⟨f, hf, hid⟩
  exportBatch := fun a ha ↦ (h.grounded (x := .exportBatch a) ha).project

/-! ### Two verdicts at once

Two reviewers judge one submission at the same time, and the second acts on
what it read before the first committed. -/

theorem reached_of_play {ms : List (Move Bool)} {n : ℕ}
    {S : Sys Bool Db Write Query Call Reply ℕ PyError Json}
    (h : machine.play Development.answers ms n HumanReview.reviewing = some S) :
    Reached Development.env S.store :=
  .mk (Development.run_spec HumanReview.twoReviewers) (Machine.interleaves_of_play h)

/-- The submission that waited is still there, and only its status and the
sampling mark may differ. -/
theorem rows_are_permanent_staleVerdict :
    ∃ S, machine.play Development.answers HumanReview.staleVerdict 100 HumanReview.reviewing =
      some S ∧ ∃ sub ∈ HumanReview.reviewing.store.submissions, sub.status = .humanReview ∧
        ∃ sampled, { sub with status := .rejected, sampledForHumanReview := sampled } ∈
          S.store.submissions := by
  have hplay : (machine.play Development.answers HumanReview.staleVerdict 100
      HumanReview.reviewing).map (fun S ↦ S.store.submissions.rows.map Submission.status) =
        some [.rejected] := by
    decide +kernel
  obtain ⟨S, hS, hstatus⟩ := Option.map_eq_some_iff.mp hplay
  obtain ⟨sub, hsub, hwaits⟩ : ∃ sub ∈ HumanReview.reviewing.store.submissions.rows,
      sub.status = .humanReview := by
    decide +kernel
  obtain ⟨y, hy, hbecomes⟩ :=
    rows_are_permanent (Machine.interleaves_of_play hS) (.submission sub) hsub
  cases hbecomes with
  | submission _ status sampled =>
      have hmem := List.mem_map_of_mem (f := Submission.status) hy
      rw [hstatus, List.mem_singleton] at hmem
      obtain rfl : status = .rejected := hmem
      exact ⟨S, hS, sub, hsub, hwaits, sampled, hy⟩

/-- The usage of the first verdict refers to a submission that the second one
rejected. -/
theorem references_resolve_staleVerdict :
    ∃ S, machine.play Development.answers HumanReview.staleVerdict 100 HumanReview.reviewing =
      some S ∧ Referential S.store ∧ ∃ ev ∈ S.store.usageEvents, ∃ sub ∈ S.store.submissions,
        sub.id = ev.submissionId ∧ sub.status = .rejected := by
  have hplay : (machine.play Development.answers HumanReview.staleVerdict 100
      HumanReview.reviewing).map (fun S ↦ (S.store.submissions.rows.map Submission.status,
        decide (∃ ev ∈ S.store.usageEvents.rows, ev.invoiceId = none))) =
          some ([.rejected], true) := by
    decide +kernel
  obtain ⟨S, hS, hrows⟩ := Option.map_eq_some_iff.mp hplay
  obtain ⟨hstatus, husage⟩ := Prod.mk.inj hrows
  obtain ⟨ev, hev, _⟩ := of_decide_eq_true husage
  have hreferential := references_resolve (reached_of_play hS)
  obtain ⟨_, _, _, sub, hsub, hof⟩ := hreferential.usageEvent ev hev
  have hmem := List.mem_map_of_mem (f := Submission.status) hsub
  rw [hstatus, List.mem_singleton] at hmem
  exact ⟨S, hS, hreferential, ev, hev, sub, hsub, hof, hmem⟩

/-- Reviews are of submissions, and each kind was made of those it is for: a
human review by a reviewer with an exam behind him and not by the author, a
comparison on gold tasks only, the model and humans on the others only. -/
theorem reviews_are_fair {s : Db} (h : Reached env s) {r : Review} (hr : r ∈ s.reviews) :
    ∃ sub ∈ s.submissions, sub.id = r.submissionId ∧
      JudgedBy s r.reviewerId sub.taskId sub.expertId r.kind := by
  obtain ⟨_, _, ⟨sub, hsub, hid, rfl, rfl⟩, hjudged⟩ := h.grounded (x := .review r) hr
  exact ⟨sub, hsub, hid, hjudged⟩

theorem reviews_are_fair_staleVerdict :
    ∃ S, machine.play Development.answers HumanReview.staleVerdict 100 HumanReview.reviewing =
      some S ∧ ∃ r ∈ S.store.reviews, (r.kind = .human ∧ r.verdict = .fail) ∧
        ∃ sub ∈ S.store.submissions, sub.id = r.submissionId ∧
          JudgedBy S.store r.reviewerId sub.taskId sub.expertId r.kind := by
  have hplay : (machine.play Development.answers HumanReview.staleVerdict 100
      HumanReview.reviewing).map (fun S ↦ decide (∃ r ∈ S.store.reviews.rows,
        r.kind = .human ∧ r.verdict = .fail)) = some true := by decide +kernel
  obtain ⟨S, hS, hreview⟩ := Option.map_eq_some_iff.mp hplay
  obtain ⟨r, hr, hof⟩ := of_decide_eq_true hreview
  exact ⟨S, hS, r, hr, hof, reviews_are_fair (reached_of_play hS) hr⟩

/-- Whatever the order of the verdicts, a status rests on the reviews that give
it: nothing is approved that failed Gate 1 or that nobody passed. -/
theorem verdicts_rest_on_reviews {s : Db} (h : Reached env s) :
    (∀ sub ∈ s.submissions, Cleared s sub.id sub.taskId sub.status) ∧
      ∀ t ∈ s.tasks, t.status = .completed → Finished s t.id :=
  ⟨fun sub hsub ↦ (h.grounded (x := .submission sub) hsub).cleared,
    fun t ht ↦ (h.grounded (x := .task t) ht).finished⟩

/-- The submission was passed and then failed: it is rejected, and the task is
completed all the same. -/
theorem verdicts_rest_on_reviews_staleVerdict :
    ∃ S, machine.play Development.answers HumanReview.staleVerdict 100 HumanReview.reviewing =
      some S ∧ S.store.submissions.rows.map Submission.status = [.rejected] ∧
        S.store.tasks.rows.map Task.status = [.completed] ∧
          (∀ sub ∈ S.store.submissions, Cleared S.store sub.id sub.taskId sub.status) ∧
            ∀ t ∈ S.store.tasks, t.status = .completed → Finished S.store t.id := by
  have hplay : (machine.play Development.answers HumanReview.staleVerdict 100
      HumanReview.reviewing).map (fun S ↦ (S.store.submissions.rows.map Submission.status,
        S.store.tasks.rows.map Task.status)) = some ([.rejected], [.completed]) := by
    decide +kernel
  obtain ⟨S, hS, hstatus⟩ := Option.map_eq_some_iff.mp hplay
  obtain ⟨hsubs, htasks⟩ := Prod.mk.inj hstatus
  exact ⟨S, hS, hsubs, htasks, verdicts_rest_on_reviews (reached_of_play hS)⟩

theorem Reached.no_gaps {s : Db} (h : Reached env s) {sub : Submission}
    (hsub : sub ∈ s.submissions) {v : ℕ} (hpos : 1 ≤ v) (hle : v ≤ sub.version) :
    ∃ prior ∈ s.submissions, prior.taskId = sub.taskId ∧ prior.expertId = sub.expertId ∧
      prior.version = v := by
  induction hn : sub.version - v generalizing sub with
  | zero => exact ⟨sub, hsub, rfl, rfl, by omega⟩
  | succ n ih =>
      have hg : SubmissionGrounds s sub := h.grounded (x := .submission sub) hsub
      rcases hg.version with hone | ⟨before, hbefore, htask, hexpert, hversion⟩
      · omega
      · rw [← htask, ← hexpert]
        exact ih hbefore (by omega) (by omega)

/-- Below a version of an expert's work on a task there is every lower one,
even where two requests made the same version. -/
theorem versions_have_no_gaps {s : Db} (h : Reached env s) {sub : Submission}
    (hsub : sub ∈ s.submissions) : ∀ v, 1 ≤ v → v ≤ sub.version →
      ∃ prior ∈ s.submissions, prior.taskId = sub.taskId ∧ prior.expertId = sub.expertId ∧
        prior.version = v :=
  fun _ hpos hle ↦ h.no_gaps hsub hpos hle

/-- The author hands in two more versions of the task at the same time. -/
def resubmitting : Sys Bool Db Write Query Call Reply ℕ PyError Json :=
  .init (Development.run Development.firstSubmission).2.1
    (Development.run Development.firstSubmission).2.2 fun i ↦
      Api.serve Development.env (Development.http (.createSubmission Development.taskId
        Development.authorId [("response", .str (if i then "It is not." else "It is."))]))

/-- The second request looks for the last version before the first commits. -/
def sameVersion : List (Move Bool) :=
  List.replicate 5 (.advance true) ++ List.replicate 40 (.advance false) ++ [.commit false] ++
    List.replicate 40 (.advance true) ++ [.commit true]

theorem versions_have_no_gaps_sameVersion :
    ∃ S, machine.play Development.answers sameVersion 100 resubmitting = some S ∧
      S.store.submissions.rows.map Submission.version = [1, 2, 2] ∧
        ∃ sub ∈ S.store.submissions, sub.version = 2 ∧ ∀ v, 1 ≤ v → v ≤ sub.version →
          ∃ prior ∈ S.store.submissions, prior.taskId = sub.taskId ∧
            prior.expertId = sub.expertId ∧ prior.version = v := by
  have hplay : (machine.play Development.answers sameVersion 100 resubmitting).map
      (fun S ↦ S.store.submissions.rows.map Submission.version) = some [1, 2, 2] := by
    decide +kernel
  obtain ⟨S, hS, hversions⟩ := Option.map_eq_some_iff.mp hplay
  have htwo : 2 ∈ S.store.submissions.rows.map Submission.version := by simp [hversions]
  obtain ⟨sub, hsub, hversion⟩ := List.mem_map.mp htwo
  have hreached : Reached Development.env S.store :=
    .mk (Development.run_spec Development.firstSubmission) (Machine.interleaves_of_play hS)
  exact ⟨S, hS, hversions, sub, hsub, hversion, versions_have_no_gaps hreached hsub⟩

/-- The versions of the expert's submissions to the task. -/
def versionsOf (s : Db) (taskId expertId : String) : List ℕ :=
  (s.submissions.rows.filter fun a ↦ a.taskId = taskId ∧ a.expertId = expertId).map
    Submission.version

theorem mem_versionsOf {s : Db} {taskId expertId : String} {v : ℕ} :
    v ∈ versionsOf s taskId expertId ↔
      ∃ a ∈ s.submissions, a.taskId = taskId ∧ a.expertId = expertId ∧ a.version = v := by
  simp only [versionsOf, List.mem_map, List.mem_filter, decide_eq_true_eq]
  constructor
  · rintro ⟨a, ⟨ha, htask, hexpert⟩, hv⟩
    exact ⟨a, ha, htask, hexpert, hv⟩
  · rintro ⟨a, ha, htask, hexpert, hv⟩
    exact ⟨a, ⟨ha, htask, hexpert⟩, hv⟩

/-- A list of positive numbers without repetition or gap counts up from one. -/
theorem perm_range'_of_gapless {l : List ℕ} (hnodup : l.Nodup) (hpos : ∀ v ∈ l, 1 ≤ v)
    (hgap : ∀ n ∈ l, ∀ v, 1 ≤ v → v ≤ n → v ∈ l) : l.Perm (List.range' 1 l.length) := by
  have hset : l.toFinset = Finset.Icc 1 (l.toFinset.sup id) := by
    ext v
    rw [List.mem_toFinset, Finset.mem_Icc]
    constructor
    · intro hv
      exact ⟨hpos v hv, Finset.le_sup (f := id) (List.mem_toFinset.mpr hv)⟩
    · rintro ⟨hone, hle⟩
      have hne : l.toFinset.Nonempty := by
        by_contra hempty
        rw [Finset.not_nonempty_iff_eq_empty.mp hempty, Finset.sup_empty] at hle
        exact absurd (le_antisymm hle bot_le) (Nat.ne_of_gt hone)
      obtain ⟨n, hn, hsup⟩ := Finset.exists_mem_eq_sup _ hne id
      rw [hsup] at hle
      exact hgap n (List.mem_toFinset.mp hn) v hone hle
  have hcard : l.length = l.toFinset.sup id := by
    conv_lhs => rw [← List.toFinset_card_of_nodup hnodup, hset]
    rw [Nat.card_Icc, Nat.add_sub_cancel]
  refine List.perm_of_nodup_nodup_toFinset_eq hnodup List.nodup_range' ?_
  rw [hset, ← hcard]
  ext v
  simp only [Finset.mem_Icc, List.mem_toFinset, List.mem_range'_1]
  omega

/-- Where requests are served one after another, the versions of an expert's
submissions to a task are `1`, ..., `n`, each once. -/
theorem versions_count_up {w₀ w : ℕ} {tr : List (Served Api.Http Db Json)} {s : Db}
    (hrun : machine.Run (Api.serve env) Db.empty w₀ tr s w) (taskId expertId : String) :
    (versionsOf s taskId expertId).Perm
      (List.range' 1 (versionsOf s taskId expertId).length) := by
  have hreached : Reached env s := .of_run hrun
  refine perm_range'_of_gapless ?_ ?_ ?_
  · have hrows : (s.submissions.rows.filter fun a ↦
        a.taskId = taskId ∧ a.expertId = expertId).Nodup :=
      (List.Nodup.of_map _ s.submissions.nodup).filter _
    refine List.Nodup.map_on ?_ hrows
    intro a ha b hb hversion
    obtain ⟨ha, hofa⟩ := List.mem_filter.mp ha
    obtain ⟨hb, hofb⟩ := List.mem_filter.mp hb
    obtain ⟨hta, hea⟩ := of_decide_eq_true hofa
    obtain ⟨htb, heb⟩ := of_decide_eq_true hofb
    exact Export.distinctVersions_of_run hrun a ha b hb (hta.trans htb.symm) (hea.trans heb.symm)
      hversion
  · intro v hv
    obtain ⟨a, ha, _, _, rfl⟩ := mem_versionsOf.mp hv
    have hg : SubmissionGrounds s a := hreached.grounded (x := .submission a) ha
    rcases hg.version with hone | ⟨before, _, _, _, hversion⟩ <;> omega
  · intro n hn v hpos hle
    obtain ⟨a, ha, rfl, rfl, rfl⟩ := mem_versionsOf.mp hn
    exact mem_versionsOf.mpr (hreached.no_gaps ha hpos hle)

theorem versions_count_up_firstSubmission :
    (versionsOf (Development.run Development.firstSubmission).2.1 Development.taskId
      Development.authorId).length = 1 ∧
      (versionsOf (Development.run Development.firstSubmission).2.1 Development.taskId
        Development.authorId).Perm (List.range' 1
          (versionsOf (Development.run Development.firstSubmission).2.1 Development.taskId
            Development.authorId).length) :=
  ⟨by decide +kernel, versions_count_up (Development.run_spec Development.firstSubmission) _ _⟩

/-- The expert passed an exam of the track. -/
def Examined (s : Db) (expertId : String) (track : DomainTrack) : Prop :=
  ∃ q ∈ s.qualifications, q.expertId = expertId ∧ q.track = track ∧
    Api.EXAM_PASS_SCORE.le q.examScore = true

theorem Reached.examined {s : Db} (h : Reached env s) {expertId : String} {track : DomainTrack}
    (hq : Qualified s expertId track) : Examined s expertId track := by
  obtain ⟨q, hq, hid, htrack, hpassed⟩ := hq
  have hg : ExamGrounds s q := h.grounded (x := .qualification q) hq
  exact ⟨q, hq, hid, htrack, hg.passed ▸ hpassed⟩

/-- On a task of the project, the expert is entitled to its track only. -/
theorem Reached.examined_of_entitled {s : Db} (h : Reached env s) {p : Project} {t : Task}
    {expertId : String} (hp : p ∈ s.projects) (ht : t ∈ s.tasks) (hpid : t.projectId = p.id)
    (hentitled : EntitledTo s expertId t.id) : Examined s expertId p.track := by
  obtain ⟨t', ht', htid, p', hp', hpid', hq⟩ := hentitled
  obtain rfl := Table.eq_of_key ht' ht htid
  obtain rfl := Table.eq_of_key hp' hp (hpid'.trans hpid)
  exact h.examined hq

/-- Nobody leaves the pending status, is assigned a task or has a submission
accepted without an exam passed, in the track of the project. -/
theorem experts_passed_exams {s : Db} (h : Reached env s) :
    (∀ e ∈ s.experts, e.status ≠ .pending → ∃ track, Examined s e.id track) ∧
      ∀ p ∈ s.projects, ∀ t ∈ s.tasks, t.projectId = p.id →
        (∀ id, t.assignedTo = some id → Examined s id p.track) ∧
          ∀ sub ∈ s.submissions, sub.taskId = t.id → Examined s sub.expertId p.track := by
  refine ⟨?_, ?_⟩
  · intro e he hstatus
    obtain ⟨track, hq⟩ := h.grounded (x := .expert e) he hstatus
    exact ⟨track, h.examined hq⟩
  · intro p hp t ht hpid
    refine ⟨?_, ?_⟩
    · intro id hid
      have hg : TaskGrounds s t := h.grounded (x := .task t) ht
      exact h.examined_of_entitled hp ht hpid (hg.assigned id hid).2
    · intro sub hsub htid
      have hg : SubmissionGrounds s sub := h.grounded (x := .submission sub) hsub
      have hentitled := hg.entitled
      rw [htid] at hentitled
      exact h.examined_of_entitled hp ht hpid hentitled

theorem experts_passed_exams_staleVerdict :
    ∃ S, machine.play Development.answers HumanReview.staleVerdict 100 HumanReview.reviewing =
      some S ∧ S.store.submissions.rows.map Submission.taskId = S.store.tasks.rows.map Task.id ∧
        (∀ e ∈ S.store.experts, e.status ≠ .pending → ∃ track, Examined S.store e.id track) ∧
          ∀ p ∈ S.store.projects, ∀ t ∈ S.store.tasks, t.projectId = p.id →
            (∀ id, t.assignedTo = some id → Examined S.store id p.track) ∧
              ∀ sub ∈ S.store.submissions, sub.taskId = t.id →
                Examined S.store sub.expertId p.track := by
  have hplay : (machine.play Development.answers HumanReview.staleVerdict 100
      HumanReview.reviewing).map (fun S ↦ decide (S.store.submissions.rows.map Submission.taskId =
        S.store.tasks.rows.map Task.id)) = some true := by decide +kernel
  obtain ⟨S, hS, hsubs⟩ := Option.map_eq_some_iff.mp hplay
  exact ⟨S, hS, of_decide_eq_true hsubs, experts_passed_exams (reached_of_play hS)⟩

end Provenance

end HumanDataFactory
