import HumanDataFactory.Qc.Newcomers

/-!
# Suspension

Scores and gold misses suspend a contributor, an exam qualifies only those who
are pending, and assignments, submissions and human reviews ask for a qualified
contributor.  A suspension is therefore for ever.
-/

namespace HumanDataFactory

open Transact

namespace Controls

/-! ## The row of one contributor -/

/-- How a request may leave a contributor. -/
inductive Follows (e : Expert) : Expert → Prop
  | same : Follows e e
  | examined (passed : Bool) : Follows e (Api.afterExam passed e)
  | judged {e₁ : Expert} (hid : e₁.id = e.id) (hstatus : e₁.status = e.status) :
      Follows e (suspendedIfDue e₁)

/-- Who is due for suspension is suspended. -/
def Guarded (e : Expert) : Prop :=
  dueForSuspension e → e.status = .suspended

variable {e e' : Expert}

theorem Follows.id_eq (h : Follows e e') : e'.id = e.id := by
  cases h with
  | same => rfl
  | examined passed => exact Api.afterExam_id passed e
  | judged hid hstatus => exact (suspendedIfDue_id _).trans hid

theorem Follows.guarded (h : Follows e e') (he : Guarded e) : Guarded e' := by
  intro hdue
  cases h with
  | same => exact he hdue
  | examined passed =>
      by_cases hq : Api.qualifies e passed
      · rw [Api.afterExam, if_pos hq] at hdue
        have hstatus := he hdue
        rw [hq.2] at hstatus
        cases hstatus
      · rw [Api.afterExam, if_neg hq] at hdue ⊢
        exact he hdue
  | @judged e₁ hid hstatus =>
      by_cases hdue₁ : dueForSuspension e₁
      · rw [suspendedIfDue, if_pos hdue₁]
      · rw [suspendedIfDue, if_neg hdue₁] at hdue
        exact absurd hdue hdue₁

theorem Follows.suspended (h : Follows e e') (he : e.status = .suspended) :
    e'.status = .suspended := by
  cases h with
  | same => exact he
  | examined passed =>
      have hq : ¬Api.qualifies e passed := by
        rintro ⟨_, hpending⟩
        rw [he] at hpending
        cases hpending
      rwa [Api.afterExam, if_neg hq]
  | @judged e₁ hid hstatus =>
      by_cases hdue : dueForSuspension e₁
      · rw [suspendedIfDue, if_pos hdue]
      · rw [suspendedIfDue, if_neg hdue]
        exact hstatus.trans he

theorem follows_withGoldResult (passed : Bool) : Follows e (withGoldResult passed e) := by
  cases passed with
  | true => exact .judged rfl rfl
  | false => exact .judged rfl rfl

/-! ## One request -/

/-- `x` was qualified. -/
def Qualified (s : Db) (x : String) : Prop :=
  ∃ expert ∈ s.experts, expert.id = x ∧ expert.status = .qualified

/-- Every contributor stays, and those who join are not due for suspension. -/
structure Roster (t t' : Table String Expert Expert.id) : Prop where
  stay : ∀ e ∈ t, ∃ e' ∈ t', Follows e e'
  join : ∀ e' ∈ t', t.Vacant e'.id → Guarded e'

def Assigns (s s' : Db) : Prop :=
  ∀ task' ∈ s'.tasks, ∀ x, task'.assignedTo = some x →
    (∃ task ∈ s.tasks, task.id = task'.id ∧ task.assignedTo = some x) ∨ Qualified s x

def Submits (s s' : Db) : Prop :=
  ∀ sub' ∈ s'.submissions,
    (∃ sub ∈ s.submissions, sub.id = sub'.id ∧ sub.expertId = sub'.expertId) ∨
      Qualified s sub'.expertId

def Judges (s s' : Db) : Prop :=
  ∀ r ∈ s'.reviews, r.kind = .human → r ∈ s.reviews ∨ Qualified s r.reviewerId

/-- What a request may do to contributors and in their names. -/
structure Watched (s s' : Db) : Prop where
  roster : Roster s.experts s'.experts
  assigns : Assigns s s'
  submits : Submits s s'
  judges : Judges s s'

section Tables

variable {s s' : Db}

theorem Roster.refl (t : Table String Expert Expert.id) : Roster t t :=
  ⟨fun e he ↦ ⟨e, he, .same⟩, fun e' he' hvac ↦ absurd rfl (hvac e' he')⟩

theorem Roster.replace {t : Table String Expert Expert.id} (hfind : t.find? e.id = some e)
    (h : Follows e e') : Roster t (t.replace e') := by
  have hmem := Table.mem_of_find? hfind
  constructor
  · intro a ha
    by_cases hid : a.id = e.id
    · obtain rfl := Table.eq_of_key ha hmem hid
      exact ⟨e', Table.mem_replace_self hmem h.id_eq.symm, h⟩
    · exact ⟨a, Table.mem_replace_of_ne ha (by rwa [h.id_eq]), .same⟩
  · intro a ha hvac
    rcases Table.mem_replace ha with rfl | ⟨hold, _⟩
    · exact absurd h.id_eq.symm (hvac e hmem)
    · exact absurd rfl (hvac a hold)

theorem Roster.push {t : Table String Expert Expert.id} (hvac : t.Vacant e.id) (h : Guarded e) :
    Roster t (t.push e) := by
  constructor
  · exact fun a ha ↦ ⟨a, (Table.mem_push hvac).mpr (Or.inl ha), .same⟩
  · intro a ha hnew
    rcases (Table.mem_push hvac).mp ha with hold | rfl
    · exact absurd rfl (hnew a hold)
    · exact h

theorem Assigns.of_eq (h : s'.tasks = s.tasks) : Assigns s s' := by
  intro task htask x hx
  rw [h] at htask
  exact Or.inl ⟨task, htask, rfl, hx⟩

theorem Assigns.push {task : Task} (hvac : s.tasks.Vacant task.id)
    (htasks : s'.tasks = s.tasks.push task) (h : task.assignedTo = none) : Assigns s s' := by
  intro t ht x hx
  rw [htasks] at ht
  rcases (Table.mem_push hvac).mp ht with hold | rfl
  · exact Or.inl ⟨t, hold, rfl, hx⟩
  · rw [h] at hx
    cases hx

theorem Assigns.replace {task task' : Task} (hfind : s.tasks.find? task.id = some task)
    (htasks : s'.tasks = s.tasks.replace task') (hid : task'.id = task.id)
    (h : ∀ x, task'.assignedTo = some x → task.assignedTo = some x ∨ Qualified s x) :
    Assigns s s' := by
  intro t ht x hx
  rw [htasks] at ht
  rcases Table.mem_replace ht with rfl | ⟨hold, _⟩
  · exact (h x hx).imp (fun hx' ↦ ⟨task, Table.mem_of_find? hfind, hid.symm, hx'⟩) id
  · exact Or.inl ⟨t, hold, rfl, hx⟩

theorem Submits.of_eq (h : s'.submissions = s.submissions) : Submits s s' := by
  intro sub hsub
  rw [h] at hsub
  exact Or.inl ⟨sub, hsub, rfl, rfl⟩

theorem Submits.push {sub : Submission} (hsubs : s'.submissions = s.submissions.push sub)
    (hvac : s.submissions.Vacant sub.id) (h : Qualified s sub.expertId) : Submits s s' := by
  intro sub' hsub'
  rw [hsubs] at hsub'
  rcases (Table.mem_push hvac).mp hsub' with hold | rfl
  · exact Or.inl ⟨sub', hold, rfl, rfl⟩
  · exact Or.inr h

theorem Submits.replace {sub sub' : Submission} (hfind : s.submissions.find? sub.id = some sub)
    (hsubs : s'.submissions = s.submissions.replace sub') (hid : sub'.id = sub.id)
    (hauthor : sub'.expertId = sub.expertId) : Submits s s' := by
  intro a ha
  rw [hsubs] at ha
  rcases Table.mem_replace ha with rfl | ⟨hold, _⟩
  · exact Or.inl ⟨sub, Table.mem_of_find? hfind, hid.symm, hauthor.symm⟩
  · exact Or.inl ⟨a, hold, rfl, rfl⟩

theorem Judges.of_eq (h : s'.reviews = s.reviews) : Judges s s' := by
  intro r hr _
  rw [h] at hr
  exact Or.inl hr

/-- New reviews are not by humans, or by a qualified one. -/
theorem Judges.append {revs : List Review} (hrevs : s'.reviews.rows = s.reviews.rows ++ revs)
    (h : ∀ r ∈ revs, r.kind = .human → Qualified s r.reviewerId) : Judges s s' := by
  intro r hr hkind
  rw [Table.mem_def, hrevs] at hr
  rcases List.mem_append.mp hr with hr | hr
  · exact Or.inl hr
  · exact Or.inr (h r hr hkind)

theorem watched_of_eq (hexperts : s'.experts = s.experts) (htasks : s'.tasks = s.tasks)
    (hsubs : s'.submissions = s.submissions) (hrevs : s'.reviews = s.reviews) : Watched s s' :=
  ⟨hexperts ▸ .refl _, .of_eq htasks, .of_eq hsubs, .of_eq hrevs⟩

end Tables

/-! ## Every request -/

section Requests

variable {env : Env} {s s' : Db}

/-- Metering an approval leaves contributors and tasks alone, too. -/
theorem same_of_metered {project : Project} {task : Task} {sub : Submission}
    (h : Billing.Metered env project task sub s s') :
    s'.experts = s.experts ∧ s'.tasks = s.tasks := by
  cases h <;> exact ⟨rfl, rfl⟩

theorem watched_of_processed {sub : Submission} {task : Task} {project : Project} {expert : Expert}
    {aud : AuditEvent}
    (h : Engine.Processed env s.submissions sub task project expert
      { s with submissions := s.submissions.push sub, auditEvents := s.auditEvents ++ [aud] } s')
    (hv : s.submissions.Vacant sub.id) (hauthor : sub.expertId = expert.id)
    (htask : s.tasks.find? task.id = some task)
    (hexpert : s.experts.find? expert.id = some expert) (hqualified : expert.status = .qualified) :
    Watched s s' := by
  have hby : Qualified s sub.expertId :=
    ⟨expert, Table.mem_of_find? hexpert, hauthor.symm, hqualified⟩
  have hgates : ∀ {a b : Review}, a.kind ≠ .human → b.kind ≠ .human → ∀ r ∈ [a, b],
      r.kind = .human → Qualified s r.reviewerId := by
    intro a b ha hb r hr hkind
    simp only [List.mem_cons, List.not_mem_nil, or_false] at hr
    rcases hr with rfl | rfl
    · exact absurd hkind ha
    · exact absurd hkind hb
  cases h with
  | @autoCheckFailed validation hfailed id now hid aud' haud =>
      refine ⟨.refl _, .of_eq rfl, .push rfl hv hby, .append (Table.rows_push hid) ?_⟩
      intro r hr hkind
      obtain rfl := List.mem_singleton.mp hr
      cases hkind
  | @goldChecked validation hpassed goldAnswer hgold passed id now hid id' now' hid' aud' haud =>
      exact ⟨.replace hexpert (follows_withGoldResult passed),
        .replace htask rfl rfl fun x hx ↦ Or.inl hx, .push rfl hv hby,
        .append (Evidence.rows_push_push hid hid') (hgates nofun nofun)⟩
  | @heldBack validation hpassed hgold result sampled status hstatus hroute id now hid id' now'
      hid' aud' haud =>
      exact ⟨.refl _, .of_eq rfl, .push rfl hv hby,
        .append (Evidence.rows_push_push hid hid') (hgates nofun nofun)⟩
  | @autoApproved validation hpassed hgold result sampled hroute id now hid id' now' hid' s₁ hmeter
      aud' haud =>
      obtain ⟨hsubs, hrevs, _⟩ := Evidence.kept_of_metered hmeter
      obtain ⟨hexperts, htasks⟩ := same_of_metered hmeter
      refine ⟨?_, .replace htask htasks rfl fun x hx ↦ Or.inl hx, .push hsubs hv hby,
        .append ((congrArg Table.rows hrevs).trans (Evidence.rows_push_push hid hid'))
          (hgates nofun nofun)⟩
      rw [show Db.experts _ = _ from hexperts]
      exact .replace hexpert (.judged rfl rfl)

theorem watched_of_reviewed {sub : Submission} {reviewer : Expert} {verdict : Verdict}
    (h : Engine.Reviewed env sub reviewer verdict s s')
    (hsub : s.submissions.find? sub.id = some sub) (hreviewer : reviewer ∈ s.experts) :
    Watched s s' := by
  rcases h with @⟨hstatus, hother, hrole, hqualified, overall, _, _, _, hid, _, hdecided, _, _, _⟩
  have hjudge : ∀ {r : Review}, r.reviewerId = reviewer.id → ∀ r' ∈ [r], r'.kind = .human →
      Qualified s r'.reviewerId := by
    intro r hby r' hr' _
    obtain rfl := List.mem_singleton.mp hr'
    exact ⟨reviewer, hreviewer, hby.symm, hqualified⟩
  cases hdecided with
  | @pass task htask project hproject author hauthor s₁ hmeter =>
      obtain ⟨hsubs, hrevs, _⟩ := Evidence.kept_of_metered hmeter
      obtain ⟨hexperts, htasks⟩ := same_of_metered hmeter
      refine ⟨?_, .replace (Table.find?_key htask) htasks rfl fun x hx ↦ Or.inl hx,
        .replace hsub hsubs rfl rfl,
        .append ((congrArg Table.rows hrevs).trans (Table.rows_push hid)) (hjudge rfl)⟩
      rw [show Db.experts _ = _ from hexperts]
      exact .replace (Table.find?_key hauthor) (.judged rfl rfl)
  | revise =>
      exact ⟨.refl _, .of_eq rfl, .replace hsub rfl rfl rfl,
        .append (Table.rows_push hid) (hjudge rfl)⟩
  | @fail author hauthor =>
      exact ⟨.replace (Table.find?_key hauthor) (.judged rfl rfl), .of_eq rfl,
        .replace hsub rfl rfl rfl, .append (Table.rows_push hid) (hjudge rfl)⟩

theorem guarded_newExpert (body : Api.ExpertIn) (id : String) :
    Guarded (Api.newExpert body id) := by
  intro hdue
  rcases hdue with hlow | hfails
  · norm_num [Api.newExpert, SUSPEND_BELOW] at hlow
  · simp [Api.newExpert, GOLD_SUSPEND_FAILS] at hfails

theorem watched_of_effect {actor : Auth.Actor} {request : Api.Request}
    (h : Api.Effect env actor s request s') : Watched s s' := by
  cases h with
  | @createExpert body id aud hid haud =>
      exact ⟨.push hid (guarded_newExpert body id), .of_eq rfl, .of_eq rfl, .of_eq rfl⟩
  | recordExam hexpert hid haud =>
      exact ⟨.replace (Table.find?_key hexpert) (.examined _), .of_eq rfl, .of_eq rfl, .of_eq rfl⟩
  | @createTask projectId body project id now aud hproject hgold hid haud =>
      exact ⟨.refl _, .push hid rfl rfl, .of_eq rfl, .of_eq rfl⟩
  | @assignTask taskId expertId task expert project aud htask hexpert hproject hqualified haud =>
      refine ⟨.refl _, .replace (Table.find?_key htask) rfl rfl ?_, .of_eq rfl, .of_eq rfl⟩
      intro x hx
      obtain rfl := Option.some.inj hx
      exact Or.inr ⟨expert, Table.mem_of_find? hexpert, rfl, hqualified⟩
  | createSubmission htask hexpert h =>
      obtain ⟨hproject, hqualified, hheld, hassigned, ⟨id, now, rfl⟩, hid, haud, hprocess⟩ := h
      exact watched_of_processed hprocess hid rfl (Table.find?_key htask)
        (Table.find?_key hexpert) hqualified
  | postHumanReview hsub hreviewer h =>
      exact watched_of_reviewed h (Table.find?_key hsub) (Table.mem_of_find? hreviewer)
  | generateInvoice hfirm h =>
      cases h
      exact watched_of_eq rfl rfl rfl rfl
  | createInvoiceCheckout hinv haccess h =>
      cases h
      exact watched_of_eq rfl rfl rfl rfl
  | recordExternalPayment hinv h =>
      cases h
      exact watched_of_eq rfl rfl rfl rfl
  | stripeWebhook hevent hact h => cases h <;> exact watched_of_eq rfl rfl rfl rfl
  | _ => exact watched_of_eq rfl rfl rfl rfl

/-! ## Every run -/

theorem watched_of_mem {tr : List (Served Api.Http Db Json)} {w₀ w : ℕ}
    (h : machine.Run (Api.serve env) Db.empty w₀ tr s w) {e : Served Api.Http Db Json}
    (he : e ∈ tr) : Watched e.before e.after := by
  rcases Api.effect_of_mem (Audit.seqBelow_empty w₀) h he with ⟨actor, heffect⟩ | ⟨_, hsame⟩
  · exact watched_of_effect heffect
  · rw [hsame]
    exact watched_of_eq rfl rfl rfl rfl

theorem Roster.guarded {t t' : Table String Expert Expert.id} (h : Roster t t')
    (ht : ∀ e ∈ t, Guarded e) : ∀ e' ∈ t', Guarded e' := by
  intro e' he'
  by_cases hvac : t.Vacant e'.id
  · exact h.join e' he' hvac
  · simp only [Table.Vacant, not_forall, not_not] at hvac
    obtain ⟨e, he, hid⟩ := hvac
    obtain ⟨e'', he'', hfollows⟩ := h.stay e he
    obtain rfl := Table.eq_of_key he'' he' (hfollows.id_eq.trans hid)
    exact hfollows.guarded (ht e he)

/-- `x` is suspended. -/
def Suspended (s : Db) (x : String) : Prop :=
  ∃ expert ∈ s.experts, expert.id = x ∧ expert.status = .suspended

theorem Suspended.not_qualified {x : String} (h : Suspended s x) : ¬Qualified s x := by
  rintro ⟨expert', hexpert', hid', hqualified⟩
  obtain ⟨expert, hexpert, hid, hsuspended⟩ := h
  obtain rfl := Table.eq_of_key hexpert hexpert' (hid.trans hid'.symm)
  rw [hsuspended] at hqualified
  cases hqualified

/-- Nothing was done with `x` between `s` and `s'`, who is still suspended. -/
structure Barred (x : String) (s s' : Db) : Prop where
  suspended : Suspended s' x
  tasks : ∀ task' ∈ s'.tasks, task'.assignedTo = some x →
    ∃ task ∈ s.tasks, task.id = task'.id ∧ task.assignedTo = some x
  submissions : ∀ sub' ∈ s'.submissions, sub'.expertId = x →
    ∃ sub ∈ s.submissions, sub.id = sub'.id ∧ sub.expertId = x
  reviews : ∀ r ∈ s'.reviews, r.kind = .human → r.reviewerId = x → r ∈ s.reviews

theorem Barred.refl {x : String} (h : Suspended s x) : Barred x s s :=
  ⟨h, fun task htask hx ↦ ⟨task, htask, rfl, hx⟩, fun sub hsub hx ↦ ⟨sub, hsub, rfl, hx⟩,
    fun _ hr _ _ ↦ hr⟩

theorem Barred.trans {x : String} {s₁ s₂ s₃ : Db} (h : Barred x s₁ s₂) (h' : Barred x s₂ s₃) :
    Barred x s₁ s₃ := by
  refine ⟨h'.suspended, ?_, ?_, ?_⟩
  · intro task₃ htask₃ hx
    obtain ⟨task₂, htask₂, hid₂, hx₂⟩ := h'.tasks task₃ htask₃ hx
    obtain ⟨task₁, htask₁, hid₁, hx₁⟩ := h.tasks task₂ htask₂ hx₂
    exact ⟨task₁, htask₁, hid₁.trans hid₂, hx₁⟩
  · intro sub₃ hsub₃ hx
    obtain ⟨sub₂, hsub₂, hid₂, hx₂⟩ := h'.submissions sub₃ hsub₃ hx
    obtain ⟨sub₁, hsub₁, hid₁, hx₁⟩ := h.submissions sub₂ hsub₂ hx₂
    exact ⟨sub₁, hsub₁, hid₁.trans hid₂, hx₁⟩
  · exact fun r hr hkind hx ↦ h.reviews r (h'.reviews r hr hkind hx) hkind hx

theorem Watched.barred {x : String} (hw : Watched s s') (hx : Suspended s x) : Barred x s s' := by
  have hnot := hx.not_qualified
  obtain ⟨expert, hexpert, hid, hsuspended⟩ := hx
  obtain ⟨expert', hexpert', hfollows⟩ := hw.roster.stay expert hexpert
  refine ⟨⟨expert', hexpert', hfollows.id_eq.trans hid, hfollows.suspended hsuspended⟩, ?_, ?_, ?_⟩
  · intro task' htask' hassigned
    exact (hw.assigns task' htask' x hassigned).resolve_right hnot
  · rintro sub' hsub' rfl
    exact (hw.submits sub' hsub').resolve_right hnot
  · rintro r hr hkind rfl
    exact (hw.judges r hr hkind).resolve_right hnot

/-- A request that needs `x` to be qualified. -/
def Calls (x : String) : Api.Request → Prop
  | .assignTask _ expertId => expertId = x
  | .createSubmission _ expertId _ => expertId = x
  | .postHumanReview _ body => body.reviewerId = x
  | _ => False

/-- Such a request fails unless `x` is qualified. -/
theorem qualified_of_calls {x : String} {actor : Auth.Actor} {request : Api.Request}
    (h : Api.Effect env actor s request s') (hcalls : Calls x request) : Qualified s x := by
  cases h with
  | assignTask htask hexpert hproject hqualified haud =>
      exact ⟨_, Table.mem_of_find? hexpert, (Table.key_of_find? hexpert).trans hcalls, hqualified⟩
  | createSubmission htask hexpert h =>
      obtain ⟨_, hqualified, _⟩ := h
      exact ⟨_, Table.mem_of_find? hexpert, (Table.key_of_find? hexpert).trans hcalls, hqualified⟩
  | postHumanReview hsub hreviewer h =>
      obtain ⟨_, _, _, hqualified, _⟩ := h
      exact ⟨_, Table.mem_of_find? hreviewer, (Table.key_of_find? hreviewer).trans hcalls,
        hqualified⟩
  | _ => exact hcalls.elim

/-- Between an entry of a run and a later state nothing is done with those who
were suspended. -/
theorem barred_from {pre post : List (Served Api.Http Db Json)} {e : Served Api.Http Db Json}
    {w₀ w : ℕ} (h : machine.Run (Api.serve env) Db.empty w₀ (pre ++ e :: post) s w) {x : String}
    (hx : Suspended e.before x) : Barred x e.before s := by
  refine Machine.Run.relates_from (R := fun s s' ↦ Suspended s x → Barred x s s') (fun _ ↦ .refl)
    (fun s₁ s₂ s₃ h₁₂ h₂₃ hx ↦ ?_) h (fun e' he' hx ↦ ?_) hx
  · exact (h₁₂ hx).trans (h₂₃ (h₁₂ hx).suspended)
  · exact (watched_of_mem h (List.mem_append_right _ he')).barred hx

theorem suspended_at {pre post : List (Served Api.Http Db Json)} {e e' : Served Api.Http Db Json}
    {w₀ w : ℕ} (h : machine.Run (Api.serve env) Db.empty w₀ (pre ++ e :: post) s w) {x : String}
    (hx : Suspended e.before x) (he' : e' ∈ e :: post) : Suspended e'.before x := by
  obtain ⟨mid, post', hsplit⟩ := List.append_of_mem he'
  rw [hsplit, ← List.append_assoc] at h
  obtain ⟨w₁, _, hpre, _⟩ := h.split
  cases mid with
  | nil =>
      obtain ⟨rfl, _⟩ := List.cons.inj hsplit
      exact hx
  | cons _ mid =>
      obtain ⟨rfl, _⟩ := List.cons.inj hsplit
      exact (barred_from hpre hx).suspended

/-- In every run, who is due for suspension is suspended, and nothing is done
with those who are suspended from then on. -/
theorem suspension_of_run {tr : List (Served Api.Http Db Json)} {w₀ w : ℕ}
    (h : machine.Run (Api.serve env) Db.empty w₀ tr s w) :
    (∀ e ∈ s.experts, e.qualityScore.lt (.finite 2) = true ∨ 3 ≤ e.goldFailCount →
      e.status = .suspended) ∧
      ∀ pre e post, tr = pre ++ e :: post → ∀ x, Suspended e.before x →
        Barred x e.before s ∧
          ∀ e' ∈ e :: post, Calls x e'.request.request → e'.outcome = none := by
  constructor
  · refine Machine.Run.relates (R := fun s s' ↦ (∀ e ∈ s.experts, Guarded e) →
      ∀ e ∈ s'.experts, Guarded e) (C := fun _ e ↦ Watched e.before e.after) (fun _ h ↦ h)
      (fun _ _ _ h h' hs ↦ h' (h hs)) (fun _ e _ _ hw _ ↦ hw.roster.guarded) h ?_
      (by simp [Db.empty])
    rintro pre e post rfl
    exact watched_of_mem h (by simp)
  · rintro pre e post rfl x hx
    refine ⟨barred_from h hx, fun e' he' hcalls ↦ ?_⟩
    rcases Api.effect_of_mem (Audit.seqBelow_empty w₀) h (List.mem_append_right _ he') with
      ⟨actor, heffect⟩ | ⟨hfailed, _⟩
    · exact absurd (qualified_of_calls heffect hcalls) (suspended_at h hx he').not_qualified
    · exact hfailed

end Requests

end Controls

namespace Development

/-- A verdict with a score far below the scale. -/
def crushing : Api.Request :=
  .postHumanReview submissionId ⟨reviewerId, .fail,
    some [[("criterion", .str "technical_accuracy"), ("score", .int (-10))]], ""⟩

/-- A suspension, and an exam and a submission after it. -/
def suspension : List Api.Request :=
  firstSubmission ++ [crushing, .recordExam authorId ⟨.tax, .finite 100, by decide +kernel⟩,
    .createSubmission taskId authorId [("response", .str "It is not deductible.")]]

end Development

theorem Controls.suspension_of_run_crushing :
    (Development.run Development.suspension).2.1.experts.rows.map Expert.status =
        [.suspended, .qualified] ∧
      (∀ e ∈ (Development.run Development.suspension).2.1.experts,
        e.qualityScore.lt (.finite 2) = true ∨ 3 ≤ e.goldFailCount → e.status = .suspended) ∧
      ∀ pre e post, (Development.run Development.suspension).1 = pre ++ e :: post →
        ∀ x, Suspended e.before x →
          Barred x e.before (Development.run Development.suspension).2.1 ∧
            ∀ e' ∈ e :: post, Calls x e'.request.request → e'.outcome = none :=
  ⟨by decide +kernel, suspension_of_run (Development.run_spec _)⟩

end HumanDataFactory
