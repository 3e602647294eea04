import HumanDataFactory.Api.Effects
import HumanDataFactory.Development

/-!
# The qualification gate

The gate looks up the passed exam of a contributor with a query that allows for
one row at most.  It decides as documented as long as a contributor has passed
one exam for the track; the second passed exam takes the right to work away.
-/

namespace HumanDataFactory

open Transact

namespace Controls

variable {env : Env} {s s' : Db} {expert : Expert} {track : DomainTrack}

def MayWork (s : Db) (expert : Expert) (track : DomainTrack) : Prop :=
  expert.status = .qualified ∧
    ∃ q ∈ s.qualifications, q.expertId = expert.id ∧ q.track = track ∧ q.passed = true

/-- The gate returns for those who may work and is a control violation for all
others. -/
structure GateExact (s : Db) (expert : Expert) (track : DomainTrack) : Prop where
  returns : (assertQualified expert track).answer s = some (.ok ()) ↔ MayWork s expert track
  refuses : ¬MayWork s expert track → ∃ message,
    (assertQualified expert track).answer s = some (.error (.controlViolation "C1" message))

theorem answer_scalarOneOrNone_bind {α β : Type} (rows : List α) (k : Option α → Tx β) :
    (Session.scalarOneOrNone rows >>= k).answer s =
      if rows.length ≤ 1 then (k rows.head?).answer s else some (.error .multipleResultsFound) := by
  rcases rows with _ | ⟨a, _ | ⟨b, rows⟩⟩
  · rfl
  · rfl
  · rw [if_neg (by simp)]
    rfl

theorem mayWork_iff : MayWork s expert track ↔
    expert.status = .qualified ∧ 0 < (passedQualifications s expert.id track).length := by
  rw [MayWork, passedQualifications, List.length_pos_iff_exists_mem]
  simp [Table.mem_def]

theorem answer_assertQualified (s : Db) (expert : Expert) (track : DomainTrack) :
    (assertQualified expert track).answer s =
      if expert.status = .qualified then
        if (passedQualifications s expert.id track).length ≤ 1 then
          if (passedQualifications s expert.id track).head?.isSome = true then some (.ok ())
          else some (.error (.controlViolation "C1"
            s!"expert {expert.id} holds no passed qualification for track '{track.value}'"))
        else some (.error .multipleResultsFound)
      else some (.error (.controlViolation "C1"
        s!"expert {expert.id} is not in QUALIFIED status")) := by
  unfold assertQualified
  rw [Prog.answer_ensure_bind, Prog.answer_select_bind, answer_scalarOneOrNone_bind]
  simp only [Prog.ensure]
  split_ifs <;> rfl

theorem returns_iff : (assertQualified expert track).answer s = some (.ok ()) ↔
    expert.status = .qualified ∧ (passedQualifications s expert.id track).length = 1 := by
  rw [answer_assertQualified]
  rcases hrows : passedQualifications s expert.id track with _ | ⟨q, _ | ⟨q', rows⟩⟩ <;>
    by_cases hstatus : expert.status = .qualified <;> simp [hstatus]

theorem gateExact_iff : GateExact s expert track ↔
    (expert.status = .qualified → (passedQualifications s expert.id track).length ≤ 1) := by
  constructor
  · intro h hstatus
    by_contra hmany
    have hmay : MayWork s expert track := mayWork_iff.mpr ⟨hstatus, by omega⟩
    obtain ⟨_, hone⟩ := returns_iff.mp (h.returns.mpr hmay)
    omega
  · intro hfew
    constructor
    · rw [returns_iff, mayWork_iff]
      constructor
      · rintro ⟨hstatus, hone⟩
        exact ⟨hstatus, by omega⟩
      · rintro ⟨hstatus, hsome⟩
        have hle := hfew hstatus
        exact ⟨hstatus, by omega⟩
    · intro hnot
      rw [mayWork_iff] at hnot
      rw [answer_assertQualified]
      by_cases hstatus : expert.status = .qualified
      · have hnil : passedQualifications s expert.id track = [] := by
          rw [← List.length_eq_zero_iff]
          by_contra hne
          exact hnot ⟨hstatus, by omega⟩
        exact ⟨_, by rw [if_pos hstatus, hnil]; rfl⟩
      · exact ⟨_, if_neg hstatus⟩

/-- A successful request that records a passed exam of this contributor. -/
def passesExam (expertId : String) (track : DomainTrack) (e : Served Api.Http Db Json) : Bool :=
  match e.outcome, e.request.request with
  | some _, .recordExam id body =>
      decide (id = expertId ∧ body.track = track) && Api.EXAM_PASS_SCORE.le body.examScore
  | _, _ => false

theorem request_of_passesExam {expertId : String} {e : Served Api.Http Db Json}
    (h : passesExam expertId track e = true) :
    e.outcome ≠ none ∧ ∃ body, e.request.request = .recordExam expertId body ∧
      body.track = track ∧ Api.EXAM_PASS_SCORE.le body.examScore = true := by
  unfold passesExam at h
  split at h
  · rename_i id body houtcome hrequest
    simp only [Bool.and_eq_true, decide_eq_true_eq] at h
    obtain ⟨⟨rfl, htrack⟩, hscore⟩ := h
    exact ⟨by simp [houtcome], body, hrequest, htrack, hscore⟩
  · cases h

/-- Only an exam is entered among the qualifications. -/
theorem qualifications_of_effect {actor : Auth.Actor} {request : Api.Request}
    (h : Api.Effect env actor s request s')
    (hother : ∀ expertId body, request ≠ .recordExam expertId body) :
    s'.qualifications = s.qualifications := by
  cases h with
  | recordExam _ _ _ => exact absurd rfl (hother _ _)
  | createSubmission _ _ h => exact (Engine.setting_of_submitted h).qualifications
  | postHumanReview _ _ h => exact (Engine.setting_of_reviewed h).qualifications
  | generateInvoice _ h =>
      obtain ⟨_, _, _⟩ := h
      rfl
  | createInvoiceCheckout _ _ h =>
      cases h
      rfl
  | recordExternalPayment _ h =>
      cases h
      rfl
  | stripeWebhook _ _ h => cases h <;> rfl
  | _ => rfl

theorem passed_of_exam {q : Qualification} (hvac : s.qualifications.Vacant q.id)
    (hquals : s'.qualifications = s.qualifications.push q) (expertId : String)
    (track : DomainTrack) :
    (passedQualifications s' expertId track).length =
      (passedQualifications s expertId track).length +
        if q.expertId = expertId ∧ q.track = track ∧ q.passed = true then 1 else 0 := by
  unfold passedQualifications
  rw [hquals, Table.rows_push hvac, List.filter_append, List.length_append, List.filter_singleton]
  by_cases hq : q.expertId = expertId ∧ q.track = track ∧ q.passed = true
  · rw [if_pos hq, decide_eq_true hq]
    rfl
  · rw [if_neg hq, decide_eq_false hq]
    rfl

theorem passed_of_serves {e : Served Api.Http Db Json} {w w' : ℕ}
    (he : machine.Serves (Api.serve env) e w w') (hseq : Audit.SeqBelow e.before.auditEvents w)
    (expertId : String) (track : DomainTrack) :
    (passedQualifications e.after expertId track).length =
      (passedQualifications e.before expertId track).length +
        if passesExam expertId track e = true then 1 else 0 := by
  cases he with
  | failed _ => simp [passesExam]
  | @ok r s a s' w w' hexec =>
      obtain ⟨⟨actor, heffect⟩, _⟩ := Api.exec_serve hexec hseq
      obtain ⟨authorization, xActorId, request⟩ := r
      by_cases hexam : ∃ id body, request = .recordExam id body
      · obtain ⟨id, body, rfl⟩ := hexam
        cases heffect with
        | recordExam hexpert hid _ =>
            rw [passed_of_exam hid rfl]
            obtain rfl := Table.key_of_find? hexpert
            simp [passesExam, and_assoc]
      · have hother : ∀ id body, request ≠ .recordExam id body :=
          fun id body heq ↦ hexam ⟨id, body, heq⟩
        have hnone : passesExam expertId track
            ⟨⟨authorization, xActorId, request⟩, s, some a, s'⟩ = false := by
          cases request <;> first | rfl | exact absurd rfl (hother _ _)
        have hsame : s'.qualifications = s.qualifications :=
          qualifications_of_effect heffect hother
        rw [hnone]
        simp [passedQualifications, hsame]

/-- The rows the gate looks up are the passed exams of the history. -/
theorem passed_of_run {tr : List (Served Api.Http Db Json)} {w₀ w : ℕ}
    (h : machine.Run (Api.serve env) Db.empty w₀ tr s w) (expertId : String)
    (track : DomainTrack) :
    (passedQualifications s expertId track).length = tr.countP (passesExam expertId track) := by
  induction h with
  | nil => rfl
  | @snoc tr s w e w' h hb he ih =>
      subst hb
      rw [passed_of_serves he (Api.below_of_run (Audit.seqBelow_empty w₀) h), ih,
        List.countP_append, List.countP_singleton]

/-- Whoever could work before the entry can do so after it. -/
def KeepsRight (e : Served Api.Http Db Json) (expertId : String) : Prop :=
  ∀ expert ∈ e.before.experts, ∀ expert' ∈ e.after.experts, expert.id = expertId →
    expert'.id = expertId → ∀ track,
      (assertQualified expert track).answer e.before = some (.ok ()) →
        (assertQualified expert' track).answer e.after = some (.ok ())

/-- A passed exam makes a pending contributor a qualified one. -/
theorem expert_of_exam {e : Served Api.Http Db Json} {w w' : ℕ} {expertId : String}
    (he : machine.Serves (Api.serve env) e w w') (hseq : Audit.SeqBelow e.before.auditEvents w)
    (hpass : passesExam expertId track e = true) (hexpert : expert ∈ e.before.experts)
    (hid : expert.id = expertId) {expert' : Expert} (hexpert' : expert' ∈ e.after.experts)
    (hid' : expert'.id = expertId) : expert' = Api.afterExam true expert := by
  obtain ⟨houtcome, body, hrequest, _, hscore⟩ := request_of_passesExam hpass
  cases he with
  | failed _ => exact absurd rfl houtcome
  | ok hexec =>
      obtain ⟨⟨actor, heffect⟩, _⟩ := Api.exec_serve hexec hseq
      rw [hrequest] at heffect
      cases heffect with
      | @recordExam _ _ found id aud hfound _ _ =>
          have hmem := Table.mem_of_find? hfound
          obtain rfl := Table.eq_of_key hexpert hmem
            (hid.trans (Table.key_of_find? hfound).symm)
          rw [hscore] at hexpert'
          rcases Table.mem_replace hexpert' with hsame | ⟨_, hne⟩
          · exact hsame
          · exact absurd (hid'.trans (hid.symm.trans (Api.afterExam_id true expert).symm)) hne

theorem afterExam_qualified (passed : Bool) (h : expert.status = .qualified) :
    Api.afterExam passed expert = expert := by
  refine if_neg ?_
  rintro ⟨_, hpending⟩
  rw [h] at hpending
  cases hpending

theorem keepsRight_iff {tr pre post : List (Served Api.Http Db Json)}
    {e : Served Api.Http Db Json} {w₀ w : ℕ}
    (h : machine.Run (Api.serve env) Db.empty w₀ tr s w) (htr : tr = pre ++ e :: post)
    {expertId : String} (hpass : passesExam expertId track e = true) :
    KeepsRight e expertId ↔ ∀ expert ∈ e.before.experts, expert.id = expertId →
      expert.status = .qualified → pre.countP (passesExam expertId track) ≠ 1 := by
  subst htr
  obtain ⟨w₁, w₂, hpre, he, _⟩ := h.split
  have hseq := Api.below_of_run (Audit.seqBelow_empty w₀) hpre
  have hbefore (t : DomainTrack) := passed_of_run hpre expertId t
  have hafter (t : DomainTrack) := passed_of_serves he hseq expertId t
  constructor
  · intro hkeeps expert hexpert hid hstatus hone
    obtain ⟨_, body, hrequest, _, _⟩ := request_of_passesExam hpass
    have hreturns : (assertQualified expert track).answer e.before = some (.ok ()) := by
      rw [returns_iff, hid, hbefore track]
      exact ⟨hstatus, hone⟩
    obtain ⟨expert', hexpert', hid'⟩ : ∃ expert' ∈ e.after.experts, expert'.id = expertId := by
      cases he with
      | failed _ => exact ⟨expert, hexpert, hid⟩
      | ok hexec =>
          obtain ⟨⟨actor, heffect⟩, _⟩ := Api.exec_serve hexec hseq
          rw [hrequest] at heffect
          cases heffect with
          | recordExam hfound _ _ =>
              exact ⟨_, Table.mem_replace_self (Table.mem_of_find? hfound) (by simp),
                (Api.afterExam_id _ _).trans (Table.key_of_find? hfound)⟩
    obtain ⟨_, htwo⟩ :=
      returns_iff.mp (hkeeps expert hexpert expert' hexpert' hid hid' track hreturns)
    rw [hid', hafter track, if_pos hpass, hbefore track] at htwo
    omega
  · intro hcond expert hexpert expert' hexpert' hid hid' t hreturns
    obtain ⟨hstatus, hone⟩ := returns_iff.mp hreturns
    rw [hid, hbefore t] at hone
    have hsame := expert_of_exam he hseq hpass hexpert hid hexpert' hid'
    rw [afterExam_qualified true hstatus] at hsame
    obtain ⟨_, body, hrequest, htrack, _⟩ := request_of_passesExam hpass
    have hother : passesExam expertId t e = false := by
      by_contra hpass'
      obtain ⟨_, body', hrequest', htrack', _⟩ :=
        request_of_passesExam (Bool.of_not_eq_false hpass')
      rw [hrequest] at hrequest'
      obtain ⟨_, rfl⟩ := Api.Request.recordExam.inj hrequest'
      rw [← htrack', htrack] at hone
      exact hcond expert hexpert hid hstatus hone
    rw [returns_iff, hsame, hid, hafter t, hother, hbefore t]
    exact ⟨hstatus, by simpa using hone⟩

/-- After any history of exams the gate is exact for those who passed once at
most, and a further pass keeps the right to work unless it is the second. -/
theorem gate_exact_of_run {tr : List (Served Api.Http Db Json)} {w₀ w : ℕ}
    (h : machine.Run (Api.serve env) Db.empty w₀ tr s w) :
    (∀ expert track, GateExact s expert track ↔
      (expert.status = .qualified → tr.countP (passesExam expert.id track) ≤ 1)) ∧
    ∀ pre e post, tr = pre ++ e :: post → ∀ expertId track, passesExam expertId track e = true →
      (KeepsRight e expertId ↔ ∀ expert ∈ e.before.experts, expert.id = expertId →
        expert.status = .qualified → pre.countP (passesExam expertId track) ≠ 1) := by
  constructor
  · intro expert track
    rw [gateExact_iff, passed_of_run h]
  · intro pre e post htr expertId track hpass
    exact keepsRight_iff h htr hpass

/-- Both experts passed the tax exam, each of them once. -/
theorem gate_exact_of_firstSubmission :
    (Development.run Development.firstSubmission).2.1.experts.rows.map Expert.status =
        [.qualified, .qualified] ∧
      (∀ expert ∈ (Development.run Development.firstSubmission).2.1.experts,
        GateExact (Development.run Development.firstSubmission).2.1 expert .tax) ∧
      ∀ pre e post, (Development.run Development.firstSubmission).1 = pre ++ e :: post →
        ∀ expertId, passesExam expertId .tax e = true → KeepsRight e expertId := by
  obtain ⟨hgate, hkeeps⟩ := gate_exact_of_run (Development.run_spec Development.firstSubmission)
  have honce : ∀ expert ∈ (Development.run Development.firstSubmission).2.1.experts.rows,
      (Development.run Development.firstSubmission).1.countP (passesExam expert.id .tax) ≤ 1 := by
    decide +kernel
  have hearlier : ∀ e ∈ (Development.run Development.firstSubmission).1,
      ∀ expert ∈ e.before.experts.rows,
        (Development.run Development.firstSubmission).1.countP (passesExam expert.id .tax) ≤ 1 := by
    decide +kernel
  refine ⟨by decide +kernel, fun expert hexpert ↦ (hgate expert .tax).mpr fun _ ↦
    honce expert hexpert, ?_⟩
  intro pre e post htr expertId hpass
  rw [hkeeps pre e post htr expertId .tax hpass]
  rintro expert hexpert rfl _ hone
  -- with this pass it would be the second
  have htwo := hearlier e (by rw [htr]; simp) expert hexpert
  rw [htr, List.countP_append, List.countP_cons_of_pos hpass] at htwo
  omega

def retaken : List Api.Request :=
  [.createExpert ⟨"Ada", "ada@example.com", ["CPA"], false⟩,
    .recordExam (Development.identifier 1) ⟨.tax, .finite 90, Development.ninety_inRange⟩,
    .recordExam (Development.identifier 1) ⟨.tax, .finite 95, by decide +kernel⟩]

theorem second_pass_raises :
    ¬∀ (env : Env) (tr : List (Served Api.Http Db Json)) (w₀ w : ℕ) (s : Db),
      machine.Run (Api.serve env) Db.empty w₀ tr s w → ∀ expert ∈ s.experts, ∀ track,
      ((assertQualified expert track).answer s = some (.ok ()) ↔
        expert.status = .qualified ∧ ∃ q ∈ s.qualifications, q.expertId = expert.id ∧
          q.track = track ∧ q.passed = true) ∧
      ∀ e, (assertQualified expert track).answer s = some (.error e) →
        ∃ message, e = .controlViolation "C1" message := by
  intro hclaim
  have hmany : ∃ expert ∈ (Development.run retaken).2.1.experts.rows,
      expert.status = .qualified ∧
        (passedQualifications (Development.run retaken).2.1 expert.id .tax).length = 2 := by
    decide +kernel
  obtain ⟨expert, hexpert, hstatus, htwo⟩ := hmany
  have hraises : (assertQualified expert .tax).answer (Development.run retaken).2.1 =
      some (.error .multipleResultsFound) := by
    rw [answer_assertQualified, if_pos hstatus, if_neg (by omega)]
  obtain ⟨_, honly⟩ := hclaim _ _ _ _ _ (Development.run_spec retaken) expert hexpert .tax
  obtain ⟨message, hmessage⟩ := honly _ hraises
  cases hmessage

end Controls

end HumanDataFactory
