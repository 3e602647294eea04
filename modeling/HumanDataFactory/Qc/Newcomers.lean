import HumanDataFactory.Evidence

/-!
# New contributors

The sampling rule at its upper tier: which digests let a submission through
when the rate is one, and what a run makes of the submissions of contributors
with fewer than five approvals.
-/

namespace HumanDataFactory

open Transact

theorem hexDigitValue_le {c : Char} {d : ℕ} (h : hexDigitValue c = some d) :
    d ≤ 15 ∧ (d = 15 ↔ c = 'f') := by
  unfold hexDigitValue at h
  have hnat : ∀ a b : Char, a ≤ b ↔ a.toNat ≤ b.toNat := fun a b ↦ UInt32.le_iff_toNat_le
  have hinj : c = 'f' ↔ c.toNat = 102 := by
    refine ⟨fun hc ↦ by rw [hc]; rfl, fun hc ↦ Char.toNat_inj.mp hc⟩
  rw [hinj]
  simp only [hnat] at h
  have h₀ : '0'.toNat = 48 := rfl
  have h₉ : '9'.toNat = 57 := rfl
  have ha : 'a'.toNat = 97 := rfl
  have hf : 'f'.toNat = 102 := rfl
  split at h
  · have hd := Option.some.inj h
    omega
  · split at h
    · have hd := Option.some.inj h
      omega
    · cases h

def hexStep (n : ℕ) (c : Char) : Option ℕ :=
  (hexDigitValue c).map fun d ↦ 16 * n + d

/-- The value of hex digits on top of `n`; the largest is all `f`. -/
theorem foldlM_hexStep {cs : List Char} (h : ∀ c ∈ cs, (hexDigitValue c).isSome = true) (n : ℕ) :
    ∃ m, cs.foldlM hexStep n = some m ∧ m + 1 ≤ (n + 1) * 16 ^ cs.length ∧
      (m + 1 = (n + 1) * 16 ^ cs.length ↔ ∀ c ∈ cs, c = 'f') := by
  induction cs generalizing n with
  | nil => exact ⟨n, rfl, by simp, by simp⟩
  | cons c cs ih =>
      obtain ⟨d, hd⟩ := Option.isSome_iff_exists.mp (h c (by simp))
      obtain ⟨hle, htop⟩ := hexDigitValue_le hd
      have hstep : hexStep n c = some (16 * n + d) := by rw [hexStep, hd]; rfl
      obtain ⟨m, hm, hbound, heq⟩ := ih (fun c' hc' ↦ h c' (by simp [hc'])) (16 * n + d)
      have hpow : (n + 1) * 16 ^ (c :: cs).length = (16 * n + 16) * 16 ^ cs.length := by
        rw [List.length_cons, pow_succ]
        ring
      have hmono : (16 * n + d + 1) * 16 ^ cs.length ≤ (16 * n + 16) * 16 ^ cs.length :=
        Nat.mul_le_mul_right _ (by omega)
      refine ⟨m, ?_, by rw [hpow]; exact hbound.trans hmono, ?_⟩
      · rw [List.foldlM_cons, hstep]
        exact hm
      · rw [hpow, List.forall_mem_cons, ← htop, ← heq]
        constructor
        · intro hmax
          have hd15 : d = 15 := by
            by_contra hne
            have hlt : (16 * n + d + 1) * 16 ^ cs.length < (16 * n + 16) * 16 ^ cs.length :=
              Nat.mul_lt_mul_of_pos_right (by omega) (by positivity)
            omega
          exact ⟨hd15, by rw [hmax, hd15]⟩
        · rintro ⟨rfl, hmax⟩
          exact hmax

/-- Sixty-four hex digits. -/
def HexDigest (s : String) : Prop :=
  s.toList.length = 64 ∧ ∀ c ∈ s.toList, (hexDigitValue c).isSome = true

instance (s : String) : Decidable (HexDigest s) :=
  have := List.decidableBAll (fun c ↦ (hexDigitValue c).isSome = true) s.toList
  inferInstanceAs (Decidable (_ ∧ _))

namespace Controls

variable {env : Env}

variable (env) in
/-- The digest opens with the largest eight digits. -/
def TopBucket (submissionId : String) : Prop :=
  (env.sha256 submissionId).toList.take 8 = List.replicate 8 'f'

instance (submissionId : String) : Decidable (TopBucket env submissionId) :=
  inferInstanceAs (Decidable (_ = _))

/-- At the rate of new contributors only the last bucket is not sampled. -/
theorem isSampledForHumanReview_newcomer {submissionId : String} {expert : Expert}
    (hdigest : HexDigest (env.sha256 submissionId)) (hfew : expert.approvedCount < 5) :
    isSampledForHumanReview env submissionId expert =
      .ok (decide ¬TopBucket env submissionId) := by
  obtain ⟨hlength, hhex⟩ := hdigest
  have hdigits : ∀ c ∈ (env.sha256 submissionId).toList.take 8, (hexDigitValue c).isSome = true :=
    fun c hc ↦ hhex c (List.mem_of_mem_take hc)
  obtain ⟨n, hn, hbound, htop⟩ := foldlM_hexStep hdigits 0
  have height : ((env.sha256 submissionId).toList.take 8).length = 8 := by
    rw [List.length_take, hlength]
    rfl
  rw [height] at hbound htop
  have hparse : parseHex (String.ofList ((env.sha256 submissionId).toList.take 8)) = some n := by
    rw [parseHex, String.toList_ofList]
    exact hn
  have hall : TopBucket env submissionId ↔ n = 0xFFFFFFFF := by
    have hrep : TopBucket env submissionId ↔
        ∀ c ∈ (env.sha256 submissionId).toList.take 8, c = 'f' := by
      rw [TopBucket, List.eq_replicate_iff]
      exact and_iff_right height
    rw [hrep, ← htop]
    omega
  have hrate : samplingRate expert = 1 := if_pos hfew
  have hlt : ((n : ℚ) / 0xFFFFFFFF < 1) ↔ ¬TopBucket env submissionId := by
    rw [hall, div_lt_one (by norm_num)]
    constructor
    · rintro h rfl
      norm_num at h
    · intro hne
      have hn' : n < 0xFFFFFFFF := by omega
      exact_mod_cast hn'
  unfold isSampledForHumanReview
  rw [hparse, hrate]
  exact congrArg Except.ok (decide_eq_decide.mpr hlt)

end Controls

namespace Newcomers

variable {env : Env} {s s' : Db} {sub : Submission} {expert : Expert}

theorem old_of_reviewed {sub₀ : Submission} {reviewer : Expert} {verdict : Verdict}
    (h : Engine.Reviewed env sub₀ reviewer verdict s s')
    (hsub₀ : s.submissions.find? sub₀.id = some sub₀) (hsub : sub ∈ s'.submissions) :
    ∃ old ∈ s.submissions, old.id = sub.id := by
  have hmem := Table.mem_of_find? hsub₀
  have hreplaced : ∀ {status : SubmissionStatus},
      sub ∈ s.submissions.replace { sub₀ with status := status } →
      ∃ old ∈ s.submissions, old.id = sub.id := by
    intro status hin
    rcases Table.mem_replace hin with rfl | ⟨hin, _⟩
    · exact ⟨sub₀, hmem, rfl⟩
    · exact ⟨sub, hin, rfl⟩
  rcases h with @⟨hstatus, hother, hrole, hqualified, overall, _, _, _, hid, _, hdecided, _, _, _⟩
  cases hdecided with
  | pass htask hproject hauthor hmeter =>
      rw [(Evidence.kept_of_metered hmeter).1] at hsub
      exact hreplaced hsub
  | revise => exact hreplaced hsub
  | fail hauthor => exact hreplaced hsub

/-- Only a submission request adds a row. -/
theorem createSubmission_of_new {actor : Auth.Actor} {request : Api.Request}
    (h : Api.Effect env actor s request s') (hnew : s.submissions.Vacant sub.id)
    (hsub : sub ∈ s'.submissions) :
    ∃ taskId expertId content, request = .createSubmission taskId expertId content := by
  have hold : sub ∉ s.submissions := fun hmem ↦ hnew sub hmem rfl
  cases h with
  | createSubmission htask hexpert h => exact ⟨_, _, _, rfl⟩
  | postHumanReview hfound hreviewer h =>
      obtain ⟨old, hmem, hid⟩ := old_of_reviewed h (Table.find?_key hfound) hsub
      exact absurd hid (hnew old hmem)
  | generateInvoice hfirm h =>
      cases h
      exact absurd hsub hold
  | createInvoiceCheckout hinv haccess h =>
      cases h
      exact absurd hsub hold
  | recordExternalPayment hinv h =>
      cases h
      exact absurd hsub hold
  | stripeWebhook hevent hact h =>
      cases h <;> exact absurd hsub hold
  | _ => exact absurd hsub hold

theorem submitted_of_new {actor : Auth.Actor} {request : Api.Request}
    (h : Api.Effect env actor s request s') (hnew : s.submissions.Vacant sub.id)
    (hsub : sub ∈ s'.submissions) :
    ∃ task expert content, s.tasks.find? task.id = some task ∧
      s.experts.find? expert.id = some expert ∧
      Engine.Submitted env task expert content s s' := by
  obtain ⟨taskId, expertId, content, rfl⟩ := createSubmission_of_new h hnew hsub
  cases h with
  | createSubmission htask hexpert h =>
      exact ⟨_, _, _, Table.find?_key htask, Table.find?_key hexpert, h⟩

/-- A submission on a task outside the gold check, entered by a contributor
with fewer than five approvals. -/
structure Newcomer (e : Served Api.Http Db Json) (sub : Submission) (expert : Expert) :
    Prop where
  new : e.before.submissions.Vacant sub.id
  entered : sub ∈ e.after.submissions
  author : e.before.experts.find? sub.expertId = some expert
  few : expert.approvedCount < 5
  task : ∃ task, e.before.tasks.find? sub.taskId = some task ∧ task.isGold = false

/-- The row a submission request leaves; the gates let nothing of a sampled
contributor through. -/
theorem held_of_processed {a : Submission} {task : Task} {project : Project} {aud : AuditEvent}
    (h : Engine.Processed env s.submissions a task project expert
      { s with submissions := s.submissions.push a, auditEvents := s.auditEvents ++ [aud] } s')
    (hv : s.submissions.Vacant a.id) (hnew : s.submissions.Vacant sub.id)
    (hsub : sub ∈ s'.submissions) :
    ∃ status sampled, sub = { a with status := status, sampledForHumanReview := sampled } ∧
      (task.isGold = false → Controls.isSampledForHumanReview env a.id expert = .ok true →
        status ≠ .approved ∧ (status ≠ .autoCheckFailed → sampled = true)) := by
  have hpushed : ∀ {b : Submission}, b.id = a.id → sub ∈ s.submissions.push b → sub = b := by
    intro b hb hin
    rcases (Table.mem_push (by rwa [hb])).mp hin with hold | rfl
    · exact absurd rfl (hnew sub hold)
    · rfl
  cases h with
  | autoCheckFailed hfailed hid haud =>
      have heq := hpushed (b := { a with status := .autoCheckFailed }) rfl hsub
      exact ⟨.autoCheckFailed, a.sampledForHumanReview, heq, by simp⟩
  | goldChecked hpassed hanswer passed hid hid' haud =>
      have heq := hpushed (b := { a with status := if passed then .approved else .rejected })
        rfl hsub
      refine ⟨_, a.sampledForHumanReview, heq, fun hgold ↦ ?_⟩
      simp [Engine.goldAnswerOf, hgold] at hanswer
  | @heldBack validation hpassed hanswer result sampled status hstatus hroute id now hid id' now'
      hid' aud' haud =>
      have heq := hpushed
        (b := { a with status := status, sampledForHumanReview := sampled }) rfl hsub
      refine ⟨status, sampled, heq, fun _ hsampled ↦ ⟨?_, fun _ ↦ ?_⟩⟩
      · rcases hstatus with rfl | rfl <;> simp
      · exact Except.ok.inj (hroute.sampling.symm.trans hsampled)
  | @autoApproved validation hpassed hanswer result sampled hroute id now hid id' now' hid' s₁
      hmeter aud' haud =>
      have hsubs := (Evidence.kept_of_metered hmeter).1
      have heq := hpushed
        (b := { a with status := .approved, sampledForHumanReview := sampled }) rfl
        (by simpa only [hsubs] using hsub)
      refine ⟨.approved, sampled, heq, fun _ hsampled ↦ ?_⟩
      have htrue := Except.ok.inj (hroute.sampling.symm.trans hsampled)
      simp [hroute.approved.2] at htrue

theorem Newcomer.held {e : Served Api.Http Db Json} {w w' : ℕ} (h : Newcomer e sub expert)
    (he : machine.Serves (Api.serve env) e w w') (hseq : Audit.SeqBelow e.before.auditEvents w)
    (hsampled : Controls.isSampledForHumanReview env sub.id expert = .ok true) :
    sub.status ≠ .approved ∧
      (sub.status ≠ .autoCheckFailed → sub.sampledForHumanReview = true) := by
  cases he with
  | ok hexec =>
      obtain ⟨⟨actor, heffect⟩, _⟩ := Api.exec_serve hexec hseq
      obtain ⟨task, author, content, htask, hauthor, hsubmitted⟩ :=
        submitted_of_new heffect h.new h.entered
      obtain ⟨hproject, hqualified, hheld, hassigned, ⟨id, now, rfl⟩, hid, haud, hprocess⟩ :=
        hsubmitted
      obtain ⟨status, sampled, rfl, hconclude⟩ :=
        held_of_processed hprocess hid h.new h.entered
      obtain ⟨task', htask', hgold⟩ := h.task
      obtain rfl : task = task' := Option.some.inj (htask.symm.trans htask')
      obtain rfl : author = expert := Option.some.inj (hauthor.symm.trans h.author)
      exact hconclude hgold hsampled
  | failed _ => exact absurd rfl (h.new sub h.entered)

/-- What is promised of a newcomer's submission, at its entry and in the
state `s`. -/
structure Held (env : Env) (s : Db) (sub : Submission) (expert : Expert) : Prop where
  sampled : Controls.isSampledForHumanReview env sub.id expert = .ok true
  flagged : sub.status ≠ .autoCheckFailed → sub.sampledForHumanReview = true
  held : sub.status ≠ .approved
  judged : ∀ sub' ∈ s.submissions, sub'.id = sub.id → sub'.status = .approved →
    Evidence.HumanApproval s sub'

/-- In every run whose newcomers' submissions stay out of the last bucket, they
are sampled, and only a human approves them. -/
theorem held_of_run (hdigest : ∀ x, HexDigest (env.sha256 x))
    {tr : List (Served Api.Http Db Json)} {w₀ w : ℕ}
    (h : machine.Run (Api.serve env) Db.empty w₀ tr s w)
    (hbucket : Throughout (fun _ e ↦ ∀ sub expert, Newcomer e sub expert →
      ¬Controls.TopBucket env sub.id) tr) :
    ∀ e ∈ tr, ∀ sub expert, Newcomer e sub expert → Held env s sub expert := by
  intro e he sub expert hnewcomer
  obtain ⟨pre, post, rfl⟩ := List.append_of_mem he
  obtain ⟨w₁, w₂, hpre, hserves, hpost⟩ := h.split
  have hkept := Evidence.kept_of_run hpre
  have hsampled : Controls.isSampledForHumanReview env sub.id expert = .ok true := by
    rw [Controls.isSampledForHumanReview_newcomer (hdigest _) hnewcomer.few,
      decide_eq_true (hbucket pre e post rfl sub expert hnewcomer)]
  obtain ⟨hheld, hflag⟩ := hnewcomer.held hserves hkept.below hsampled
  refine ⟨hsampled, hflag, hheld, ?_⟩
  intro sub' hsub' hid hstatus
  -- the same row later, with a status that advanced
  have hstable : Evidence.Stable e.after s :=
    Evidence.relates_after .refl (fun _ _ _ ↦ .trans) (fun _ _ ↦ Evidence.Moved.stable) h
  have hprogress : Evidence.Progress e.after s :=
    Evidence.relates_after .refl (fun _ _ _ ↦ .trans) (fun _ _ ↦ Evidence.Moved.progress) h
  obtain ⟨status, hlater⟩ := hstable sub hnewcomer.entered
  obtain rfl := Table.eq_of_key hsub' hlater hid
  obtain ⟨sub'', hsub'', hid'', hadvances⟩ := hprogress sub hnewcomer.entered
  obtain rfl := Table.eq_of_key hsub'' hlater hid''
  obtain rfl : status = .approved := hstatus
  have hflagged : sub.sampledForHumanReview = true := by
    rcases hadvances with heq | ⟨hwaiting, _⟩
    · exact absurd heq.symm hheld
    · exact hflag (by simp [hwaiting])
  have hfact : (sub.taskId, false) ∈ Evidence.taskFacts s := by
    obtain ⟨task, htask, hgold⟩ := hnewcomer.task
    have hbefore : (sub.taskId, false) ∈ Evidence.taskFacts e.before :=
      ⟨task, Table.mem_of_find? htask, by simp [Table.key_of_find? htask, hgold]⟩
    have hafter := (Evidence.moved_of_mem h he).task_mono hbefore
    exact Evidence.relates_after (R := fun s s' ↦ Evidence.taskFacts s ⊆ Evidence.taskFacts s')
      (fun _ ↦ subset_rfl) (fun _ _ _ ↦ Set.Subset.trans) (fun _ _ ↦ Evidence.Moved.task_mono)
      h hafter
  obtain ⟨_, happroval⟩ :=
    (Evidence.kept_of_run h).sound.evidence _ hlater rfl hfact
  rcases happroval with hhuman | ⟨_, hnot, _⟩
  · exact hhuman
  · simp [hflagged] at hnot

/-- Full marks, with a digest of zeros. -/
def sampledEnv : Env :=
  { Development.liveEnv (Development.responseWith Development.fullScores) with
    sha256 := fun _ ↦ String.ofList (List.replicate 64 '0') }

def sampledRun : List (Served Api.Http Db Json) × Db × ℕ :=
  machine.simulateRun Development.liveAnswers (Api.serve sampledEnv)
    (Development.firstApproval.map Development.http) 1 Db.empty 1

theorem held_of_run_sampled :
    sampledRun.2.1.submissions.rows.map (fun sub ↦ (sub.status, sub.sampledForHumanReview)) =
        [(.approved, true)] ∧
      ∀ e ∈ sampledRun.1, ∀ sub expert, Newcomer e sub expert →
        Held sampledEnv sampledRun.2.1 sub expert := by
  have hdigest : HexDigest (String.ofList (List.replicate 64 '0')) := by decide +kernel
  have hbucket : ¬Controls.TopBucket sampledEnv "" := by decide +kernel
  exact ⟨by decide +kernel, held_of_run (fun _ ↦ hdigest) (Machine.run_of_simulateRun _ _ _ _ _)
    fun _ _ _ _ _ _ _ ↦ hbucket⟩

/-- In the last bucket a first submission is not sampled, and approved. -/
theorem newcomer_autoApproved :
    (∀ x, HexDigest ((Development.liveEnv
        (Development.responseWith Development.fullScores)).sha256 x)) ∧
      ∃ e ∈ (Development.liveRun (Development.responseWith Development.fullScores)
          Development.firstSubmission).1, ∃ sub expert, Newcomer e sub expert ∧
        sub.status = .approved ∧ sub.sampledForHumanReview = false := by
  have hdigest : HexDigest (String.ofList (List.replicate 64 'f')) := by decide +kernel
  have hfound : ∃ e ∈ (Development.liveRun (Development.responseWith Development.fullScores)
      Development.firstSubmission).1, ∃ sub ∈ e.after.submissions.rows,
      (∀ old ∈ e.before.submissions.rows, old.id ≠ sub.id) ∧
      (∃ expert ∈ e.before.experts.rows, expert.id = sub.expertId ∧ expert.approvedCount < 5) ∧
      (∃ task ∈ e.before.tasks.rows, task.id = sub.taskId ∧ task.isGold = false) ∧
      sub.status = .approved ∧ sub.sampledForHumanReview = false := by decide +kernel
  obtain ⟨e, he, sub, hsub, hnew, ⟨expert, hexpert, hid, hfew⟩, ⟨task, htask, hof, hgold⟩,
    hstatus, hflag⟩ := hfound
  refine ⟨fun _ ↦ hdigest, e, he, sub, expert, ⟨hnew, hsub, ?_, hfew, task, ?_, hgold⟩, hstatus,
    hflag⟩
  · rw [← hid]
    exact Table.find?_of_mem hexpert
  · rw [← hof]
    exact Table.find?_of_mem htask

end Newcomers

end HumanDataFactory
