import HumanDataFactory.Concurrency.Recording
import HumanDataFactory.Development

/-!
# The audit chain under interleaving

`record` reads the newest event and inserts its successor with no lock in
between.  A request that commits over the trail its reads were answered from
extends the chain; two requests that read the same newest event and both
commit fork it.
-/

namespace HumanDataFactory

open Transact

variable {env : Env} {α : Type}

namespace Audit

/-- The trail with the audit rows of `ws` inserted. -/
def trail (ws : List Write) (evs : List AuditEvent) : List AuditEvent :=
  (ws.filterMap Write.auditEvent?).foldl (fun evs ev ↦ insertBySeq ev evs) evs

@[simp] theorem trail_nil (evs : List AuditEvent) : trail [] evs = evs := rfl

theorem trail_append (us vs : List Write) (evs : List AuditEvent) :
    trail (us ++ vs) evs = trail vs (trail us evs) := by
  simp [trail, List.filterMap_append, List.foldl_append]

theorem trail_concat {u : Write} (hu : u.auditEvent? = none) (ws : List Write)
    (evs : List AuditEvent) : trail (ws ++ [u]) evs = trail ws evs := by
  rw [trail_append]
  simp [trail, hu]

theorem trail_concat_insert (ev : AuditEvent) (ws : List Write) (evs : List AuditEvent) :
    trail (ws ++ [.insertAuditEvent ev]) evs = insertBySeq ev (trail ws evs) := by
  rw [trail_append]
  rfl

theorem auditEvents_of_apply {u : Write} {s s' : Db} (h : Db.apply u s = some s') :
    s'.auditEvents = trail [u] s.auditEvents := by
  cases u with
  | insertAuditEvent ev =>
      cases h
      rfl
  | _ =>
      simp only [Db.apply, Option.ite_none_right_eq_some, Option.some.injEq] at h
      obtain ⟨_, rfl⟩ := h
      rfl

/-- What a view shows of the trail depends on nothing but the trail below. -/
theorem auditEvents_of_view {ws : List Write} {s s' : Db} (h : machine.view ws s = some s') :
    s'.auditEvents = trail ws s.auditEvents := by
  induction ws generalizing s with
  | nil =>
      obtain rfl := Option.some.inj h
      rfl
  | cons u ws ih =>
      obtain ⟨s₁, hs₁, hv⟩ := Option.bind_eq_some_iff.mp h
      rw [ih hv, auditEvents_of_apply hs₁, ← trail_append, List.singleton_append]

variable (env) in
/-- The trail is intact, and its sequence numbers have been handed out. -/
structure Intact (s : Db) (w : ℕ) : Prop where
  linked : Linked env s.auditEvents
  below : SeqBelow s.auditEvents w

theorem Intact.moves (s : Db) (w w' : ℕ) (h : Intact env s w) (hw : machine.Moves w w') :
    Intact env s w' :=
  ⟨h.linked, h.below.mono (moves_le hw)⟩

/-- Every read of the newest event still holds of the trail of `s`. -/
abbrev HeadsFresh (seen : List (Query × Db)) (s : Db) : Prop :=
  Fresh .lastEvent (fun s ↦ s.auditEvents) seen s

theorem mem_insertBySeq {ev e : AuditEvent} {evs : List AuditEvent} :
    e ∈ insertBySeq ev evs ↔ e = ev ∨ e ∈ evs := by
  induction evs with
  | nil => simp [insertBySeq]
  | cons e₀ evs ih =>
      unfold insertBySeq
      split
      · simp
      · rw [List.mem_cons, ih, List.mem_cons]
        tauto

theorem mem_trail {ws : List Write} {evs : List AuditEvent} {e : AuditEvent} :
    e ∈ trail ws evs ↔ e ∈ evs ∨ e ∈ ws.filterMap Write.auditEvent? := by
  unfold trail
  generalize ws.filterMap Write.auditEvent? = own
  induction own generalizing evs with
  | nil => simp
  | cons ev own ih =>
      rw [List.foldl_cons, ih, mem_insertBySeq, List.mem_cons]
      tauto

theorem seqBelow_trail {ws : List Write} {evs : List AuditEvent} {w : ℕ} :
    SeqBelow (trail ws evs) w ↔
      SeqBelow evs w ∧ SeqBelow (ws.filterMap Write.auditEvent?) w := by
  simp only [SeqBelow, mem_trail]
  constructor
  · intro h
    exact ⟨fun e he ↦ h e (Or.inl he), fun e he ↦ h e (Or.inr he)⟩
  · rintro ⟨h, h'⟩ e (he | he)
    · exact h e he
    · exact h' e he

/-- Step by step, the trail that a recording transaction would leave over `s`
stays linked: each event it records was chained to the newest one there, and
its own events have numbers handed out before. -/
theorem Audited.keeps_chain {p : Tx α} (hp : Audited env p) {J : Db → ℕ → Prop}
    (hJ : ∀ s w, J s w → SeqBelow s.auditEvents w) {ws₀ ws : List Write} {w₀ w : ℕ}
    {seen : List (Query × Db)} {b : α} {s : Db}
    (h : machine.History J p ws₀ w₀ seen ws w b) (hfresh : HeadsFresh seen s)
    (hlinked : Linked env (trail ws₀ s.auditEvents))
    (hown : SeqBelow (ws₀.filterMap Write.auditEvent?) w₀) :
    Linked env (trail ws s.auditEvents) ∧ SeqBelow (ws.filterMap Write.auditEvent?) w := by
  induction hp generalizing ws₀ w₀ seen with
  | pure a =>
      obtain ⟨_, rfl, hm, _⟩ := h
      exact ⟨hlinked, hown.mono (moves_le hm)⟩
  | raise e => exact h.elim
  | read q k _ ih =>
      obtain ⟨s₁, v, w₁, seen', rfl, hm, _, _, hk⟩ := h
      exact ih v hk (fun s₀ hs₀ ↦ hfresh s₀ (List.mem_cons_of_mem _ hs₀)) hlinked
        (hown.mono (moves_le hm))
  | write u p hu _ ih =>
      rw [← trail_concat hu] at hlinked
      exact ih h hfresh hlinked (by simpa [List.filterMap_append, hu] using hown)
  | call c k _ ih =>
      obtain ⟨r, w₁, w₂, hm, hr, hk⟩ := h
      exact ih r hk hfresh hlinked (hown.mono (moves_le (hm.trans (.single hr))))
  | record actor action entityType entityId payload k _ ih =>
      obtain ⟨s₁, v, w₁, seen', rfl, hm, hJs₁, hv, seq, w₂, w₃, hm₂, hseq, now, w₄, w₅, hm₄,
        hnow, hk⟩ := h
      have hs₁ : s₁.auditEvents = s.auditEvents := hfresh s₁ (by simp)
      have hlast : v.auditEvents = trail ws₀ s.auditEvents := by
        rw [auditEvents_of_view hv, hs₁]
      obtain ⟨rfl, rfl⟩ : w₂ = seq ∧ w₂ + 1 = w₃ := by
        simpa [accept, eq_comm] using hseq
      have hbefore : w₀ ≤ w₂ := moves_le (hm.trans hm₂)
      have hafter : w₂ + 1 ≤ w₅ := moves_le (hm₄.trans (.single hnow))
      -- the number is above all of the committed trail, which `s₁` saw, and of its own events
      have hbelow : SeqBelow (trail ws₀ s.auditEvents) w₂ := by
        rw [seqBelow_trail, ← hs₁]
        exact ⟨(hJ _ _ hJs₁).mono (moves_le hm₂), hown.mono hbefore⟩
      let ev := newEvent env (hashOrGenesis v.auditEvents.getLast?) actor action entityType
        entityId payload w₂ now
      have htrail : trail (ws₀ ++ [.insertAuditEvent ev]) s.auditEvents =
          trail ws₀ s.auditEvents ++ [ev] := by
        rw [trail_concat_insert]
        exact insertBySeq_eq_append hbelow
      refine ih ev hk (fun s₀ hs₀ ↦ hfresh s₀ (List.mem_cons_of_mem _ hs₀)) ?_ ?_
      · rw [htrail]
        have hnew := linked_newEvent env hlinked actor action entityType entityId payload w₂ now
        rwa [← hlast] at hnew ⊢
      · rw [List.filterMap_append, seqBelow_append]
        refine ⟨hown.mono (by omega), ?_⟩
        intro e he
        obtain rfl : e = ev := by simpa [Write.auditEvent?] using he
        exact hafter

/-- A recording transaction whose heads are fresh commits an intact trail. -/
theorem Audited.commits {p : Tx α} (hp : Audited env p) {J : Db → ℕ → Prop}
    (hJ : ∀ s w, J s w → SeqBelow s.auditEvents w) {ws : List Write} {w₀ w : ℕ}
    {seen : List (Query × Db)} {b : α} {s s' : Db}
    (h : machine.History J p [] w₀ seen ws w b) (hfresh : HeadsFresh seen s)
    (hs : Intact env s w) (hv : machine.view ws s = some s') : Intact env s' w := by
  obtain ⟨hlinked, hown⟩ := hp.keeps_chain hJ h hfresh hs.linked (by simp [SeqBelow])
  have htrail := auditEvents_of_view hv
  refine ⟨by rwa [htrail], ?_⟩
  rw [htrail, seqBelow_trail]
  exact ⟨hs.below, hown⟩

/-- A request served alone keeps the trail intact. -/
theorem exec_intact {http : Api.Http} {r : Json} {s s' : Db} {w w' : ℕ}
    (h : machine.Exec (Api.serve env http) s w r s' w') (hs : Intact env s w) :
    Intact env s' w' := by
  have hmoves := h.moves
  obtain ⟨seen, ws, hh, hseen, hv⟩ := h.history Intact.moves hs (Machine.view_nil _ s)
  exact (audited_serve http).commits (fun _ _ hJ ↦ hJ.below) hh (.of_forall_eq hseen)
    (hs.moves _ _ _ hmoves) hv

section Interleaving

variable {ι : Type} [DecidableEq ι]

/-- The commit condition under which the trail cannot fork. -/
def headsFresh : Machine.CommitCond ι Db Write Query := fun _ seen _ s ↦ HeadsFresh seen s

/-- When every request commits over the trail that its `record` calls read,
`verify_chain` finds the chain intact in every state of every interleaving. -/
theorem verifyChain_of_headsFresh {s₀ : Db} {w₀ : ℕ} {requests : ι → Api.Http}
    (hstart : verifyChain env s₀ = (true, s₀.auditEvents.length))
    (hseq : SeqBelow s₀.auditEvents w₀) {S : Sys ι Db Write Query Call Reply ℕ PyError Json}
    (h : machine.Steps headsFresh (.init s₀ w₀ fun i ↦ Api.serve env (requests i)) S) :
    verifyChain env S.store = (true, S.store.auditEvents.length) := by
  have hintact : Intact env S.store S.world := by
    refine Machine.Steps.invariant Intact.moves ⟨(verifyChain_eq env).mp hstart, hseq⟩ ?_ h
    intro i a ws seen s₁ s₂ w hs₁ hh hfresh hv
    exact (audited_serve (requests i)).commits (fun _ _ hJ ↦ hJ.below) hh hfresh hs₁ hv
  exact (verifyChain_eq env).mpr hintact.linked

end Interleaving

def newFirm (name : String) : Api.Http :=
  Development.http (.createFirm ⟨name, name ++ "@example.com", .external, "usd", ""⟩)

def twoFirms : Bool → Api.Http
  | false => newFirm "Alder"
  | true => newFirm "Birch"

/-- The columns of an event, with its payload as text. -/
def spelled (ev : AuditEvent) : ℕ × Time × List String :=
  (ev.seq, ev.createdAt, [ev.actor, ev.action, ev.entityType, ev.entityId,
    Json.dumpsIndent Development.reprFloat 0 ev.payload, ev.prevHash, ev.hash])

theorem spelled_injective : Function.Injective spelled := by
  rintro ⟨⟩ ⟨⟩ hsame
  simp only [spelled, Prod.mk.injEq, List.cons.injEq, and_true] at hsame
  obtain ⟨rfl, rfl, rfl, rfl, rfl, rfl, hpayload, rfl, rfl⟩ := hsame
  rw [Json.dumpsIndent_injective _ Development.reprFloat_notation 0 hpayload]

/-- The second request looks for the name, then the first runs and commits, then
the second goes on: it chains its event to the one of the first. -/
def recordAfterCommit : List (Move Bool) :=
  List.replicate 2 (.advance true) ++ List.replicate 12 (.advance false) ++ [.commit false] ++
    List.replicate 12 (.advance true) ++ [.commit true]

theorem verifyChain_of_headsFresh_newFirm :
    ∃ S, machine.Steps headsFresh
        (.init Db.empty 1 fun i ↦ Api.serve Development.env (twoFirms i)) S ∧
      S.Done ∧ S.store.auditEvents.length = 2 ∧
      verifyChain Development.env S.store = (true, S.store.auditEvents.length) := by
  have hplay : (machine.play Development.answers recordAfterCommit 0
      (.init Db.empty 1 fun i ↦ Api.serve Development.env (twoFirms i))).map
      (fun S ↦ (decide S.Done, S.store.auditEvents.length)) = some (true, 2) := by
    decide +kernel
  have hfresh : ∀ c ∈ machine.commits Development.answers recordAfterCommit 0
      (.init Db.empty 1 fun i ↦ Api.serve Development.env (twoFirms i)), ∀ x ∈ c.2.1,
      x.1 = .lastEvent → x.2.auditEvents.map spelled = c.2.2.2.auditEvents.map spelled := by
    decide +kernel
  obtain ⟨S, hS, hfinal⟩ := Option.map_eq_some_iff.mp hplay
  simp only [Prod.mk.injEq, decide_eq_true_eq] at hfinal
  have hsteps : machine.Steps headsFresh
      (.init Db.empty 1 fun i ↦ Api.serve Development.env (twoFirms i)) S :=
    Machine.steps_of_play hS fun c hc s₀ hs₀ ↦
      List.map_injective_iff.mpr spelled_injective (hfresh c hc _ hs₀ rfl)
  exact ⟨S, hsteps, hfinal.1, hfinal.2, verifyChain_of_headsFresh rfl (seqBelow_empty _) hsteps⟩

/-- Both requests run up to their commit, then both commit. -/
def readBothFirst : List (Move Bool) :=
  List.replicate 12 (.advance false) ++ List.replicate 12 (.advance true) ++
    [.commit false, .commit true]

/-- Both events are chained to the genesis hash, and the trail is forked. -/
theorem verifyChain_forked :
    ¬∀ S, machine.Interleaves
        (.init Db.empty 1 fun i ↦ Api.serve Development.env (twoFirms i)) S →
      S.Done → verifyChain Development.env S.store = (true, S.store.auditEvents.length) := by
  intro hclaim
  have hplay : (machine.play Development.answers readBothFirst 0
      (.init Db.empty 1 fun i ↦ Api.serve Development.env (twoFirms i))).map
      (fun S ↦ (decide S.Done, verifyChain Development.env S.store)) = some (true, false, 2) := by
    decide +kernel
  obtain ⟨S, hS, hfinal⟩ := Option.map_eq_some_iff.mp hplay
  simp only [Prod.mk.injEq, decide_eq_true_eq] at hfinal
  obtain ⟨hdone, hverify⟩ := hfinal
  have hintact := hclaim S (Machine.interleaves_of_play hS) hdone
  simp [hverify] at hintact

end Audit

end HumanDataFactory
