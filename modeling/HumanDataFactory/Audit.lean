import HumanDataFactory.Session
import HumanDataFactory.HashChain

/-!
# The audit trail

`audit.py`: recording an event on top of the newest one, and walking the whole
chain.  The two run rules at the end are what every module below uses:
an event recorded alone is appended, and whatever a program records by
`record` only keeps the chain, provided nobody else extended it meanwhile.
-/

namespace HumanDataFactory

open Transact

namespace Audit

variable (env : Env)

/-- Sixty-four zeros. -/
def GENESIS : String := String.ofList (List.replicate 64 '0')

def eventHash (prevHash actor action entityType entityId : String) (payload : Json) : String :=
  env.sha256 (Json.dumps env.floatRepr Json.compact
    (.obj [("prev", .str prevHash), ("actor", .str actor), ("action", .str action),
      ("entity_type", .str entityType), ("entity_id", .str entityId), ("payload", payload)]))

def hashOrGenesis : Option AuditEvent → String
  | some last => last.hash
  | none => GENESIS

/-- The row `record` inserts. -/
def newEvent (prevHash actor action entityType entityId : String) (payload : Json)
    (seq : ℕ) (now : Time) : AuditEvent where
  seq := seq
  actor := actor
  action := action
  entityType := entityType
  entityId := entityId
  payload := payload
  prevHash := prevHash
  hash := eventHash env prevHash actor action entityType entityId payload
  createdAt := now

def record (actor action entityType entityId : String) (payload : Json) : Tx AuditEvent := do
  let last ← Session.select .lastEvent fun s ↦ s.auditEvents.getLast?
  let seq ← Prog.ask (.nextSeq : Call)
  let now ← Session.now
  let ev := newEvent env (hashOrGenesis last) actor action entityType entityId payload seq now
  Session.write (.insertAuditEvent ev)
  return ev

/-- The walk of `verify_chain`, with the number of events when it is intact
and the `seq` of the first broken one otherwise. -/
def verifyFrom (total : ℕ) : String → List AuditEvent → Bool × ℕ
  | _, [] => (true, total)
  | prev, ev :: evs =>
      let expected :=
        eventHash env prev ev.actor ev.action ev.entityType ev.entityId ev.payload
      if ev.prevHash ≠ prev ∨ ev.hash ≠ expected then (false, ev.seq)
      else verifyFrom total ev.hash evs

def verifyChain (s : Db) : Bool × ℕ :=
  verifyFrom env s.auditEvents.length GENESIS s.auditEvents

def chainHead (s : Db) : String :=
  hashOrGenesis s.auditEvents.getLast?

theorem record_writesIn {I : Write → Prop} (hI : ∀ ev, I (.insertAuditEvent ev))
    (actor action entityType entityId : String) (payload : Json) :
    (record env actor action entityType entityId payload).WritesIn I :=
  (Prog.Writeless.select _ _).writesIn.bind fun _ ↦ (Prog.Writeless.ask _).writesIn.bind fun _ ↦
    (Prog.Writeless.ask _).writesIn.bind fun _ ↦ (Prog.WritesIn.emit (hI _)).bind fun _ ↦ .pure _

def scheme : ChainScheme AuditEvent String where
  prev := AuditEvent.prevHash
  hash := AuditEvent.hash
  digest := fun prev ev ↦
    eventHash env prev ev.actor ev.action ev.entityType ev.entityId ev.payload

abbrev Linked (evs : List AuditEvent) : Prop :=
  (scheme env).Linked GENESIS evs

theorem verifyFrom_fst (total : ℕ) (prev : String) (evs : List AuditEvent) :
    (verifyFrom env total prev evs).1 = true ↔ (scheme env).Linked prev evs := by
  induction evs generalizing prev with
  | nil => simp [verifyFrom]
  | cons ev evs ih =>
      simp only [verifyFrom, ChainScheme.linked_cons]
      split
      · rename_i h
        simp only [Bool.false_eq_true, false_iff, not_and]
        rintro ⟨hprev, hhash⟩
        rcases h with h | h
        · exact absurd hprev h
        · exact absurd hhash h
      · rename_i h
        push Not at h
        rw [ih]
        exact ⟨fun hl ↦ ⟨h, hl⟩, fun hl ↦ hl.2⟩

theorem verifyFrom_snd {total : ℕ} {prev : String} {evs : List AuditEvent}
    (h : (verifyFrom env total prev evs).1 = true) :
    (verifyFrom env total prev evs).2 = total := by
  induction evs generalizing prev with
  | nil => rfl
  | cons ev evs ih =>
      simp only [verifyFrom] at h ⊢
      split at h
      · simp at h
      · rename_i hc
        rw [if_neg hc]
        exact ih h

/-- `verify_chain` reports an intact chain exactly when the events are linked. -/
theorem verifyChain_eq {s : Db} :
    verifyChain env s = (true, s.auditEvents.length) ↔ Linked env s.auditEvents := by
  unfold verifyChain Linked
  rw [← verifyFrom_fst env s.auditEvents.length GENESIS s.auditEvents]
  constructor
  · intro h
    rw [h]
  · intro h
    exact Prod.ext h (verifyFrom_snd env h)

theorem head_eq (evs : List AuditEvent) :
    (scheme env).head GENESIS evs = hashOrGenesis evs.getLast? := by
  rw [ChainScheme.head_eq_getLast]
  cases evs.getLast? <;> rfl

/-- An event computed on top of the newest one extends the chain. -/
theorem linked_newEvent {evs : List AuditEvent} (h : Linked env evs)
    (actor action entityType entityId : String) (payload : Json) (seq : ℕ) (now : Time) :
    Linked env (evs ++ [newEvent env (hashOrGenesis evs.getLast?) actor action entityType
      entityId payload seq now]) := by
  unfold Linked
  rw [ChainScheme.linked_concat, head_eq]
  exact ⟨h, rfl, rfl⟩

theorem insertBySeq_eq_append {ev : AuditEvent} {evs : List AuditEvent}
    (h : ∀ e ∈ evs, e.seq < ev.seq) : insertBySeq ev evs = evs ++ [ev] := by
  induction evs with
  | nil => rfl
  | cons e evs ih =>
      have he : e.seq < ev.seq := h e (by simp)
      rw [insertBySeq, if_neg (by omega), ih fun e' he' ↦ h e' (by simp [he'])]
      rfl

/-- All recorded events have sequence numbers already handed out. -/
def SeqBelow (evs : List AuditEvent) (w : ℕ) : Prop :=
  ∀ e ∈ evs, e.seq < w

theorem seqBelow_empty (w : ℕ) : SeqBelow Db.empty.auditEvents w :=
  fun _ hev ↦ absurd hev (List.not_mem_nil)

theorem SeqBelow.mono {evs : List AuditEvent} {w w' : ℕ} (h : SeqBelow evs w) (hw : w ≤ w') :
    SeqBelow evs w' := by
  intro e he
  have := h e he
  omega

theorem seqBelow_append {evs evs' : List AuditEvent} {w : ℕ} :
    SeqBelow (evs ++ evs') w ↔ SeqBelow evs w ∧ SeqBelow evs' w := by
  simp only [SeqBelow, List.mem_append]
  constructor
  · intro h
    exact ⟨fun e he ↦ h e (Or.inl he), fun e he ↦ h e (Or.inr he)⟩
  · rintro ⟨h, h'⟩ e (he | he)
    · exact h e he
    · exact h' e he

/-- What an event says, without its place in the chain. -/
structure Entry where
  actor : String
  action : String
  entityType : String
  entityId : String
  payload : Json

end Audit

def AuditEvent.entry (ev : AuditEvent) : Audit.Entry :=
  ⟨ev.actor, ev.action, ev.entityType, ev.entityId, ev.payload⟩

namespace Audit

variable {env : Env}

/-- Recorded alone, an event is appended to the trail. -/
theorem exec_record {actor action entityType entityId : String} {payload : Json} {s s' : Db}
    {w w' : ℕ} {ev : AuditEvent}
    (h : machine.Exec (record env actor action entityType entityId payload) s w ev s' w')
    (hseq : SeqBelow s.auditEvents w) :
    s' = { s with auditEvents := s.auditEvents ++ [ev] } ∧
      ev.entry = ⟨actor, action, entityType, entityId, payload⟩ ∧
      SeqBelow s'.auditEvents w' := by
  simp only [record, Machine.exec_select_bind, Machine.exec_ask_bind, Machine.exec_emit_bind,
    Prog.monad_pure, Machine.exec_pure, machine_accept, accept, machine_apply, Db.apply,
    Option.ite_none_right_eq_some, Option.some.injEq] at h
  obtain ⟨seq, _, ⟨rfl, rfl⟩, now, _, rfl, _, rfl, rfl, rfl, rfl⟩ := h
  have hins : insertBySeq (newEvent env (hashOrGenesis s.auditEvents.getLast?) actor action
      entityType entityId payload seq now) s.auditEvents = s.auditEvents ++ [_] :=
    insertBySeq_eq_append hseq
  refine ⟨by rw [hins], rfl, ?_⟩
  rw [hins, seqBelow_append]
  refine ⟨hseq.mono (by omega), ?_⟩
  intro e he
  obtain rfl : e = _ := by simpa using he
  exact Nat.lt_succ_self _

end Audit

end HumanDataFactory
