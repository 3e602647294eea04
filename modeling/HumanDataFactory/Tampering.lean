import HumanDataFactory.Development

/-!
# What the chain of the audit trail protects

The hash of the newest event determines every event before it, and a change
that does not recompute hashes goes unnoticed only if what is left is a stretch
of the old trail.  Neither covers the date of an event.
-/

namespace HumanDataFactory

namespace Audit

open Json (FloatNotation Same)

/-- What is hashed for an event. -/
def hashed (ev : AuditEvent) : List (String × Json) :=
  [("prev", .str ev.prevHash), ("actor", .str ev.actor), ("action", .str ev.action),
    ("entity_type", .str ev.entityType), ("entity_id", .str ev.entityId),
    ("payload", ev.payload)]

def body (env : Env) (ev : AuditEvent) : String :=
  Json.dumps env.floatRepr Json.compact (.obj (hashed ev))

/-- The same in every column but `seq` and `created_at`. -/
structure Agrees (ev ev' : AuditEvent) : Prop where
  actor : ev.actor = ev'.actor
  action : ev.action = ev'.action
  entityType : ev.entityType = ev'.entityType
  entityId : ev.entityId = ev'.entityId
  payload : Same ev.payload ev'.payload
  prevHash : ev.prevHash = ev'.prevHash
  hash : ev.hash = ev'.hash

/-- No two bodies, one of each trail, have the same digest. -/
def CollisionFree (env : Env) (evs evs' : List AuditEvent) : Prop :=
  ∀ ev ∈ evs, ∀ ev' ∈ evs', env.sha256 (body env ev) = env.sha256 (body env ev') →
    body env ev = body env ev'

section Bodies

variable {env : Env} {ev ev' : AuditEvent}

/-- The body determines the hashed columns. -/
theorem agrees_of_body (hfloat : FloatNotation env.floatRepr) (h : body env ev = body env ev')
    (hhash : ev.hash = ev'.hash) : Agrees ev ev' := by
  have hsame : Same (.obj (hashed ev)) (.obj (hashed ev')) :=
    Json.same_of_dumps hfloat h
  have hprev : Same (.str ev.prevHash) (.str ev'.prevHash) :=
    hsame.entry (k := "prev") (by simp [hashed]) (by simp [hashed])
  have hactor : Same (.str ev.actor) (.str ev'.actor) :=
    hsame.entry (k := "actor") (by simp [hashed]) (by simp [hashed])
  have haction : Same (.str ev.action) (.str ev'.action) :=
    hsame.entry (k := "action") (by simp [hashed]) (by simp [hashed])
  have htype : Same (.str ev.entityType) (.str ev'.entityType) :=
    hsame.entry (k := "entity_type") (by simp [hashed]) (by simp [hashed])
  have hid : Same (.str ev.entityId) (.str ev'.entityId) :=
    hsame.entry (k := "entity_id") (by simp [hashed]) (by simp [hashed])
  have hpayload : Same ev.payload ev'.payload :=
    hsame.entry (k := "payload") (by simp [hashed]) (by simp [hashed])
  exact ⟨hactor.str_eq, haction.str_eq, htype.str_eq, hid.str_eq, hpayload, hprev.str_eq, hhash⟩

theorem Agrees.body_eq (h : Agrees ev ev') : body env ev = body env ev' := by
  have hpayload : ev.payload.canon = ev'.payload.canon := h.payload
  have hsame : Same (.obj (hashed ev)) (.obj (hashed ev')) := by
    simp only [Same, Json.canon, Json.canonPairs, hashed, h.prevHash, h.actor, h.action,
      h.entityType, h.entityId, hpayload]
  exact hsame.dumps_eq env.floatRepr

theorem hash_of_linked {evs : List AuditEvent} (h : Linked env evs) (hev : ev ∈ evs) :
    ev.hash = env.sha256 (body env ev) :=
  (scheme env).hash_of_linked h hev

theorem extends_of_digest {prev : String} (hprev : ev.prevHash = prev)
    (h : env.sha256 (body env ev) = ev.hash) : (scheme env).Extends prev ev := by
  subst hprev
  exact ⟨rfl, h.symm⟩

theorem verifyChain_fst (s : Db) :
    (verifyChain env s).1 = true ↔ Linked env s.auditEvents :=
  verifyFrom_fst env _ _ _

end Bodies

section Binding

variable {env : Env} {evs evs' : List AuditEvent}

/-- Without collisions, events of two intact trails with the same hash are the
same event. -/
theorem agrees_of_hash (hfloat : FloatNotation env.floatRepr) (h : Linked env evs)
    (h' : Linked env evs') (hcoll : CollisionFree env evs evs') :
    ∀ ev ∈ evs, ∀ ev' ∈ evs', ev.hash = ev'.hash →
      ev.prevHash = ev'.prevHash ∧ Agrees ev ev' := by
  intro ev hev ev' hev' hhash
  have hdigest : env.sha256 (body env ev) = env.sha256 (body env ev') := by
    rw [← hash_of_linked h hev, ← hash_of_linked h' hev', hhash]
  have hagrees := agrees_of_body hfloat (hcoll ev hev ev' hev' hdigest) hhash
  exact ⟨hagrees.prevHash, hagrees⟩

end Binding

/-- Two intact trails with the same head are the same trail, event by event. -/
theorem history_of_chainHead {env : Env} (hfloat : FloatNotation env.floatRepr) {s t : Db}
    (hs : (verifyChain env s).1 = true) (ht : (verifyChain env t).1 = true)
    (hcoll : CollisionFree env s.auditEvents t.auditEvents)
    (hgenesis : ∀ ev ∈ s.auditEvents ++ t.auditEvents, env.sha256 (body env ev) ≠ GENESIS)
    (hhead : chainHead s = chainHead t) :
    s.auditEvents.length = t.auditEvents.length ∧
      List.Forall₂ Agrees s.auditEvents t.auditEvents := by
  rw [verifyChain_fst] at hs ht
  have hfresh : ∀ ev ∈ s.auditEvents ++ t.auditEvents, ev.hash ≠ GENESIS := by
    intro ev hev
    rcases List.mem_append.mp hev with hmem | hmem
    · rw [hash_of_linked hs hmem]
      exact hgenesis ev hev
    · rw [hash_of_linked ht hmem]
      exact hgenesis ev hev
  have hheads : (scheme env).head GENESIS s.auditEvents =
      (scheme env).head GENESIS t.auditEvents := by
    rw [head_eq, head_eq]
    exact hhead
  have hagree := ChainScheme.forall₂_of_head (agrees_of_hash hfloat hs ht hcoll) hs ht hheads
    hfresh
  exact ⟨hagree.length_eq, hagree⟩

/-- Any column but `seq` may change; the stored hash stays as it was, or at
least is not the digest of what the row now says. -/
def Altered (env : Env) (ev ev' : AuditEvent) : Prop :=
  ev'.seq = ev.seq ∧ (ev'.hash = ev.hash ∨ ev'.hash ≠ env.sha256 (body env ev'))

/-- A row without its place. -/
def unnumbered (ev : AuditEvent) : AuditEvent :=
  { ev with seq := 0 }

inductive Tampering (env : Env) (evs : List AuditEvent) : List AuditEvent → Prop
  | alter {evs' : List AuditEvent} (rows : List.Forall₂ (Altered env) evs evs') :
      Tampering env evs evs'
  | swap {evs' : List AuditEvent}
      (rows : (evs'.map unnumbered).Perm (evs.map unnumbered)) : Tampering env evs evs'
  | delete {evs' : List AuditEvent} (rows : evs'.Sublist evs) : Tampering env evs evs'

/-- What is left is, in the hashed columns, a stretch of the trail: from its
start, or from right after an event whose stored hash is `GENESIS`. -/
def Stretch (evs evs' : List AuditEvent) : Prop :=
  ∃ front mid back, evs = front ++ mid ++ back ∧
    hashOrGenesis front.getLast? = GENESIS ∧ List.Forall₂ Agrees mid evs'

section Tampered

variable {env : Env} {evs evs' : List AuditEvent}

theorem stretch_of_forall₂ (h : List.Forall₂ Agrees evs evs') : Stretch evs evs' :=
  ⟨[], evs, [], by simp, rfl, h⟩

theorem linked_of_stretch (h : Linked env evs) (hs : Stretch evs evs') : Linked env evs' := by
  obtain ⟨front, mid, back, rfl, hfront, hmid⟩ := hs
  have hsplit := ((scheme env).linked_append GENESIS _ _).mp h
  have hmiddle := (((scheme env).linked_append GENESIS _ _).mp hsplit.1).2
  rw [head_eq, hfront] at hmiddle
  refine (scheme env).linked_of_forall₂ (fun ev ev' hagrees ↦ ?_) hmid hmiddle
  exact ⟨hagrees.prevHash, hagrees.hash, congrArg env.sha256 hagrees.body_eq⟩

/-- An unnoticed alteration changed no hashed column. -/
theorem agrees_of_altered (hfloat : FloatNotation env.floatRepr) (h : Linked env evs)
    (h' : Linked env evs') (hcoll : CollisionFree env evs evs')
    (hrows : List.Forall₂ (Altered env) evs evs') : List.Forall₂ Agrees evs evs' := by
  rw [List.forall₂_iff_zip] at hrows ⊢
  refine ⟨hrows.1, fun {ev ev'} hzip ↦ ?_⟩
  obtain ⟨hev, hev'⟩ := List.of_mem_zip hzip
  have hown : ev'.hash = env.sha256 (body env ev') := hash_of_linked h' hev'
  have hkept : ev'.hash = ev.hash := (hrows.2 hzip).2.resolve_right fun hne ↦ hne hown
  exact (agrees_of_hash hfloat h h' hcoll ev hev ev' hev' hkept.symm).2

/-- Rearranged rows have the same last hash: the one that is nobody's
predecessor. -/
theorem head_of_swapped (h : Linked env evs) (h' : Linked env evs')
    (hrows : (evs'.map unnumbered).Perm (evs.map unnumbered)) :
    (scheme env).head GENESIS evs' = (scheme env).head GENESIS evs := by
  have hprev : (evs'.map AuditEvent.prevHash).Perm (evs.map AuditEvent.prevHash) := by
    simpa [Function.comp_def, unnumbered] using hrows.map AuditEvent.prevHash
  have hhash : (evs'.map AuditEvent.hash).Perm (evs.map AuditEvent.hash) := by
    simpa [Function.comp_def, unnumbered] using hrows.map AuditEvent.hash
  have hrow : evs.map AuditEvent.prevHash ++ [(scheme env).head GENESIS evs] =
      GENESIS :: evs.map AuditEvent.hash := (scheme env).map_prev_concat h
  have hrow' : evs'.map AuditEvent.prevHash ++ [(scheme env).head GENESIS evs'] =
      GENESIS :: evs'.map AuditEvent.hash := (scheme env).map_prev_concat h'
  have hall : (evs'.map AuditEvent.prevHash ++ [(scheme env).head GENESIS evs']).Perm
      (evs'.map AuditEvent.prevHash ++ [(scheme env).head GENESIS evs]) := by
    rw [hrow']
    refine (hhash.cons GENESIS).trans ?_
    rw [← hrow]
    exact hprev.symm.append_right _
  have hlast := (List.perm_append_left_iff _).mp hall
  simpa using hlast

/-- What an unnoticed deletion left is a stretch. -/
theorem stretch_of_sublist (hfloat : FloatNotation env.floatRepr) (h : Linked env evs)
    (h' : Linked env evs') (hcoll : CollisionFree env evs evs') (hrows : evs'.Sublist evs) :
    Stretch evs evs' := by
  cases evs' using List.reverseRecOn with
  | nil => exact ⟨[], [], evs, by simp, rfl, .nil⟩
  | append_singleton kept last =>
      -- the part of the trail up to the last kept row
      obtain ⟨before, rest, rfl, hkept, hlast⟩ := List.append_sublist_iff.mp hrows
      obtain ⟨skipped, back, rfl⟩ := List.append_of_mem (List.singleton_sublist.mp hlast)
      have hassoc :
          before ++ (skipped ++ last :: back) = (before ++ skipped ++ [last]) ++ back := by
        simp
      rw [hassoc] at h hcoll ⊢
      have hupto : Linked env (before ++ skipped ++ [last]) :=
        (((scheme env).linked_append GENESIS _ _).mp h).1
      have hR := agrees_of_hash hfloat hupto h' fun ev hev ↦ hcoll ev (by simp at hev ⊢; tauto)
      have hhead : (scheme env).head GENESIS (before ++ skipped ++ [last]) =
          (scheme env).head GENESIS (kept ++ [last]) := by
        rw [ChainScheme.head_concat, ChainScheme.head_concat]
      rcases ChainScheme.aligned_of_head hR hupto h' hhead with
        ⟨front, mid, hsplit, hfront, hmid⟩ | ⟨front, mid, hsplit, _, hmid⟩
      · rw [head_eq] at hfront
        exact ⟨front, mid, back, by rw [hsplit], hfront, hmid⟩
      · have hcount := hmid.length_eq
        have hlen := congrArg List.length hsplit
        have hshort := hkept.length_le
        simp only [List.length_append, List.length_singleton] at hcount hlen
        have hfront : front = [] := List.length_eq_zero_iff.mp (by omega)
        rw [hfront, List.nil_append] at hsplit
        rw [← hsplit] at hmid
        exact ⟨[], before ++ skipped ++ [last], back, by simp, rfl, hmid⟩

end Tampered

/-- A change that recomputes no hash is noticed unless it leaves a stretch of
the old trail. -/
theorem verifyChain_tampered_iff {env : Env} (hfloat : FloatNotation env.floatRepr) {s t : Db}
    (hs : (verifyChain env s).1 = true) (h : Tampering env s.auditEvents t.auditEvents)
    (hcoll : CollisionFree env s.auditEvents t.auditEvents) :
    (verifyChain env t).1 = false ↔ ¬Stretch s.auditEvents t.auditEvents := by
  rw [← Bool.not_eq_true, not_iff_not, verifyChain_fst]
  rw [verifyChain_fst] at hs
  refine ⟨fun ht ↦ ?_, linked_of_stretch hs⟩
  cases h with
  | alter rows => exact stretch_of_forall₂ (agrees_of_altered hfloat hs ht hcoll rows)
  | swap rows =>
      have hlen : s.auditEvents.length = t.auditEvents.length := by
        simpa using rows.length_eq.symm
      exact stretch_of_forall₂ (ChainScheme.forall₂_of_length
        (agrees_of_hash hfloat hs ht hcoll) hs ht (head_of_swapped hs ht rows).symm hlen)
  | delete rows => exact stretch_of_sublist hfloat hs ht hcoll rows

end Audit

namespace Development

/-- Two firms, recorded with the digests SHA-256 gives them. -/
def alder : AuditEvent where
  seq := 1
  actor := "admin"
  action := "firm.created"
  entityType := "firm"
  entityId := "firm-1"
  payload := .obj [("name", .str "Alder"), ("billing_mode", .str "manual")]
  prevHash := Audit.GENESIS
  hash := "15265e53d4e6a3f9dd761c0ffb1fdebd67958f8f47a2a14b387f2ab2925fd8ef"
  createdAt := 1

def birch : AuditEvent where
  seq := 2
  actor := "admin"
  action := "firm.created"
  entityType := "firm"
  entityId := "firm-2"
  payload := .obj [("name", .str "Birch"), ("billing_mode", .str "manual")]
  prevHash := alder.hash
  hash := "c015f730571a3f68f7051ab569a4c7792ab504a5540b6fde8f0677ee77cd05a9"
  createdAt := 2

def hashingEnv : Env :=
  { env with
    floatRepr := reprFloat
    sha256 := fun text ↦
      (([alder, birch].find? fun ev ↦ Json.dumps reprFloat Json.compact
        (.obj (Audit.hashed ev)) = text).map AuditEvent.hash).getD "" }

/-- A database with nothing but an audit table. -/
def recording (evs : List AuditEvent) : Db :=
  { Db.empty with auditEvents := evs }

/-- The same event, a year earlier. -/
def backdate (ev : AuditEvent) : AuditEvent :=
  { ev with createdAt := ev.createdAt - 31536000 }

theorem sha256_alder : hashingEnv.sha256 (Audit.body hashingEnv alder) = alder.hash := by
  simp [hashingEnv, Audit.body]

theorem sha256_birch : hashingEnv.sha256 (Audit.body hashingEnv birch) = birch.hash := by
  have hne : Audit.body hashingEnv alder ≠ Audit.body hashingEnv birch := by decide +kernel
  have hfirst : ¬Json.dumps reprFloat Json.compact (.obj (Audit.hashed alder)) =
      Json.dumps reprFloat Json.compact (.obj (Audit.hashed birch)) := hne
  simp [hashingEnv, Audit.body, hfirst]

/-- Rows with the bodies of these two are told apart by their digests. -/
theorem collisionFree_of_bodies {evs : List AuditEvent}
    (h : ∀ ev ∈ evs, Audit.body hashingEnv ev = Audit.body hashingEnv alder ∨
      Audit.body hashingEnv ev = Audit.body hashingEnv birch) :
    Audit.CollisionFree hashingEnv [alder, birch] evs := by
  have hhash : alder.hash ≠ birch.hash := by decide
  intro ev hev ev' hev' hdigest
  have hbodies : Audit.body hashingEnv ev = Audit.body hashingEnv alder ∨
      Audit.body hashingEnv ev = Audit.body hashingEnv birch := by
    rcases List.mem_cons.mp hev with rfl | hev
    · exact Or.inl rfl
    · rw [List.mem_singleton.mp hev]
      exact Or.inr rfl
  rcases hbodies with hbody | hbody <;> rcases h ev' hev' with hbody' | hbody' <;>
    rw [hbody, hbody'] at hdigest ⊢
  · rw [sha256_alder, sha256_birch] at hdigest
    exact absurd hdigest hhash
  · rw [sha256_alder, sha256_birch] at hdigest
    exact absurd hdigest.symm hhash

theorem intact_recording : (Audit.verifyChain hashingEnv (recording [alder, birch])).1 = true := by
  have halder : (Audit.scheme hashingEnv).Extends Audit.GENESIS alder :=
    Audit.extends_of_digest rfl sha256_alder
  have hbirch : (Audit.scheme hashingEnv).Extends alder.hash birch :=
    Audit.extends_of_digest rfl sha256_birch
  exact (Audit.verifyChain_fst _).mpr ⟨halder, hbirch, trivial⟩

theorem intact_backdated :
    (Audit.verifyChain hashingEnv (recording [backdate alder, backdate birch])).1 = true := by
  have halder : (Audit.scheme hashingEnv).Extends Audit.GENESIS (backdate alder) :=
    Audit.extends_of_digest rfl sha256_alder
  have hbirch : (Audit.scheme hashingEnv).Extends (backdate alder).hash (backdate birch) :=
    Audit.extends_of_digest rfl sha256_birch
  exact (Audit.verifyChain_fst _).mpr ⟨halder, hbirch, trivial⟩

theorem intact_truncated : (Audit.verifyChain hashingEnv (recording [alder])).1 = true := by
  have halder : (Audit.scheme hashingEnv).Extends Audit.GENESIS alder :=
    Audit.extends_of_digest rfl sha256_alder
  exact (Audit.verifyChain_fst _).mpr ⟨halder, trivial⟩

theorem collisionFree_backdated :
    Audit.CollisionFree hashingEnv [alder, birch] [backdate alder, backdate birch] := by
  refine collisionFree_of_bodies fun ev hev ↦ ?_
  rcases List.mem_cons.mp hev with rfl | hev
  · exact Or.inl rfl
  · rw [List.mem_singleton.mp hev]
    exact Or.inr rfl

end Development

open Development

theorem Audit.history_of_chainHead_backdated :
    (recording [alder, birch]).auditEvents.length =
        (recording [backdate alder, backdate birch]).auditEvents.length ∧
      List.Forall₂ Audit.Agrees (recording [alder, birch]).auditEvents
        (recording [backdate alder, backdate birch]).auditEvents := by
  have hgenesis : ∀ ev ∈ [alder, birch] ++ [backdate alder, backdate birch],
      hashingEnv.sha256 (Audit.body hashingEnv ev) ≠ Audit.GENESIS := by
    have halder : alder.hash ≠ Audit.GENESIS := by decide
    have hbirch : birch.hash ≠ Audit.GENESIS := by decide
    intro ev hev
    simp only [List.cons_append, List.nil_append, List.mem_cons, List.not_mem_nil,
      or_false] at hev
    rcases hev with rfl | rfl | rfl | rfl
    · exact sha256_alder ▸ halder
    · exact sha256_birch ▸ hbirch
    · exact sha256_alder ▸ halder
    · exact sha256_birch ▸ hbirch
  exact Audit.history_of_chainHead reprFloat_notation intact_recording intact_backdated
    collisionFree_backdated hgenesis rfl

theorem Audit.verifyChain_tampered_iff_beheaded :
    (Audit.verifyChain hashingEnv (recording [birch])).1 = false := by
  have hcoll : Audit.CollisionFree hashingEnv [alder, birch] [birch] :=
    collisionFree_of_bodies (by simp)
  refine (Audit.verifyChain_tampered_iff reprFloat_notation intact_recording
    (t := recording [birch]) (.delete (List.sublist_cons_self alder [birch])) hcoll).mpr ?_
  rintro ⟨front, mid, back, hevs, hstart, hagrees⟩
  obtain ⟨ev, _, hev, hnil, rfl⟩ := List.forall₂_cons_right_iff.mp hagrees
  obtain rfl := List.forall₂_nil_right_iff.mp hnil
  cases front with
  | nil =>
      -- the stretch would begin with the event that is gone
      obtain rfl : alder = ev := (List.cons.inj hevs).1
      exact absurd hev.entityId (by decide)
  | cons first front =>
      obtain rfl : alder = first := (List.cons.inj hevs).1
      have hfront : front = [] := by
        have hlen := congrArg List.length hevs
        simp only [recording, List.length_cons, List.length_append, List.length_nil] at hlen
        exact List.length_eq_zero_iff.mp (by omega)
      rw [hfront] at hstart
      exact absurd hstart (by decide)

/-- Neither the loss of the newest event nor changed dates are noticed. -/
theorem Audit.tampering_unnoticed :
    (Audit.verifyChain hashingEnv (recording [alder, birch])).1 = true ∧
      (Audit.CollisionFree hashingEnv [alder, birch] [alder] ∧
        Audit.Tampering hashingEnv [alder, birch] [alder] ∧
        (Audit.verifyChain hashingEnv (recording [alder])).1 = true) ∧
      Audit.CollisionFree hashingEnv [alder, birch] [backdate alder, backdate birch] ∧
        Audit.Tampering hashingEnv [alder, birch] [backdate alder, backdate birch] ∧
        (backdate alder).createdAt ≠ alder.createdAt ∧
        (Audit.verifyChain hashingEnv (recording [backdate alder, backdate birch])).1 = true := by
  have hcoll : Audit.CollisionFree hashingEnv [alder, birch] [alder] :=
    collisionFree_of_bodies (by simp)
  have hdates : List.Forall₂ (Audit.Altered hashingEnv) [alder, birch]
      [backdate alder, backdate birch] :=
    .cons ⟨rfl, Or.inl rfl⟩ (.cons ⟨rfl, Or.inl rfl⟩ .nil)
  exact ⟨intact_recording, ⟨hcoll, .delete (List.take_sublist 1 [alder, birch]), intact_truncated⟩,
    collisionFree_backdated, .alter hdates, by decide, intact_backdated⟩

end HumanDataFactory
