import HumanDataFactory.Provenance.Terms

/-!
# Statements that keep to the terms

`Settles` says of a part of a request that it makes no write without grounds
and has recorded what it owes when it is done.  The rules below are one for
each kind of statement, and what the shared parts of the workflow establish.
-/

namespace HumanDataFactory

open Transact

namespace Provenance

variable {env : Env} (A : Authority env) {α β : Type}

/-- Started anywhere from `s` on with `e` to record, the program keeps to the
terms; when it returns, it owes no more than before, and `P` holds. -/
def Settles (e : Set Deed) (p : Tx α) (P : α → Db → Prop) (s : Db) : Prop :=
  ∀ d d₀, d ⊆ d₀ ∪ e →
    (terms A).Honours p (fun a d' t ↦ d' ⊆ d₀ ∧ s.Grows t ∧ P a t) d s

/-- Every row of the database has its grounds. -/
def AllGrounded (env : Env) (s : Db) : Prop :=
  ∀ x, s.Has x → Grounded env s x

theorem next_subset (u : Write) (d : Set Deed) : next u d ⊆ d ∪ owes u := by
  cases u with
  | insertAuditEvent ev => exact fun x hx ↦ Or.inl hx.1
  | _ => exact subset_rfl

/-- The event that records a creation pays for it. -/
theorem shows_created {u : Write} {actor action entityType entityId : String} {payload : Json}
    (hu : owes u ⊆ {.created entityType entityId}) (haction : action ∈ CREATIONS) (ev : AuditEvent)
    (hev : ev.entry = ⟨actor, action, entityType, entityId, payload⟩) :
    ∀ d ∈ ∅ ∪ owes u, Shows ev d := by
  intro d hd
  rw [Set.empty_union] at hd
  obtain rfl : d = .created entityType entityId := hu hd
  have hact : ev.action = action := congrArg Audit.Entry.action hev
  exact ⟨by rwa [hact], congrArg Audit.Entry.entityType hev, congrArg Audit.Entry.entityId hev⟩

namespace Settles

variable {A} {e : Set Deed} {p : Tx α} {P P' : α → Db → Prop} {s : Db}

theorem imp (h : Settles A e p P s) (hP : ∀ a t, s.Grows t → P a t → P' a t) :
    Settles A e p P' s :=
  fun d d₀ hd ↦ Contract.Honours.imp (h d d₀ hd) fun a _ t _ hq ↦
    ⟨hq.1, hq.2.1, hP a t hq.2.1 hq.2.2⟩

/-- A part that records what it owes itself, and what comes after it. -/
theorem bind {f : α → Tx β} {R : β → Db → Prop} (hp : Settles A ∅ p P s)
    (hf : ∀ a t, s.Grows t → P a t → Settles A e (f a) R t) : Settles A e (p >>= f) R s := by
  intro d d₀ hd
  rw [Contract.honours_bind]
  refine Contract.Honours.imp (hp d (d₀ ∪ e) (by simpa using hd)) ?_
  rintro a d' t _ ⟨hd', hst, ha⟩
  refine Contract.Honours.imp (hf a t hst ha d' d₀ hd') ?_
  rintro b d'' u _ ⟨hd'', htu, hb⟩
  exact ⟨hd'', hst.trans htu, hb⟩

/-- A part that records what is owed, and what comes after it. -/
theorem bind_paid {f : α → Tx β} {R : β → Db → Prop} (hp : Settles A e p P s)
    (hf : ∀ a t, s.Grows t → P a t → Settles A ∅ (f a) R t) : Settles A e (p >>= f) R s := by
  intro d d₀ hd
  rw [Contract.honours_bind]
  refine Contract.Honours.imp (hp d d₀ hd) ?_
  rintro a d' t _ ⟨hd', hst, ha⟩
  refine Contract.Honours.imp (hf a t hst ha d' d₀ (by simpa using hd')) ?_
  rintro b d'' u _ ⟨hd'', htu, hb⟩
  exact ⟨hd'', hst.trans htu, hb⟩

theorem pure {a : α} (h : P a s) : Settles A ∅ (.pure a) P s :=
  fun _ _ hd ↦ ⟨by simpa using hd, .refl s, h⟩

theorem raise (err : PyError) : Settles A e (.raise err) P s :=
  fun _ _ _ ↦ trivial

theorem of_writeless (hp : p.Writeless) : Settles A ∅ p (fun _ _ ↦ True) s :=
  fun _ _ hd ↦ Contract.Honours.of_writeless hp fun _ _ hst ↦ ⟨by simpa using hd, hst, trivial⟩

section Bind

variable {f : α → Tx β} {R : β → Db → Prop}

/-- A query shows a later state, in which all rows have their grounds. -/
theorem select_bind {q : Query} {g : Db → α}
    (hf : ∀ t, s.Grows t → AllGrounded env t → Settles A e (f (g t)) R t) :
    Settles A e (Session.select q g >>= f) R s := by
  intro d d₀ hd t hst hI
  refine Contract.Honours.imp (hf t hst hI.grounded d d₀ hd) ?_
  rintro b d' u _ ⟨hd', htu, hb⟩
  exact ⟨hd', hst.trans htu, hb⟩

theorem ask_bind {c : Call} {k : Reply c → Tx β} (hk : ∀ r, Settles A e (k r) R s) :
    Settles A e (Prog.ask c >>= k) R s :=
  fun d d₀ hd r ↦ hk r d d₀ hd

theorem getSome_bind {err : PyError} {o : Option α} (hf : ∀ a, o = some a → Settles A e (f a) R s) :
    Settles A e (Prog.getSome err o >>= f) R s := by
  cases o with
  | none => exact raise err
  | some a => exact hf a rfl

theorem ofExcept_bind {x : Except PyError α} (hf : ∀ a, x = .ok a → Settles A e (f a) R s) :
    Settles A e (Prog.ofExcept x >>= f) R s := by
  cases x with
  | error err => exact raise err
  | ok a => exact hf a rfl

theorem ensure_bind {c : Prop} [Decidable c] {err : PyError} {k : Unit → Tx β}
    (hk : c → Settles A e (k ()) R s) : Settles A e (Prog.ensure c err >>= k) R s := by
  by_cases hc : c
  · simpa [Prog.ensure, hc] using hk hc
  · simpa [Prog.ensure, hc] using raise err

theorem scalarOneOrNone_bind {rows : List α} {k : Option α → Tx β}
    (hk : ∀ a, rows = a.toList → Settles A e (k a) R s) :
    Settles A e (Session.scalarOneOrNone rows >>= k) R s := by
  rcases rows with _ | ⟨a, _ | ⟨b, rows⟩⟩
  · exact hk none rfl
  · exact hk (some a) rfl
  · exact raise _

end Bind

theorem ensure {c : Prop} [Decidable c] {err : PyError} :
    Settles A ∅ (Prog.ensure c err : Tx Unit) (fun _ _ ↦ c) s := by
  unfold Prog.ensure
  split
  · exact pure ‹c›
  · exact raise err

theorem mapErr {g : PyError → PyError} (h : Settles A e p P s) : Settles A e (p.mapErr g) P s :=
  fun d d₀ hd ↦ Contract.honours_mapErr.mpr (h d d₀ hd)

/-- A write with grounds that leaves nothing to record. -/
theorem emit {u : Write} (hdue : Due env A.holds s u) (howes : owes u = ∅) :
    Settles A ∅ (Session.write u) (fun _ t ↦ ∀ y, u.adds = some y → t.Has y) s := by
  refine fun d d₀ hd ↦ ⟨hdue, fun t t' hst _ happ ↦ ⟨?_, hst.trans (.of_apply happ), ?_⟩⟩
  · refine (next_subset u d).trans ?_
    rwa [howes, Set.union_empty, ← Set.union_empty d₀]
  · exact fun y hy ↦ Db.has_adds happ hy

/-- A write with grounds that has to be recorded later on. -/
theorem emit_bind {u : Write} {f : Unit → Tx β} {R : β → Db → Prop} (hdue : Due env A.holds s u)
    (hf : ∀ t, s.Grows t → (∀ y, u.adds = some y → t.Has y) → Settles A (e ∪ owes u) (f ()) R t) :
    Settles A e (Session.write u >>= f) R s := by
  refine fun d d₀ hd ↦ ⟨hdue, fun t t' hst _ happ ↦ ?_⟩
  have hst' : s.Grows t' := hst.trans (.of_apply happ)
  have hsub : next u d ⊆ d₀ ∪ (e ∪ owes u) := by
    rw [← Set.union_assoc]
    exact (next_subset u d).trans (Set.union_subset_union_left _ hd)
  refine Contract.Honours.imp (hf t' hst' (fun y hy ↦ Db.has_adds happ hy) _ d₀ hsub) ?_
  rintro b d' v _ ⟨hd', htv, hb⟩
  exact ⟨hd', hst'.trans htv, hb⟩

theorem emitAll {us : List Write} (hdue : ∀ u ∈ us, Due env A.holds s u)
    (howes : ∀ u ∈ us, owes u = ∅) :
    Settles A ∅ (Prog.emitAll us) (fun _ _ ↦ True) s := by
  induction us generalizing s with
  | nil => exact pure trivial
  | cons u us ih =>
      change Settles A ∅ (Session.write u >>= fun _ ↦ Prog.emitAll us) _ s
      refine (emit (hdue u (by simp)) (howes u (by simp))).bind fun _ t hst _ ↦ ?_
      refine ih ?_ fun v hv ↦ howes v (by simp [hv])
      exact fun v hv ↦ (hdue v (by simp [hv])).mono env hst fun _ ↦ A.mono hst

theorem writeIf {c : Prop} [Decidable c] {u : Write} (hdue : c → Due env A.holds s u)
    (howes : owes u = ∅) :
    Settles A ∅ (Session.writeIf c u) (fun _ _ ↦ True) s := by
  unfold Session.writeIf
  split
  · exact (emit (hdue ‹c›) howes).imp fun _ _ _ _ ↦ trivial
  · exact pure trivial

/-- An event recorded for an actor pays for what it shows. -/
theorem record {actor action entityType entityId : String} {payload : Json}
    (hsign : ∀ ev t, s.Grows t → ev.entry = ⟨actor, action, entityType, entityId, payload⟩ →
      Signed A.holds t ev)
    (hshows : ∀ ev : AuditEvent, ev.entry = ⟨actor, action, entityType, entityId, payload⟩ →
      ∀ d ∈ e, Shows ev d) :
    Settles A e (Audit.record env actor action entityType entityId payload)
      (fun _ _ ↦ True) s := by
  intro d d₀ hd t hst hI seq now
  refine ⟨hsign _ t hst rfl, fun v v' htv _ happ ↦ ⟨?_, ?_, trivial⟩⟩
  · rintro x ⟨hx, hnot⟩
    exact (hd hx).resolve_right fun hxe ↦ hnot (hshows _ rfl x hxe)
  · exact (hst.trans htv).trans ((terms A).up happ)

/-- An event of the engine that pays for what it shows. -/
theorem note_for {actor action entityType entityId : String} {payload : Json}
    (hrole : actionRoles action = none)
    (hshows : ∀ ev : AuditEvent, ev.entry = ⟨actor, action, entityType, entityId, payload⟩ →
      ∀ d ∈ e, Shows ev d) :
    Settles A e (Audit.record env actor action entityType entityId payload)
      (fun _ _ ↦ True) s := by
  refine record ?_ hshows
  intro ev t _ hev roles hroles
  have haction : ev.action = action := congrArg Audit.Entry.action hev
  rw [haction, hrole] at hroles
  cases hroles

/-- An event of the engine. -/
theorem note {actor action entityType entityId : String} {payload : Json}
    (hrole : actionRoles action = none) :
    Settles A ∅ (Audit.record env actor action entityType entityId payload)
      (fun _ _ ↦ True) s :=
  note_for hrole (by simp)

end Settles

variable {A}

/-- The caller signs with a role the action asks for. -/
theorem settles_sign {actor : Auth.Actor} {s : Db} {action entityType entityId : String}
    {payload : Json} {e : Set Deed} (hactor : A.holds actor s)
    (hrole : ∀ roles, actionRoles action = some roles → actor.role ∈ roles)
    (hne : action ≠ "invoice.checkout_created")
    (hshows : ∀ ev : AuditEvent, ev.entry = ⟨actor.id, action, entityType, entityId, payload⟩ →
      ∀ d ∈ e, Shows ev d) :
    Settles A e (Audit.record env actor.id action entityType entityId payload)
      (fun _ _ ↦ True) s := by
  refine .record ?_ hshows
  intro ev t hst hev roles hroles
  have haction : ev.action = action := congrArg Audit.Entry.action hev
  have hid : ev.actor = actor.id := congrArg Audit.Entry.actor hev
  rw [haction] at hroles ⊢
  exact ⟨actor, A.mono hst hactor, hid.symm, hrole roles hroles, fun h ↦ absurd h hne⟩

theorem by_known {actor : Auth.Actor} {s : Db} {roles : List Role} (hactor : A.holds actor s)
    (hrole : actor.role ∈ roles) : By (Known env) s roles actor.id :=
  ⟨actor, A.known hactor, rfl, hrole⟩

end Provenance

end HumanDataFactory
