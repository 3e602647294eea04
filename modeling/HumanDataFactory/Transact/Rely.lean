import HumanDataFactory.Transact.ReadCommitted

/-!
# What a transaction can rely on

Under Read Committed a transaction acts on states that may be gone by the time
it commits.  What it can count on is what no write ever undoes.  A `Contract`
names an order of the stores that every write climbs, an invariant of the
views, and for each write what must be known before it is made; what must be
known is closed upwards in the order.  A program that honours the contract from
any state on keeps the invariant in every interleaving.

The invariant may be short of something while a transaction runs: `δ` records
what it still owes.
-/

namespace HumanDataFactory
namespace Transact

variable {ι σ ω θ χ : Type} {ρ : χ → Type} {τ ε α β δ : Type}

/-- The terms under which transactions share a store. -/
structure Contract (M : Machine σ ω χ ρ τ) (δ : Type) where
  le : σ → σ → Prop
  inv : δ → σ → Prop
  due : ω → σ → Prop
  next : ω → δ → δ
  refl : ∀ s, le s s
  trans : ∀ {s t u}, le s t → le t u → le s u
  up : ∀ {u s s'}, M.apply u s = some s' → le s s'
  mono : ∀ {u s s' t t'}, le s t → M.apply u s = some s' → M.apply u t = some t' → le s' t'
  due_mono : ∀ {u s t}, le s t → due u s → due u t
  keep : ∀ {u d s s'}, inv d s → due u s → M.apply u s = some s' → inv (next u d) s'

namespace Contract

variable {M : Machine σ ω χ ρ τ} (C : Contract M δ)

/-- What is owed after some writes. -/
def owed (ws : List ω) (d : δ) : δ :=
  ws.foldl (fun d u ↦ C.next u d) d

@[simp] theorem owed_nil (d : δ) : C.owed [] d = d := rfl

theorem owed_concat (ws : List ω) (u : ω) (d : δ) :
    C.owed (ws ++ [u]) d = C.next u (C.owed ws d) := by
  simp [owed]

/-- From any state at least `s` on, owing `d`, the program makes a write only
when it is due, and what it returns meets `Q`.  Between two statements the
store may have grown. -/
def Honours : Prog σ ω θ χ ρ ε α → (α → δ → σ → Prop) → δ → σ → Prop
  | .pure a, Q, d, s => Q a d s
  | .raise _, _, _, _ => True
  | .read _ k, Q, d, s => ∀ t, C.le s t → C.inv d t → Honours (k t) Q d t
  | .write u p, Q, d, s => C.due u s ∧
      ∀ t t', C.le s t → C.inv d t → M.apply u t = some t' → Honours p Q (C.next u d) t'
  | .call _ k, Q, d, s => ∀ r, Honours (k r) Q d s

variable {C}

section Rules

variable {p : Prog σ ω θ χ ρ ε α} {Q Q' : α → δ → σ → Prop} {d : δ} {s t : σ}

theorem Honours.imp (h : C.Honours p Q d s) (hQ : ∀ a d t, C.le s t → Q a d t → Q' a d t) :
    C.Honours p Q' d s := by
  induction p generalizing d s with
  | pure a => exact hQ a d s (C.refl s) h
  | raise e => trivial
  | read q k ih =>
      intro t hst hI
      exact ih t (h t hst hI) fun a d' u htu ↦ hQ a d' u (C.trans hst htu)
  | write u p ih =>
      refine ⟨h.1, ?_⟩
      intro t t' hst hI happ
      refine ih (h.2 t t' hst hI happ) ?_
      exact fun a d' v htv ↦ hQ a d' v (C.trans hst (C.trans (C.up happ) htv))
  | call c k ih => exact fun r ↦ ih r (h r) hQ

/-- What a program may do from `s` on it may do from any later state. -/
theorem Honours.later (hQ : ∀ a d s t, C.le s t → Q a d s → Q a d t)
    (h : C.Honours p Q d s) (hst : C.le s t) : C.Honours p Q d t := by
  induction p generalizing d s t with
  | pure a => exact hQ a d s t hst h
  | raise e => trivial
  | read q k ih => exact fun u htu hI ↦ h u (C.trans hst htu) hI
  | write u p ih =>
      exact ⟨C.due_mono hst h.1, fun v v' htv hI happ ↦ h.2 v v' (C.trans hst htv) hI happ⟩
  | call c k ih => exact fun r ↦ ih r (h r) hst

theorem honours_bind {f : α → Prog σ ω θ χ ρ ε β} {R : β → δ → σ → Prop} :
    C.Honours (p >>= f) R d s ↔ C.Honours p (fun a d s ↦ C.Honours (f a) R d s) d s := by
  induction p generalizing d s with
  | pure a => exact Iff.rfl
  | raise e => exact Iff.rfl
  | read q k ih =>
      exact forall_congr' fun t ↦ imp_congr_right fun _ ↦ imp_congr_right fun _ ↦ ih t
  | write u p ih =>
      refine and_congr_right fun _ ↦ forall_congr' fun t ↦ forall_congr' fun t' ↦ ?_
      exact imp_congr_right fun _ ↦ imp_congr_right fun _ ↦ imp_congr_right fun _ ↦ ih
  | call c k ih => exact forall_congr' fun r ↦ ih r

@[simp] theorem honours_pure {a : α} :
    C.Honours (.pure a : Prog σ ω θ χ ρ ε α) Q d s ↔ Q a d s := Iff.rfl

@[simp] theorem honours_raise {e : ε} :
    C.Honours (.raise e : Prog σ ω θ χ ρ ε α) Q d s := trivial

@[simp] theorem honours_mapErr {g : ε → ε} : C.Honours (p.mapErr g) Q d s ↔ C.Honours p Q d s := by
  induction p generalizing d s with
  | pure a => exact Iff.rfl
  | raise e => exact Iff.rfl
  | read q k ih =>
      exact forall_congr' fun t ↦ imp_congr_right fun _ ↦ imp_congr_right fun _ ↦ ih t
  | write u p ih =>
      refine and_congr_right fun _ ↦ forall_congr' fun t ↦ forall_congr' fun t' ↦ ?_
      exact imp_congr_right fun _ ↦ imp_congr_right fun _ ↦ imp_congr_right fun _ ↦ ih
  | call c k ih => exact forall_congr' fun r ↦ ih r

variable {f : α → Prog σ ω θ χ ρ ε β} {R : β → δ → σ → Prop}

theorem honours_select_bind {q : θ} {g : σ → α} :
    C.Honours (Prog.select q g >>= f) R d s ↔
      ∀ t, C.le s t → C.inv d t → C.Honours (f (g t)) R d t := Iff.rfl

theorem honours_ask_bind {c : χ} {k : ρ c → Prog σ ω θ χ ρ ε β} :
    C.Honours (Prog.ask c >>= k) R d s ↔ ∀ r, C.Honours (k r) R d s := Iff.rfl

theorem honours_emit_bind {u : ω} {k : Unit → Prog σ ω θ χ ρ ε β} :
    C.Honours (Prog.emit u >>= k) R d s ↔ C.due u s ∧
      ∀ t t', C.le s t → C.inv d t → M.apply u t = some t' →
        C.Honours (k ()) R (C.next u d) t' := Iff.rfl

theorem honours_ensure_bind {c : Prop} [Decidable c] {e : ε} {k : Unit → Prog σ ω θ χ ρ ε β} :
    C.Honours (Prog.ensure c e >>= k) R d s ↔ (c → C.Honours (k ()) R d s) := by
  by_cases h : c <;> simp [Prog.ensure, h]

theorem honours_getSome_bind {e : ε} {o : Option α} :
    C.Honours (Prog.getSome e o >>= f) R d s ↔ ∀ a, o = some a → C.Honours (f a) R d s := by
  cases o <;> simp [Prog.getSome]

theorem honours_ofExcept_bind {x : Except ε α} :
    C.Honours (Prog.ofExcept x >>= f) R d s ↔ ∀ a, x = .ok a → C.Honours (f a) R d s := by
  cases x <;> simp [Prog.ofExcept]

/-- A program that only looks returns in a later state, owing the same. -/
theorem Honours.of_writeless (hp : p.Writeless)
    (hQ : ∀ a t, C.le s t → Q a d t) : C.Honours p Q d s := by
  induction hp generalizing s with
  | pure a => exact hQ a s (C.refl s)
  | raise e => trivial
  | read q k _ ih => exact fun t hst _ ↦ ih t fun a u htu ↦ hQ a u (C.trans hst htu)
  | call c k _ ih => exact fun r ↦ ih r hQ

/-- A program whose writes are due at any time and leave nothing owed. -/
theorem Honours.of_writesIn {I : ω → Prop} (hp : p.WritesIn I) (hdue : ∀ u, I u → ∀ t, C.due u t)
    (hnext : ∀ u, I u → C.next u d = d) (hQ : ∀ a t, C.le s t → Q a d t) : C.Honours p Q d s := by
  induction hp generalizing s with
  | pure a => exact hQ a s (C.refl s)
  | raise e => trivial
  | read q k _ ih => exact fun t hst _ ↦ ih t fun a u htu ↦ hQ a u (C.trans hst htu)
  | write u p hu _ ih =>
      refine ⟨hdue u hu s, fun t t' hst _ happ ↦ ?_⟩
      rw [hnext u hu]
      exact ih fun a v htv ↦ hQ a v (C.trans hst (C.trans (C.up happ) htv))
  | call c k _ ih => exact fun r ↦ ih r hQ

end Rules

/-- Run alone, the program ends where the invariant holds. -/
theorem Honours.exec {p : Prog σ ω θ χ ρ ε α} {Q : α → δ → σ → Prop} {d : δ} {a : α} {s s' : σ}
    {w w' : τ} (hp : C.Honours p Q d s) (hI : C.inv d s) (h : M.Exec p s w a s' w') :
    ∃ d', C.inv d' s' ∧ Q a d' s' ∧ C.le s s' := by
  induction p generalizing d s w with
  | pure b =>
      obtain ⟨rfl, rfl, rfl⟩ := h
      exact ⟨d, hI, hp, C.refl _⟩
  | raise e => exact h.elim
  | read q k ih => exact ih s (hp s (C.refl s) hI) hI h
  | write u p ih =>
      obtain ⟨s₁, happ, h⟩ := h
      obtain ⟨d', hI', hQ, hle⟩ := ih (hp.2 s s₁ (C.refl s) hI happ) (C.keep hI hp.1 happ) h
      exact ⟨d', hI', hQ, C.trans (C.up happ) hle⟩
  | call c k ih =>
      obtain ⟨r, w₁, _, h⟩ := h
      exact ih r (hp r) hI h

theorem view_le {ws : List ω} {s s' : σ} (h : M.view ws s = some s') : C.le s s' := by
  induction ws generalizing s with
  | nil =>
      obtain rfl := Option.some.inj h
      exact C.refl _
  | cons u ws ih =>
      obtain ⟨s₁, happ, hrest⟩ := Option.bind_eq_some_iff.mp h
      exact C.trans (C.up happ) (ih hrest)

theorem view_mono {ws : List ω} {s s' t t' : σ} (hst : C.le s t) (hs : M.view ws s = some s')
    (ht : M.view ws t = some t') : C.le s' t' := by
  induction ws generalizing s t with
  | nil =>
      obtain rfl := Option.some.inj hs
      obtain rfl := Option.some.inj ht
      exact hst
  | cons u ws ih =>
      obtain ⟨s₁, hs₁, hs⟩ := Option.bind_eq_some_iff.mp hs
      obtain ⟨t₁, ht₁, ht⟩ := Option.bind_eq_some_iff.mp ht
      exact ih (C.mono hst hs₁ ht₁) hs ht

variable (C) in
/-- A transaction that has written `ws` over a store at least `s` is where the
contract lets it be, whatever the store has become. -/
structure Ready (p : Prog σ ω θ χ ρ ε α) (Q : α → δ → σ → Prop) (d : δ) (ws : List ω) (s : σ) :
    Prop where
  goes : ∀ t, C.le s t → C.inv d t → ∀ v, M.view ws t = some v →
    C.inv (C.owed ws d) v ∧ C.Honours p Q (C.owed ws d) v
  made : ∀ u ∈ ws, ∃ v, C.due u v

namespace Ready

variable {p : Prog σ ω θ χ ρ ε α} {Q : α → δ → σ → Prop} {d : δ} {ws : List ω} {s t : σ}

theorem init (hQ : ∀ a d s t, C.le s t → Q a d s → Q a d t) (hp : C.Honours p Q d s) :
    C.Ready p Q d [] s where
  goes := by
    intro t hst hI v hv
    obtain rfl := Option.some.inj hv
    exact ⟨hI, hp.later hQ hst⟩
  made := by simp

theorem later (h : C.Ready p Q d ws s) (hst : C.le s t) : C.Ready p Q d ws t :=
  ⟨fun u htu ↦ h.goes u (C.trans hst htu), h.made⟩

theorem read (hQ : ∀ a d s t, C.le s t → Q a d s → Q a d t) {q : θ}
    {k : σ → Prog σ ω θ χ ρ ε α} (h : C.Ready (.read q k) Q d ws s) (hI : C.inv d s) {v : σ}
    (hv : M.view ws s = some v) : C.Ready (k v) Q d ws s where
  goes := by
    intro t hst hIt v' hv'
    obtain ⟨hIv, hk⟩ := h.goes s (C.refl s) hI v hv
    refine ⟨(h.goes t hst hIt v' hv').1, ?_⟩
    exact Honours.later hQ (hk v (C.refl v) hIv) (view_mono hst hv hv')
  made := h.made

theorem write {u : ω} (h : C.Ready (.write u p) Q d ws s) (hI : C.inv d s) {v : σ}
    (hv : M.view (ws ++ [u]) s = some v) : C.Ready p Q d (ws ++ [u]) s where
  goes := by
    intro t hst hIt v' hv'
    rw [Machine.view_append] at hv'
    obtain ⟨v₁, hv₁, hu⟩ := Option.bind_eq_some_iff.mp hv'
    obtain ⟨v₂, happ, hnil⟩ := Option.bind_eq_some_iff.mp hu
    obtain rfl := Option.some.inj hnil
    obtain ⟨hIv, hp⟩ := h.goes t hst hIt v₁ hv₁
    rw [owed_concat]
    exact ⟨C.keep hIv hp.1 happ, hp.2 v₁ _ (C.refl v₁) hIv happ⟩
  made := by
    intro x hx
    rcases List.mem_append.mp hx with hx | hx
    · exact h.made x hx
    · obtain rfl := List.mem_singleton.mp hx
      rw [Machine.view_append] at hv
      obtain ⟨v₁, hv₁, _⟩ := Option.bind_eq_some_iff.mp hv
      exact ⟨v₁, (h.goes s (C.refl s) hI v₁ hv₁).2.1⟩

end Ready

section System

variable [DecidableEq ι] {P : Machine.CommitCond ι σ ω θ}
  {S S' : Sys ι σ ω θ χ ρ τ ε α} {i : ι}

/-- Where a transaction can be once it honours the contract: still on its way,
or done with writes that were all due. -/
def TxnOk (C : Contract M δ) (Q : α → δ → σ → Prop) (d : δ) (s : σ) :
    Txn σ ω θ χ ρ ε α → Prop
  | .running p ws _ => C.Ready p Q d ws s
  | .committed _ ws _ => ∀ u ∈ ws, ∃ v, C.due u v
  | .rolledBack => True

variable {Q : α → δ → σ → Prop} {d d₀ : δ}

theorem TxnOk.later {s t : σ} {x : Txn σ ω θ χ ρ ε α} (h : C.TxnOk Q d s x) (hst : C.le s t) :
    C.TxnOk Q d t x := by
  cases x with
  | running p ws seen => exact Ready.later h hst
  | committed a ws seen => exact h
  | rolledBack => trivial

theorem TxnOk.advance (hQ : ∀ a d s t, C.le s t → Q a d s → Q a d t) {j : ι}
    (h : M.Advance S i S') (hI : C.inv d S.store) (hj : C.TxnOk Q d S.store (S.txn j)) :
    C.TxnOk Q d S'.store (S'.txn j) := by
  rw [h.store_eq]
  by_cases hji : j = i
  · subst hji
    cases h with
    | read ht hv =>
        rw [ht] at hj
        rw [Sys.set_txn_self]
        exact Ready.read hQ hj hI hv
    | write ht hv =>
        rw [ht] at hj
        rw [Sys.set_txn_self]
        exact Ready.write hj hI hv
    | call ht hw =>
        rw [ht] at hj
        change C.TxnOk Q d S.store ((S.set j _).txn j)
        rw [Sys.set_txn_self]
        exact ⟨fun t hst hIt v hv ↦ ⟨(hj.goes t hst hIt v hv).1, (hj.goes t hst hIt v hv).2 _⟩,
          hj.made⟩
    | rollback ht =>
        rw [Sys.set_txn_self]
        trivial
  · have hother : S'.txn j = S.txn j := by
      cases h <;> exact Sys.set_txn_ne _ _ _ hji
    rwa [hother]

theorem TxnOk.commit {j : ι} (h : M.Commit S i S') (hj : C.TxnOk Q d S.store (S.txn j)) :
    C.TxnOk Q d S'.store (S'.txn j) := by
  cases h with
  | mk ht hv =>
      have hle : C.le S.store _ := view_le hv
      by_cases hji : j = i
      · subst hji
        rw [ht] at hj
        change C.TxnOk Q d _ ((S.set j _).txn j)
        rw [Sys.set_txn_self]
        exact hj.made
      · change C.TxnOk Q d _ ((S.set i _).txn j)
        rw [Sys.set_txn_ne _ _ _ hji]
        exact hj.later hle

/-- At its commit a transaction leaves a store where the invariant holds. -/
theorem TxnOk.inv_of_commit (hdone : ∀ a d s, Q a d s → ∀ t, C.inv d t → C.inv d₀ t)
    (h : M.Commit S i S') (hI : C.inv d₀ S.store) (hi : C.TxnOk Q d₀ S.store (S.txn i)) :
    C.inv d₀ S'.store := by
  cases h with
  | mk ht hv =>
      rw [ht] at hi
      obtain ⟨hIv, hQ⟩ := hi.goes S.store (C.refl _) hI _ hv
      exact hdone _ _ _ hQ _ hIv

/-- Whatever the programs are, the store only grows. -/
theorem le_of_steps (C : Contract M δ) (h : M.Steps P S S') : C.le S.store S'.store := by
  induction h with
  | refl => exact C.refl _
  | tail _ hstep ih =>
      cases hstep with
      | advance hstep => rwa [hstep.store_eq]
      | commit hstep _ =>
          obtain ⟨_, hv⟩ := hstep
          exact C.trans ih (view_le hv)

/-- The run rule: programs that honour the contract keep its invariant in
every interleaving. -/
theorem inv_of_steps (hQ : ∀ a d s t, C.le s t → Q a d s → Q a d t)
    (hdone : ∀ a d s, Q a d s → ∀ t, C.inv d t → C.inv d₀ t) {s : σ} {w : τ}
    {start : ι → Prog σ ω θ χ ρ ε α} (hI : C.inv d₀ s)
    (hstart : ∀ i, C.Honours (start i) Q d₀ s) (h : M.Steps P (.init s w start) S) :
    C.inv d₀ S.store ∧ ∀ i, C.TxnOk Q d₀ S.store (S.txn i) := by
  induction h with
  | refl => exact ⟨hI, fun i ↦ Ready.init hQ (hstart i)⟩
  | tail _ hstep ih =>
      obtain ⟨hI, hok⟩ := ih
      cases hstep with
      | advance hstep =>
          refine ⟨?_, fun j ↦ TxnOk.advance hQ hstep hI (hok j)⟩
          rwa [hstep.store_eq]
      | commit hstep _ =>
          exact ⟨TxnOk.inv_of_commit hdone hstep hI (hok _), fun j ↦ TxnOk.commit hstep (hok j)⟩

/-- What a transaction writes that begins in the middle of a run, among others
that keep the invariant. -/
theorem due_of_steps (hQ : ∀ a d s t, C.le s t → Q a d s → Q a d t)
    (hI : ∀ S', M.Steps P S S' → C.inv d S'.store) {p : Prog σ ω θ χ ρ ε α}
    {seen₀ : List (θ × σ)} (hi : S.txn i = .running p [] seen₀)
    (hp : C.Honours p Q d S.store) (h : M.Steps P S S') {a : α} {ws : List ω}
    {seen : List (θ × σ)} (hS' : S'.txn i = .committed a ws seen) :
    ∀ u ∈ ws, ∃ v, C.due u v := by
  have hok : C.TxnOk Q d S'.store (S'.txn i) := by
    clear hS'
    induction h with
    | refl =>
        rw [hi]
        exact Ready.init hQ hp
    | tail hpre hstep ih =>
        cases hstep with
        | advance hstep => exact TxnOk.advance hQ hstep (hI _ hpre) ih
        | commit hstep _ => exact TxnOk.commit hstep ih
  rw [hS'] at hok
  exact hok

end System

/-- The terms of programs that make no other writes than these. -/
def ofWrites {J : ω → Prop} {I : σ → Prop}
    (hkeep : ∀ u s s', J u → I s → M.apply u s = some s' → I s') : Contract M Unit where
  le := fun _ _ ↦ True
  inv := fun _ s ↦ I s
  due := fun u _ ↦ J u
  next := fun _ d ↦ d
  refl := fun _ ↦ trivial
  trans := fun _ _ ↦ trivial
  up := fun _ ↦ trivial
  mono := fun _ _ _ ↦ trivial
  due_mono := fun _ h ↦ h
  keep := fun hI hu happ ↦ hkeep _ _ _ hu hI happ

/-- The frame rule: what none of their writes disturbs, programs keep in every
interleaving. -/
theorem inv_of_writesIn [DecidableEq ι] {P : Machine.CommitCond ι σ ω θ}
    {S : Sys ι σ ω θ χ ρ τ ε α} {J : ω → Prop} {I : σ → Prop}
    (hkeep : ∀ u s s', J u → I s → M.apply u s = some s' → I s') {s : σ} {w : τ}
    {start : ι → Prog σ ω θ χ ρ ε α} (hstart : ∀ i, (start i).WritesIn J) (hI : I s)
    (h : M.Steps P (.init s w start) S) : I S.store := by
  have hI' : (ofWrites hkeep).inv () s := hI
  refine (inv_of_steps (C := ofWrites hkeep) (Q := fun _ _ _ ↦ True) ?_ ?_ hI' ?_ h).1
  · exact fun _ _ _ _ _ _ ↦ trivial
  · exact fun _ _ _ _ _ h ↦ h
  · exact fun i ↦ Honours.of_writesIn (hstart i) (fun _ hu _ ↦ hu) (fun _ _ ↦ rfl)
      fun _ _ _ ↦ trivial

end Contract

end Transact
end HumanDataFactory
