import HumanDataFactory.Transact.Simulate

/-!
# Programs that fail half way

A program that raises is rolled back in the store, but what it did to the
outside world stays.  `Visits` and `Raises` say which worlds that can be, and
`Along` is the rule for them: a condition on the world that holds at every
moment of a program, whether or not it returns.  `Breaks` names the call whose
answer made it raise.
-/

namespace HumanDataFactory
namespace Transact

namespace Machine

variable {κ σ ω θ χ : Type} {ρ : χ → Type} {τ ε α β : Type}
variable (M : Machine σ ω χ ρ τ)

/-- The world is `v` at some moment while the program runs from `s` and `w`. -/
def Visits : Prog σ ω θ χ ρ ε α → σ → τ → τ → Prop
  | .pure _, _, w, v => v = w
  | .raise _, _, w, v => v = w
  | .read _ k, s, w, v => Visits (k s) s w v
  | .write u p, s, w, v => v = w ∨ ∃ s₁, M.apply u s = some s₁ ∧ Visits p s₁ w v
  | .call c k, s, w, v => v = w ∨ ∃ r w₁, M.accept c r w = some w₁ ∧ Visits (k r) s w₁ v

/-- The program can raise from `s` and `w` and leave the world `w'`. -/
def Raises : Prog σ ω θ χ ρ ε α → σ → τ → τ → Prop
  | .pure _, _, _, _ => False
  | .raise _, _, w, w' => w' = w
  | .read _ k, s, w, w' => Raises (k s) s w w'
  | .write u p, s, w, w' =>
      (M.apply u s = none ∧ w' = w) ∨ ∃ s₁, M.apply u s = some s₁ ∧ Raises p s₁ w w'
  | .call c k, s, w, w' => ∃ r w₁, M.accept c r w = some w₁ ∧ Raises (k r) s w₁ w'

/-- `I` holds of the world at every moment of the program, and `Q` of what it
returns and leaves. -/
def Along (I : τ → Prop) : Prog σ ω θ χ ρ ε α → σ → τ → (α → σ → τ → Prop) → Prop
  | .pure a, s, w, Q => I w ∧ Q a s w
  | .raise _, _, w, _ => I w
  | .read _ k, s, w, Q => Along I (k s) s w Q
  | .write u p, s, w, Q => I w ∧ ∀ s₁, M.apply u s = some s₁ → Along I p s₁ w Q
  | .call c k, s, w, Q => I w ∧ ∀ r w₁, M.accept c r w = some w₁ → Along I (k r) s w₁ Q

/-- The program comes from `s` and `w` to the call `c`, and the world is `w'` then. -/
def Reaches (c : χ) : Prog σ ω θ χ ρ ε α → σ → τ → τ → Prop
  | .pure _, _, _, _ => False
  | .raise _, _, _, _ => False
  | .read _ k, s, w, w' => Reaches c (k s) s w w'
  | .write u p, s, w, w' => ∃ s₁, M.apply u s = some s₁ ∧ Reaches c p s₁ w w'
  | .call d k, s, w, w' =>
      (d = c ∧ w' = w) ∨ ∃ r w₁, M.accept d r w = some w₁ ∧ Reaches c (k r) s w₁ w'

/-- The program raises at the answer to the call `c`, which changed nothing. -/
def Breaks (c : χ) : Prog σ ω θ χ ρ ε α → σ → τ → τ → Prop
  | .pure _, _, _, _ => False
  | .raise _, _, _, _ => False
  | .read _ k, s, w, w' => Breaks c (k s) s w w'
  | .write u p, s, w, w' => ∃ s₁, M.apply u s = some s₁ ∧ Breaks c p s₁ w w'
  | .call d k, s, w, w' =>
      (d = c ∧ w' = w ∧ ∃ r e, M.accept d r w = some w ∧ k r = .raise e) ∨
        ∃ r w₁, M.accept d r w = some w₁ ∧ Breaks c (k r) s w₁ w'

/-- A request that is tried until it comes through.  A failed attempt leaves
the store as it was; between attempts `between` may happen. -/
inductive Attempts (serve : κ → Prog σ ω θ χ ρ ε α) (between : σ → τ → σ → τ → Prop)
    (C : κ → σ → τ → Prop) (s₀ : σ) (w₀ : τ) : σ → τ → Prop
  | start : Attempts serve between C s₀ w₀ s₀ w₀
  | between {s w s' w'} (h : Attempts serve between C s₀ w₀ s w) (hb : between s w s' w') :
      Attempts serve between C s₀ w₀ s' w'
  | failed {s w r w'} (h : Attempts serve between C s₀ w₀ s w) (hC : C r s w)
      (hr : M.Raises (serve r) s w w') : Attempts serve between C s₀ w₀ s w'
  | ok {s w r a s' w'} (h : Attempts serve between C s₀ w₀ s w) (hC : C r s w)
      (hr : M.Exec (serve r) s w a s' w') : Attempts serve between C s₀ w₀ s' w'

/-- A world between two attempts, or at some moment of one. -/
inductive Occurs (serve : κ → Prog σ ω θ χ ρ ε α) (between : σ → τ → σ → τ → Prop)
    (C : κ → σ → τ → Prop) (s₀ : σ) (w₀ : τ) : τ → Prop
  | before {s w} (h : M.Attempts serve between C s₀ w₀ s w) : Occurs serve between C s₀ w₀ w
  | during {s w r v} (h : M.Attempts serve between C s₀ w₀ s w) (hC : C r s w)
      (hv : M.Visits (serve r) s w v) : Occurs serve between C s₀ w₀ v

variable {M} {I : τ → Prop} {s s' : σ} {w w' v : τ}

theorem Raises.visits {p : Prog σ ω θ χ ρ ε α} (h : M.Raises p s w w') : M.Visits p s w w' := by
  induction p generalizing s w with
  | pure a => exact h.elim
  | raise e => exact h
  | read q k ih => exact ih s h
  | write u p ih =>
      rcases h with ⟨_, rfl⟩ | ⟨s₁, hs₁, hp⟩
      · exact Or.inl rfl
      · exact Or.inr ⟨s₁, hs₁, ih hp⟩
  | call c k ih =>
      obtain ⟨r, w₁, hw₁, hk⟩ := h
      exact Or.inr ⟨r, w₁, hw₁, ih r hk⟩

theorem Along.start {p : Prog σ ω θ χ ρ ε α} {Q : α → σ → τ → Prop}
    (h : M.Along I p s w Q) : I w := by
  induction p with
  | pure a => exact h.1
  | raise e => exact h
  | read q k ih => exact ih s h
  | write u p ih => exact h.1
  | call c k ih => exact h.1

/-- The condition holds at every moment. -/
theorem Along.visits {p : Prog σ ω θ χ ρ ε α} {Q : α → σ → τ → Prop}
    (h : M.Along I p s w Q) (hv : M.Visits p s w v) : I v := by
  induction p generalizing s w with
  | pure a =>
      obtain rfl := hv
      exact h.1
  | raise e =>
      obtain rfl := hv
      exact h
  | read q k ih => exact ih s h hv
  | write u p ih =>
      rcases hv with rfl | ⟨s₁, hs₁, hp⟩
      · exact h.1
      · exact ih (h.2 s₁ hs₁) hp
  | call c k ih =>
      rcases hv with rfl | ⟨r, w₁, hw₁, hk⟩
      · exact h.1
      · exact ih r (h.2 r w₁ hw₁) hk

theorem Along.exec {p : Prog σ ω θ χ ρ ε α} {Q : α → σ → τ → Prop}
    (h : M.Along I p s w Q) {b : α} (hb : M.Exec p s w b s' w') : I w' ∧ Q b s' w' := by
  induction p generalizing s w with
  | pure a =>
      obtain ⟨rfl, rfl, rfl⟩ := hb
      exact h
  | raise e => exact hb.elim
  | read q k ih => exact ih s h hb
  | write u p ih =>
      obtain ⟨s₁, hs₁, hp⟩ := hb
      exact ih (h.2 s₁ hs₁) hp
  | call c k ih =>
      obtain ⟨r, w₁, hw₁, hk⟩ := hb
      exact ih r (h.2 r w₁ hw₁) hk

theorem Breaks.reaches {c : χ} {p : Prog σ ω θ χ ρ ε α} (h : M.Breaks c p s w w') :
    M.Reaches c p s w w' := by
  induction p generalizing s w with
  | pure a => exact h
  | raise e => exact h
  | read q k ih => exact ih s h
  | write u p ih =>
      obtain ⟨s₁, hs₁, hp⟩ := h
      exact ⟨s₁, hs₁, ih hp⟩
  | call d k ih =>
      rcases h with ⟨hd, hw, _⟩ | ⟨r, w₁, hw₁, hk⟩
      · exact Or.inl ⟨hd, hw⟩
      · exact Or.inr ⟨r, w₁, hw₁, ih r hk⟩

section Reaches

variable {c d : χ} {f : α → Prog σ ω θ χ ρ ε β}

theorem reaches_bind {p : Prog σ ω θ χ ρ ε α} :
    M.Reaches c (p >>= f) s w w' ↔ M.Reaches c p s w w' ∨
      ∃ a s₁ w₁, M.Exec p s w a s₁ w₁ ∧ M.Reaches c (f a) s₁ w₁ w' := by
  induction p generalizing s w with
  | pure a =>
      constructor
      · intro h
        exact Or.inr ⟨a, s, w, ⟨rfl, rfl, rfl⟩, h⟩
      · rintro (h | ⟨_, _, _, ⟨rfl, rfl, rfl⟩, h⟩)
        · exact h.elim
        · exact h
  | raise e =>
      constructor
      · intro h
        exact h.elim
      · rintro (h | ⟨_, _, _, h, _⟩)
        · exact h
        · exact h.elim
  | read q k ih => exact ih s
  | write u p ih =>
      constructor
      · rintro ⟨s₁, hs₁, h⟩
        rcases ih.mp h with h | ⟨a, s₂, w₂, hp, hf⟩
        · exact Or.inl ⟨s₁, hs₁, h⟩
        · exact Or.inr ⟨a, s₂, w₂, ⟨s₁, hs₁, hp⟩, hf⟩
      · rintro (⟨s₁, hs₁, h⟩ | ⟨a, s₂, w₂, ⟨s₁, hs₁, hp⟩, hf⟩)
        · exact ⟨s₁, hs₁, ih.mpr (Or.inl h)⟩
        · exact ⟨s₁, hs₁, ih.mpr (Or.inr ⟨a, s₂, w₂, hp, hf⟩)⟩
  | call d k ih =>
      constructor
      · rintro (h | ⟨r, w₁, hw₁, h⟩)
        · exact Or.inl (Or.inl h)
        · rcases (ih r).mp h with h | ⟨a, s₂, w₂, hp, hf⟩
          · exact Or.inl (Or.inr ⟨r, w₁, hw₁, h⟩)
          · exact Or.inr ⟨a, s₂, w₂, ⟨r, w₁, hw₁, hp⟩, hf⟩
      · rintro ((h | ⟨r, w₁, hw₁, h⟩) | ⟨a, s₂, w₂, ⟨r, w₁, hw₁, hp⟩, hf⟩)
        · exact Or.inl h
        · exact Or.inr ⟨r, w₁, hw₁, (ih r).mpr (Or.inl h)⟩
        · exact Or.inr ⟨r, w₁, hw₁, (ih r).mpr (Or.inr ⟨a, s₂, w₂, hp, hf⟩)⟩

theorem reaches_ask_bind {k : ρ d → Prog σ ω θ χ ρ ε β} :
    M.Reaches c (Prog.ask d >>= k) s w w' ↔
      (d = c ∧ w' = w) ∨ ∃ r w₁, M.accept d r w = some w₁ ∧ M.Reaches c (k r) s w₁ w' :=
  Iff.rfl

theorem reaches_emit_bind {u : ω} {k : Unit → Prog σ ω θ χ ρ ε β} :
    M.Reaches c (Prog.emit u >>= k) s w w' ↔
      ∃ s₁, M.apply u s = some s₁ ∧ M.Reaches c (k ()) s₁ w w' := Iff.rfl

theorem reaches_select_bind {q : θ} {g : σ → α} :
    M.Reaches c (Prog.select q g >>= f) s w w' ↔ M.Reaches c (f (g s)) s w w' := Iff.rfl

theorem reaches_getSome_bind {e : ε} {o : Option α} :
    M.Reaches c (Prog.getSome e o >>= f) s w w' ↔
      ∃ a, o = some a ∧ M.Reaches c (f a) s w w' := by
  cases o with
  | none => simp [Prog.getSome, Reaches]
  | some a => simp [Prog.getSome]

theorem not_reaches_getSome {e : ε} {o : Option α} :
    ¬M.Reaches c (Prog.getSome e o : Prog σ ω θ χ ρ ε α) s w w' := by
  cases o <;> exact id

theorem reaches_mapErr {g : ε → ε} {p : Prog σ ω θ χ ρ ε α} :
    M.Reaches c (p.mapErr g) s w w' ↔ M.Reaches c p s w w' := by
  induction p generalizing s w with
  | pure a => rfl
  | raise e => rfl
  | read q k ih => exact ih s
  | write u p ih => simp only [Prog.mapErr, Reaches, ih]
  | call d k ih => simp only [Prog.mapErr, Reaches, ih]

end Reaches

/-- Every call of the program meets `K`. -/
inductive AsksIn (K : χ → Prop) : Prog σ ω θ χ ρ ε α → Prop
  | pure (a) : AsksIn K (.pure a)
  | raise (e) : AsksIn K (.raise e)
  | read (q k) (h : ∀ s, AsksIn K (k s)) : AsksIn K (.read q k)
  | write (u p) (h : AsksIn K p) : AsksIn K (.write u p)
  | call (c k) (hc : K c) (h : ∀ r, AsksIn K (k r)) : AsksIn K (.call c k)

section AsksIn

variable {K : χ → Prop}

theorem AsksIn.bind {p : Prog σ ω θ χ ρ ε α} {f : α → Prog σ ω θ χ ρ ε β}
    (hp : AsksIn K p) (hf : ∀ a, AsksIn K (f a)) : AsksIn K (p >>= f) := by
  induction hp with
  | pure a => exact hf a
  | raise e => exact .raise e
  | read q k _ ih => exact .read q _ ih
  | write u p _ ih => exact .write u _ ih
  | call c k hc _ ih => exact .call c _ hc ih

theorem AsksIn.select (q : θ) (g : σ → α) :
    AsksIn K (Prog.select q g : Prog σ ω θ χ ρ ε α) :=
  .read q _ fun s ↦ .pure (g s)

theorem AsksIn.ask {c : χ} (hc : K c) : AsksIn K (Prog.ask c : Prog σ ω θ χ ρ ε (ρ c)) :=
  .call c _ hc fun r ↦ .pure r

theorem AsksIn.emit (u : ω) : AsksIn K (Prog.emit u : Prog σ ω θ χ ρ ε Unit) :=
  .write u _ (.pure ())

theorem AsksIn.emitAll (us : List ω) :
    AsksIn K (Prog.emitAll us : Prog σ ω θ χ ρ ε Unit) := by
  induction us with
  | nil => exact .pure ()
  | cons u us ih => exact .write u _ ih

theorem AsksIn.getSome (e : ε) (o : Option α) :
    AsksIn K (Prog.getSome e o : Prog σ ω θ χ ρ ε α) := by
  cases o with
  | none => exact .raise e
  | some a => exact .pure a

theorem AsksIn.ensure (p : Prop) [Decidable p] (e : ε) :
    AsksIn K (Prog.ensure p e : Prog σ ω θ χ ρ ε Unit) := by
  unfold Prog.ensure
  split
  · exact .pure ()
  · exact .raise e

/-- A program stays among the calls it may ask. -/
theorem AsksIn.reaches {p : Prog σ ω θ χ ρ ε α} (hp : AsksIn K p) {c : χ}
    (h : M.Reaches c p s w w') : K c := by
  induction hp generalizing s w with
  | pure a => exact h.elim
  | raise e => exact h.elim
  | read q k _ ih => exact ih s h
  | write u p _ ih =>
      obtain ⟨s₁, _, hp⟩ := h
      exact ih hp
  | call d k hd _ ih =>
      rcases h with ⟨rfl, _⟩ | ⟨r, w₁, _, hk⟩
      · exact hd
      · exact ih r hk

/-- What each of its calls does to the world, the program does. -/
theorem AsksIn.exec {R : τ → τ → Prop} (hrefl : ∀ w, R w w)
    (htrans : ∀ w₁ w₂ w₃, R w₁ w₂ → R w₂ w₃ → R w₁ w₃)
    (hstep : ∀ c r w w', K c → M.accept c r w = some w' → R w w')
    {p : Prog σ ω θ χ ρ ε α} (hp : AsksIn K p) {a : α} (h : M.Exec p s w a s' w') : R w w' := by
  induction hp generalizing s w with
  | pure b =>
      obtain ⟨_, _, rfl⟩ := h
      exact hrefl w'
  | raise e => exact h.elim
  | read q k _ ih => exact ih s h
  | write u p _ ih =>
      obtain ⟨s₁, _, hp⟩ := h
      exact ih hp
  | call c k hc _ ih =>
      obtain ⟨r, w₁, hr, hk⟩ := h
      exact htrans _ _ _ (hstep c r w w₁ hc hr) (ih r hk)

end AsksIn

section Bind

variable {f : α → Prog σ ω θ χ ρ ε β} {Q : β → σ → τ → Prop}

theorem along_bind {p : Prog σ ω θ χ ρ ε α} :
    M.Along I (p >>= f) s w Q ↔
      M.Along I p s w fun a s₁ w₁ ↦ M.Along I (f a) s₁ w₁ Q := by
  induction p generalizing s w with
  | pure a =>
      constructor
      · intro h
        exact ⟨h.start, h⟩
      · rintro ⟨_, h⟩
        exact h
  | raise e => rfl
  | read q k ih => exact ih s
  | write u p ih =>
      simp only [Prog.write_bind, Along, ih]
  | call c k ih =>
      simp only [Prog.call_bind, Along, ih]

theorem along_select_bind {q : θ} {g : σ → α} :
    M.Along I (Prog.select q g >>= f) s w Q ↔ M.Along I (f (g s)) s w Q := Iff.rfl

theorem along_emit_bind {u : ω} {k : Unit → Prog σ ω θ χ ρ ε β} :
    M.Along I (Prog.emit u >>= k) s w Q ↔
      I w ∧ ∀ s₁, M.apply u s = some s₁ → M.Along I (k ()) s₁ w Q := Iff.rfl

theorem along_getSome_bind {e : ε} {o : Option α} (hI : I w)
    (h : ∀ a, o = some a → M.Along I (f a) s w Q) :
    M.Along I (Prog.getSome e o >>= f) s w Q := by
  cases o with
  | none => exact hI
  | some a => exact h a rfl

theorem along_ofExcept_bind {x : Except ε α} (hI : I w)
    (h : ∀ a, x = .ok a → M.Along I (f a) s w Q) :
    M.Along I (Prog.ofExcept x >>= f) s w Q := by
  cases x with
  | error e => exact hI
  | ok a => exact h a rfl

theorem along_ensure_bind {p : Prop} [Decidable p] {e : ε}
    {k : Unit → Prog σ ω θ χ ρ ε β} (hI : I w) (h : p → M.Along I (k ()) s w Q) :
    M.Along I (Prog.ensure p e >>= k) s w Q := by
  unfold Prog.ensure
  split
  · rename_i hp
    exact h hp
  · exact hI

end Bind

variable {serve : κ → Prog σ ω θ χ ρ ε α} {between : σ → τ → σ → τ → Prop}
  {C : κ → σ → τ → Prop} {s₀ : σ} {w₀ : τ}

theorem Attempts.invariant (h₀ : I w₀)
    (hbetween : ∀ s w s' w', I w → between s w s' w' → I w')
    (hattempt : ∀ r s w, I w → C r s w → M.Along I (serve r) s w fun _ _ _ ↦ True)
    (h : M.Attempts serve between C s₀ w₀ s w) : I w := by
  induction h with
  | start => exact h₀
  | between _ hb ih => exact hbetween _ _ _ _ ih hb
  | failed _ hC hr ih => exact (hattempt _ _ _ ih hC).visits hr.visits
  | ok _ hC hr ih => exact ((hattempt _ _ _ ih hC).exec hr).1

/-- What holds along every attempt and survives what happens between them
holds at every moment. -/
theorem Occurs.invariant (h₀ : I w₀)
    (hbetween : ∀ s w s' w', I w → between s w s' w' → I w')
    (hattempt : ∀ r s w, I w → C r s w → M.Along I (serve r) s w fun _ _ _ ↦ True)
    (h : M.Occurs serve between C s₀ w₀ v) : I v := by
  cases h with
  | before h => exact h.invariant h₀ hbetween hattempt
  | during h hC hv => exact (hattempt _ _ _ (h.invariant h₀ hbetween hattempt) hC).visits hv

variable (M) in
/-- The world a simulated program leaves when it raises. -/
def simulateFailure (o : Oracle χ ρ τ) : Prog σ ω θ χ ρ ε α → ℕ → σ → τ → Option (ℕ × τ)
  | .pure _, _, _, _ => none
  | .raise _, n, _, w => some (n, w)
  | .read _ k, n, s, w => simulateFailure o (k s) n s w
  | .write u p, n, s, w =>
      match M.apply u s with
      | some s' => simulateFailure o p n s' w
      | none => some (n, w)
  | .call c k, n, s, w =>
      (M.accept c (o n w c) w).bind fun w' ↦ simulateFailure o (k (o n w c)) (n + 1) s w'

theorem raises_of_simulateFailure {o : Oracle χ ρ τ} {p : Prog σ ω θ χ ρ ε α} {n n' : ℕ}
    (h : M.simulateFailure o p n s w = some (n', w')) : M.Raises p s w w' := by
  induction p generalizing n s w with
  | pure a => simp [simulateFailure] at h
  | raise e =>
      simp only [simulateFailure, Option.some.injEq, Prod.mk.injEq] at h
      exact h.2.symm
  | read q k ih => exact ih s h
  | write u p ih =>
      unfold simulateFailure at h
      split at h
      · rename_i s₁ hs₁
        exact Or.inr ⟨s₁, hs₁, ih h⟩
      · rename_i hnone
        simp only [Option.some.injEq, Prod.mk.injEq] at h
        exact Or.inl ⟨hnone, h.2.symm⟩
  | call c k ih =>
      obtain ⟨w₁, hw₁, hk⟩ := Option.bind_eq_some_iff.mp h
      exact ⟨_, w₁, hw₁, ih _ hk⟩

variable (M) in
/-- The call whose answer makes a simulated program raise, and the world then. -/
def simulateBreak [DecidableEq τ] (o : Oracle χ ρ τ) :
    Prog σ ω θ χ ρ ε α → ℕ → σ → τ → Option (χ × τ)
  | .pure _, _, _, _ => none
  | .raise _, _, _, _ => none
  | .read _ k, n, s, w => simulateBreak o (k s) n s w
  | .write u p, n, s, w => (M.apply u s).bind fun s' ↦ simulateBreak o p n s' w
  | .call c k, n, s, w =>
      (M.accept c (o n w c) w).bind fun w' ↦
        if (k (o n w c)).isRaise = true ∧ w' = w then some (c, w)
        else simulateBreak o (k (o n w c)) (n + 1) s w'

theorem breaks_of_simulateBreak [DecidableEq τ] {o : Oracle χ ρ τ} {p : Prog σ ω θ χ ρ ε α}
    {n : ℕ} {c : χ} (h : M.simulateBreak o p n s w = some (c, w')) : M.Breaks c p s w w' := by
  induction p generalizing n s w with
  | pure a => cases h
  | raise e => cases h
  | read q k ih => exact ih s h
  | write u p ih =>
      obtain ⟨s₁, hs₁, hp⟩ := Option.bind_eq_some_iff.mp h
      exact ⟨s₁, hs₁, ih hp⟩
  | call d k ih =>
      obtain ⟨w₁, hw₁, hk⟩ := Option.bind_eq_some_iff.mp h
      by_cases hraise : (k (o n w d)).isRaise = true ∧ w₁ = w
      · rw [if_pos hraise] at hk
        cases hk
        obtain ⟨e, he⟩ := Prog.isRaise_iff.mp hraise.1
        rw [hraise.2] at hw₁
        exact Or.inl ⟨rfl, rfl, _, e, hw₁, he⟩
      · rw [if_neg hraise] at hk
        exact Or.inr ⟨_, w₁, hw₁, ih _ hk⟩

end Machine

end Transact
end HumanDataFactory
