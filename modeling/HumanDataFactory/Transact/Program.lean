import Mathlib.Data.List.Basic
import Mathlib.Logic.Relation

/-!
# Programs over a transactional store

A request is a tree of statements: it reads the store, writes to it, and
calls an outside world whose effects no rollback undoes.  The tree is kept
apart from its meaning, so that one program has a serial semantics here and
an interleaved one in `ReadCommitted`.
-/

namespace HumanDataFactory
namespace Transact

/-- A request as a tree of statements.  `θ` labels what a read looks at, `ρ c`
is the type of answers to the outside call `c`. -/
inductive Prog (σ ω θ χ : Type) (ρ : χ → Type) (ε α : Type) : Type
  | pure (a : α)
  | raise (e : ε)
  | read (q : θ) (k : σ → Prog σ ω θ χ ρ ε α)
  | write (w : ω) (p : Prog σ ω θ χ ρ ε α)
  | call (c : χ) (k : ρ c → Prog σ ω θ χ ρ ε α)

/-- What the statements do: a write may violate a declared constraint, and
the outside world decides which answers to a call it can give. -/
structure Machine (σ ω χ : Type) (ρ : χ → Type) (τ : Type) where
  apply : ω → σ → Option σ
  accept : (c : χ) → ρ c → τ → Option τ

namespace Prog

variable {σ ω θ χ : Type} {ρ : χ → Type} {ε α β γ : Type}

protected def bind : Prog σ ω θ χ ρ ε α → (α → Prog σ ω θ χ ρ ε β) →
    Prog σ ω θ χ ρ ε β
  | .pure a, f => f a
  | .raise e, _ => .raise e
  | .read q k, f => .read q fun s ↦ (k s).bind f
  | .write w p, f => .write w (p.bind f)
  | .call c k, f => .call c fun r ↦ (k r).bind f

instance : Monad (Prog σ ω θ χ ρ ε) where
  pure := Prog.pure
  bind := Prog.bind

/-- The value of `f` on the state the transaction sees. -/
def select (q : θ) (f : σ → α) : Prog σ ω θ χ ρ ε α :=
  .read q fun s ↦ .pure (f s)

def emit (w : ω) : Prog σ ω θ χ ρ ε Unit :=
  .write w (.pure ())

def emitAll : List ω → Prog σ ω θ χ ρ ε Unit
  | [] => .pure ()
  | w :: ws => .write w (emitAll ws)

def ask (c : χ) : Prog σ ω θ χ ρ ε (ρ c) :=
  .call c .pure

/-- Go on only if `p` holds. -/
def ensure (p : Prop) [Decidable p] (e : ε) : Prog σ ω θ χ ρ ε Unit :=
  if p then .pure () else .raise e

def getSome (e : ε) : Option α → Prog σ ω θ χ ρ ε α
  | some a => .pure a
  | none => .raise e

def ofExcept : Except ε α → Prog σ ω θ χ ρ ε α
  | .ok a => .pure a
  | .error e => .raise e

/-- An `except` clause that turns the errors it names into other errors. -/
def mapErr (g : ε → ε) : Prog σ ω θ χ ρ ε α → Prog σ ω θ χ ρ ε α
  | .pure a => .pure a
  | .raise e => .raise (g e)
  | .read q k => .read q fun s ↦ (k s).mapErr g
  | .write w p => .write w (p.mapErr g)
  | .call c k => .call c fun r ↦ (k r).mapErr g

def isRaise : Prog σ ω θ χ ρ ε α → Bool
  | .raise _ => true
  | _ => false

theorem isRaise_iff {p : Prog σ ω θ χ ρ ε α} : p.isRaise = true ↔ ∃ e, p = .raise e := by
  cases p <;> simp [isRaise]

@[simp] theorem pure_bind (a : α) (f : α → Prog σ ω θ χ ρ ε β) :
    (Prog.pure a : Prog σ ω θ χ ρ ε α) >>= f = f a := rfl

@[simp] theorem raise_bind (e : ε) (f : α → Prog σ ω θ χ ρ ε β) :
    (Prog.raise e : Prog σ ω θ χ ρ ε α) >>= f = .raise e := rfl

@[simp] theorem read_bind (q : θ) (k : σ → Prog σ ω θ χ ρ ε α)
    (f : α → Prog σ ω θ χ ρ ε β) :
    Prog.read q k >>= f = .read q fun s ↦ k s >>= f := rfl

@[simp] theorem write_bind (w : ω) (p : Prog σ ω θ χ ρ ε α)
    (f : α → Prog σ ω θ χ ρ ε β) :
    Prog.write w p >>= f = .write w (p >>= f) := rfl

@[simp] theorem call_bind (c : χ) (k : ρ c → Prog σ ω θ χ ρ ε α)
    (f : α → Prog σ ω θ χ ρ ε β) :
    Prog.call c k >>= f = .call c fun r ↦ k r >>= f := rfl

@[simp] theorem monad_pure (a : α) :
    (Pure.pure a : Prog σ ω θ χ ρ ε α) = .pure a := rfl

theorem bind_assoc (p : Prog σ ω θ χ ρ ε α) (f : α → Prog σ ω θ χ ρ ε β)
    (g : β → Prog σ ω θ χ ρ ε γ) :
    p >>= f >>= g = p >>= fun a ↦ f a >>= g := by
  induction p with
  | pure a => rfl
  | raise e => rfl
  | read q k ih =>
      simp only [read_bind]
      exact congrArg (Prog.read q) (funext ih)
  | write w p ih =>
      simp only [write_bind]
      rw [ih]
  | call c k ih =>
      simp only [call_bind]
      exact congrArg (Prog.call c) (funext ih)

/-- A program that writes nothing. -/
inductive Writeless : Prog σ ω θ χ ρ ε α → Prop
  | pure (a) : Writeless (.pure a)
  | raise (e) : Writeless (.raise e)
  | read (q k) (h : ∀ s, Writeless (k s)) : Writeless (.read q k)
  | call (c k) (h : ∀ r, Writeless (k r)) : Writeless (.call c k)

theorem Writeless.bind {p : Prog σ ω θ χ ρ ε α} {f : α → Prog σ ω θ χ ρ ε β}
    (hp : Writeless p) (hf : ∀ a, Writeless (f a)) : Writeless (p >>= f) := by
  induction hp with
  | pure a => exact hf a
  | raise e => exact .raise e
  | read q k _ ih => exact .read q _ ih
  | call c k _ ih => exact .call c _ ih

theorem Writeless.ask (c : χ) : Writeless (Prog.ask c : Prog σ ω θ χ ρ ε (ρ c)) :=
  .call c _ fun r ↦ .pure r

theorem Writeless.select (q : θ) (f : σ → α) :
    Writeless (Prog.select q f : Prog σ ω θ χ ρ ε α) :=
  .read q _ fun s ↦ .pure (f s)

theorem Writeless.getSome (e : ε) (o : Option α) :
    Writeless (Prog.getSome e o : Prog σ ω θ χ ρ ε α) := by
  cases o with
  | none => exact .raise e
  | some a => exact .pure a

theorem Writeless.ofExcept (x : Except ε α) :
    Writeless (Prog.ofExcept x : Prog σ ω θ χ ρ ε α) := by
  cases x with
  | error e => exact .raise e
  | ok a => exact .pure a

theorem Writeless.ensure (p : Prop) [Decidable p] (e : ε) :
    Writeless (Prog.ensure p e : Prog σ ω θ χ ρ ε Unit) := by
  unfold Prog.ensure
  split
  · exact .pure ()
  · exact .raise e

/-- Every write of the program meets `I`. -/
inductive WritesIn (I : ω → Prop) : Prog σ ω θ χ ρ ε α → Prop
  | pure (a) : WritesIn I (.pure a)
  | raise (e) : WritesIn I (.raise e)
  | read (q k) (h : ∀ s, WritesIn I (k s)) : WritesIn I (.read q k)
  | write (w p) (hw : I w) (h : WritesIn I p) : WritesIn I (.write w p)
  | call (c k) (h : ∀ r, WritesIn I (k r)) : WritesIn I (.call c k)

variable {I : ω → Prop}

theorem WritesIn.bind {p : Prog σ ω θ χ ρ ε α} {f : α → Prog σ ω θ χ ρ ε β}
    (hp : WritesIn I p) (hf : ∀ a, WritesIn I (f a)) : WritesIn I (p >>= f) := by
  induction hp with
  | pure a => exact hf a
  | raise e => exact .raise e
  | read q k _ ih => exact .read q _ ih
  | write w p hw _ ih => exact .write w _ hw ih
  | call c k _ ih => exact .call c _ ih

theorem Writeless.writesIn {p : Prog σ ω θ χ ρ ε α} (hp : Writeless p) : WritesIn I p := by
  induction hp with
  | pure a => exact .pure a
  | raise e => exact .raise e
  | read q k _ ih => exact .read q k ih
  | call c k _ ih => exact .call c k ih

theorem WritesIn.mono {J : ω → Prop} (hIJ : ∀ w, I w → J w) {p : Prog σ ω θ χ ρ ε α}
    (hp : WritesIn I p) : WritesIn J p := by
  induction hp with
  | pure a => exact .pure a
  | raise e => exact .raise e
  | read q k _ ih => exact .read q k ih
  | write w p hw _ ih => exact .write w p (hIJ w hw) ih
  | call c k _ ih => exact .call c k ih

theorem WritesIn.emit {w : ω} (hw : I w) :
    WritesIn I (Prog.emit w : Prog σ ω θ χ ρ ε Unit) :=
  .write w _ hw (.pure ())

theorem WritesIn.emitAll {ws : List ω} (hws : ∀ w ∈ ws, I w) :
    WritesIn I (Prog.emitAll ws : Prog σ ω θ χ ρ ε Unit) := by
  induction ws with
  | nil => exact .pure ()
  | cons w ws ih => exact .write w _ (hws w (by simp)) (ih fun v hv ↦ hws v (by simp [hv]))

theorem WritesIn.mapErr {g : ε → ε} {p : Prog σ ω θ χ ρ ε α} (hp : WritesIn I p) :
    WritesIn I (p.mapErr g) := by
  induction hp with
  | pure a => exact .pure a
  | raise e => exact .raise _
  | read q k _ ih => exact .read q _ ih
  | write w p hw _ ih => exact .write w _ hw ih
  | call c k _ ih => exact .call c _ ih

end Prog

namespace Machine

variable {σ ω θ χ : Type} {ρ : χ → Type} {τ ε α β : Type}
variable (M : Machine σ ω χ ρ τ)

/-- The store with the writes `ws` on top, or nothing when one of them
violates a constraint. -/
def view : List ω → σ → Option σ
  | [], s => some s
  | w :: ws, s => (M.apply w s).bind (view ws)

@[simp] theorem view_nil (s : σ) : M.view [] s = some s := rfl

@[simp] theorem view_cons (w : ω) (ws : List ω) (s : σ) :
    M.view (w :: ws) s = (M.apply w s).bind (M.view ws) := rfl

theorem view_append (us vs : List ω) (s : σ) :
    M.view (us ++ vs) s = (M.view us s).bind (M.view vs) := by
  induction us generalizing s with
  | nil => rfl
  | cons u us ih =>
      simp only [List.cons_append, view_cons, Option.bind_assoc]
      exact congrArg ((M.apply u s).bind ·) (funext ih)

/-- The write leaves alone what `f` shows of the store. -/
def Keeps (f : σ → β) (u : ω) : Prop :=
  ∀ s s', M.apply u s = some s' → f s' = f s

variable {M} in
theorem Keeps.view {f : σ → β} {us : List ω} (h : ∀ u ∈ us, M.Keeps f u) {s s' : σ}
    (hv : M.view us s = some s') : f s' = f s := by
  induction us generalizing s with
  | nil =>
      obtain rfl := Option.some.inj hv
      rfl
  | cons u us ih =>
      obtain ⟨s₁, hs₁, hrest⟩ := Option.bind_eq_some_iff.mp hv
      rw [ih (fun v hv ↦ h v (by simp [hv])) hrest]
      exact h u (by simp) s s₁ hs₁

variable {M} in
/-- What is kept, a part of it is kept. -/
theorem Keeps.comp {f : σ → β} {γ : Type} {g : σ → γ} (k : β → γ) (hg : ∀ s, g s = k (f s))
    {u : ω} (h : M.Keeps f u) : M.Keeps g u := by
  intro s s' hs
  rw [hg, hg, h s s' hs]

/-- The outside world can get from `w` to `w'` by answering calls. -/
def Moves : τ → τ → Prop :=
  Relation.ReflTransGen fun w w' ↦ ∃ c r, M.accept c r w = some w'

/-! ## Serial semantics -/

/-- Run alone from store `s` and world `w`, the program can return `a` and
leave `s'` and `w'`. -/
def Exec : Prog σ ω θ χ ρ ε α → σ → τ → α → σ → τ → Prop
  | .pure a, s, w, b, s', w' => b = a ∧ s' = s ∧ w' = w
  | .raise _, _, _, _, _, _ => False
  | .read _ k, s, w, b, s', w' => Exec (k s) s w b s' w'
  | .write u p, s, w, b, s', w' =>
      ∃ s₁, M.apply u s = some s₁ ∧ Exec p s₁ w b s' w'
  | .call c k, s, w, b, s', w' =>
      ∃ r w₁, M.accept c r w = some w₁ ∧ Exec (k r) s w₁ b s' w'

variable {M}

@[simp] theorem exec_pure {a b : α} {s s' : σ} {w w' : τ} :
    M.Exec (.pure a : Prog σ ω θ χ ρ ε α) s w b s' w' ↔
      b = a ∧ s' = s ∧ w' = w := Iff.rfl

@[simp] theorem exec_raise {e : ε} {b : α} {s s' : σ} {w w' : τ} :
    ¬M.Exec (.raise e : Prog σ ω θ χ ρ ε α) s w b s' w' := id

@[simp] theorem exec_read {q : θ} {k : σ → Prog σ ω θ χ ρ ε α} {b : α}
    {s s' : σ} {w w' : τ} :
    M.Exec (.read q k) s w b s' w' ↔ M.Exec (k s) s w b s' w' := Iff.rfl

@[simp] theorem exec_write {u : ω} {p : Prog σ ω θ χ ρ ε α} {b : α}
    {s s' : σ} {w w' : τ} :
    M.Exec (.write u p) s w b s' w' ↔
      ∃ s₁, M.apply u s = some s₁ ∧ M.Exec p s₁ w b s' w' := Iff.rfl

@[simp] theorem exec_call {c : χ} {k : ρ c → Prog σ ω θ χ ρ ε α} {b : α}
    {s s' : σ} {w w' : τ} :
    M.Exec (.call c k) s w b s' w' ↔
      ∃ r w₁, M.accept c r w = some w₁ ∧ M.Exec (k r) s w₁ b s' w' := Iff.rfl

theorem exec_bind {p : Prog σ ω θ χ ρ ε α} {f : α → Prog σ ω θ χ ρ ε β}
    {b : β} {s s' : σ} {w w' : τ} :
    M.Exec (p >>= f) s w b s' w' ↔
      ∃ a s₁ w₁, M.Exec p s w a s₁ w₁ ∧ M.Exec (f a) s₁ w₁ b s' w' := by
  induction p generalizing s w with
  | pure a =>
      simp only [Prog.pure_bind, exec_pure]
      constructor
      · intro h
        exact ⟨a, s, w, ⟨rfl, rfl, rfl⟩, h⟩
      · rintro ⟨_, _, _, ⟨rfl, rfl, rfl⟩, h⟩
        exact h
  | raise e => simp
  | read q k ih => simpa only [Prog.read_bind, exec_read] using ih s
  | write u p ih =>
      simp only [Prog.write_bind, exec_write, ih]
      constructor
      · rintro ⟨s₁, hs, a, s₂, w₂, hp, hf⟩
        exact ⟨a, s₂, w₂, ⟨s₁, hs, hp⟩, hf⟩
      · rintro ⟨a, s₂, w₂, ⟨s₁, hs, hp⟩, hf⟩
        exact ⟨s₁, hs, a, s₂, w₂, hp, hf⟩
  | call c k ih =>
      simp only [Prog.call_bind, exec_call, ih]
      constructor
      · rintro ⟨r, w₁, hw, a, s₂, w₂, hp, hf⟩
        exact ⟨a, s₂, w₂, ⟨r, w₁, hw, hp⟩, hf⟩
      · rintro ⟨a, s₂, w₂, ⟨r, w₁, hw, hp⟩, hf⟩
        exact ⟨r, w₁, hw, a, s₂, w₂, hp, hf⟩

@[simp] theorem exec_select {q : θ} {f : σ → α} {b : α} {s s' : σ} {w w' : τ} :
    M.Exec (Prog.select q f : Prog σ ω θ χ ρ ε α) s w b s' w' ↔
      b = f s ∧ s' = s ∧ w' = w := Iff.rfl

@[simp] theorem exec_emit {u : ω} {b : Unit} {s s' : σ} {w w' : τ} :
    M.Exec (Prog.emit u : Prog σ ω θ χ ρ ε Unit) s w b s' w' ↔
      M.apply u s = some s' ∧ w' = w := by
  simp only [Prog.emit, exec_write, exec_pure]
  constructor
  · rintro ⟨s₁, h, _, rfl, rfl⟩
    exact ⟨h, rfl⟩
  · rintro ⟨h, rfl⟩
    exact ⟨s', h, trivial, rfl, rfl⟩

@[simp] theorem exec_emitAll {us : List ω} {b : Unit} {s s' : σ} {w w' : τ} :
    M.Exec (Prog.emitAll us : Prog σ ω θ χ ρ ε Unit) s w b s' w' ↔
      M.view us s = some s' ∧ w' = w := by
  induction us generalizing s with
  | nil => simp [Prog.emitAll, eq_comm]
  | cons u us ih =>
      simp only [Prog.emitAll, exec_write, ih, view_cons, Option.bind_eq_some_iff]
      constructor
      · rintro ⟨s₁, h, hv, rfl⟩
        exact ⟨⟨s₁, h, hv⟩, rfl⟩
      · rintro ⟨⟨s₁, h, hv⟩, rfl⟩
        exact ⟨s₁, h, hv, rfl⟩

@[simp] theorem exec_ask {c : χ} {b : ρ c} {s s' : σ} {w w' : τ} :
    M.Exec (Prog.ask c : Prog σ ω θ χ ρ ε (ρ c)) s w b s' w' ↔
      M.accept c b w = some w' ∧ s' = s := by
  simp only [Prog.ask, exec_call, exec_pure]
  constructor
  · rintro ⟨r, w₁, h, rfl, rfl, rfl⟩
    exact ⟨h, rfl⟩
  · rintro ⟨h, rfl⟩
    exact ⟨b, w', h, rfl, rfl, rfl⟩

@[simp] theorem exec_ensure {p : Prop} [Decidable p] {e : ε} {b : Unit}
    {s s' : σ} {w w' : τ} :
    M.Exec (Prog.ensure p e : Prog σ ω θ χ ρ ε Unit) s w b s' w' ↔
      p ∧ s' = s ∧ w' = w := by
  by_cases h : p <;> simp [Prog.ensure, h]

@[simp] theorem exec_getSome {e : ε} {o : Option α} {b : α} {s s' : σ} {w w' : τ} :
    M.Exec (Prog.getSome e o : Prog σ ω θ χ ρ ε α) s w b s' w' ↔
      o = some b ∧ s' = s ∧ w' = w := by
  cases o with
  | none => simp [Prog.getSome]
  | some a => simp [Prog.getSome, eq_comm]

@[simp] theorem exec_ofExcept {x : Except ε α} {b : α} {s s' : σ} {w w' : τ} :
    M.Exec (Prog.ofExcept x : Prog σ ω θ χ ρ ε α) s w b s' w' ↔
      x = .ok b ∧ s' = s ∧ w' = w := by
  cases x with
  | error e => simp [Prog.ofExcept]
  | ok a => simp [Prog.ofExcept, eq_comm]

@[simp] theorem exec_mapErr {g : ε → ε} {p : Prog σ ω θ χ ρ ε α} {b : α}
    {s s' : σ} {w w' : τ} :
    M.Exec (p.mapErr g) s w b s' w' ↔ M.Exec p s w b s' w' := by
  induction p generalizing s w with
  | pure a => rfl
  | raise e => rfl
  | read q k ih => exact ih s
  | write u p ih => simp only [Prog.mapErr, exec_write, ih]
  | call c k ih => simp only [Prog.mapErr, exec_call, ih]

section Bind

variable {f : α → Prog σ ω θ χ ρ ε β} {b : β} {s s' : σ} {w w' : τ}

@[simp] theorem exec_pure_bind {a : α} :
    M.Exec ((Prog.pure a : Prog σ ω θ χ ρ ε α) >>= f) s w b s' w' ↔
      M.Exec (f a) s w b s' w' := Iff.rfl

@[simp] theorem exec_raise_bind {e : ε} :
    ¬M.Exec ((Prog.raise e : Prog σ ω θ χ ρ ε α) >>= f) s w b s' w' := id

@[simp] theorem exec_select_bind {q : θ} {g : σ → α} :
    M.Exec (Prog.select q g >>= f) s w b s' w' ↔ M.Exec (f (g s)) s w b s' w' := Iff.rfl

@[simp] theorem exec_emit_bind {u : ω} {k : Unit → Prog σ ω θ χ ρ ε β} :
    M.Exec (Prog.emit u >>= k) s w b s' w' ↔
      ∃ s₁, M.apply u s = some s₁ ∧ M.Exec (k ()) s₁ w b s' w' := Iff.rfl

@[simp] theorem exec_emitAll_bind {us : List ω} {k : Unit → Prog σ ω θ χ ρ ε β} :
    M.Exec (Prog.emitAll us >>= k) s w b s' w' ↔
      ∃ s₁, M.view us s = some s₁ ∧ M.Exec (k ()) s₁ w b s' w' := by
  rw [exec_bind]
  constructor
  · rintro ⟨a, s₁, w₁, hus, hk⟩
    obtain ⟨hv, rfl⟩ := exec_emitAll.mp hus
    exact ⟨s₁, hv, hk⟩
  · rintro ⟨s₁, hv, hk⟩
    exact ⟨(), s₁, w, exec_emitAll.mpr ⟨hv, rfl⟩, hk⟩

@[simp] theorem exec_ask_bind {c : χ} {k : ρ c → Prog σ ω θ χ ρ ε β} :
    M.Exec (Prog.ask c >>= k) s w b s' w' ↔
      ∃ r w₁, M.accept c r w = some w₁ ∧ M.Exec (k r) s w₁ b s' w' := Iff.rfl

@[simp] theorem exec_ensure_bind {p : Prop} [Decidable p] {e : ε}
    {k : Unit → Prog σ ω θ χ ρ ε β} :
    M.Exec (Prog.ensure p e >>= k) s w b s' w' ↔ p ∧ M.Exec (k ()) s w b s' w' := by
  by_cases h : p <;> simp [Prog.ensure, h]

@[simp] theorem exec_getSome_bind {e : ε} {o : Option α} :
    M.Exec (Prog.getSome e o >>= f) s w b s' w' ↔
      ∃ a, o = some a ∧ M.Exec (f a) s w b s' w' := by
  cases o <;> simp [Prog.getSome]

@[simp] theorem exec_ofExcept_bind {x : Except ε α} :
    M.Exec (Prog.ofExcept x >>= f) s w b s' w' ↔
      ∃ a, x = .ok a ∧ M.Exec (f a) s w b s' w' := by
  cases x <;> simp [Prog.ofExcept]

end Bind

/-- Running a program moves the outside world only by answered calls. -/
theorem Exec.moves {p : Prog σ ω θ χ ρ ε α} {b : α} {s s' : σ} {w w' : τ}
    (h : M.Exec p s w b s' w') : M.Moves w w' := by
  induction p generalizing s w with
  | pure a =>
      obtain ⟨_, _, rfl⟩ := h
      exact .refl
  | raise e => exact h.elim
  | read q k ih => exact ih s h
  | write u p ih =>
      obtain ⟨s₁, _, hp⟩ := h
      exact ih hp
  | call c k ih =>
      obtain ⟨r, w₁, hw, hp⟩ := h
      exact .head ⟨c, r, hw⟩ (ih r hp)

/-- A program without writes returns to the store it started from. -/
theorem Exec.of_writeless {p : Prog σ ω θ χ ρ ε α} (hp : p.Writeless) {b : α} {s s' : σ}
    {w w' : τ} (h : M.Exec p s w b s' w') : s' = s := by
  induction hp generalizing w with
  | pure a => exact h.2.1
  | raise e => exact h.elim
  | read q k _ ih => exact ih s h
  | call c k _ ih =>
      obtain ⟨r, w₁, _, hk⟩ := h
      exact ih r hk

/-- What holds between a state and the one after any write holds between the
states before and after a program. -/
theorem Exec.relates {R : σ → σ → Prop} (hrefl : ∀ s, R s s)
    (htrans : ∀ s₁ s₂ s₃, R s₁ s₂ → R s₂ s₃ → R s₁ s₃)
    (hwrite : ∀ u s s', M.apply u s = some s' → R s s') {p : Prog σ ω θ χ ρ ε α} {b : α} {s s' : σ}
    {w w' : τ} (h : M.Exec p s w b s' w') : R s s' := by
  induction p generalizing s w with
  | pure a =>
      obtain rfl : s' = s := h.2.1
      exact hrefl s'
  | raise e => exact h.elim
  | read q k ih => exact ih s h
  | write u p ih =>
      obtain ⟨s₁, hs₁, hp⟩ := h
      exact htrans _ _ _ (hwrite u s s₁ hs₁) (ih hp)
  | call c k ih =>
      obtain ⟨r, w₁, _, hk⟩ := h
      exact ih r hk

/-- What all writes of a program keep, running it keeps. -/
theorem Exec.keeps {γ : Type} {f : σ → γ} {p : Prog σ ω θ χ ρ ε α} (hp : p.WritesIn (M.Keeps f))
    {b : α} {s s' : σ} {w w' : τ} (h : M.Exec p s w b s' w') : f s' = f s := by
  induction hp generalizing s w with
  | pure a => exact congrArg f h.2.1
  | raise e => exact h.elim
  | read q k _ ih => exact ih s h
  | write u p hu _ ih =>
      obtain ⟨s₁, hs₁, hp⟩ := h
      exact (ih hp).trans (hu s s₁ hs₁)
  | call c k _ ih =>
      obtain ⟨r, w₁, _, hk⟩ := h
      exact ih r hk

/-- Whatever `M'` does is something `M` does, with its world seen through
`π`. -/
structure Refines {τ' : Type} (M' : Machine σ ω χ ρ τ') (M : Machine σ ω χ ρ τ) (π : τ' → τ) :
    Prop where
  apply : M'.apply = M.apply
  accept : ∀ c r w w', M'.accept c r w = some w' → M.accept c r (π w) = some (π w')

variable {τ' : Type} {M' : Machine σ ω χ ρ τ'} {π : τ' → τ}

theorem Refines.exec (hM : M'.Refines M π) {p : Prog σ ω θ χ ρ ε α} {b : α} {s s' : σ}
    {w w' : τ'} (h : M'.Exec p s w b s' w') : M.Exec p s (π w) b s' (π w') := by
  induction p generalizing s w with
  | pure a =>
      obtain ⟨rfl, rfl, rfl⟩ := h
      exact ⟨rfl, rfl, rfl⟩
  | raise e => exact h.elim
  | read q k ih => exact ih s h
  | write u p ih =>
      obtain ⟨s₁, hs₁, hp⟩ := h
      rw [hM.apply] at hs₁
      exact ⟨s₁, hs₁, ih hp⟩
  | call c k ih =>
      obtain ⟨r, w₁, hw₁, hk⟩ := h
      exact ⟨r, π w₁, hM.accept c r w w₁ hw₁, ih r hk⟩

theorem Refines.moves (hM : M'.Refines M π) {w w' : τ'} (h : M'.Moves w w') :
    M.Moves (π w) (π w') := by
  induction h with
  | refl => exact .refl
  | @tail w₁ w₂ _ hstep ih =>
      obtain ⟨c, r, hr⟩ := hstep
      exact ih.tail ⟨c, r, hM.accept c r w₁ w₂ hr⟩

end Machine

end Transact
end HumanDataFactory
