import HumanDataFactory.Transact.Program
import Mathlib.Logic.Function.Basic
import Mathlib.Data.Fintype.Defs

/-!
# Read Committed transactions

Any number of programs run side by side.  A read sees the committed store
with the transaction's own writes on top, writes reach the store at commit,
and a commit that violates a declared constraint is refused.  Each
transaction keeps the committed states its reads were answered from; a
condition on these at commit time is how a lost read is expressed.
-/

namespace HumanDataFactory
namespace Transact

/-- One transaction: what is left to run, what it has written, and which
committed state each of its reads was answered from. -/
inductive Txn (σ ω θ χ : Type) (ρ : χ → Type) (ε α : Type) : Type
  | running (p : Prog σ ω θ χ ρ ε α) (ws : List ω) (seen : List (θ × σ))
  | committed (a : α) (ws : List ω) (seen : List (θ × σ))
  | rolledBack

def Txn.isRunning {σ ω θ χ : Type} {ρ : χ → Type} {ε α : Type} : Txn σ ω θ χ ρ ε α → Bool
  | .running .. => true
  | _ => false

structure Sys (ι σ ω θ χ : Type) (ρ : χ → Type) (τ ε α : Type) where
  store : σ
  world : τ
  txn : ι → Txn σ ω θ χ ρ ε α

variable {ι σ ω θ χ : Type} {ρ : χ → Type} {τ ε α β : Type}

namespace Sys

/-- All transactions before their first statement. -/
def init (s : σ) (w : τ) (start : ι → Prog σ ω θ χ ρ ε α) :
    Sys ι σ ω θ χ ρ τ ε α :=
  ⟨s, w, fun i ↦ .running (start i) [] []⟩

def set [DecidableEq ι] (S : Sys ι σ ω θ χ ρ τ ε α) (i : ι)
    (t : Txn σ ω θ χ ρ ε α) : Sys ι σ ω θ χ ρ τ ε α :=
  { S with txn := Function.update S.txn i t }

section
variable [DecidableEq ι] (S : Sys ι σ ω θ χ ρ τ ε α) (i : ι) (t : Txn σ ω θ χ ρ ε α)

@[simp] theorem set_store : (S.set i t).store = S.store := rfl

@[simp] theorem set_world : (S.set i t).world = S.world := rfl

@[simp] theorem set_txn_self : (S.set i t).txn i = t := Function.update_self ..

theorem set_txn_ne {j : ι} (h : j ≠ i) : (S.set i t).txn j = S.txn j :=
  Function.update_of_ne h ..

end

/-- Every transaction has committed or rolled back. -/
def Done (S : Sys ι σ ω θ χ ρ τ ε α) : Prop :=
  ∀ i, (S.txn i).isRunning = false

instance [Fintype ι] (S : Sys ι σ ω θ χ ρ τ ε α) : Decidable S.Done :=
  inferInstanceAs (Decidable (∀ i, (S.txn i).isRunning = false))

end Sys

/-- What the transaction saw under label `q` still holds of `v` in the store
it is about to commit over. -/
def Fresh (q : θ) (v : σ → β) (seen : List (θ × σ)) (s : σ) : Prop :=
  ∀ s₀, (q, s₀) ∈ seen → v s₀ = v s

theorem Fresh.of_forall_eq {q : θ} {v : σ → β} {seen : List (θ × σ)} {s : σ}
    (h : ∀ x ∈ seen, x.2 = s) : Fresh q v seen s := by
  intro s₀ hs₀
  obtain rfl : s₀ = s := h _ hs₀
  rfl

namespace Machine

variable (M : Machine σ ω χ ρ τ)

/-! ## What one transaction can do by itself -/

/-- The program can return `a` having written `ws`, its reads answered from
the committed states `seen`, which may change from read to read. -/
def Runs : Prog σ ω θ χ ρ ε α → List ω → List (θ × σ) → List ω → α → Prop
  | .pure a, ws₀, seen, ws, b => seen = [] ∧ ws = ws₀ ∧ b = a
  | .raise _, _, _, _, _ => False
  | .read q k, ws₀, seen, ws, b =>
      ∃ s v seen', seen = (q, s) :: seen' ∧ M.view ws₀ s = some v ∧
        Runs (k v) ws₀ seen' ws b
  | .write u p, ws₀, seen, ws, b => Runs p (ws₀ ++ [u]) seen ws b
  | .call _ k, ws₀, seen, ws, b => ∃ r, Runs (k r) ws₀ seen ws b

variable {M}

@[simp] theorem runs_pure {a b : α} {ws₀ ws : List ω} {seen : List (θ × σ)} :
    M.Runs (.pure a : Prog σ ω θ χ ρ ε α) ws₀ seen ws b ↔
      seen = [] ∧ ws = ws₀ ∧ b = a := Iff.rfl

@[simp] theorem runs_raise {e : ε} {b : α} {ws₀ ws : List ω} {seen : List (θ × σ)} :
    ¬M.Runs (.raise e : Prog σ ω θ χ ρ ε α) ws₀ seen ws b := id

@[simp] theorem runs_read {q : θ} {k : σ → Prog σ ω θ χ ρ ε α} {b : α}
    {ws₀ ws : List ω} {seen : List (θ × σ)} :
    M.Runs (.read q k) ws₀ seen ws b ↔
      ∃ s v seen', seen = (q, s) :: seen' ∧ M.view ws₀ s = some v ∧
        M.Runs (k v) ws₀ seen' ws b := Iff.rfl

@[simp] theorem runs_write {u : ω} {p : Prog σ ω θ χ ρ ε α} {b : α}
    {ws₀ ws : List ω} {seen : List (θ × σ)} :
    M.Runs (.write u p) ws₀ seen ws b ↔ M.Runs p (ws₀ ++ [u]) seen ws b := Iff.rfl

@[simp] theorem runs_call {c : χ} {k : ρ c → Prog σ ω θ χ ρ ε α} {b : α}
    {ws₀ ws : List ω} {seen : List (θ × σ)} :
    M.Runs (.call c k) ws₀ seen ws b ↔ ∃ r, M.Runs (k r) ws₀ seen ws b := Iff.rfl

theorem runs_bind {p : Prog σ ω θ χ ρ ε α} {f : α → Prog σ ω θ χ ρ ε β}
    {b : β} {ws₀ ws : List ω} {seen : List (θ × σ)} :
    M.Runs (p >>= f) ws₀ seen ws b ↔
      ∃ a ws₁ seen₁ seen₂, seen = seen₁ ++ seen₂ ∧ M.Runs p ws₀ seen₁ ws₁ a ∧
        M.Runs (f a) ws₁ seen₂ ws b := by
  induction p generalizing ws₀ seen with
  | pure a =>
      simp only [Prog.pure_bind, runs_pure]
      constructor
      · intro h
        exact ⟨a, ws₀, [], seen, rfl, ⟨rfl, rfl, rfl⟩, h⟩
      · rintro ⟨_, _, _, _, rfl, ⟨rfl, rfl, rfl⟩, h⟩
        exact h
  | raise e => simp
  | read q k ih =>
      simp only [Prog.read_bind, runs_read, ih]
      constructor
      · rintro ⟨s, v, _, rfl, hv, a, ws₁, seen₁, seen₂, rfl, hp, hf⟩
        exact ⟨a, ws₁, (q, s) :: seen₁, seen₂, rfl, ⟨s, v, seen₁, rfl, hv, hp⟩, hf⟩
      · rintro ⟨a, ws₁, _, seen₂, rfl, ⟨s, v, seen₁, rfl, hv, hp⟩, hf⟩
        exact ⟨s, v, seen₁ ++ seen₂, rfl, hv, a, ws₁, seen₁, seen₂, rfl, hp, hf⟩
  | write u p ih => simpa only [Prog.write_bind, runs_write] using ih
  | call c k ih =>
      simp only [Prog.call_bind, runs_call, ih]
      constructor
      · rintro ⟨r, a, ws₁, seen₁, seen₂, hs, hp, hf⟩
        exact ⟨a, ws₁, seen₁, seen₂, hs, ⟨r, hp⟩, hf⟩
      · rintro ⟨a, ws₁, seen₁, seen₂, hs, ⟨r, hp⟩, hf⟩
        exact ⟨r, a, ws₁, seen₁, seen₂, hs, hp, hf⟩

@[simp] theorem runs_select {q : θ} {f : σ → α} {b : α} {ws₀ ws : List ω}
    {seen : List (θ × σ)} :
    M.Runs (Prog.select q f : Prog σ ω θ χ ρ ε α) ws₀ seen ws b ↔
      ∃ s v, seen = [(q, s)] ∧ M.view ws₀ s = some v ∧ ws = ws₀ ∧ b = f v := by
  simp only [Prog.select, runs_read, runs_pure]
  constructor
  · rintro ⟨s, v, _, rfl, hv, rfl, rfl, rfl⟩
    exact ⟨s, v, rfl, hv, rfl, rfl⟩
  · rintro ⟨s, v, rfl, hv, rfl, rfl⟩
    exact ⟨s, v, [], rfl, hv, rfl, rfl, rfl⟩

@[simp] theorem runs_emit {u : ω} {b : Unit} {ws₀ ws : List ω} {seen : List (θ × σ)} :
    M.Runs (Prog.emit u : Prog σ ω θ χ ρ ε Unit) ws₀ seen ws b ↔
      seen = [] ∧ ws = ws₀ ++ [u] := by
  simp [Prog.emit]

@[simp] theorem runs_emitAll {us : List ω} {b : Unit} {ws₀ ws : List ω}
    {seen : List (θ × σ)} :
    M.Runs (Prog.emitAll us : Prog σ ω θ χ ρ ε Unit) ws₀ seen ws b ↔
      seen = [] ∧ ws = ws₀ ++ us := by
  induction us generalizing ws₀ with
  | nil => simp [Prog.emitAll]
  | cons u us ih => simp [Prog.emitAll, ih]

@[simp] theorem runs_ask {c : χ} {b : ρ c} {ws₀ ws : List ω} {seen : List (θ × σ)} :
    M.Runs (Prog.ask c : Prog σ ω θ χ ρ ε (ρ c)) ws₀ seen ws b ↔
      seen = [] ∧ ws = ws₀ := by
  simp [Prog.ask]

@[simp] theorem runs_ensure {p : Prop} [Decidable p] {e : ε} {b : Unit}
    {ws₀ ws : List ω} {seen : List (θ × σ)} :
    M.Runs (Prog.ensure p e : Prog σ ω θ χ ρ ε Unit) ws₀ seen ws b ↔
      p ∧ seen = [] ∧ ws = ws₀ := by
  by_cases h : p <;> simp [Prog.ensure, h]

@[simp] theorem runs_getSome {e : ε} {o : Option α} {b : α} {ws₀ ws : List ω}
    {seen : List (θ × σ)} :
    M.Runs (Prog.getSome e o : Prog σ ω θ χ ρ ε α) ws₀ seen ws b ↔
      o = some b ∧ seen = [] ∧ ws = ws₀ := by
  cases o with
  | none => simp [Prog.getSome]
  | some a =>
      simp only [Prog.getSome, runs_pure, Option.some.injEq]
      constructor
      · rintro ⟨rfl, rfl, rfl⟩
        exact ⟨rfl, rfl, rfl⟩
      · rintro ⟨rfl, rfl, rfl⟩
        exact ⟨rfl, rfl, rfl⟩

@[simp] theorem runs_ofExcept {x : Except ε α} {b : α} {ws₀ ws : List ω}
    {seen : List (θ × σ)} :
    M.Runs (Prog.ofExcept x : Prog σ ω θ χ ρ ε α) ws₀ seen ws b ↔
      x = .ok b ∧ seen = [] ∧ ws = ws₀ := by
  cases x with
  | error e => simp [Prog.ofExcept]
  | ok a =>
      simp only [Prog.ofExcept, runs_pure, Except.ok.injEq]
      constructor
      · rintro ⟨rfl, rfl, rfl⟩
        exact ⟨rfl, rfl, rfl⟩
      · rintro ⟨rfl, rfl, rfl⟩
        exact ⟨rfl, rfl, rfl⟩

@[simp] theorem runs_mapErr {g : ε → ε} {p : Prog σ ω θ χ ρ ε α} {b : α}
    {ws₀ ws : List ω} {seen : List (θ × σ)} :
    M.Runs (p.mapErr g) ws₀ seen ws b ↔ M.Runs p ws₀ seen ws b := by
  induction p generalizing ws₀ seen with
  | pure a => rfl
  | raise e => rfl
  | read q k ih => simp only [Prog.mapErr, runs_read, ih]
  | write u p ih => simpa only [Prog.mapErr, runs_write] using ih
  | call c k ih => simp only [Prog.mapErr, runs_call, ih]

section Bind

variable {f : α → Prog σ ω θ χ ρ ε β} {b : β} {ws₀ ws : List ω} {seen : List (θ × σ)}

theorem runs_select_bind {q : θ} {g : σ → α} :
    M.Runs (Prog.select q g >>= f) ws₀ seen ws b ↔
      ∃ s v seen', seen = (q, s) :: seen' ∧ M.view ws₀ s = some v ∧
        M.Runs (f (g v)) ws₀ seen' ws b := Iff.rfl

/-- A query before the first write sees the committed store. -/
theorem runs_select_bind_nil {q : θ} {g : σ → α} :
    M.Runs (Prog.select q g >>= f) [] seen ws b ↔
      ∃ s seen', seen = (q, s) :: seen' ∧ M.Runs (f (g s)) [] seen' ws b := by
  rw [runs_select_bind]
  constructor
  · rintro ⟨s, v, seen', rfl, hv, h⟩
    obtain rfl := Option.some.inj hv
    exact ⟨s, seen', rfl, h⟩
  · rintro ⟨s, seen', rfl, h⟩
    exact ⟨s, s, seen', rfl, rfl, h⟩

theorem runs_emit_bind {u : ω} {k : Unit → Prog σ ω θ χ ρ ε β} :
    M.Runs (Prog.emit u >>= k) ws₀ seen ws b ↔ M.Runs (k ()) (ws₀ ++ [u]) seen ws b := Iff.rfl

theorem runs_emitAll_bind {us : List ω} {k : Unit → Prog σ ω θ χ ρ ε β} :
    M.Runs (Prog.emitAll us >>= k) ws₀ seen ws b ↔ M.Runs (k ()) (ws₀ ++ us) seen ws b := by
  rw [runs_bind]
  constructor
  · rintro ⟨a, ws₁, seen₁, seen₂, rfl, hus, hk⟩
    obtain ⟨rfl, rfl⟩ := runs_emitAll.mp hus
    exact hk
  · intro hk
    exact ⟨(), _, [], seen, rfl, runs_emitAll.mpr ⟨rfl, rfl⟩, hk⟩

theorem runs_ask_bind {c : χ} {k : ρ c → Prog σ ω θ χ ρ ε β} :
    M.Runs (Prog.ask c >>= k) ws₀ seen ws b ↔ ∃ r, M.Runs (k r) ws₀ seen ws b := Iff.rfl

theorem runs_ensure_bind {p : Prop} [Decidable p] {e : ε}
    {k : Unit → Prog σ ω θ χ ρ ε β} :
    M.Runs (Prog.ensure p e >>= k) ws₀ seen ws b ↔ p ∧ M.Runs (k ()) ws₀ seen ws b := by
  by_cases h : p <;> simp [Prog.ensure, h]

theorem runs_getSome_bind {e : ε} {o : Option α} :
    M.Runs (Prog.getSome e o >>= f) ws₀ seen ws b ↔
      ∃ a, o = some a ∧ M.Runs (f a) ws₀ seen ws b := by
  cases o <;> simp [Prog.getSome]

theorem runs_ofExcept_bind {x : Except ε α} :
    M.Runs (Prog.ofExcept x >>= f) ws₀ seen ws b ↔
      ∃ a, x = .ok a ∧ M.Runs (f a) ws₀ seen ws b := by
  cases x <;> simp [Prog.ofExcept]

end Bind

theorem Runs.of_writeless {p : Prog σ ω θ χ ρ ε α} (hp : p.Writeless) {ws₀ ws : List ω}
    {seen : List (θ × σ)} {b : α} (h : M.Runs p ws₀ seen ws b) : ws = ws₀ := by
  induction hp generalizing seen with
  | pure a => exact h.2.1
  | raise e => exact h.elim
  | read q k _ ih =>
      obtain ⟨s, v, seen', _, _, hk⟩ := h
      exact ih v hk
  | call c k _ ih =>
      obtain ⟨r, hk⟩ := h
      exact ih r hk

/-- What a program writes meets what all its writes meet. -/
theorem Runs.writesIn {I : ω → Prop} {p : Prog σ ω θ χ ρ ε α} (hp : p.WritesIn I)
    {ws₀ ws : List ω} {seen : List (θ × σ)} {b : α} (h : M.Runs p ws₀ seen ws b) :
    ∃ us, ws = ws₀ ++ us ∧ ∀ u ∈ us, I u := by
  induction hp generalizing ws₀ seen with
  | pure a =>
      obtain ⟨_, rfl, _⟩ := h
      exact ⟨[], by simp, by simp⟩
  | raise e => exact h.elim
  | read q k _ ih =>
      obtain ⟨s, v, seen', _, _, hk⟩ := h
      exact ih v hk
  | write w p hw _ ih =>
      obtain ⟨us, rfl, hus⟩ := ih h
      refine ⟨w :: us, by simp, ?_⟩
      intro u hu
      rcases List.mem_cons.mp hu with rfl | hu
      · exact hw
      · exact hus u hu
  | call c k _ ih =>
      obtain ⟨r, hk⟩ := h
      exact ih r hk

section Refines

variable {τ' : Type} {M' : Machine σ ω χ ρ τ'} {π : τ' → τ}

theorem Refines.view (hM : M'.Refines M π) (ws : List ω) (s : σ) :
    M'.view ws s = M.view ws s := by
  induction ws generalizing s with
  | nil => rfl
  | cons w ws ih =>
      rw [view_cons, view_cons, hM.apply]
      exact congrArg ((M.apply w s).bind ·) (funext ih)

theorem Refines.runs (hM : M'.Refines M π) {p : Prog σ ω θ χ ρ ε α} {ws₀ ws : List ω}
    {seen : List (θ × σ)} {b : α} (h : M'.Runs p ws₀ seen ws b) : M.Runs p ws₀ seen ws b := by
  induction p generalizing ws₀ seen with
  | pure a => exact h
  | raise e => exact h
  | read q k ih =>
      obtain ⟨s, v, seen', rfl, hv, hk⟩ := h
      rw [hM.view] at hv
      exact ⟨s, v, seen', rfl, hv, ih v hk⟩
  | write u p ih => exact ih h
  | call c k ih =>
      obtain ⟨r, hk⟩ := h
      exact ⟨r, ih r hk⟩

end Refines

/-! ## Histories

A run that also remembers how the outside world moved, with a joint condition
`J` on the store and the world at every read. -/

variable (M) in
/-- Like `Runs`, from world `w₀` to world `w`, other parties moving the world
in between; every read was answered from a store and a world related by `J`. -/
def History (J : σ → τ → Prop) :
    Prog σ ω θ χ ρ ε α → List ω → τ → List (θ × σ) → List ω → τ → α → Prop
  | .pure a, ws₀, w₀, seen, ws, w, b => seen = [] ∧ ws = ws₀ ∧ M.Moves w₀ w ∧ b = a
  | .raise _, _, _, _, _, _, _ => False
  | .read q k, ws₀, w₀, seen, ws, w, b =>
      ∃ s v w₁ seen', seen = (q, s) :: seen' ∧ M.Moves w₀ w₁ ∧ J s w₁ ∧
        M.view ws₀ s = some v ∧ History J (k v) ws₀ w₁ seen' ws w b
  | .write u p, ws₀, w₀, seen, ws, w, b => History J p (ws₀ ++ [u]) w₀ seen ws w b
  | .call c k, ws₀, w₀, seen, ws, w, b =>
      ∃ r w₁ w₂, M.Moves w₀ w₁ ∧ M.accept c r w₁ = some w₂ ∧
        History J (k r) ws₀ w₂ seen ws w b

theorem Moves.trans {w₁ w₂ w₃ : τ} (h : M.Moves w₁ w₂) (h' : M.Moves w₂ w₃) :
    M.Moves w₁ w₃ :=
  Relation.ReflTransGen.trans h h'

theorem Moves.single {w₁ w₂ : τ} {c : χ} {r : ρ c} (h : M.accept c r w₁ = some w₂) :
    M.Moves w₁ w₂ :=
  Relation.ReflTransGen.single ⟨c, r, h⟩

/-- Forget the worlds. -/
theorem History.runs {J : σ → τ → Prop} {p : Prog σ ω θ χ ρ ε α} {ws₀ ws : List ω}
    {w₀ w : τ} {seen : List (θ × σ)} {b : α} (h : M.History J p ws₀ w₀ seen ws w b) :
    M.Runs p ws₀ seen ws b := by
  induction p generalizing ws₀ w₀ seen with
  | pure a =>
      obtain ⟨rfl, rfl, _, rfl⟩ := h
      exact ⟨rfl, rfl, rfl⟩
  | raise e => exact h.elim
  | read q k ih =>
      obtain ⟨s, v, w₁, seen', rfl, _, _, hv, hk⟩ := h
      exact ⟨s, v, seen', rfl, hv, ih v hk⟩
  | write u p ih => exact ih h
  | call c k ih =>
      obtain ⟨r, w₁, w₂, _, _, hk⟩ := h
      exact ⟨r, ih r hk⟩

/-- Every read was answered from a store that met `J`. -/
theorem History.of_mem_seen {J : σ → τ → Prop} {p : Prog σ ω θ χ ρ ε α} {ws₀ ws : List ω}
    {w₀ w : τ} {seen : List (θ × σ)} {b : α} (h : M.History J p ws₀ w₀ seen ws w b)
    {q : θ} {s : σ} (hs : (q, s) ∈ seen) : ∃ w₁, J s w₁ := by
  induction p generalizing ws₀ w₀ seen with
  | pure a =>
      obtain ⟨rfl, _⟩ := h
      simp at hs
  | raise e => exact h.elim
  | read q' k ih =>
      obtain ⟨s', v, w₁, seen', rfl, _, hJ, _, hk⟩ := h
      rcases List.mem_cons.mp hs with hs | hs
      · obtain ⟨_, rfl⟩ := Prod.mk.inj hs
        exact ⟨w₁, hJ⟩
      · exact ih v hk hs
  | write u p ih => exact ih h hs
  | call c k ih =>
      obtain ⟨r, w₁, w₂, _, _, hk⟩ := h
      exact ih r hk hs

/-- A history can be taken to start earlier. -/
theorem History.earlier {J : σ → τ → Prop} {p : Prog σ ω θ χ ρ ε α} {ws₀ ws : List ω}
    {w w₀ w₁ : τ} {seen : List (θ × σ)} {b : α} (hw : M.Moves w₀ w₁)
    (h : M.History J p ws₀ w₁ seen ws w b) : M.History J p ws₀ w₀ seen ws w b := by
  induction p generalizing ws₀ with
  | pure a =>
      obtain ⟨rfl, rfl, hm, rfl⟩ := h
      exact ⟨rfl, rfl, hw.trans hm, rfl⟩
  | raise e => exact h
  | read q k ih =>
      obtain ⟨s, v, w₂, seen', rfl, hm, hJ, hv, hk⟩ := h
      exact ⟨s, v, w₂, seen', rfl, hw.trans hm, hJ, hv, hk⟩
  | write u p ih => exact ih h
  | call c k ih =>
      obtain ⟨r, w₂, w₃, hm, hr, hk⟩ := h
      exact ⟨r, w₂, w₃, hw.trans hm, hr, hk⟩

/-- A serial execution is a history whose reads are all answered from the
state the request started in. -/
theorem Exec.history {J : σ → τ → Prop} (hJm : ∀ s w w', J s w → M.Moves w w' → J s w')
    {p : Prog σ ω θ χ ρ ε α} {ws₀ : List ω} {b : α} {s v s' : σ} {w w' : τ}
    (hJ : J s w) (hv : M.view ws₀ s = some v) (h : M.Exec p v w b s' w') :
    ∃ seen ws, M.History J p ws₀ w seen ws w' b ∧ (∀ x ∈ seen, x.2 = s) ∧
      M.view ws s = some s' := by
  induction p generalizing ws₀ v w with
  | pure a =>
      obtain ⟨rfl, rfl, rfl⟩ := h
      exact ⟨[], ws₀, ⟨rfl, rfl, .refl, rfl⟩, by simp, hv⟩
  | raise e => exact h.elim
  | read q k ih =>
      obtain ⟨seen, ws, hr, hs, hw⟩ := ih v hJ hv h
      refine ⟨(q, s) :: seen, ws, ⟨s, v, w, seen, rfl, .refl, hJ, hv, hr⟩, ?_, hw⟩
      simpa using hs
  | write u p ih =>
      obtain ⟨v₁, hu, hp⟩ := h
      have hv₁ : M.view (ws₀ ++ [u]) s = some v₁ := by
        rw [view_append, hv]
        simp [hu]
      exact ih hJ hv₁ hp
  | call c k ih =>
      obtain ⟨r, w₁, hr, hp⟩ := h
      obtain ⟨seen, ws, hh, hs, hw⟩ := ih r (hJm _ _ _ hJ (.single hr)) hv hp
      exact ⟨seen, ws, ⟨r, w, w₁, .refl, hr, hh⟩, hs, hw⟩

/-! ## Interleaved steps -/

section System

variable [DecidableEq ι] (M)

/-- One statement of transaction `i`, or its rollback, which can come at any
time and for any reason. -/
inductive Advance (S : Sys ι σ ω θ χ ρ τ ε α) (i : ι) : Sys ι σ ω θ χ ρ τ ε α → Prop
  | read {q k ws seen v} (h : S.txn i = .running (.read q k) ws seen)
      (hv : M.view ws S.store = some v) :
      Advance S i (S.set i (.running (k v) ws (seen ++ [(q, S.store)])))
  | write {u p ws seen v} (h : S.txn i = .running (.write u p) ws seen)
      (hv : M.view (ws ++ [u]) S.store = some v) :
      Advance S i (S.set i (.running p (ws ++ [u]) seen))
  | call {c k ws seen r w} (h : S.txn i = .running (.call c k) ws seen)
      (hw : M.accept c r S.world = some w) :
      Advance S i { S.set i (.running (k r) ws seen) with world := w }
  | rollback {p ws seen} (h : S.txn i = .running p ws seen) :
      Advance S i (S.set i .rolledBack)

/-- Transaction `i` commits: its writes reach the store together. -/
inductive Commit (S : Sys ι σ ω θ χ ρ τ ε α) (i : ι) : Sys ι σ ω θ χ ρ τ ε α → Prop
  | mk {a ws seen s'} (h : S.txn i = .running (.pure a) ws seen)
      (hv : M.view ws S.store = some s') :
      Commit S i { S.set i (.committed a ws seen) with store := s' }

/-- A condition on a commit: what the transaction has seen, its writes, and
the store it commits over. -/
abbrev CommitCond (ι σ ω θ : Type) := ι → List (θ × σ) → List ω → σ → Prop

/-- One step of the system in which a commit has to meet `P`. -/
inductive Step (P : CommitCond ι σ ω θ) (S S' : Sys ι σ ω θ χ ρ τ ε α) : Prop
  | advance {i} (h : M.Advance S i S')
  | commit {i} (h : M.Commit S i S')
      (hP : ∀ a ws seen, S.txn i = .running (.pure a) ws seen → P i seen ws S.store)

/-- Runs of any length, in any order of steps, whose commits all meet `P`. -/
def Steps (P : CommitCond ι σ ω θ) :
    Sys ι σ ω θ χ ρ τ ε α → Sys ι σ ω θ χ ρ τ ε α → Prop :=
  Relation.ReflTransGen (M.Step P)

/-- Every interleaving. -/
abbrev Interleaves : Sys ι σ ω θ χ ρ τ ε α → Sys ι σ ω θ χ ρ τ ε α → Prop :=
  M.Steps fun _ _ _ _ ↦ True

variable {M}

/-- The continuation `p` can only finish what `start` could do. -/
def Resumes (M : Machine σ ω χ ρ τ) (J : σ → τ → Prop) (w₀ w : τ)
    (start p : Prog σ ω θ χ ρ ε α) (ws : List ω) (seen : List (θ × σ)) : Prop :=
  ∀ seen' ws' w' b, M.History J p ws w seen' ws' w' b →
    M.History J start [] w₀ (seen ++ seen') ws' w' b

/-- The state of a transaction that is still running is one its program can
be in. -/
def TxnOk (M : Machine σ ω χ ρ τ) (J : σ → τ → Prop) (w₀ w : τ)
    (start : Prog σ ω θ χ ρ ε α) (t : Txn σ ω θ χ ρ ε α) : Prop :=
  ∀ p ws seen, t = .running p ws seen → M.Resumes J w₀ w start p ws seen

theorem TxnOk.later {J : σ → τ → Prop} {w₀ w w' : τ} {start : Prog σ ω θ χ ρ ε α}
    {t : Txn σ ω θ χ ρ ε α} (h : M.TxnOk J w₀ w start t) (hw : M.Moves w w') :
    M.TxnOk J w₀ w' start t := by
  intro p ws seen ht seen' ws' w'' b hh
  exact h p ws seen ht seen' ws' w'' b (hh.earlier hw)

theorem TxnOk.commit {J : σ → τ → Prop} {w₀ w : τ} {start : Prog σ ω θ χ ρ ε α} {a : α}
    {ws : List ω} {seen : List (θ × σ)}
    (h : M.TxnOk J w₀ w start (.running (.pure a) ws seen)) :
    M.History J start [] w₀ seen ws w a := by
  simpa using h _ ws seen rfl [] ws w a ⟨rfl, rfl, .refl, rfl⟩

theorem Advance.store_eq {S S' : Sys ι σ ω θ χ ρ τ ε α} {i : ι}
    (h : M.Advance S i S') : S'.store = S.store := by
  cases h <;> rfl

theorem Advance.moves {S S' : Sys ι σ ω θ χ ρ τ ε α} {i : ι}
    (h : M.Advance S i S') : M.Moves S.world S'.world := by
  cases h with
  | call h hw => exact .single hw
  | _ => exact .refl

theorem Advance.txnOk {J : σ → τ → Prop} {S S' : Sys ι σ ω θ χ ρ τ ε α} {i : ι} {w₀ : τ}
    {start : ι → Prog σ ω θ χ ρ ε α} (h : M.Advance S i S') (hJ : J S.store S.world)
    (hS : ∀ j, M.TxnOk J w₀ S.world (start j) (S.txn j)) (j : ι) :
    M.TxnOk J w₀ S'.world (start j) (S'.txn j) := by
  by_cases hj : j = i
  · subst hj
    have hok := hS j
    cases h with
    | @read q k ws seen v h hv =>
        intro p ws₁ seen₁ ht seen' ws' w' b hh
        rw [Sys.set_txn_self] at ht
        cases ht
        rw [List.append_assoc]
        exact hok _ _ _ h _ ws' w' b ⟨_, v, _, seen', rfl, .refl, hJ, hv, hh⟩
    | @write u p₀ ws seen v h hv =>
        intro p ws₁ seen₁ ht seen' ws' w' b hh
        rw [Sys.set_txn_self] at ht
        cases ht
        exact hok _ _ _ h _ ws' w' b hh
    | @call c k ws seen r w h hw =>
        intro p ws₁ seen₁ ht seen' ws' w' b hh
        change (S.set j _).txn j = _ at ht
        rw [Sys.set_txn_self] at ht
        cases ht
        exact hok _ _ _ h _ ws' w' b ⟨r, _, w, .refl, hw, hh⟩
    | rollback h =>
        intro p ws₁ seen₁ ht
        rw [Sys.set_txn_self] at ht
        cases ht
  · have hother : S'.txn j = S.txn j := by
      cases h <;> exact Sys.set_txn_ne _ _ _ hj
    rw [hother]
    exact (hS j).later h.moves

theorem Commit.txnOk {J : σ → τ → Prop} {S S' : Sys ι σ ω θ χ ρ τ ε α} {i : ι} {w₀ : τ}
    {start : ι → Prog σ ω θ χ ρ ε α} (h : M.Commit S i S')
    (hS : ∀ j, M.TxnOk J w₀ S.world (start j) (S.txn j)) (j : ι) :
    M.TxnOk J w₀ S'.world (start j) (S'.txn j) := by
  obtain ⟨h, hv⟩ := h
  by_cases hj : j = i
  · subst hj
    intro p ws₁ seen₁ ht
    change (S.set j _).txn j = _ at ht
    rw [Sys.set_txn_self] at ht
    cases ht
  · change M.TxnOk J w₀ S.world (start j) ((S.set i _).txn j)
    rw [Sys.set_txn_ne _ _ _ hj]
    exact hS j

/-- What holds between steps of a run: the invariant, and that every
transaction stays within what its program can do. -/
theorem Steps.invariant_and_txnOk {P : CommitCond ι σ ω θ} {s : σ} {w₀ : τ}
    {start : ι → Prog σ ω θ χ ρ ε α} {J : σ → τ → Prop}
    (hJm : ∀ s w w', J s w → M.Moves w w' → J s w') (h₀ : J s w₀)
    (hcommit : ∀ i a ws seen s₁ s₂ w, J s₁ w → M.History J (start i) [] w₀ seen ws w a →
      P i seen ws s₁ → M.view ws s₁ = some s₂ → J s₂ w)
    {S : Sys ι σ ω θ χ ρ τ ε α} (h : M.Steps P (.init s w₀ start) S) :
    J S.store S.world ∧ ∀ i, M.TxnOk J w₀ S.world (start i) (S.txn i) := by
  induction h with
  | refl =>
      refine ⟨h₀, ?_⟩
      intro i p ws seen ht seen' ws' w' b hh
      cases ht
      exact hh
  | tail hpre hstep ih =>
      obtain ⟨hJ, hok⟩ := ih
      cases hstep with
      | advance hstep =>
          refine ⟨?_, hstep.txnOk hJ hok⟩
          rw [hstep.store_eq]
          exact hJm _ _ _ hJ hstep.moves
      | @commit i hstep hP =>
          refine ⟨?_, hstep.txnOk hok⟩
          obtain ⟨h, hv⟩ := hstep
          have hi := hok i
          rw [h] at hi
          exact hcommit i _ _ _ _ _ _ hJ hi.commit (hP _ _ _ h) hv

/-- The run rule: a joint invariant of store and world that survives the
world's own moves and every admitted commit holds in every state reached.  A
commit may use what its program wrote, where each of its reads came from, and
the condition `P`. -/
theorem Steps.invariant {P : CommitCond ι σ ω θ} {s : σ} {w₀ : τ}
    {start : ι → Prog σ ω θ χ ρ ε α} {J : σ → τ → Prop}
    (hJm : ∀ s w w', J s w → M.Moves w w' → J s w') (h₀ : J s w₀)
    (hcommit : ∀ i a ws seen s₁ s₂ w, J s₁ w → M.History J (start i) [] w₀ seen ws w a →
      P i seen ws s₁ → M.view ws s₁ = some s₂ → J s₂ w)
    {S : Sys ι σ ω θ χ ρ τ ε α} (h : M.Steps P (.init s w₀ start) S) :
    J S.store S.world :=
  (Steps.invariant_and_txnOk hJm h₀ hcommit h).1

theorem Advance.of_committed {S S' : Sys ι σ ω θ χ ρ τ ε α} {i j : ι} (h : M.Advance S i S')
    {a : α} {ws : List ω} {seen : List (θ × σ)} (hj : S'.txn j = .committed a ws seen) :
    S.txn j = .committed a ws seen := by
  by_cases hji : j = i
  · subst hji
    have hnot : ∀ t : Txn σ ω θ χ ρ ε α, (S.set j t).txn j = .committed a ws seen →
        t = .committed a ws seen := by
      intro t ht
      rwa [Sys.set_txn_self] at ht
    cases h <;> cases hnot _ hj
  · have hother : S'.txn j = S.txn j := by
      cases h <;> exact Sys.set_txn_ne _ _ _ hji
    rwa [← hother]

/-- The run rule with a property `K` of what was written: it holds of a
transaction's writes when it commits and survives the later commits. -/
theorem Steps.invariant_committed {P : CommitCond ι σ ω θ} {s : σ} {w₀ : τ}
    {start : ι → Prog σ ω θ χ ρ ε α} {J : σ → τ → Prop} {K : List ω → σ → Prop}
    (hJm : ∀ s w w', J s w → M.Moves w w' → J s w') (h₀ : J s w₀)
    (hcommit : ∀ i a ws seen s₁ s₂ w, J s₁ w → M.History J (start i) [] w₀ seen ws w a →
      P i seen ws s₁ → M.view ws s₁ = some s₂ →
      J s₂ w ∧ K ws s₂ ∧ ∀ us, K us s₁ → K us s₂)
    {S : Sys ι σ ω θ χ ρ τ ε α} (h : M.Steps P (.init s w₀ start) S) :
    J S.store S.world ∧ ∀ i a ws seen, S.txn i = .committed a ws seen → K ws S.store := by
  have hinv : ∀ {S}, M.Steps P (.init s w₀ start) S → J S.store S.world ∧
      ∀ i, M.TxnOk J w₀ S.world (start i) (S.txn i) := fun h ↦
    Steps.invariant_and_txnOk hJm h₀
      (fun i a ws seen s₁ s₂ w hJ hh hP hv ↦ (hcommit i a ws seen s₁ s₂ w hJ hh hP hv).1) h
  refine ⟨(hinv h).1, ?_⟩
  induction h with
  | refl =>
      intro i a ws seen ht
      cases ht
  | tail hpre hstep ih =>
      obtain ⟨hJ, hok⟩ := hinv hpre
      cases hstep with
      | advance hstep =>
          intro j a ws seen ht
          rw [hstep.store_eq]
          exact ih j a ws seen (hstep.of_committed ht)
      | @commit i hstep hP =>
          obtain ⟨hi, hv⟩ := hstep
          have hoki := hok i
          rw [hi] at hoki
          obtain ⟨_, hnew, hkeep⟩ := hcommit i _ _ _ _ _ _ hJ hoki.commit (hP _ _ _ hi) hv
          intro j a ws seen ht
          by_cases hji : j = i
          · subst hji
            change (Sys.set _ j _).txn j = _ at ht
            rw [Sys.set_txn_self] at ht
            cases ht
            exact hnew
          · change (Sys.set _ i _).txn j = _ at ht
            rw [Sys.set_txn_ne _ _ _ hji] at ht
            exact hkeep _ (ih j a ws seen ht)

theorem Steps.mono {P Q : CommitCond ι σ ω θ} (hPQ : ∀ i seen ws s, P i seen ws s →
      Q i seen ws s) {S S' : Sys ι σ ω θ χ ρ τ ε α} (h : M.Steps P S S') :
    M.Steps Q S S' := by
  refine Relation.ReflTransGen.mono (r := M.Step P) ?_ S S' h
  intro A B hstep
  cases hstep with
  | advance hstep => exact .advance hstep
  | commit hstep hP => exact .commit hstep fun a ws seen ht ↦ hPQ _ _ _ _ (hP a ws seen ht)

end System

end Machine

end Transact
end HumanDataFactory
