import HumanDataFactory.Transact.Program

/-!
# What a query comes to

A program that only reads has one answer on each store, its result or its
exception, and running it gives that answer and changes nothing.  A program
that also writes or calls can respond in several ways.
-/

namespace HumanDataFactory
namespace Transact

namespace Prog

variable {σ ω θ χ : Type} {ρ : χ → Type} {ε α β : Type}

/-- The result of a program that only reads; nothing at a write or a call. -/
def answer (s : σ) : Prog σ ω θ χ ρ ε α → Option (Except ε α)
  | .pure a => some (.ok a)
  | .raise e => some (.error e)
  | .read _ k => (k s).answer s
  | .write _ _ => none
  | .call _ _ => none

section

variable {s : σ} {f : α → Prog σ ω θ χ ρ ε β}

@[simp] theorem answer_pure (a : α) :
    (Prog.pure a : Prog σ ω θ χ ρ ε α).answer s = some (.ok a) := rfl

@[simp] theorem answer_raise (e : ε) :
    (Prog.raise e : Prog σ ω θ χ ρ ε α).answer s = some (.error e) := rfl

theorem answer_bind_ok {p : Prog σ ω θ χ ρ ε α} {a : α} (h : p.answer s = some (.ok a)) :
    (p >>= f).answer s = (f a).answer s := by
  induction p with
  | pure b =>
      simp only [answer_pure, Option.some.injEq, Except.ok.injEq] at h
      rw [pure_bind, h]
  | raise e => simp at h
  | read q k ih => exact ih s h
  | write u p ih => cases h
  | call c k ih => cases h

/-- Programs that answer one after the other. -/
theorem answer_bind {p : Prog σ ω θ χ ρ ε α} {r : Except ε α} {g : α → Except ε β}
    (h : p.answer s = some r) (hf : ∀ a, (f a).answer s = some (g a)) :
    (p >>= f).answer s = some (r >>= g) := by
  cases r with
  | ok a => exact (answer_bind_ok h).trans (hf a)
  | error e =>
      induction p with
      | pure a => simp at h
      | raise e' =>
          simp only [answer_raise, Option.some.injEq, Except.error.injEq] at h
          rw [h]
          rfl
      | read q k ih => exact ih s h
      | write u p ih => cases h
      | call c k ih => cases h

theorem answer_ofExcept (x : Except ε α) :
    (Prog.ofExcept x : Prog σ ω θ χ ρ ε α).answer s = some x := by
  cases x <;> rfl

@[simp] theorem answer_select (q : θ) (g : σ → α) :
    (Prog.select q g : Prog σ ω θ χ ρ ε α).answer s = some (.ok (g s)) := rfl

@[simp] theorem answer_select_bind (q : θ) (g : σ → α) :
    (Prog.select q g >>= f).answer s = (f (g s)).answer s := rfl

theorem answer_ensure_bind (p : Prop) [Decidable p] (e : ε) (k : Unit → Prog σ ω θ χ ρ ε β) :
    (Prog.ensure p e >>= k).answer s = if p then (k ()).answer s else some (.error e) := by
  unfold Prog.ensure
  split <;> rfl

theorem answer_getSome_bind (e : ε) (o : Option α) :
    (Prog.getSome e o >>= f).answer s =
      o.elim (some (.error e)) fun a ↦ (f a).answer s := by
  cases o <;> rfl

end

end Prog

namespace Machine

variable {σ ω θ χ : Type} {ρ : χ → Type} {τ ε α β : Type} {M : Machine σ ω χ ρ τ}
variable {p : Prog σ ω θ χ ρ ε α} {s s' : σ} {w w' : τ}

/-- A query returns its answer and leaves store and world alone. -/
theorem exec_iff_of_answer {a b : α} (h : p.answer s = some (.ok a)) :
    M.Exec p s w b s' w' ↔ b = a ∧ s' = s ∧ w' = w := by
  induction p with
  | pure c =>
      simp only [Prog.answer_pure, Option.some.injEq, Except.ok.injEq] at h
      rw [exec_pure, h]
  | raise e => simp at h
  | read q k ih => exact ih s h
  | write u p ih => cases h
  | call c k ih => cases h

variable (M) in
/-- Run alone, the program can end this way.  A write that the store refuses
ends in no response of its own. -/
def Responds : Prog σ ω θ χ ρ ε α → σ → τ → Except ε α → Prop
  | .pure a, _, _, r => r = .ok a
  | .raise e, _, _, r => r = .error e
  | .read _ k, s, w, r => Responds (k s) s w r
  | .write u p, s, w, r => ∃ s₁, M.apply u s = some s₁ ∧ Responds p s₁ w r
  | .call c k, s, w, r => ∃ a w₁, M.accept c a w = some w₁ ∧ Responds (k a) s w₁ r

/-- The results a program can respond with are those it can return. -/
theorem responds_ok_iff {a : α} : M.Responds p s w (.ok a) ↔ ∃ s' w', M.Exec p s w a s' w' := by
  induction p generalizing s w with
  | pure b => simp [Responds, eq_comm]
  | raise e => simp [Responds]
  | read q k ih => exact ih s
  | write u p ih =>
      simp only [Responds, exec_write, ih]
      constructor
      · rintro ⟨s₁, hs₁, s', w', hp⟩
        exact ⟨s', w', s₁, hs₁, hp⟩
      · rintro ⟨s', w', s₁, hs₁, hp⟩
        exact ⟨s₁, hs₁, s', w', hp⟩
  | call c k ih =>
      simp only [Responds, exec_call, ih]
      constructor
      · rintro ⟨r, w₁, hw₁, s', w', hk⟩
        exact ⟨s', w', r, w₁, hw₁, hk⟩
      · rintro ⟨s', w', r, w₁, hw₁, hk⟩
        exact ⟨r, w₁, hw₁, s', w', hk⟩

/-- A query responds with its answer. -/
theorem responds_iff_of_answer {r r' : Except ε α} (h : p.answer s = some r) :
    M.Responds p s w r' ↔ r' = r := by
  induction p with
  | pure a =>
      obtain rfl := Option.some.inj h
      rfl
  | raise e =>
      obtain rfl := Option.some.inj h
      rfl
  | read q k ih => exact ih s h
  | write u p ih => cases h
  | call c k ih => cases h

end Machine

end Transact
end HumanDataFactory
