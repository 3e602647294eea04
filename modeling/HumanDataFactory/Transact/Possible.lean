import HumanDataFactory.Transact.Answers
import HumanDataFactory.Transact.Moments

/-!
# What a program can come to

`Along` says what holds however the outside world answers; `Can` asks for one
course of the program, run alone, that returns.  Each rule is an equivalence,
so that the conditions under which a program can be served are computed from
its text.  A store may refuse more writes, or the outside give fewer answers; what
does without these can come to the same.
-/

namespace HumanDataFactory
namespace Transact

namespace Machine

variable {σ ω θ χ : Type} {ρ : χ → Type} {τ ε α β : Type}
variable (M : Machine σ ω χ ρ τ)

/-- Run alone, the program can return so that `Q` holds of what it returns and
leaves. -/
def Can : Prog σ ω θ χ ρ ε α → σ → τ → (α → σ → τ → Prop) → Prop
  | .pure a, s, w, Q => Q a s w
  | .raise _, _, _, _ => False
  | .read _ k, s, w, Q => Can (k s) s w Q
  | .write u p, s, w, Q => ∃ s₁, M.apply u s = some s₁ ∧ Can p s₁ w Q
  | .call c k, s, w, Q => ∃ r w₁, M.accept c r w = some w₁ ∧ Can (k r) s w₁ Q

/-- Run alone, the program can return. -/
def Servable (p : Prog σ ω θ χ ρ ε α) (s : σ) (w : τ) : Prop :=
  M.Can p s w fun _ _ _ ↦ True

variable {M} {s : σ} {w : τ} {p : Prog σ ω θ χ ρ ε α} {f : α → Prog σ ω θ χ ρ ε β}

theorem can_iff_exec {Q : α → σ → τ → Prop} :
    M.Can p s w Q ↔ ∃ a s' w', M.Exec p s w a s' w' ∧ Q a s' w' := by
  induction p generalizing s w with
  | pure a => simp [Can]
  | raise e => simp [Can]
  | read q k ih => exact ih s
  | write u p ih =>
      simp only [Can, exec_write, ih]
      constructor
      · rintro ⟨s₁, hs₁, a, s', w', hp, hQ⟩
        exact ⟨a, s', w', ⟨s₁, hs₁, hp⟩, hQ⟩
      · rintro ⟨a, s', w', ⟨s₁, hs₁, hp⟩, hQ⟩
        exact ⟨s₁, hs₁, a, s', w', hp, hQ⟩
  | call c k ih =>
      simp only [Can, exec_call, ih]
      constructor
      · rintro ⟨r, w₁, hw₁, a, s', w', hk, hQ⟩
        exact ⟨a, s', w', ⟨r, w₁, hw₁, hk⟩, hQ⟩
      · rintro ⟨a, s', w', ⟨r, w₁, hw₁, hk⟩, hQ⟩
        exact ⟨r, w₁, hw₁, a, s', w', hk, hQ⟩

theorem servable_iff_exec : M.Servable p s w ↔ ∃ a s' w', M.Exec p s w a s' w' := by
  simp [Servable, can_iff_exec]

theorem Can.mono {Q Q' : α → σ → τ → Prop} (h : M.Can p s w Q)
    (hQ : ∀ a s' w', Q a s' w' → Q' a s' w') : M.Can p s w Q' := by
  obtain ⟨a, s', w', hexec, hpost⟩ := can_iff_exec.mp h
  exact can_iff_exec.mpr ⟨a, s', w', hexec, hQ a s' w' hpost⟩

section Bind

variable {Q : β → σ → τ → Prop}

theorem can_bind :
    M.Can (p >>= f) s w Q ↔ M.Can p s w fun a s₁ w₁ ↦ M.Can (f a) s₁ w₁ Q := by
  induction p generalizing s w with
  | pure a => rfl
  | raise e => rfl
  | read q k ih => exact ih s
  | write u p ih => simp only [Prog.write_bind, Can, ih]
  | call c k ih => simp only [Prog.call_bind, Can, ih]

theorem can_select_bind {q : θ} {g : σ → α} :
    M.Can (Prog.select q g >>= f) s w Q ↔ M.Can (f (g s)) s w Q := Iff.rfl

theorem can_emit_bind {u : ω} {k : Unit → Prog σ ω θ χ ρ ε β} :
    M.Can (Prog.emit u >>= k) s w Q ↔
      ∃ s₁, M.apply u s = some s₁ ∧ M.Can (k ()) s₁ w Q := Iff.rfl

/-- A write that is accepted. -/
theorem can_emit_bind_of_apply {u : ω} {k : Unit → Prog σ ω θ χ ρ ε β} {s₁ : σ}
    (h : M.apply u s = some s₁) :
    M.Can (Prog.emit u >>= k) s w Q ↔ M.Can (k ()) s₁ w Q := by
  simp [can_emit_bind, h]

theorem can_ask_bind {c : χ} {k : ρ c → Prog σ ω θ χ ρ ε β} :
    M.Can (Prog.ask c >>= k) s w Q ↔
      ∃ r w₁, M.accept c r w = some w₁ ∧ M.Can (k r) s w₁ Q := Iff.rfl

theorem can_ensure_bind {c : Prop} [Decidable c] {e : ε} {k : Unit → Prog σ ω θ χ ρ ε β} :
    M.Can (Prog.ensure c e >>= k) s w Q ↔ c ∧ M.Can (k ()) s w Q := by
  by_cases h : c <;> simp [Prog.ensure, h, Can]

theorem can_getSome_bind {e : ε} {o : Option α} :
    M.Can (Prog.getSome e o >>= f) s w Q ↔ ∃ a, o = some a ∧ M.Can (f a) s w Q := by
  cases o <;> simp [Prog.getSome, Can]

theorem can_ofExcept_bind {x : Except ε α} :
    M.Can (Prog.ofExcept x >>= f) s w Q ↔ ∃ a, x = .ok a ∧ M.Can (f a) s w Q := by
  cases x <;> simp [Prog.ofExcept, Can]

/-- A query goes on with its answer. -/
theorem can_bind_of_answer {r : Except ε α} (h : p.answer s = some r) :
    M.Can (p >>= f) s w Q ↔ ∃ a, r = .ok a ∧ M.Can (f a) s w Q := by
  induction p with
  | pure a =>
      simp only [Prog.answer_pure, Option.some.injEq] at h
      simp [← h]
  | raise e =>
      simp only [Prog.answer_raise, Option.some.injEq] at h
      simp [← h, Can]
  | read q k ih => exact ih s h
  | write u p ih => cases h
  | call c k ih => cases h

/-- A program that always goes through asks for nothing. -/
theorem can_bind_of_forall {P : α → σ → τ → Prop} (hp : M.Can p s w P)
    (hf : ∀ a s₁ w₁, P a s₁ w₁ → M.Can (f a) s₁ w₁ Q) : M.Can (p >>= f) s w Q :=
  can_bind.mpr (hp.mono hf)

/-- Writes that nothing refuses. -/
theorem can_emitAll {us : List ω} (h : ∀ u ∈ us, ∀ t, ∃ t', M.apply u t = some t') :
    M.Can (Prog.emitAll us : Prog σ ω θ χ ρ ε Unit) s w fun _ _ _ ↦ True := by
  induction us generalizing s with
  | nil => trivial
  | cons u us ih =>
      obtain ⟨s₁, hs₁⟩ := h u (by simp) s
      exact ⟨s₁, hs₁, ih fun v hv ↦ h v (by simp [hv])⟩

end Bind

section Refusing

/-- The machine whose store takes the allowed writes only. -/
def taking (M : Machine σ ω χ ρ τ) (allowed : ω → Prop) [DecidablePred allowed] :
    Machine σ ω χ ρ τ where
  apply u s := if allowed u then M.apply u s else none
  accept := M.accept

/-- The machine whose outside gives these answers only. -/
def giving (M : Machine σ ω χ ρ τ) (gives : (c : χ) → ρ c → Bool) : Machine σ ω χ ρ τ where
  apply := M.apply
  accept c r w := if gives c r then M.accept c r w else none

variable {allowed : ω → Prop} [DecidablePred allowed] {gives : (c : χ) → ρ c → Bool}

theorem taking_apply (u : ω) (s : σ) :
    (M.taking allowed).apply u s = if allowed u then M.apply u s else none := rfl

theorem taking_accept : (M.taking allowed).accept = M.accept := rfl

theorem giving_apply : (M.giving gives).apply = M.apply := rfl

theorem giving_accept (c : χ) (r : ρ c) (w : τ) :
    (M.giving gives).accept c r w = if gives c r then M.accept c r w else none := rfl

/-- What keeps to the allowed writes notices nothing. -/
theorem can_taking_iff {Q : α → σ → τ → Prop} (hp : p.WritesIn allowed) :
    (M.taking allowed).Can p s w Q ↔ M.Can p s w Q := by
  induction hp generalizing s w with
  | pure a => rfl
  | raise e => rfl
  | read q k _ ih => exact ih s
  | write u p hu _ ih => simp only [Can, taking_apply, if_pos hu, ih]
  | call c k _ ih => simp only [Can, taking_accept, ih]

theorem can_taking_emit_bind {Q : β → σ → τ → Prop} {u : ω} {k : Unit → Prog σ ω θ χ ρ ε β} :
    (M.taking allowed).Can (Prog.emit u >>= k) s w Q ↔
      allowed u ∧ ∃ s₁, M.apply u s = some s₁ ∧ (M.taking allowed).Can (k ()) s₁ w Q := by
  rw [can_emit_bind, taking_apply]
  simp only [Option.ite_none_right_eq_some, and_assoc, exists_and_left]

/-- What only asks for answers that are all given notices nothing. -/
theorem can_giving_iff {Q : α → σ → τ → Prop} (hp : AsksIn (fun c ↦ ∀ r, gives c r) p) :
    (M.giving gives).Can p s w Q ↔ M.Can p s w Q := by
  induction hp generalizing s w with
  | pure a => rfl
  | raise e => rfl
  | read q k _ ih => exact ih s
  | write u p _ ih => simp only [Can, giving_apply, ih]
  | call c k hc _ ih => simp only [Can, giving_accept, if_pos (hc _), ih]

theorem can_giving_ask_bind {Q : β → σ → τ → Prop} {c : χ} {k : ρ c → Prog σ ω θ χ ρ ε β} :
    (M.giving gives).Can (Prog.ask c >>= k) s w Q ↔
      ∃ r w₁, gives c r ∧ M.accept c r w = some w₁ ∧ (M.giving gives).Can (k r) s w₁ Q := by
  rw [can_ask_bind]
  simp only [giving_accept, Option.ite_none_right_eq_some, and_assoc]

end Refusing

theorem can_mapErr {g : ε → ε} {Q : α → σ → τ → Prop} :
    M.Can (p.mapErr g) s w Q ↔ M.Can p s w Q := by
  simp only [can_iff_exec, exec_mapErr]

end Machine

end Transact
end HumanDataFactory
