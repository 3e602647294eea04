import HumanDataFactory.Transact.Program

/-!
# Serial runs

Requests served one after another from some first store.  A run keeps the
trace of what was served, so that a statement about the order of events is a
statement about its trace.
-/

namespace HumanDataFactory
namespace Transact

/-- One request as it was served; `outcome` is `none` when it was rolled
back. -/
structure Served (κ σ α : Type) where
  request : κ
  before : σ
  outcome : Option α
  after : σ

/-- Every entry of the trace meets `C`, which may look at the entries before
it. -/
def Throughout {γ : Type} (C : List γ → γ → Prop) (tr : List γ) : Prop :=
  ∀ pre e post, tr = pre ++ e :: post → C pre e

/-- An entry of an extended trace is the last one or one of the trace. -/
theorem split_concat {γ : Type} {tr pre post : List γ} {x e : γ}
    (h : tr ++ [x] = pre ++ e :: post) :
    (pre = tr ∧ e = x ∧ post = []) ∨ ∃ post', post = post' ++ [x] ∧ tr = pre ++ e :: post' := by
  rcases List.eq_nil_or_concat post with rfl | ⟨post', y, rfl⟩
  · obtain ⟨htr, hx⟩ := List.append_inj' h rfl
    exact Or.inl ⟨htr.symm, by simpa using hx.symm, rfl⟩
  · rw [List.concat_eq_append, ← List.cons_append, ← List.append_assoc] at h
    obtain ⟨htr, hx⟩ := List.append_inj' h rfl
    obtain rfl : x = y := by simpa using hx
    exact Or.inr ⟨post', List.concat_eq_append, htr⟩

namespace Throughout

variable {γ : Type} {C : List γ → γ → Prop}

theorem nil : Throughout C [] := by
  intro pre e post h
  simp at h

theorem init {tr : List γ} {e : γ} (h : Throughout C (tr ++ [e])) : Throughout C tr := by
  intro pre e' post htr
  exact h pre e' (post ++ [e]) (by simp [htr])

theorem last {tr : List γ} {e : γ} (h : Throughout C (tr ++ [e])) : C tr e :=
  h tr e [] rfl

end Throughout

namespace Machine

variable {κ σ ω θ χ : Type} {ρ : χ → Type} {τ ε α : Type}
variable (M : Machine σ ω χ ρ τ) (serve : κ → Prog σ ω θ χ ρ ε α)

/-- A request either runs to its end, or leaves no trace in the store. -/
inductive Serves : Served κ σ α → τ → τ → Prop
  | ok {r s a s' w w'} (h : M.Exec (serve r) s w a s' w') :
      Serves ⟨r, s, some a, s'⟩ w w'
  | failed {r s w w'} (h : M.Moves w w') : Serves ⟨r, s, none, s⟩ w w'

/-- Runs from store `s₀` and world `w₀`, with their traces. -/
inductive Run (s₀ : σ) (w₀ : τ) : List (Served κ σ α) → σ → τ → Prop
  | nil : Run s₀ w₀ [] s₀ w₀
  | snoc {tr s w e w'} (h : Run s₀ w₀ tr s w) (hb : e.before = s)
      (he : M.Serves serve e w w') : Run s₀ w₀ (tr ++ [e]) e.after w'

variable {M serve}

theorem Serves.moves {e : Served κ σ α} {w w' : τ} (h : M.Serves serve e w w') :
    M.Moves w w' := by
  cases h with
  | ok h => exact h.moves
  | failed h => exact h

/-- The run rule with a trace: `I` may speak of what was served so far, and a
step may use the condition `C`. -/
theorem Run.invariant_trace {C : List (Served κ σ α) → Served κ σ α → Prop}
    {I : List (Served κ σ α) → σ → τ → Prop} {s₀ : σ} {w₀ : τ} (h₀ : I [] s₀ w₀)
    (hstep : ∀ tr e w w', I tr e.before w → C tr e → M.Serves serve e w w' →
      I (tr ++ [e]) e.after w')
    {tr : List (Served κ σ α)} {s : σ} {w : τ} (h : M.Run serve s₀ w₀ tr s w)
    (hC : Throughout C tr) : I tr s w := by
  induction h with
  | nil => exact h₀
  | @snoc tr s w e w' h hb he ih =>
      subst hb
      exact hstep tr e w w' (ih hC.init) hC.last he

/-- The run rule: what holds at the start and survives every request holds in
every state reached. -/
theorem Run.invariant {I : σ → τ → Prop} {s₀ : σ} {w₀ : τ} (h₀ : I s₀ w₀)
    (hstep : ∀ e w w', I e.before w → M.Serves serve e w w' → I e.after w')
    {tr : List (Served κ σ α)} {s : σ} {w : τ} (h : M.Run serve s₀ w₀ tr s w) : I s w :=
  Run.invariant_trace (C := fun _ _ ↦ True) (I := fun _ ↦ I) h₀
    (fun _ e w w' hI _ he ↦ hstep e w w' hI he) h fun _ _ _ _ ↦ trivial

theorem Run.append {s₀ s₁ s₂ : σ} {w₀ w₁ w₂ : τ} {tr tr' : List (Served κ σ α)}
    (h : M.Run serve s₀ w₀ tr s₁ w₁) (h' : M.Run serve s₁ w₁ tr' s₂ w₂) :
    M.Run serve s₀ w₀ (tr ++ tr') s₂ w₂ := by
  induction h' with
  | nil => simpa using h
  | snoc _ hb he ih =>
      rw [← List.append_assoc]
      exact .snoc ih hb he

/-- A run passes through each of its entries. -/
theorem Run.split {s₀ s : σ} {w₀ w : τ} {pre post : List (Served κ σ α)}
    {e : Served κ σ α} (h : M.Run serve s₀ w₀ (pre ++ e :: post) s w) :
    ∃ w₁ w₂, M.Run serve s₀ w₀ pre e.before w₁ ∧ M.Serves serve e w₁ w₂ ∧
      M.Run serve e.after w₂ post s w := by
  generalize htr : pre ++ e :: post = tr at h
  induction h generalizing post with
  | nil => simp at htr
  | @snoc tr' s w e' w' h hb he ih =>
      rcases split_concat htr.symm with ⟨rfl, rfl, rfl⟩ | ⟨post', rfl, htr'⟩
      · subst hb
        exact ⟨w, w', h, he, .nil⟩
      · obtain ⟨w₁, w₂, hpre, hmid, hpost⟩ := ih htr'.symm
        exact ⟨w₁, w₂, hpre, hmid, .snoc hpost hb he⟩

/-- What every request preserves from its own starting state on, a run
preserves. -/
theorem Run.relates {R : σ → σ → Prop} (hrefl : ∀ s, R s s)
    (htrans : ∀ s₁ s₂ s₃, R s₁ s₂ → R s₂ s₃ → R s₁ s₃)
    {C : List (Served κ σ α) → Served κ σ α → Prop}
    {s₀ s : σ} {w₀ w : τ} {tr : List (Served κ σ α)}
    (hstep : ∀ pre e w w', C pre e → M.Serves serve e w w' → R e.before e.after)
    (h : M.Run serve s₀ w₀ tr s w) (hC : Throughout C tr) : R s₀ s := by
  induction h with
  | nil => exact hrefl s₀
  | @snoc tr s w e w' h hb he ih =>
      subst hb
      exact htrans _ _ _ (ih hC.init) (hstep tr e w w' hC.last he)

section Entries

variable {R : σ → σ → Prop} (hrefl : ∀ s, R s s) (htrans : ∀ s₁ s₂ s₃, R s₁ s₂ → R s₂ s₃ → R s₁ s₃)
  {s₀ s : σ} {w₀ w : τ} {pre post : List (Served κ σ α)} {e : Served κ σ α}
  (h : M.Run serve s₀ w₀ (pre ++ e :: post) s w)
include hrefl htrans h

/-- What every entry after `e` preserves relates the state after `e` to the
last one. -/
theorem Run.relates_after (hstep : ∀ e' ∈ post, R e'.before e'.after) : R e.after s := by
  obtain ⟨w₁, w₂, _, _, hpost⟩ := h.split
  refine Run.relates (C := fun _ e' ↦ R e'.before e'.after) hrefl htrans
    (fun _ _ _ _ hR _ ↦ hR) hpost ?_
  rintro pre' e' post' rfl
  exact hstep e' (by simp)

theorem Run.relates_from (hstep : ∀ e' ∈ e :: post, R e'.before e'.after) : R e.before s := by
  rw [List.forall_mem_cons] at hstep
  exact htrans _ _ _ hstep.1 (Run.relates_after hrefl htrans h hstep.2)

end Entries

/-- What holds between a state and the one after any write, a run preserves
from each of its entries on. -/
theorem Run.relates_writes {R : σ → σ → Prop} (hrefl : ∀ s, R s s)
    (htrans : ∀ s₁ s₂ s₃, R s₁ s₂ → R s₂ s₃ → R s₁ s₃)
    (hwrite : ∀ u s s', M.apply u s = some s' → R s s') {s₀ s : σ} {w₀ w : τ}
    {pre post : List (Served κ σ α)} {e : Served κ σ α}
    (h : M.Run serve s₀ w₀ (pre ++ e :: post) s w) : R e.before s := by
  have hserves : ∀ e' : Served κ σ α, ∀ w w', M.Serves serve e' w w' → R e'.before e'.after := by
    intro e' w w' he'
    cases he' with
    | ok hexec => exact hexec.relates hrefl htrans hwrite
    | failed _ => exact hrefl _
  obtain ⟨w₁, w₂, _, he, hpost⟩ := h.split
  refine htrans _ _ _ (hserves e w₁ w₂ he) ?_
  exact Run.relates (C := fun _ _ ↦ True) hrefl htrans (fun _ e' w w' _ he' ↦ hserves e' w w' he')
    hpost fun _ _ _ _ ↦ trivial

theorem Refines.serves {τ' : Type} {M' : Machine σ ω χ ρ τ'} {π : τ' → τ}
    (hM : M'.Refines M π) {e : Served κ σ α} {w w' : τ'} (h : M'.Serves serve e w w') :
    M.Serves serve e (π w) (π w') := by
  cases h with
  | ok h => exact .ok (hM.exec h)
  | failed h => exact .failed (hM.moves h)

theorem Refines.run {τ' : Type} {M' : Machine σ ω χ ρ τ'} {π : τ' → τ}
    (hM : M'.Refines M π) {s₀ s : σ} {w₀ w : τ'} {tr : List (Served κ σ α)}
    (h : M'.Run serve s₀ w₀ tr s w) : M.Run serve s₀ (π w₀) tr s (π w) := by
  induction h with
  | nil => exact .nil
  | snoc _ hb he ih => exact .snoc ih hb (hM.serves he)

end Machine

end Transact
end HumanDataFactory
