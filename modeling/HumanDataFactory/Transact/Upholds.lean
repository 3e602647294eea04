import HumanDataFactory.Transact.Program

/-!
# Programs that uphold an invariant

Triples whose precondition and postcondition agree on the store: started where
`I` holds, a program ends where `I` holds, with a value in `Q`.  A machine that
knows more of the world has more of them.
-/

namespace HumanDataFactory
namespace Transact
namespace Machine

variable {σ ω θ χ : Type} {ρ : χ → Type} {τ ε α β : Type} {M : Machine σ ω χ ρ τ}

variable (M) in
def Upholds (I : σ → Prop) (p : Prog σ ω θ χ ρ ε α) (Q : α → Prop) : Prop :=
  ∀ s w a s' w', I s → M.Exec p s w a s' w' → I s' ∧ Q a

namespace Upholds

variable {I : σ → Prop} {p : Prog σ ω θ χ ρ ε α} {Q R : α → Prop}

theorem mono (h : M.Upholds I p Q) (hQ : ∀ a, Q a → R a) : M.Upholds I p R := by
  intro s w a s' w' hI hexec
  obtain ⟨hI', ha⟩ := h s w a s' w' hI hexec
  exact ⟨hI', hQ a ha⟩

theorem pure {a : α} (h : Q a) : M.Upholds I (.pure a : Prog σ ω θ χ ρ ε α) Q := by
  rintro s w _ s' w' hI ⟨rfl, rfl, rfl⟩
  exact ⟨hI, h⟩

theorem bind {f : α → Prog σ ω θ χ ρ ε β} {P : β → Prop} (hp : M.Upholds I p Q)
    (hf : ∀ a, Q a → M.Upholds I (f a) P) : M.Upholds I (p >>= f) P := by
  intro s w b s' w' hI h
  obtain ⟨a, s₁, w₁, hexec, hrest⟩ := exec_bind.mp h
  obtain ⟨hI₁, ha⟩ := hp s w a s₁ w₁ hI hexec
  exact hf a ha s₁ w₁ b s' w' hI₁ hrest

theorem select {q : θ} {f : σ → α} (h : ∀ s, I s → Q (f s)) :
    M.Upholds I (Prog.select q f : Prog σ ω θ χ ρ ε α) Q := by
  rintro s w _ s' w' hI ⟨rfl, rfl, rfl⟩
  exact ⟨hI, h s' hI⟩

theorem emit {u : ω} (h : ∀ s s', I s → M.apply u s = some s' → I s') :
    M.Upholds I (Prog.emit u : Prog σ ω θ χ ρ ε Unit) fun _ ↦ True := by
  intro s w _ s' w' hI hexec
  obtain ⟨hs, _⟩ := exec_emit.mp hexec
  exact ⟨h s s' hI hs, trivial⟩

theorem ensure {c : Prop} [Decidable c] {e : ε} :
    M.Upholds I (Prog.ensure c e : Prog σ ω θ χ ρ ε Unit) fun _ ↦ c := by
  intro s w _ s' w' hI hexec
  obtain ⟨hc, rfl, rfl⟩ := exec_ensure.mp hexec
  exact ⟨hI, hc⟩

theorem getSome {e : ε} {o : Option α} :
    M.Upholds I (Prog.getSome e o : Prog σ ω θ χ ρ ε α) fun a ↦ o = some a := by
  intro s w a s' w' hI hexec
  obtain ⟨ho, rfl, rfl⟩ := exec_getSome.mp hexec
  exact ⟨hI, ho⟩

theorem ofExcept {x : Except ε α} :
    M.Upholds I (Prog.ofExcept x : Prog σ ω θ χ ρ ε α) fun a ↦ x = .ok a := by
  intro s w a s' w' hI hexec
  obtain ⟨hx, rfl, rfl⟩ := exec_ofExcept.mp hexec
  exact ⟨hI, hx⟩

theorem mapErr {g : ε → ε} (h : M.Upholds I p Q) : M.Upholds I (p.mapErr g) Q :=
  fun s w a s' w' hI hexec ↦ h s w a s' w' hI (exec_mapErr.mp hexec)

theorem ite {c : Prop} [Decidable c] {q : Prog σ ω θ χ ρ ε α} (hp : c → M.Upholds I p Q)
    (hq : ¬c → M.Upholds I q Q) : M.Upholds I (if c then p else q) Q := by
  split
  · exact hp ‹c›
  · exact hq ‹¬c›

/-- Writes that uphold the invariant whatever else the program does. -/
theorem of_writesIn {J : ω → Prop} (hp : p.WritesIn J)
    (hJ : ∀ u, J u → ∀ s s', I s → M.apply u s = some s' → I s') :
    M.Upholds I p fun _ ↦ True := by
  induction hp with
  | pure a => exact .pure trivial
  | raise e => exact fun _ _ _ _ _ _ h ↦ h.elim
  | read q k _ ih => exact fun s w a s' w' hI h ↦ ih s s w a s' w' hI h
  | write u p hu _ ih =>
      rintro s w a s' w' hI ⟨s₁, hs₁, h⟩
      exact ih s₁ w a s' w' (hJ u hu s s₁ hI hs₁) h
  | call c k _ ih =>
      rintro s w a s' w' hI ⟨r, w₁, _, h⟩
      exact ih r s w₁ a s' w' hI h

end Upholds

end Machine
end Transact
end HumanDataFactory
