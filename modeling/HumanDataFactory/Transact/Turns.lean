import HumanDataFactory.Transact.Simulate

/-!
# Transactions that wait for their turn

Interleavings in which not everybody may move at any time: a guard says in
which states a transaction may take its next step.  This is how a protocol
between the transactions is expressed, such as a party that only starts once
another one has got somewhere.
-/

namespace HumanDataFactory
namespace Transact

variable {ι σ ω θ χ : Type} {ρ : χ → Type} {τ ε α : Type}

namespace Txn

/-- What the transaction's reads were answered from, if it was not rolled back. -/
def seen : Txn σ ω θ χ ρ ε α → List (θ × σ)
  | .running _ _ seen => seen
  | .committed _ _ seen => seen
  | .rolledBack => []

/-- Some read or write was made. -/
def begun : Txn σ ω θ χ ρ ε α → Bool
  | .running _ ws seen => !(ws.isEmpty && seen.isEmpty)
  | _ => true

def isCommitted : Txn σ ω θ χ ρ ε α → Bool
  | .committed .. => true
  | _ => false

theorem isCommitted_iff {t : Txn σ ω θ χ ρ ε α} :
    t.isCommitted = true ↔ ∃ a ws seen, t = .committed a ws seen := by
  cases t <;> simp [isCommitted]

end Txn

def Move.party : Move ι → ι
  | .advance i => i
  | .commit i => i

namespace Machine

variable [DecidableEq ι] (M : Machine σ ω χ ρ τ)

/-- A step of a transaction whose turn it is. -/
inductive Turn (G : Sys ι σ ω θ χ ρ τ ε α → ι → Prop) (S S' : Sys ι σ ω θ χ ρ τ ε α) : Prop
  | advance {i} (hG : G S i) (h : M.Advance S i S')
  | commit {i} (hG : G S i) (h : M.Commit S i S')

def Turns (G : Sys ι σ ω θ χ ρ τ ε α → ι → Prop) :
    Sys ι σ ω θ χ ρ τ ε α → Sys ι σ ω θ χ ρ τ ε α → Prop :=
  Relation.ReflTransGen (M.Turn G)

variable {M} {G : Sys ι σ ω θ χ ρ τ ε α → ι → Prop} {S S' : Sys ι σ ω θ χ ρ τ ε α} {i j : ι}

theorem Turns.interleaves (h : M.Turns G S S') : M.Interleaves S S' := by
  refine Relation.ReflTransGen.mono (r := M.Turn G) ?_ S S' h
  intro A B hturn
  cases hturn with
  | advance _ h => exact .advance h
  | commit _ h => exact .commit h fun _ _ _ _ ↦ trivial

theorem Advance.running (h : M.Advance S i S') : (S.txn i).isRunning = true := by
  cases h with
  | read h hv => rw [h]; rfl
  | write h hv => rw [h]; rfl
  | call h hw => rw [h]; rfl
  | rollback h => rw [h]; rfl

theorem Advance.txn_ne (h : M.Advance S i S') (hj : j ≠ i) : S'.txn j = S.txn j := by
  cases h <;> exact Sys.set_txn_ne _ _ _ hj

theorem Commit.running (h : M.Commit S i S') : (S.txn i).isRunning = true := by
  cases h with
  | mk h hv => rw [h]; rfl

theorem Commit.txn_ne (h : M.Commit S i S') (hj : j ≠ i) : S'.txn j = S.txn j := by
  cases h
  exact Sys.set_txn_ne _ _ _ hj

theorem Advance.committed_iff (h : M.Advance S i S') {a : α} {ws : List ω}
    {seen : List (θ × σ)} :
    S'.txn j = .committed a ws seen ↔ S.txn j = .committed a ws seen := by
  refine ⟨h.of_committed, ?_⟩
  intro hj
  have hji : j ≠ i := by
    rintro rfl
    have hrun := h.running
    rw [hj] at hrun
    cases hrun
  rwa [h.txn_ne hji]

/-- A step reads the store as it is. -/
theorem Advance.seen (h : M.Advance S i S') {x : θ × σ} (hx : x ∈ (S'.txn j).seen) :
    x ∈ (S.txn j).seen ∨ x.2 = S.store := by
  by_cases hji : j = i
  · subst hji
    cases h with
    | @read q k ws seen v h hv =>
        rw [Sys.set_txn_self] at hx
        rw [h]
        rcases List.mem_append.mp hx with hx | hx
        · exact Or.inl hx
        · exact Or.inr (by rw [List.mem_singleton.mp hx])
    | write h hv =>
        rw [Sys.set_txn_self] at hx
        rw [h]
        exact Or.inl hx
    | call h hw =>
        change x ∈ ((S.set j _).txn j).seen at hx
        rw [Sys.set_txn_self] at hx
        rw [h]
        exact Or.inl hx
    | rollback h =>
        rw [Sys.set_txn_self] at hx
        simp [Txn.seen] at hx
  · rw [h.txn_ne hji] at hx
    exact Or.inl hx

/-- What holds at the start and survives every step of every party in turn
holds in every state reached.  A commit may use what its program can write and
where its reads came from. -/
theorem Turns.invariant {I : Sys ι σ ω θ χ ρ τ ε α → Prop} {s : σ} {w₀ : τ}
    {start : ι → Prog σ ω θ χ ρ ε α} (h₀ : I (.init s w₀ start))
    (hadvance : ∀ S i S', I S → M.Advance S i S' → I S')
    (hcommit : ∀ S i a ws seen s', I S → S.txn i = .running (.pure a) ws seen →
      M.Runs (start i) [] seen ws a → M.view ws S.store = some s' →
        I { S.set i (.committed a ws seen) with store := s' })
    (h : M.Turns G (.init s w₀ start) S) : I S := by
  induction h with
  | refl => exact h₀
  | tail hpre hturn ih =>
      have hok := (Steps.invariant_and_txnOk (J := fun _ _ ↦ True) (fun _ _ _ _ _ ↦ trivial) trivial
        (fun _ _ _ _ _ _ _ _ _ _ _ ↦ trivial) (Turns.interleaves hpre)).2
      cases hturn with
      | advance _ h => exact hadvance _ _ _ ih h
      | @commit i _ h =>
          cases h with
          | mk hi hv =>
              have htxn := hok i
              rw [hi] at htxn
              exact hcommit _ _ _ _ _ _ ih hi htxn.commit.runs hv

theorem turn_of_play {o : Oracle χ ρ τ} {m : Move ι} {n : ℕ} (hG : G S m.party)
    (h : M.play o [m] n S = some S') : S' = S ∨ M.Turn G S S' := by
  cases m with
  | advance i =>
      unfold play at h
      split at h
      · rename_i q k ws seen ht
        obtain ⟨v, hv, hrest⟩ := Option.bind_eq_some_iff.mp h
        obtain rfl := Option.some.inj hrest
        exact Or.inr (.advance hG (.read ht hv))
      · rename_i u p ws seen ht
        obtain ⟨v, hv, hrest⟩ := Option.bind_eq_some_iff.mp h
        obtain rfl := Option.some.inj hrest
        exact Or.inr (.advance hG (.write ht hv))
      · rename_i c k ws seen ht
        obtain ⟨w, hw, hrest⟩ := Option.bind_eq_some_iff.mp h
        obtain rfl := Option.some.inj hrest
        exact Or.inr (.advance hG (.call ht hw))
      · rename_i e ws seen ht
        obtain rfl := Option.some.inj h
        exact Or.inr (.advance hG (.rollback ht))
      · exact Or.inl (Option.some.inj h).symm
  | commit i =>
      unfold play at h
      split at h
      · rename_i a ws seen ht
        obtain ⟨s, hs, hrest⟩ := Option.bind_eq_some_iff.mp h
        obtain rfl := Option.some.inj hrest
        exact Or.inr (.commit hG (.mk ht hs))
      · cases h

variable (M G) in
/-- A schedule that is given up where somebody moves out of turn. -/
def playInTurn [∀ S i, Decidable (G S i)] (o : Oracle χ ρ τ) :
    List (Move ι) → ℕ → Sys ι σ ω θ χ ρ τ ε α → Option (Sys ι σ ω θ χ ρ τ ε α)
  | [], _, S => some S
  | m :: ms, n, S =>
      if G S m.party then (M.play o [m] n S).bind (playInTurn o ms (n + 1)) else none

theorem turns_of_playInTurn [∀ S i, Decidable (G S i)] {o : Oracle χ ρ τ} {ms : List (Move ι)}
    {n : ℕ} (h : M.playInTurn G o ms n S = some S') : M.Turns G S S' := by
  induction ms generalizing n S with
  | nil =>
      obtain rfl := Option.some.inj h
      exact .refl
  | cons m ms ih =>
      obtain ⟨hG, h⟩ := Option.ite_none_right_eq_some.mp h
      obtain ⟨S₁, hS₁, hrest⟩ := Option.bind_eq_some_iff.mp h
      rcases turn_of_play hG hS₁ with rfl | hturn
      · exact ih hrest
      · exact .head hturn (ih hrest)

end Machine

end Transact
end HumanDataFactory
