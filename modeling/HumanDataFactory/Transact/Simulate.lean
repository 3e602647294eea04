import HumanDataFactory.Transact.ReadCommitted
import HumanDataFactory.Transact.Serial

/-!
# Playing programs and schedules

Given answers to the calls, a program alone, a list of requests and a schedule
of interleaved transactions can all be computed.  Whatever is computed this
way is an execution, a run or an interleaving.
-/

namespace HumanDataFactory
namespace Transact

/-- Answers to calls, by the number of calls so far and the world. -/
abbrev Oracle (χ : Type) (ρ : χ → Type) (τ : Type) := ℕ → τ → (c : χ) → ρ c

/-- One move of a scheduler. -/
inductive Move (ι : Type) : Type
  | advance (i : ι)
  | commit (i : ι)

namespace Machine

variable {ι κ σ ω θ χ : Type} {ρ : χ → Type} {τ ε α : Type}
variable (M : Machine σ ω χ ρ τ) (o : Oracle χ ρ τ)

def simulate : Prog σ ω θ χ ρ ε α → ℕ → σ → τ → Option (α × ℕ × σ × τ)
  | .pure a, n, s, w => some (a, n, s, w)
  | .raise _, _, _, _ => none
  | .read _ k, n, s, w => simulate (k s) n s w
  | .write u p, n, s, w => (M.apply u s).bind fun s' ↦ simulate p n s' w
  | .call c k, n, s, w =>
      (M.accept c (o n w c) w).bind fun w' ↦ simulate (k (o n w c)) (n + 1) s w'

variable {M o}

theorem exec_of_simulate {p : Prog σ ω θ χ ρ ε α} {n n' : ℕ} {a : α} {s s' : σ} {w w' : τ}
    (h : M.simulate o p n s w = some (a, n', s', w')) : M.Exec p s w a s' w' := by
  induction p generalizing n s w with
  | pure b =>
      simp only [simulate, Option.some.injEq, Prod.mk.injEq] at h
      obtain ⟨rfl, _, rfl, rfl⟩ := h
      exact ⟨rfl, rfl, rfl⟩
  | raise e => simp [simulate] at h
  | read q k ih => exact ih s h
  | write u p ih =>
      obtain ⟨s₁, hs₁, hp⟩ := Option.bind_eq_some_iff.mp h
      exact ⟨s₁, hs₁, ih hp⟩
  | call c k ih =>
      obtain ⟨w₁, hw₁, hk⟩ := Option.bind_eq_some_iff.mp h
      exact ⟨_, w₁, hw₁, ih _ hk⟩

variable (M o) in
/-- A request that does not come to its end is rolled back. -/
def simulateRun (serve : κ → Prog σ ω θ χ ρ ε α) :
    List κ → ℕ → σ → τ → List (Served κ σ α) × σ × τ
  | [], _, s, w => ([], s, w)
  | r :: rs, n, s, w =>
      match M.simulate o (serve r) n s w with
      | some (a, n', s', w') =>
          let rest := simulateRun serve rs n' s' w'
          (⟨r, s, some a, s'⟩ :: rest.1, rest.2)
      | none =>
          let rest := simulateRun serve rs n s w
          (⟨r, s, none, s⟩ :: rest.1, rest.2)

theorem run_cons {serve : κ → Prog σ ω θ χ ρ ε α} {e : Served κ σ α}
    {tr : List (Served κ σ α)} {s : σ} {w w₁ w' : τ} (he : M.Serves serve e w w₁)
    (h : M.Run serve e.after w₁ tr s w') : M.Run serve e.before w (e :: tr) s w' := by
  have hone : M.Run serve e.before w [e] e.after w₁ := .snoc .nil rfl he
  exact hone.append h

theorem run_of_simulateRun (serve : κ → Prog σ ω θ χ ρ ε α) (rs : List κ) (n : ℕ) (s : σ)
    (w : τ) : M.Run serve s w (M.simulateRun o serve rs n s w).1
      (M.simulateRun o serve rs n s w).2.1 (M.simulateRun o serve rs n s w).2.2 := by
  induction rs generalizing n s w with
  | nil => exact .nil
  | cons r rs ih =>
      unfold simulateRun
      cases hsim : M.simulate o (serve r) n s w with
      | some x =>
          obtain ⟨a, n', s', w'⟩ := x
          exact run_cons (.ok (exec_of_simulate hsim)) (ih n' s' w')
      | none => exact run_cons (e := ⟨r, s, none, s⟩) (.failed .refl) (ih n s w)

variable [DecidableEq ι]

variable (M o) in
/-- Advancing a transaction that raised rolls it back, advancing one that is
done does nothing. -/
def play : List (Move ι) → ℕ → Sys ι σ ω θ χ ρ τ ε α → Option (Sys ι σ ω θ χ ρ τ ε α)
  | [], _, S => some S
  | .advance i :: ms, n, S =>
      match S.txn i with
      | .running (.read q k) ws seen =>
          (M.view ws S.store).bind fun v ↦
            play ms n (S.set i (.running (k v) ws (seen ++ [(q, S.store)])))
      | .running (.write u p) ws seen =>
          (M.view (ws ++ [u]) S.store).bind fun _ ↦
            play ms n (S.set i (.running p (ws ++ [u]) seen))
      | .running (.call c k) ws seen =>
          (M.accept c (o n S.world c) S.world).bind fun w ↦
            play ms (n + 1)
              { S.set i (.running (k (o n S.world c)) ws seen) with world := w }
      | .running (.raise _) _ _ => play ms n (S.set i .rolledBack)
      | _ => play ms n S
  | .commit i :: ms, n, S =>
      match S.txn i with
      | .running (.pure a) ws seen =>
          (M.view ws S.store).bind fun s ↦
            play ms n { S.set i (.committed a ws seen) with store := s }
      | _ => none

variable (M o) in
/-- The commits of a schedule: whose it is, what it has seen and written, and the
store it meets. -/
def commits : List (Move ι) → ℕ → Sys ι σ ω θ χ ρ τ ε α → List (ι × List (θ × σ) × List ω × σ)
  | [], _, _ => []
  | .advance i :: ms, n, S =>
      match S.txn i with
      | .running (.read q k) ws seen =>
          ((M.view ws S.store).map fun v ↦
            commits ms n (S.set i (.running (k v) ws (seen ++ [(q, S.store)])))).getD []
      | .running (.write u p) ws seen =>
          ((M.view (ws ++ [u]) S.store).map fun _ ↦
            commits ms n (S.set i (.running p (ws ++ [u]) seen))).getD []
      | .running (.call c k) ws seen =>
          ((M.accept c (o n S.world c) S.world).map fun w ↦
            commits ms (n + 1)
              { S.set i (.running (k (o n S.world c)) ws seen) with world := w }).getD []
      | .running (.raise _) _ _ => commits ms n (S.set i .rolledBack)
      | _ => commits ms n S
  | .commit i :: ms, n, S =>
      match S.txn i with
      | .running (.pure a) ws seen =>
          ((M.view ws S.store).map fun s ↦
            (i, seen, ws, S.store) ::
              commits ms n { S.set i (.committed a ws seen) with store := s }).getD []
      | _ => []

/-- What a schedule reaches is reached by steps whose commits meet `P`, if its
commits do. -/
theorem steps_of_play {P : CommitCond ι σ ω θ} {ms : List (Move ι)} {n : ℕ}
    {S S' : Sys ι σ ω θ χ ρ τ ε α} (h : M.play o ms n S = some S')
    (hP : ∀ c ∈ M.commits o ms n S, P c.1 c.2.1 c.2.2.1 c.2.2.2) : M.Steps P S S' := by
  induction ms generalizing n S with
  | nil =>
      obtain rfl := Option.some.inj h
      exact .refl
  | cons m ms ih =>
      cases m with
      | advance i =>
          unfold play at h
          unfold commits at hP
          cases ht : S.txn i with
          | running p ws seen =>
              rw [ht] at h hP
              cases p with
              | pure a => exact ih h hP
              | raise e => exact .head (.advance (.rollback ht)) (ih h hP)
              | read q k =>
                  obtain ⟨v, hv, hrest⟩ := Option.bind_eq_some_iff.mp h
                  simp only [hv, Option.map_some, Option.getD_some] at hP
                  exact .head (.advance (.read ht hv)) (ih hrest hP)
              | write u p =>
                  obtain ⟨v, hv, hrest⟩ := Option.bind_eq_some_iff.mp h
                  simp only [hv, Option.map_some, Option.getD_some] at hP
                  exact .head (.advance (.write ht hv)) (ih hrest hP)
              | call c k =>
                  obtain ⟨w, hw, hrest⟩ := Option.bind_eq_some_iff.mp h
                  simp only [hw, Option.map_some, Option.getD_some] at hP
                  exact .head (.advance (.call ht hw)) (ih hrest hP)
          | _ =>
              rw [ht] at h hP
              exact ih h hP
      | commit i =>
          unfold play at h
          unfold commits at hP
          split at h
          · rename_i a ws seen ht
            obtain ⟨s, hs, hrest⟩ := Option.bind_eq_some_iff.mp h
            simp only [ht, hs, Option.map_some, Option.getD_some, List.forall_mem_cons] at hP
            refine .head (.commit (.mk ht hs) fun b ws' seen' ht' ↦ ?_) (ih hrest hP.2)
            cases ht.symm.trans ht'
            exact hP.1
          · cases h

/-- What a schedule reaches is reached by an interleaving. -/
theorem interleaves_of_play {ms : List (Move ι)} {n : ℕ} {S S' : Sys ι σ ω θ χ ρ τ ε α}
    (h : M.play o ms n S = some S') : M.Interleaves S S' :=
  steps_of_play h fun _ _ ↦ trivial

end Machine

end Transact
end HumanDataFactory
