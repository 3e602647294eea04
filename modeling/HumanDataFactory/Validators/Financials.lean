import HumanDataFactory.Development
import HumanDataFactory.Validators.Findings

/-!
# Tie-out of financials

A block of figures is read value by value, the difference of its two sides is
taken, and a difference beyond the tolerance is reported.  Values that are no
numbers are reported too, with two exceptions: an integer too large for a float
raises, and a difference that is `nan` is not beyond any tolerance.
-/

namespace HumanDataFactory

namespace Validators

variable (env : Env)

/-! ## Reading numbers -/

/-- `float(x)` of a value that may have raised when it was looked up. -/
def number (v : Except PyError Json) : Except PyError PyFloat := do
  let x ← v
  x.toFloat env.parseFloat

def numbers : List (Except PyError Json) → Except PyError (List PyFloat)
  | [] => .ok []
  | v :: vs => do
      let x ← number env v
      let xs ← numbers vs
      return x :: xs

variable {env} {values : List (Except PyError Json)}

theorem number_ok (x : Json) : number env (.ok x) = x.toFloat env.parseFloat := rfl

theorem numbers_append (vs ws : List (Except PyError Json)) :
    numbers env (vs ++ ws) = do
      let xs ← numbers env vs
      let ys ← numbers env ws
      return xs ++ ys := by
  induction vs with
  | nil => cases h : numbers env ws <;> simp [numbers, h, bind, Except.bind, pure, Except.pure]
  | cons v vs ih => simp [numbers, ih]

theorem length_of_numbers {xs : List PyFloat} (h : numbers env values = .ok xs) :
    xs.length = values.length := by
  induction values generalizing xs with
  | nil =>
      cases h
      rfl
  | cons v vs ih =>
      rw [numbers, bind_eq_ok] at h
      obtain ⟨x, _, h⟩ := h
      rw [bind_eq_ok] at h
      obtain ⟨ys, hys, h⟩ := h
      cases h
      simp [ih hys]

/-- The first value that does not convert decides on the exception. -/
theorem numbers_eq_error_iff {e : PyError} : numbers env values = .error e ↔
    ∃ pre v post, values = pre ++ v :: post ∧ number env v = .error e ∧
      ∀ v' ∈ pre, ∃ x, number env v' = .ok x := by
  induction values with
  | nil => simp [numbers]
  | cons v vs ih =>
      cases hv : number env v with
      | error e' =>
          have hnumbers : numbers env (v :: vs) = .error e' := by
            rw [numbers, hv]
            rfl
          rw [hnumbers]
          constructor
          · intro h
            exact ⟨[], v, vs, rfl, hv.trans (congrArg Except.error (Except.error.inj h)), by simp⟩
          · rintro ⟨pre, v', post, hsplit, hfail, hpre⟩
            cases pre with
            | nil =>
                obtain ⟨rfl, _⟩ := List.cons.inj hsplit
                exact congrArg Except.error (Except.error.inj (hv.symm.trans hfail))
            | cons a pre =>
                obtain ⟨rfl, _⟩ := List.cons.inj hsplit
                obtain ⟨x, hx⟩ := hpre _ List.mem_cons_self
                rw [hv] at hx
                cases hx
      | ok x =>
          have hnumbers : numbers env (v :: vs) = .error e ↔ numbers env vs = .error e := by
            rw [numbers, hv]
            cases numbers env vs <;> simp [bind, Except.bind, pure, Except.pure]
          rw [hnumbers, ih]
          constructor
          · rintro ⟨pre, v', post, rfl, hfail, hpre⟩
            refine ⟨v :: pre, v', post, rfl, hfail, ?_⟩
            rw [List.forall_mem_cons]
            exact ⟨⟨x, hv⟩, hpre⟩
          · rintro ⟨pre, v', post, hsplit, hfail, hpre⟩
            cases pre with
            | nil =>
                obtain ⟨rfl, _⟩ := List.cons.inj hsplit
                rw [hv] at hfail
                cases hfail
            | cons a pre =>
                obtain ⟨rfl, rfl⟩ := List.cons.inj hsplit
                exact ⟨pre, v', post, rfl, hfail, fun w hw ↦ hpre w (List.mem_cons_of_mem _ hw)⟩

theorem toFloat_int (parse : String → Option PyFloat) (z : ℤ) : (Json.int z).toFloat parse =
    if z.natAbs < Json.floatOverflow then .ok (.finite z) else .error .overflowError := rfl

theorem toFloat_error {parse : String → Option PyFloat} {x : Json} {e : PyError}
    (h : x.toFloat parse = .error e) :
    e = .typeError ∨ e = .valueError ∨
      (e = .overflowError ∧ ∃ z, x = .int z ∧ Json.floatOverflow ≤ z.natAbs) := by
  cases x with
  | int z =>
      rw [toFloat_int] at h
      by_cases hz : z.natAbs < Json.floatOverflow
      · rw [if_pos hz] at h
        cases h
      · rw [if_neg hz] at h
        cases h
        exact Or.inr (Or.inr ⟨rfl, z, rfl, not_lt.mp hz⟩)
  | str s =>
      cases hs : parse s <;> simp only [Json.toFloat, hs] at h <;> cases h
      exact Or.inr (Or.inl rfl)
  | bool b => cases h
  | float f => cases h
  | null =>
      cases h
      exact Or.inl rfl
  | arr xs =>
      cases h
      exact Or.inl rfl
  | obj kvs =>
      cases h
      exact Or.inl rfl

theorem toFloat_overflow {parse : String → Option PyFloat} {z : ℤ}
    (h : Json.floatOverflow ≤ z.natAbs) :
    (Json.int z).toFloat parse = .error .overflowError := by
  rw [toFloat_int, if_neg (not_lt.mpr h)]

/-! ## Blocks of figures -/

/-- What is read, how the sides are compared, and which exceptions end in a
finding.  An overflow never does. -/
structure Block where
  values : List (Except PyError Json)
  difference : List PyFloat → PyFloat
  handled : List PyError
  shape : Finding
  report : List PyFloat → Finding
  strict : ∀ xs q, difference xs = .finite q → ∃ qs : List ℚ, xs = qs.map .finite
  raised : ∀ e, .error e ∈ values → e ∈ handled
  types : .typeError ∈ handled
  spellings : .valueError ∈ handled
  overflow : .overflowError ∉ handled

namespace Block

variable (env) in
def check (b : Block) : Except PyError (List Finding) :=
  catching b.handled b.shape do
    let xs ← numbers env b.values
    if BALANCE_TOL.lt (b.difference xs).abs then return [b.report xs] else return []

variable (env) in
/-- All values are finite numbers and the sides differ by a cent at most. -/
def Tied (b : Block) : Prop :=
  ∃ qs : List ℚ, numbers env b.values = .ok (qs.map .finite) ∧
    ∃ d, b.difference (qs.map .finite) = .finite d ∧ |d| ≤ 1 / 100

variable (env) in
/-- An integer too large for a float comes before any other value that does not
convert. -/
def Overflows (b : Block) : Prop :=
  ∃ pre z post, b.values = pre ++ .ok (.int z) :: post ∧ Json.floatOverflow ≤ z.natAbs ∧
    ∀ v ∈ pre, ∃ x, number env v = .ok x

variable (env) in
/-- All values convert, and the difference of the sides is `nan`. -/
def Undefined (b : Block) : Prop :=
  ∃ xs, numbers env b.values = .ok xs ∧ b.difference xs = .nan

variable (env) in
/-- Some value does not convert, or the difference is too large. -/
def Reported (b : Block) : Prop :=
  ∀ xs, numbers env b.values = .ok xs → BALANCE_TOL.lt (b.difference xs).abs = true

variable {b : Block}

theorem overflows_iff : b.Overflows env ↔ numbers env b.values = .error .overflowError := by
  rw [numbers_eq_error_iff]
  constructor
  · rintro ⟨pre, z, post, hvalues, hz, hpre⟩
    exact ⟨pre, _, post, hvalues, (number_ok _).trans (toFloat_overflow hz), hpre⟩
  · rintro ⟨pre, v, post, hvalues, hfail, hpre⟩
    cases v with
    | error e =>
        obtain rfl := Except.error.inj hfail
        exact absurd (b.raised _ (by rw [hvalues]; simp)) b.overflow
    | ok x =>
        rcases toFloat_error hfail with h | h | ⟨_, z, rfl, hz⟩
        · cases h
        · cases h
        · exact ⟨pre, z, post, hvalues, hz, hpre⟩

/-- Every other exception is turned into a finding. -/
theorem handled_of_error {e : PyError} (h : numbers env b.values = .error e)
    (hfits : ¬b.Overflows env) : e ∈ b.handled := by
  rw [overflows_iff, h] at hfits
  obtain ⟨pre, v, post, hvalues, hfail, _⟩ := numbers_eq_error_iff.mp h
  cases v with
  | error e' =>
      obtain rfl := Except.error.inj hfail
      exact b.raised _ (by rw [hvalues]; simp)
  | ok x =>
      rcases toFloat_error hfail with rfl | rfl | ⟨rfl, _⟩
      · exact b.types
      · exact b.spellings
      · exact absurd rfl hfits

theorem check_of_ok {xs : List PyFloat} (h : numbers env b.values = .ok xs) :
    b.check env =
      .ok (if BALANCE_TOL.lt (b.difference xs).abs then [b.report xs] else []) := by
  unfold check
  rw [h]
  cases hlt : BALANCE_TOL.lt (b.difference xs).abs <;>
    simp [bind, Except.bind, pure, Except.pure, catching, hlt]

theorem check_of_error {e : PyError} (h : numbers env b.values = .error e) :
    b.check env = if e ∈ b.handled then .ok [b.shape] else .error e := by
  unfold check
  rw [h]
  rfl

theorem tied_or_undefined {xs : List PyFloat} (h : numbers env b.values = .ok xs) :
    BALANCE_TOL.lt (b.difference xs).abs = false ↔ b.Tied env ∨ b.Undefined env := by
  rw [BALANCE_TOL, PyFloat.lt_abs_eq_false]
  constructor
  · rintro (hnan | ⟨d, hd, hle⟩)
    · exact Or.inr ⟨xs, h, hnan⟩
    · obtain ⟨qs, rfl⟩ := b.strict xs d hd
      exact Or.inl ⟨qs, h, d, hd, hle⟩
  · rintro (⟨qs, hqs, d, hd, hle⟩ | ⟨ys, hys, hnan⟩)
    · rw [hqs] at h
      obtain rfl := Except.ok.inj h
      exact Or.inr ⟨d, hd, hle⟩
    · rw [hys] at h
      obtain rfl := Except.ok.inj h
      exact Or.inl hnan

theorem check_eq_nil_iff : b.check env = .ok [] ↔ b.Tied env ∨ b.Undefined env := by
  cases h : numbers env b.values with
  | ok xs =>
      rw [check_of_ok h, ← tied_or_undefined h]
      cases BALANCE_TOL.lt (b.difference xs).abs <;> simp
  | error e =>
      have hfails : ¬b.Tied env ∧ ¬b.Undefined env := by simp [Tied, Undefined, h]
      refine iff_of_false ?_ (not_or.mpr hfails)
      rw [check_of_error h]
      split <;> simp

theorem check_ok_iff : (∃ findings, b.check env = .ok findings) ↔ ¬b.Overflows env := by
  cases h : numbers env b.values with
  | ok xs =>
      refine iff_of_true ⟨_, check_of_ok h⟩ ?_
      rw [overflows_iff, h]
      simp
  | error e =>
      rw [check_of_error h, overflows_iff, h]
      constructor
      · rintro ⟨findings, hfindings⟩ heq
        obtain rfl := Except.error.inj heq
        rw [if_neg b.overflow] at hfindings
        cases hfindings
      · intro hne
        have hfits : ¬b.Overflows env := by
          rw [overflows_iff, h]
          exact hne
        exact ⟨_, if_pos (handled_of_error h hfits)⟩

theorem reported_iff : b.Reported env ↔ ¬(b.Tied env ∨ b.Undefined env) := by
  cases h : numbers env b.values with
  | ok xs =>
      rw [← tied_or_undefined h]
      simp [Reported, h]
  | error e => simp [Reported, Tied, Undefined, h]

theorem not_tied_of_undefined (h : b.Undefined env) : ¬b.Tied env := by
  obtain ⟨xs, hxs, hnan⟩ := h
  rintro ⟨qs, hqs, d, hd, _⟩
  rw [hxs] at hqs
  obtain rfl := Except.ok.inj hqs
  rw [hnan] at hd
  cases hd

variable (env) in
def checkAll : List Block → Except PyError (List Finding)
  | [] => .ok []
  | b :: bs => do
      let findings ← b.check env
      let rest ← checkAll bs
      return findings ++ rest

theorem checkAll_singleton (b : Block) : checkAll env [b] = b.check env := by
  rw [checkAll, checkAll]
  cases b.check env <;> simp [bind, Except.bind, pure, Except.pure]

theorem checkAll_append (bs cs : List Block) : checkAll env (bs ++ cs) = do
    let findings ← checkAll env bs
    let rest ← checkAll env cs
    return findings ++ rest := by
  induction bs with
  | nil => cases h : checkAll env cs <;> simp [checkAll, h, bind, Except.bind, pure, Except.pure]
  | cons b bs ih =>
      rw [List.cons_append, checkAll, checkAll, ih]
      cases b.check env <;> cases checkAll env bs <;> cases checkAll env cs <;>
        simp [bind, Except.bind, pure, Except.pure]

theorem checkAll_ok_iff {bs : List Block} :
    (∃ findings, checkAll env bs = .ok findings) ↔ ∀ b ∈ bs, ¬b.Overflows env := by
  induction bs with
  | nil => simp [checkAll]
  | cons b bs ih =>
      rw [List.forall_mem_cons, ← ih, ← check_ok_iff, checkAll]
      cases b.check env <;> cases checkAll env bs <;> simp [bind, Except.bind, pure, Except.pure]

theorem checkAll_eq_nil_iff {bs : List Block} :
    checkAll env bs = .ok [] ↔ ∀ b ∈ bs, b.Tied env ∨ b.Undefined env := by
  induction bs with
  | nil => simp [checkAll]
  | cons b bs ih =>
      rw [List.forall_mem_cons, ← ih, ← check_eq_nil_iff, checkAll]
      cases b.check env <;> cases checkAll env bs <;> simp [bind, Except.bind, pure, Except.pure]

/-- The checks report exactly what does not tie out, unless a value overflows or
an undefined difference is all there is. -/
theorem checkAll_exact_iff (bs : List Block) :
    (∃ findings, checkAll env bs = .ok findings ∧ (findings = [] ↔ ∀ b ∈ bs, b.Tied env)) ↔
      (∀ b ∈ bs, ¬b.Overflows env) ∧
        ((∃ b ∈ bs, b.Undefined env) → ∃ b ∈ bs, b.Reported env) := by
  constructor
  · rintro ⟨findings, hok, hexact⟩
    refine ⟨checkAll_ok_iff.mp ⟨findings, hok⟩, ?_⟩
    rintro ⟨b, hb, hundefined⟩
    by_contra hnone
    have hsilent : ∀ b ∈ bs, b.Tied env ∨ b.Undefined env := by
      intro b' hb'
      by_contra hnot
      exact hnone ⟨b', hb', reported_iff.mpr hnot⟩
    rw [checkAll_eq_nil_iff.mpr hsilent] at hok
    exact not_tied_of_undefined hundefined (hexact.mp (Except.ok.inj hok).symm b hb)
  · rintro ⟨hfits, hcaught⟩
    obtain ⟨findings, hok⟩ := checkAll_ok_iff.mpr hfits
    refine ⟨findings, hok, ?_⟩
    constructor
    · rintro rfl
      have hsilent := checkAll_eq_nil_iff.mp hok
      intro b hb
      refine (hsilent b hb).resolve_right fun hundefined ↦ ?_
      obtain ⟨b', hb', hreported⟩ := hcaught ⟨b, hb, hundefined⟩
      exact reported_iff.mp hreported (hsilent b' hb')
    · intro htied
      rw [checkAll_eq_nil_iff.mpr fun b hb ↦ Or.inl (htied b hb)] at hok
      exact (Except.ok.inj hok).symm

end Block

/-! ## The two blocks -/

section Blocks

variable (env)

theorem index_error {kvs : List (String × Json)} {k : String} {e : PyError}
    (h : (Json.obj kvs).index k = .error e) : e = .keyError := by
  cases hk : Json.lookup kvs k <;> simp only [Json.index, hk] at h <;> cases h
  rfl

def sheetBlock (bs : List (String × Json)) : Block where
  values := ["assets", "liabilities", "equity"].map (Json.obj bs).index
  difference
    | [a, l, e] => a.sub (l.add e)
    | _ => .nan
  handled := [.keyError, .typeError, .valueError]
  shape := ⟨"FIN_BALANCE_SHEET_SHAPE", .error,
    "balance_sheet must contain numeric assets/liabilities/equity"⟩
  report
    | [a, l, e] => ⟨"FIN_BALANCE_SHEET", .error,
        s!"balance sheet does not balance: assets {strFloat env a} != " ++
          s!"liabilities {strFloat env l} + equity {strFloat env e}"⟩
    | _ => ⟨"FIN_BALANCE_SHEET", .error, ""⟩
  strict := by
    intro xs q h
    split at h
    · obtain ⟨a, s, rfl, hs, _⟩ := PyFloat.sub_eq_finite.mp h
      obtain ⟨l, e, rfl, rfl, _⟩ := PyFloat.add_eq_finite.mp hs
      exact ⟨[a, l, e], rfl⟩
    · cases h
  raised := by
    intro e he
    obtain ⟨k, _, hk⟩ := List.mem_map.mp he
    simp [index_error hk]
  types := by simp
  spellings := by simp
  overflow := by simp

/-- `x.get(side, 0) or 0`. -/
def amount (side : String) (x : Json) : Except PyError Json := do
  let v ← x.getD side (.int 0)
  return v.orElse (.int 0)

theorem amount_error {side : String} {x : Json} {e : PyError} (h : amount side x = .error e) :
    e = .attributeError := by
  cases x with
  | obj kvs => cases h
  | _ =>
      cases h
      rfl

def entriesBlock (entries : List Json) : Block where
  values := entries.map (amount "debit") ++ entries.map (amount "credit")
  difference xs :=
    (PyFloat.total (xs.take entries.length)).sub (PyFloat.total (xs.drop entries.length))
  handled := [.typeError, .valueError, .attributeError]
  shape := ⟨"FIN_JE_SHAPE", .error,
    "journal_entries must be a list of \x7baccount, debit, credit\x7d"⟩
  report xs := ⟨"FIN_JE_UNBALANCED", .error,
    s!"journal entries do not balance: debits {strFloat env (PyFloat.total
        (xs.take entries.length))} != " ++
      s!"credits {strFloat env (PyFloat.total (xs.drop entries.length))}"⟩
  strict := by
    intro xs q h
    obtain ⟨d, c, hd, hc, _⟩ := PyFloat.sub_eq_finite.mp h
    obtain ⟨ds, hds, _⟩ := PyFloat.total_eq_finite.mp hd
    obtain ⟨cs, hcs, _⟩ := PyFloat.total_eq_finite.mp hc
    refine ⟨ds ++ cs, ?_⟩
    rw [List.map_append, ← hds, ← hcs, List.take_append_drop]
  raised := by
    intro e he
    rcases List.mem_append.mp he with h | h
    · obtain ⟨x, _, hx⟩ := List.mem_map.mp h
      simp [amount_error hx]
    · obtain ⟨x, _, hx⟩ := List.mem_map.mp h
      simp [amount_error hx]
  types := by simp
  spellings := by simp
  overflow := by simp

variable {env}

theorem checkBalanceSheet_eq (bs : List (String × Json)) :
    checkBalanceSheet env (.obj bs) = (sheetBlock env bs).check env := by
  simp only [checkBalanceSheet, Block.check, sheetBlock, balanceSheet, List.map_cons, List.map_nil,
    numbers, number, bind_assoc]
  rfl

theorem foldlM_amount (side : String) (entries : List Json) (t : PyFloat) :
    entries.foldlM (fun total x ↦ do
      let v ← x.getD side (.int 0)
      let value ← (v.orElse (.int 0)).toFloat env.parseFloat
      return total.add value) t = do
        let xs ← numbers env (entries.map (amount side))
        return xs.foldl PyFloat.add t := by
  induction entries generalizing t with
  | nil => rfl
  | cons x xs ih =>
      simp only [List.foldlM_cons, List.map_cons, numbers, number, amount, bind_assoc,
        pure_bind, ih]
      rfl

theorem sumOf_eq (side : String) (entries : List Json) : sumOf env side entries = do
    let xs ← numbers env (entries.map (amount side))
    return PyFloat.total xs :=
  foldlM_amount side entries _

theorem checkJournalEntries_eq (x : Json) (xs : List Json) :
    checkJournalEntries env (.arr (x :: xs)) = (entriesBlock env (x :: xs)).check env := by
  have hvalues : numbers env (entriesBlock env (x :: xs)).values = _ := numbers_append _ _
  change catching _ _ (journalEntries env (x :: xs)) = _
  unfold journalEntries Block.check
  rw [sumOf_eq, sumOf_eq, hvalues]
  cases hd : numbers env ((x :: xs).map (amount "debit")) with
  | error e => rfl
  | ok ds =>
      cases hc : numbers env ((x :: xs).map (amount "credit")) with
      | error e => rfl
      | ok cs =>
          have hlen : (x :: xs).length = ds.length := by
            rw [length_of_numbers hd, List.length_map]
          have htake : (ds ++ cs).take (x :: xs).length = ds := by rw [hlen, List.take_left]
          have hdrop : (ds ++ cs).drop (x :: xs).length = cs := by rw [hlen, List.drop_left]
          simp only [entriesBlock, bind, Except.bind, pure, Except.pure, htake, hdrop]

end Blocks

/-! ## Tie-out of a content -/

section TieOut

variable (env)

/-- A balance sheet, if there is one, balances in finite numbers. -/
def SheetTies (fin : List (String × Json)) : Prop :=
  ∀ bs, fieldOf fin "balance_sheet" = .obj bs → ∃ a l e : ℚ,
    number env ((Json.obj bs).index "assets") = .ok (.finite a) ∧
    number env ((Json.obj bs).index "liabilities") = .ok (.finite l) ∧
    number env ((Json.obj bs).index "equity") = .ok (.finite e) ∧ |a - (l + e)| ≤ 1 / 100

/-- Journal entries, if there are any, have finite amounts with equal totals. -/
def EntriesTie (fin : List (String × Json)) : Prop :=
  ∀ entries, fieldOf fin "journal_entries" = .arr entries → entries ≠ [] →
    ∃ ds cs : List ℚ,
      List.Forall₂ (fun x d ↦ number env (amount "debit" x) = .ok (.finite d)) entries ds ∧
      List.Forall₂ (fun x c ↦ number env (amount "credit" x) = .ok (.finite c)) entries cs ∧
      |ds.sum - cs.sum| ≤ 1 / 100

/-- The blocks that are checked. -/
def sheetBlocks : Json → List Block
  | .obj bs => [sheetBlock env bs]
  | _ => []

def entriesBlocks : Json → List Block
  | .arr (x :: xs) => [entriesBlock env (x :: xs)]
  | _ => []

def blocks (fin : List (String × Json)) : List Block :=
  sheetBlocks env (fieldOf fin "balance_sheet") ++ entriesBlocks env (fieldOf fin "journal_entries")

variable {env}

theorem checkFinancialConsistency_eq {content fin : List (String × Json)}
    (h : fieldOf content "financials" = .obj fin) :
    checkFinancialConsistency env content = Block.checkAll env (blocks env fin) := by
  have hsheet (x : Json) : checkBalanceSheet env x = Block.checkAll env (sheetBlocks env x) := by
    cases x with
    | obj bs => rw [sheetBlocks, Block.checkAll_singleton, checkBalanceSheet_eq]
    | _ => rfl
  have hentries (x : Json) :
      checkJournalEntries env x = Block.checkAll env (entriesBlocks env x) := by
    cases x with
    | arr xs =>
        cases xs with
        | nil => rfl
        | cons x xs => rw [entriesBlocks, Block.checkAll_singleton, checkJournalEntries_eq]
    | _ => rfl
  unfold checkFinancialConsistency
  rw [h, blocks, Block.checkAll_append]
  simp only [hsheet, hentries]

theorem numbers_eq_ok_iff {qs : List ℚ} :
    numbers env values = .ok (qs.map .finite) ↔
      List.Forall₂ (fun v q ↦ number env v = .ok (.finite q)) values qs := by
  induction values generalizing qs with
  | nil => cases qs <;> simp [numbers]
  | cons v vs ih =>
      rw [numbers, bind_eq_ok]
      cases qs with
      | nil =>
          constructor
          · rintro ⟨x, _, h⟩
            obtain ⟨xs, _, h⟩ := bind_eq_ok.mp h
            cases h
          · intro h
            cases h
      | cons q qs =>
          rw [List.forall₂_cons, ← ih]
          constructor
          · rintro ⟨x, hx, h⟩
            obtain ⟨xs, hxs, h⟩ := bind_eq_ok.mp h
            obtain ⟨rfl, rfl⟩ := List.cons.inj (Except.ok.inj h)
            exact ⟨hx, hxs⟩
          · rintro ⟨hx, hxs⟩
            exact ⟨_, hx, bind_eq_ok.mpr ⟨_, hxs, rfl⟩⟩

theorem difference_sheet (bs : List (String × Json)) (a l e : ℚ) :
    (sheetBlock env bs).difference ([a, l, e].map .finite) = .finite (a - (l + e)) := by
  change (PyFloat.finite a).sub (.finite (l + e)) = _
  exact PyFloat.sub_eq_finite.mpr ⟨_, _, rfl, rfl, rfl⟩

theorem sheet_tied_iff {bs : List (String × Json)} : (sheetBlock env bs).Tied env ↔
    ∃ a l e : ℚ, number env ((Json.obj bs).index "assets") = .ok (.finite a) ∧
      number env ((Json.obj bs).index "liabilities") = .ok (.finite l) ∧
      number env ((Json.obj bs).index "equity") = .ok (.finite e) ∧ |a - (l + e)| ≤ 1 / 100 := by
  constructor
  · rintro ⟨qs, hqs, d, hd, hle⟩
    rw [numbers_eq_ok_iff] at hqs
    obtain ⟨a, _, ha, hrest, rfl⟩ := List.forall₂_cons_left_iff.mp hqs
    obtain ⟨l, _, hl, hrest', rfl⟩ := List.forall₂_cons_left_iff.mp hrest
    obtain ⟨e, _, he, hnil, rfl⟩ := List.forall₂_cons_left_iff.mp hrest'
    obtain rfl := List.forall₂_nil_left_iff.mp hnil
    rw [difference_sheet] at hd
    cases hd
    exact ⟨a, l, e, ha, hl, he, hle⟩
  · rintro ⟨a, l, e, ha, hl, he, hle⟩
    refine ⟨[a, l, e], numbers_eq_ok_iff.mpr (.cons ha (.cons hl (.cons he .nil))), ?_⟩
    exact ⟨_, difference_sheet bs a l e, hle⟩

theorem numbers_amount_iff {side : String} {entries : List Json} {qs : List ℚ} :
    numbers env (entries.map (amount side)) = .ok (qs.map .finite) ↔
      List.Forall₂ (fun x q ↦ number env (amount side x) = .ok (.finite q)) entries qs := by
  rw [numbers_eq_ok_iff, List.forall₂_map_left_iff]

theorem total_map (qs : List ℚ) : PyFloat.total (qs.map .finite) = .finite qs.sum :=
  PyFloat.total_eq_finite.mpr ⟨qs, rfl, rfl⟩

theorem difference_entries {entries : List Json} {ds cs : List ℚ} (h : ds.length = entries.length) :
    (entriesBlock env entries).difference ((ds ++ cs).map .finite) =
      .finite (ds.sum - cs.sum) := by
  have hlen : entries.length = (ds.map PyFloat.finite).length := by rw [List.length_map, h]
  simp only [entriesBlock]
  rw [List.map_append, hlen, List.take_left, List.drop_left, total_map, total_map]
  exact PyFloat.sub_eq_finite.mpr ⟨_, _, rfl, rfl, rfl⟩

theorem entries_tied_iff {entries : List Json} : (entriesBlock env entries).Tied env ↔
    ∃ ds cs : List ℚ,
      List.Forall₂ (fun x d ↦ number env (amount "debit" x) = .ok (.finite d)) entries ds ∧
      List.Forall₂ (fun x c ↦ number env (amount "credit" x) = .ok (.finite c)) entries cs ∧
      |ds.sum - cs.sum| ≤ 1 / 100 := by
  constructor
  · rintro ⟨qs, hqs, d, hd, hle⟩
    have hsplit : numbers env (entriesBlock env entries).values = _ := numbers_append _ _
    rw [hsplit, bind_eq_ok] at hqs
    obtain ⟨xs, hxs, hqs⟩ := hqs
    obtain ⟨ys, hys, hqs⟩ := bind_eq_ok.mp hqs
    obtain ⟨ds, cs, rfl, rfl, rfl⟩ := List.map_eq_append_iff.mp (Except.ok.inj hqs).symm
    have hlen : ds.length = entries.length := by
      have := length_of_numbers hxs
      simpa using this
    rw [difference_entries hlen] at hd
    cases hd
    exact ⟨ds, cs, numbers_amount_iff.mp hxs, numbers_amount_iff.mp hys, hle⟩
  · rintro ⟨ds, cs, hds, hcs, hle⟩
    have hvalues : numbers env (entriesBlock env entries).values =
        .ok ((ds ++ cs).map .finite) := by
      have hsplit : numbers env (entriesBlock env entries).values = _ := numbers_append _ _
      rw [hsplit, numbers_amount_iff.mpr hds, numbers_amount_iff.mpr hcs, List.map_append]
      rfl
    exact ⟨ds ++ cs, hvalues, _, difference_entries hds.length_eq.symm, hle⟩

theorem blocks_tied_iff {fin : List (String × Json)} :
    (∀ b ∈ blocks env fin, b.Tied env) ↔ SheetTies env fin ∧ EntriesTie env fin := by
  rw [blocks, List.forall_mem_append]
  refine and_congr ?_ ?_
  · unfold SheetTies
    cases h : fieldOf fin "balance_sheet" with
    | obj bs => simp [sheetBlocks, sheet_tied_iff]
    | _ => simp [sheetBlocks]
  · unfold EntriesTie
    cases h : fieldOf fin "journal_entries" with
    | arr xs =>
        cases xs with
        | nil => simp [entriesBlocks]
        | cons x xs => simp [entriesBlocks, entries_tied_iff]
    | _ => simp [entriesBlocks]

/-- Whatever values the blocks hold, the check is exact if and only if none of
them overflows and no undefined difference is left alone. -/
theorem tie_out_iff {content fin : List (String × Json)}
    (h : fieldOf content "financials" = .obj fin) :
    (∃ findings, checkFinancialConsistency env content = .ok findings ∧
      (findings = [] ↔ SheetTies env fin ∧ EntriesTie env fin)) ↔
      (∀ b ∈ blocks env fin, ¬b.Overflows env) ∧
        ((∃ b ∈ blocks env fin, b.Undefined env) → ∃ b ∈ blocks env fin, b.Reported env) := by
  rw [checkFinancialConsistency_eq h, ← blocks_tied_iff]
  exact Block.checkAll_exact_iff _

/-- Assets of 100 against these liabilities and an equity of 40. -/
def figures (liabilities : Json) : List (String × Json) :=
  [("balance_sheet",
    .obj [("assets", .int 100), ("liabilities", liabilities), ("equity", .int 40)])]

def statement (liabilities : Json) : List (String × Json) :=
  [("financials", .obj (figures liabilities))]

/-- Whole numbers neither overflow nor leave a difference undefined. -/
theorem tie_out_of_statement :
    ∃ findings, checkFinancialConsistency Development.env (statement (.int 60)) = .ok findings ∧
      (findings = [] ↔ SheetTies Development.env (figures (.int 60)) ∧
        EntriesTie Development.env (figures (.int 60))) := by
  have hnumbers : ∀ b ∈ blocks Development.env (figures (.int 60)),
      numbers Development.env b.values = .ok [.finite 100, .finite 60, .finite 40] ∧
        b.difference [.finite 100, .finite 60, .finite 40] = .finite 0 := by
    intro b hb
    obtain rfl : b = sheetBlock Development.env
        [("assets", .int 100), ("liabilities", .int 60), ("equity", .int 40)] :=
      List.mem_singleton.mp hb
    exact ⟨by decide +kernel, by decide +kernel⟩
  refine (tie_out_iff rfl).mpr ⟨fun b hb hover ↦ ?_, ?_⟩
  · rw [Block.overflows_iff, (hnumbers b hb).1] at hover
    cases hover
  · rintro ⟨b, hb, xs, hxs, hnan⟩
    rw [(hnumbers b hb).1] at hxs
    obtain rfl := Except.ok.inj hxs
    rw [(hnumbers b hb).2] at hnan
    cases hnan

/-- An integer of 400 digits raises, and `nan` balances with everything. -/
theorem overflow_raises_nan_balances :
    (¬∀ (env : Env) (content fin : List (String × Json)), fieldOf content "financials" = .obj fin →
      (∃ bs, fieldOf fin "balance_sheet" = .obj bs) →
      ∃ findings, checkFinancialConsistency env content = .ok findings) ∧
    ¬∀ (env : Env) (content fin : List (String × Json)) (findings : List Finding),
      fieldOf content "financials" = .obj fin →
      (∃ bs, fieldOf fin "balance_sheet" = .obj bs) →
      checkFinancialConsistency env content = .ok findings →
      (findings = [] ↔ SheetTies env fin ∧ EntriesTie env fin) := by
  constructor
  · intro hclaim
    obtain ⟨findings, hok⟩ :=
      hclaim Development.env (statement (.int (10 ^ 400))) _ rfl ⟨_, rfl⟩
    have hraises : (checkFinancialConsistency Development.env
        (statement (.int (10 ^ 400)))).toOption = none := by
      decide +kernel
    rw [hok] at hraises
    cases hraises
  · intro hclaim
    have hsilent : checkFinancialConsistency Development.env (statement (.float .nan)) =
        .ok [] := by
      decide +kernel
    obtain ⟨hties, _⟩ :=
      (hclaim Development.env (statement (.float .nan)) _ [] rfl ⟨_, rfl⟩ hsilent).mp rfl
    obtain ⟨_, _, _, _, hnan, _⟩ := hties _ rfl
    cases hnan

end TieOut

end Validators

end HumanDataFactory
