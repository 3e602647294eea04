import HumanDataFactory.Python.Loads
import Mathlib.Data.List.Induction

/-!
# What `json.dumps` writes is read back

A layout puts white space around the items of lists and the entries of
dictionaries.  The one-line layout and the indented one are both read back, and
so is a file with one value on each line.
-/

namespace HumanDataFactory

namespace Json

open PrefixCode

variable {readFloat : String → Option PyFloat}

/-! ## Layouts are read back -/

def Blank (w : List Char) : Prop :=
  ∀ c ∈ w, isBlank c = true

theorem skip_append {w : List Char} (h : Blank w) (u : List Char) : skip (w ++ u) = skip u :=
  List.dropWhile_append_of_pos h

theorem skip_cons {c : Char} (h : isBlank c = false) (u : List Char) : skip (c :: u) = c :: u := by
  simp [skip, h]

theorem delimited_blank {w u : List Char} (h : Blank w) (hu : Delimited following u) :
    Delimited following (w ++ u) := by
  cases w with
  | nil => exact hu
  | cons c w =>
      have hc : c = ' ' ∨ c = '\t' ∨ c = '\n' ∨ c = '\r' :=
        of_decide_eq_true (h c List.mem_cons_self)
      refine delimited_cons ?_ _
      rcases hc with rfl | rfl | rfl | rfl <;> simp [following]

/-- `F n` writes values `n` levels deep, with white space around the items of
lists and the entries of dictionaries. -/
structure Layout (floatRepr : PyFloat → String) (ascii : Bool) (F : ℕ → Json → List Char) :
    Prop where
  atom : ∀ n x, atomic x = true → F n x = text floatRepr x
  str : ∀ n s, F n (str s) = (quote ascii s).toList
  arr : ∀ n, ∃ lead sep close, Blank lead ∧ Blank sep ∧ Blank close ∧ ∀ xs,
    F n (arr xs) = '[' :: listOf (F (n + 1)) lead (',' :: sep) (close ++ [']']) [']'] xs
  obj : ∀ n, ∃ lead sep close colon, Blank lead ∧ Blank sep ∧ Blank close ∧ Blank colon ∧ ∀ kvs,
    F n (obj kvs) = '\x7b' :: listOf (fun kv ↦ (quote ascii kv.1).toList ++
      (':' :: colon ++ F (n + 1) kv.2)) lead (',' :: sep) (close ++ ['\x7d']) ['\x7d'] kvs

mutual

/-- Every dictionary has each key once. -/
def keyed : Json → Bool
  | arr xs => keyedItems xs
  | obj kvs => decide (kvs.map Prod.fst).Nodup && keyedPairs kvs
  | _ => true

def keyedItems : List Json → Bool
  | [] => true
  | x :: xs => keyed x && keyedItems xs

def keyedPairs : List (String × Json) → Bool
  | [] => true
  | (_, x) :: kvs => keyed x && keyedPairs kvs

end

theorem keyed_arr {xs : List Json} : keyed (arr xs) = true ↔ ∀ x ∈ xs, keyed x = true := by
  rw [keyed]
  induction xs with
  | nil => simp [keyedItems]
  | cons x xs ih => simp [keyedItems, ih]

theorem keyed_obj {kvs : List (String × Json)} :
    keyed (obj kvs) = true ↔
      (kvs.map Prod.fst).Nodup ∧ ∀ kv ∈ kvs, keyed kv.2 = true := by
  have hpairs : keyedPairs kvs = true ↔ ∀ kv ∈ kvs, keyed kv.2 = true := by
    induction kvs with
    | nil => simp [keyedPairs]
    | cons kv kvs ih =>
        obtain ⟨k, x⟩ := kv
        simp [keyedPairs, ih]
  rw [keyed, Bool.and_eq_true, decide_eq_true_eq, hpairs]

theorem lookup_eq_none {kvs : List (String × Json)} {k : String} :
    lookup kvs k = none ↔ k ∉ kvs.map Prod.fst := by
  rw [lookup, Option.map_eq_none_iff, List.find?_eq_none, List.mem_map]
  constructor
  · rintro h ⟨kv, hkv, heq⟩
    exact h kv hkv (decide_eq_true heq)
  · intro h kv hkv heq
    exact h ⟨kv, hkv, of_decide_eq_true heq⟩

theorem insert_of_not_mem {kvs : List (String × Json)} {k : String} (h : k ∉ kvs.map Prod.fst)
    (v : Json) : insert kvs k v = kvs ++ [(k, v)] := by
  simp [insert, lookup_eq_none.mpr h]

theorem keyed_lookup {kvs : List (String × Json)} (h : keyed (obj kvs) = true) {k : String}
    {x : Json} (hx : lookup kvs k = some x) : keyed x = true := by
  obtain ⟨kv, hfound, rfl⟩ := Option.map_eq_some_iff.mp hx
  exact (keyed_obj.mp h).2 kv (List.mem_of_find?_eq_some hfound)

theorem keyed_field {x : Json} (h : keyed x = true) (k : String) :
    keyed (x.field k) = true := by
  cases x with
  | obj kvs =>
      cases hx : lookup kvs k with
      | none => simp [field, hx, keyed]
      | some v =>
          have hfield : (obj kvs).field k = v := by simp [field, hx]
          rw [hfield]
          exact keyed_lookup h hx
  | _ => rfl

/-- An entry that is set is the only one of its key. -/
theorem keyed_insert {kvs : List (String × Json)} (h : keyed (obj kvs) = true) (k : String)
    {v : Json} (hv : keyed v = true) : keyed (obj (insert kvs k v)) = true := by
  obtain ⟨hnodup, hvalues⟩ := keyed_obj.mp h
  refine keyed_obj.mpr ?_
  unfold insert
  split
  · have hkeys : (kvs.map fun kv ↦ if kv.1 = k then (k, v) else kv).map Prod.fst =
        kvs.map Prod.fst := by
      rw [List.map_map]
      refine List.map_congr_left fun kv _ ↦ ?_
      by_cases hk : kv.1 = k <;> simp [hk]
    refine ⟨hkeys ▸ hnodup, fun kv hkv ↦ ?_⟩
    obtain ⟨old, hold, rfl⟩ := List.mem_map.mp hkv
    split
    · exact hv
    · exact hvalues old hold
  · rename_i hnone
    have hnew : k ∉ kvs.map Prod.fst := lookup_eq_none.mp (by simpa using hnone)
    constructor
    · rw [List.map_append, List.nodup_append]
      refine ⟨hnodup, by simp, fun a ha b hb heq ↦ ?_⟩
      obtain rfl : b = k := by simpa using hb
      exact hnew (heq ▸ ha)
    · intro kv hkv
      rcases List.mem_append.mp hkv with hkv | hkv
      · exact hvalues kv hkv
      · obtain rfl := List.mem_singleton.mp hkv
        exact hv

theorem keyed_strs (ss : List String) : keyed (strs ss) = true := by
  refine keyed_arr.mpr fun x hx ↦ ?_
  obtain ⟨s, _, rfl⟩ := List.mem_map.mp hx
  rfl

theorem asDict_of_nodup {kvs : List (String × Json)} (h : (kvs.map Prod.fst).Nodup) :
    asDict kvs = kvs := by
  unfold asDict
  induction kvs using List.reverseRecOn with
  | nil => rfl
  | append_singleton kvs kv ih =>
      rw [List.map_append, List.nodup_append] at h
      rw [List.foldl_concat, ih h.1, insert_of_not_mem]
      intro hmem
      exact h.2.2 _ hmem kv.1 (by simp) rfl

theorem keyed_asDict {kvs : List (String × Json)} (h : ∀ kv ∈ kvs, keyed kv.2 = true) :
    keyed (obj (asDict kvs)) = true := by
  unfold asDict
  induction kvs using List.reverseRecOn with
  | nil => rfl
  | append_singleton kvs kv ih =>
      rw [List.foldl_concat]
      exact keyed_insert (ih fun e he ↦ h e (List.mem_append_left _ he)) _ (h kv (by simp))

theorem keyed_of_readAtom {text rest : List Char} {x : Json}
    (h : readAtom readFloat text = some (x, rest)) : keyed x = true := by
  have hword (ws : List (String × Json)) (hws : ∀ w ∈ ws, keyed w.2 = true)
      (hread : readWord text ws = some (x, rest)) : keyed x = true := by
    induction ws with
    | nil => cases hread
    | cons w ws ih =>
        unfold readWord at hread
        split at hread
        · obtain ⟨rfl, _⟩ := Prod.mk.inj (Option.some.inj hread)
          exact hws w List.mem_cons_self
        · exact ih (fun v hv ↦ hws v (List.mem_cons_of_mem w hv)) hread
  rcases Option.or_eq_some_iff.mp h with hread | ⟨_, hread⟩
  · exact hword words (by simp [words, keyed]) hread
  · unfold readNumber at hread
    obtain ⟨⟨whole, after⟩, _, hread⟩ := Option.bind_eq_some_iff.mp hread
    dsimp only at hread
    split at hread
    · obtain ⟨rfl, _⟩ := Prod.mk.inj (Option.some.inj hread)
      rfl
    · obtain ⟨y, _, hread⟩ := Option.bind_eq_some_iff.mp hread
      obtain ⟨rfl, _⟩ := Prod.mk.inj (Option.some.inj hread)
      rfl

/-- What `n` steps of the reader give has each key once. -/
theorem keyed_of_read (n : ℕ) :
    (∀ text x rest, readValue readFloat n text = some (x, rest) → keyed x = true) ∧
    (∀ text xs rest, readItems readFloat n text = some (xs, rest) → ∀ x ∈ xs, keyed x = true) ∧
    ∀ text kvs rest, readEntries readFloat n text = some (kvs, rest) →
      ∀ kv ∈ kvs, keyed kv.2 = true := by
  induction n with
  | zero =>
      refine ⟨fun text x rest h ↦ ?_, fun text xs rest h ↦ ?_, fun text kvs rest h ↦ ?_⟩
      · rw [readValue] at h
        cases h
      · rw [readItems] at h
        cases h
      · rw [readEntries] at h
        · cases h
        · simp
  | succ n ih =>
      obtain ⟨hvalue, hitems, hentries⟩ := ih
      refine ⟨fun text x rest h ↦ ?_, fun text xs rest h ↦ ?_, fun text kvs rest h ↦ ?_⟩
      · rw [readValue.eq_def] at h
        dsimp only at h
        split at h
        · obtain ⟨r, _, hr⟩ := Option.map_eq_some_iff.mp h
          obtain ⟨rfl, _⟩ := Prod.mk.inj hr
          rfl
        · split at h
          · obtain ⟨rfl, _⟩ := Prod.mk.inj (Option.some.inj h)
            rfl
          · obtain ⟨r, hread, hr⟩ := Option.map_eq_some_iff.mp h
            obtain ⟨rfl, _⟩ := Prod.mk.inj hr
            exact keyed_arr.mpr (hitems _ _ _ hread)
        · split at h
          · obtain ⟨rfl, _⟩ := Prod.mk.inj (Option.some.inj h)
            rfl
          · obtain ⟨r, hread, hr⟩ := Option.map_eq_some_iff.mp h
            obtain ⟨rfl, _⟩ := Prod.mk.inj hr
            exact keyed_asDict (hentries _ _ _ hread)
        · exact keyed_of_readAtom h
      · rw [readItems] at h
        obtain ⟨⟨x, after⟩, hread, h⟩ := Option.bind_eq_some_iff.mp h
        have hx := hvalue _ _ _ hread
        dsimp only at h
        split at h
        · obtain ⟨⟨more, _⟩, hmore, h⟩ := Option.bind_eq_some_iff.mp h
          obtain ⟨rfl, _⟩ := Prod.mk.inj (Option.some.inj h)
          exact List.forall_mem_cons.mpr ⟨hx, hitems _ _ _ hmore⟩
        · obtain ⟨rfl, _⟩ := Prod.mk.inj (Option.some.inj h)
          simpa using hx
        · cases h
      · rw [readEntries.eq_def] at h
        dsimp only at h
        split at h
        · rename_i m more heq
          obtain rfl := Nat.succ.inj heq
          obtain ⟨⟨k, after⟩, _, h⟩ := Option.bind_eq_some_iff.mp h
          dsimp only at h
          split at h
          · obtain ⟨⟨x, following⟩, hread, h⟩ := Option.bind_eq_some_iff.mp h
            have hx := hvalue _ _ _ hread
            dsimp only at h
            split at h
            · obtain ⟨⟨more, _⟩, hmore, h⟩ := Option.bind_eq_some_iff.mp h
              obtain ⟨rfl, _⟩ := Prod.mk.inj (Option.some.inj h)
              exact List.forall_mem_cons.mpr ⟨hx, hentries _ _ _ hmore⟩
            · obtain ⟨rfl, _⟩ := Prod.mk.inj (Option.some.inj h)
              simpa using hx
            · cases h
          · cases h
        · cases h

/-- What `json.loads` returns has each key once. -/
theorem keyed_of_loads {text : String} {x : Json} (h : loads readFloat text = some x) :
    keyed x = true := by
  unfold loads at h
  split at h
  · rename_i y rest hread
    split at h
    · obtain rfl := Option.some.inj h
      exact (keyed_of_read _).1 _ _ _ hread
    · cases h
  · cases h

theorem readValue_atom {c : Char} (h : Opens c) (n : ℕ) (rest : List Char) :
    readValue readFloat (n + 1) (c :: rest) = readAtom readFloat (c :: rest) := by
  obtain ⟨hquote, hlist, hdict, _⟩ := h
  rw [readValue]
  · exact fun _ heq ↦ hquote (List.cons.inj heq).1
  · exact fun _ heq ↦ hlist (List.cons.inj heq).1
  · exact fun _ heq ↦ hdict (List.cons.inj heq).1

namespace Layout

variable {floatRepr : PyFloat → String} {ascii : Bool} {F : ℕ → Json → List Char}
  (h : FloatsRead readFloat floatRepr) (hF : Layout floatRepr ascii F)
include hF

include h in
/-- A value's text starts with no white space and no bracket that closes. -/
theorem starts (n : ℕ) (x : Json) :
    ∃ c rest, F n x = c :: rest ∧ isBlank c = false ∧ c ≠ ']' := by
  have hatom (hx : atomic x = true) :
      ∃ c rest, F n x = c :: rest ∧ isBlank c = false ∧ c ≠ ']' := by
    obtain ⟨c, rest, htext, _, _, _, hclose, hblank⟩ := (atomText_text h hx).opens
    exact ⟨c, rest, (hF.atom n x hx).trans htext, hblank, hclose⟩
  cases x with
  | str s =>
      rw [hF.str, toList_quoted]
      exact ⟨'"', _, rfl, by decide, by decide⟩
  | arr xs =>
      obtain ⟨lead, sep, close, _, _, _, harr⟩ := hF.arr n
      exact ⟨'[', _, harr xs, by decide, by decide⟩
  | obj kvs =>
      obtain ⟨lead, sep, close, colon, _, _, _, _, hobj⟩ := hF.obj n
      exact ⟨'\x7b', _, hobj kvs, by decide, by decide⟩
  | _ => exact hatom rfl

end Layout

variable (readFloat) in
/-- The text of `x` is read as `x`, whatever follows it. -/
def Reads (F : ℕ → Json → List Char) (x : Json) : Prop :=
  ∀ n fuel u, keyed x = true → Delimited following u → 2 * (F n x).length ≤ fuel →
    readValue readFloat fuel (F n x ++ u) = some (x, u)

namespace Layout

variable {floatRepr : PyFloat → String} {ascii : Bool} {F : ℕ → Json → List Char}
  (h : FloatsRead readFloat floatRepr) (hF : Layout floatRepr ascii F)
include h hF

theorem skip_text (n : ℕ) (x : Json) (u : List Char) : skip (F n x ++ u) = F n x ++ u := by
  obtain ⟨c, rest, htext, hblank, _⟩ := hF.starts h n x
  rw [htext, List.cons_append, skip_cons hblank]

theorem reads_atomic {x : Json} (hx : atomic x = true) : Reads readFloat F x := by
  intro n fuel u _ hu hfuel
  have hatom := atomText_text h hx
  obtain ⟨c, rest, htext, hopens⟩ := hatom.opens
  have hread := hatom.read u hu
  rw [hF.atom n x hx, htext] at hfuel ⊢
  rw [htext] at hread
  obtain ⟨m, rfl⟩ := Nat.exists_eq_succ_of_ne_zero (n := fuel) (by
    rw [List.length_cons] at hfuel
    omega)
  exact (readValue_atom hopens m _).trans hread

omit h in
theorem reads_str (s : String) : Reads readFloat F (Json.str s) := by
  intro n fuel u _ hu hfuel
  rw [hF.str n s, toList_quoted] at hfuel ⊢
  obtain ⟨m, rfl⟩ := Nat.exists_eq_succ_of_ne_zero (n := fuel) (by
    rw [List.length_cons] at hfuel
    omega)
  rw [List.cons_append, readValue, scanString_quote ascii s (toList_quoted ascii s) u]
  rfl

/-- The items of a list from the first one on. -/
theorem reads_items {sep close : List Char} (hsep : Blank sep) (hclose : Blank close) (n : ℕ)
    {xs : List Json} : ∀ {x : Json}, (∀ y ∈ x :: xs, Reads readFloat F y ∧ keyed y = true) →
      ∀ (fuel : ℕ) {u : List Char},
        2 * (F n x ++ tailOf (F n) (',' :: sep) (close ++ [']']) xs).length ≤ fuel →
        readItems readFloat fuel
          (F n x ++ (tailOf (F n) (',' :: sep) (close ++ [']']) xs ++ u)) = some (x :: xs, u) := by
  induction xs with
  | nil =>
      intro x hall fuel u hfuel
      obtain ⟨hx, hkeyed⟩ := hall x List.mem_cons_self
      simp only [tailOf, List.length_append, List.length_singleton] at hfuel
      obtain ⟨m, rfl⟩ := Nat.exists_eq_succ_of_ne_zero (n := fuel) (by omega)
      have hafter : Delimited following (close ++ (']' :: u)) :=
        delimited_blank hclose (delimited_cons (by simp [following]) u)
      have hread := hx n m _ hkeyed hafter (by omega)
      have hskip : skip (close ++ ']' :: u) = ']' :: u := by
        rw [skip_append hclose, skip_cons (by decide)]
      rw [tailOf, List.append_assoc, List.singleton_append, readItems, hread]
      simp only [Option.bind_eq_bind, Option.bind_some, hskip]
      rfl
  | cons y ys ih =>
      intro x hall fuel u hfuel
      obtain ⟨hx, hkeyed⟩ := hall x List.mem_cons_self
      simp only [tailOf, List.length_append, List.length_cons] at hfuel
      obtain ⟨m, rfl⟩ := Nat.exists_eq_succ_of_ne_zero (n := fuel) (by omega)
      have hafter : Delimited following (',' :: sep ++ (F n y ++
          tailOf (F n) (',' :: sep) (close ++ [']']) ys) ++ u) :=
        delimited_cons (by simp [following]) _
      have hread := hx n m _ hkeyed hafter (by omega)
      have hrest := ih (x := y) (fun z hz ↦ hall z (List.mem_cons_of_mem x hz)) m (u := u) (by
        rw [List.length_append]
        omega)
      have hskip : skip (sep ++ (F n y ++ (tailOf (F n) (',' :: sep) (close ++ [']']) ys ++ u))) =
          F n y ++ (tailOf (F n) (',' :: sep) (close ++ [']']) ys ++ u) := by
        rw [skip_append hsep, hF.skip_text h]
      rw [tailOf, readItems, hread]
      simp only [Option.bind_eq_bind, Option.bind_some, List.cons_append, List.append_assoc,
        skip_cons (show isBlank ',' = false by decide), hskip, hrest]
      rfl

theorem reads_arr {xs : List Json} (hxs : ∀ x ∈ xs, Reads readFloat F x) :
    Reads readFloat F (Json.arr xs) := by
  intro n fuel u hkeyed hu hfuel
  obtain ⟨lead, sep, close, hlead, hsep, hclose, harr⟩ := hF.arr n
  rw [harr xs] at hfuel ⊢
  obtain ⟨m, rfl⟩ := Nat.exists_eq_succ_of_ne_zero (n := fuel) (by
    rw [List.length_cons] at hfuel
    omega)
  cases xs with
  | nil =>
      rw [listOf, List.cons_append, List.singleton_append, readValue]
      simp only [skip_cons (show isBlank ']' = false by decide)]
  | cons x xs =>
      have hall : ∀ y ∈ x :: xs, Reads readFloat F y ∧ keyed y = true := fun y hy ↦
        ⟨hxs y hy, keyed_arr.mp hkeyed y hy⟩
      simp only [listOf, List.length_cons, List.length_append] at hfuel
      have hitems := hF.reads_items h hsep hclose (n + 1) hall m (u := u) (by
        rw [List.length_append]
        omega)
      have hskip : skip (lead ++ (F (n + 1) x ++ (tailOf (F (n + 1)) (',' :: sep)
          (close ++ [']']) xs ++ u))) = F (n + 1) x ++ (tailOf (F (n + 1)) (',' :: sep)
            (close ++ [']']) xs ++ u) := by
        rw [skip_append hlead, hF.skip_text h]
      obtain ⟨c, rest, htext, _, hbracket⟩ := hF.starts h (n + 1) x
      rw [listOf, List.cons_append, readValue]
      simp only [List.append_assoc, hskip]
      rw [htext, List.cons_append] at hitems ⊢
      split
      · rename_i heq
        exact absurd (List.cons.inj heq).1 hbracket
      · rw [hitems]
        rfl

/-- The entries of a dictionary from the first key on. -/
theorem reads_entries {sep close colon : List Char} (hsep : Blank sep) (hclose : Blank close)
    (hcolon : Blank colon) (n : ℕ) {g : String × Json → List Char}
    (hg : ∀ kv, g kv = (quote ascii kv.1).toList ++ (':' :: colon ++ F n kv.2))
    {kvs : List (String × Json)} :
    ∀ (kv : String × Json),
      (∀ e ∈ kv :: kvs, Reads readFloat F e.2 ∧ keyed e.2 = true) →
      ∀ (fuel : ℕ) {u : List Char},
        2 * (g kv ++ tailOf g (',' :: sep) (close ++ ['\x7d']) kvs).length ≤ fuel →
        readEntries readFloat fuel
          (g kv ++ (tailOf g (',' :: sep) (close ++ ['\x7d']) kvs ++ u)) =
            some (kv :: kvs, u) := by
  -- the entry up to its value
  have hentry (kv : String × Json) (hread : Reads readFloat F kv.2) (hkeyed : keyed kv.2 = true)
      (m : ℕ) (v : List Char) (hv : Delimited following v)
      (hm : 2 * (F n kv.2).length ≤ m) :
      ∃ text, g kv ++ v = '"' :: text ∧ ∃ rest, scanString text = some (kv.1, rest) ∧
        ∃ more, skip rest = ':' :: more ∧
          readValue readFloat m (skip more) = some (kv.2, v) := by
    have hquote := toList_quoted ascii kv.1
    refine ⟨_, ?_, _, scanString_quote ascii kv.1 hquote (':' :: colon ++ F n kv.2 ++ v),
      colon ++ (F n kv.2 ++ v), ?_, ?_⟩
    · rw [hg, hquote]
      simp only [List.cons_append, List.append_assoc]
    · simp only [List.cons_append, List.append_assoc]
      exact skip_cons (by decide) _
    · rw [skip_append hcolon, hF.skip_text h]
      exact hread n m v hkeyed hv hm
  induction kvs with
  | nil =>
      intro kv hall fuel u hfuel
      obtain ⟨hread, hkeyed⟩ := hall kv List.mem_cons_self
      simp only [tailOf, hg, List.length_append, List.length_cons] at hfuel
      obtain ⟨m, rfl⟩ := Nat.exists_eq_succ_of_ne_zero (n := fuel) (by omega)
      have hafter : Delimited following (close ++ ('\x7d' :: u)) :=
        delimited_blank hclose (delimited_cons (by simp [following]) u)
      obtain ⟨text, htext, rest, hkey, more, hmore, hvalue⟩ :=
        hentry kv hread hkeyed m _ hafter (by omega)
      have hskip : skip (close ++ '\x7d' :: u) = '\x7d' :: u := by
        rw [skip_append hclose, skip_cons (by decide)]
      rw [tailOf, List.append_assoc, List.singleton_append, htext, readEntries]
      simp only [Option.bind_eq_bind, Option.bind_some, hkey, hmore, hvalue, hskip]
      rfl
  | cons e kvs ih =>
      intro kv hall fuel u hfuel
      obtain ⟨hread, hkeyed⟩ := hall kv List.mem_cons_self
      simp only [tailOf, hg kv, List.length_append, List.length_cons] at hfuel
      obtain ⟨m, rfl⟩ := Nat.exists_eq_succ_of_ne_zero (n := fuel) (by omega)
      have hafter : Delimited following (',' :: sep ++ (g e ++
          tailOf g (',' :: sep) (close ++ ['\x7d']) kvs) ++ u) :=
        delimited_cons (by simp [following]) _
      obtain ⟨text, htext, rest, hkey, more, hmore, hvalue⟩ :=
        hentry kv hread hkeyed m _ hafter (by omega)
      have hrest := ih e (fun e' he' ↦ hall e' (List.mem_cons_of_mem kv he')) m (u := u) (by
        rw [List.length_append]
        omega)
      have hskip : skip (sep ++ (g e ++ (tailOf g (',' :: sep) (close ++ ['\x7d']) kvs ++ u))) =
          g e ++ (tailOf g (',' :: sep) (close ++ ['\x7d']) kvs ++ u) := by
        rw [skip_append hsep, hg e, toList_quoted]
        exact skip_cons (by decide) _
      rw [tailOf, htext, readEntries]
      simp only [Option.bind_eq_bind, Option.bind_some, hkey, hmore, hvalue, List.cons_append,
        List.append_assoc, skip_cons (show isBlank ',' = false by decide), hskip, hrest]
      rfl

theorem reads_obj {kvs : List (String × Json)} (hkvs : ∀ kv ∈ kvs, Reads readFloat F kv.2) :
    Reads readFloat F (Json.obj kvs) := by
  intro n fuel u hkeyed hu hfuel
  obtain ⟨lead, sep, close, colon, hlead, hsep, hclose, hcolon, hobj⟩ := hF.obj n
  rw [hobj kvs] at hfuel ⊢
  obtain ⟨m, rfl⟩ := Nat.exists_eq_succ_of_ne_zero (n := fuel) (by
    rw [List.length_cons] at hfuel
    omega)
  obtain ⟨hnodup, hvalues⟩ := keyed_obj.mp hkeyed
  cases kvs with
  | nil =>
      rw [listOf, List.cons_append, List.singleton_append, readValue]
      simp only [skip_cons (show isBlank '\x7d' = false by decide)]
  | cons kv kvs =>
      have hall : ∀ e ∈ kv :: kvs, Reads readFloat F e.2 ∧ keyed e.2 = true := fun e he ↦
        ⟨hkvs e he, hvalues e he⟩
      generalize hg : (fun kv : String × Json ↦ (quote ascii kv.1).toList ++
        (':' :: colon ++ F (n + 1) kv.2)) = g at hfuel ⊢
      rw [listOf] at hfuel ⊢
      have hentries := hF.reads_entries h hsep hclose hcolon (n + 1) (g := g)
        (fun kv ↦ (congrFun hg kv).symm) kv hall m (u := u) (by
          simp only [List.length_cons, List.length_append] at hfuel ⊢
          omega)
      have hopen : ∃ text, g kv = '"' :: text := by
        rw [← congrFun hg kv, toList_quoted]
        exact ⟨_, rfl⟩
      obtain ⟨text, htext⟩ := hopen
      have hskip : skip (lead ++ (g kv ++ (tailOf g (',' :: sep) (close ++ ['\x7d']) kvs ++ u))) =
          g kv ++ (tailOf g (',' :: sep) (close ++ ['\x7d']) kvs ++ u) := by
        rw [skip_append hlead, htext]
        exact skip_cons (by decide) _
      rw [List.cons_append, readValue]
      simp only [List.append_assoc, hskip]
      rw [htext, List.cons_append] at hentries ⊢
      split
      · rename_i heq
        exact absurd (List.cons.inj heq).1 (by decide)
      · rw [hentries, Option.map_some, asDict_of_nodup hnodup]

end Layout

mutual

theorem Layout.reads {floatRepr : PyFloat → String} {ascii : Bool} {F : ℕ → Json → List Char}
    (h : FloatsRead readFloat floatRepr) (hF : Layout floatRepr ascii F) :
    ∀ x : Json, Reads readFloat F x
  | .null => hF.reads_atomic h rfl
  | .bool _ => hF.reads_atomic h rfl
  | .int _ => hF.reads_atomic h rfl
  | .float _ => hF.reads_atomic h rfl
  | .str s => hF.reads_str s
  | .arr xs => hF.reads_arr h (Layout.reads_each h hF xs)
  | .obj kvs => hF.reads_obj h (Layout.reads_values h hF kvs)

theorem Layout.reads_each {floatRepr : PyFloat → String} {ascii : Bool}
    {F : ℕ → Json → List Char} (h : FloatsRead readFloat floatRepr)
    (hF : Layout floatRepr ascii F) : ∀ xs : List Json, ∀ x ∈ xs, Reads readFloat F x
  | [] => by simp
  | x :: xs => List.forall_mem_cons.mpr ⟨Layout.reads h hF x, Layout.reads_each h hF xs⟩

theorem Layout.reads_values {floatRepr : PyFloat → String} {ascii : Bool}
    {F : ℕ → Json → List Char} (h : FloatsRead readFloat floatRepr)
    (hF : Layout floatRepr ascii F) :
    ∀ kvs : List (String × Json), ∀ kv ∈ kvs, Reads readFloat F kv.2
  | [] => by simp
  | (_, x) :: kvs => List.forall_mem_cons.mpr ⟨Layout.reads h hF x, Layout.reads_values h hF kvs⟩

end

/-- A text that is laid out as `x`, with or without white space behind it,
loads as `x`. -/
theorem Layout.loads {floatRepr : PyFloat → String} {ascii : Bool} {F : ℕ → Json → List Char}
    (h : FloatsRead readFloat floatRepr) (hF : Layout floatRepr ascii F) {x : Json}
    (hx : keyed x = true) {n : ℕ} {text : String} {w : List Char} (hw : Blank w)
    (htext : text.toList = F n x ++ w) : Json.loads readFloat text = some x := by
  have hafter : Delimited following w := by
    have hblank := delimited_blank hw (delimited_nil following)
    rwa [List.append_nil] at hblank
  have hread := hF.reads h x n (2 * (F n x ++ w).length) w hx hafter (by
    rw [List.length_append]
    omega)
  have hend : skip w = [] := by
    have hall := skip_append hw []
    rwa [List.append_nil] at hall
  unfold Json.loads
  rw [htext, hF.skip_text h, hread]
  exact if_pos hend

/-! ## The layouts of `json.dumps` -/

section Written

variable (floatRepr : PyFloat → String)

/-- Separators are a comma or a colon and blanks. -/
structure DumpOptions.Spaced (o : DumpOptions) : Prop where
  item : ∃ sep, Blank sep ∧ o.itemSep.toList = ',' :: sep
  key : ∃ colon, Blank colon ∧ o.keySep.toList = ':' :: colon

theorem layout_dumps (o : DumpOptions) (hsort : o.sortKeys = false) (ho : o.Spaced) :
    Layout floatRepr o.ensureAscii fun _ x ↦ (dumps floatRepr o x).toList where
  atom _ x hx := by
    cases x with
    | null => rfl
    | bool b => cases b <;> rfl
    | int z => rfl
    | float y => rfl
    | _ => simp [atomic] at hx
  str _ s := by rw [dumps]
  arr _ := by
    obtain ⟨sep, hsep, hitem⟩ := ho.item
    refine ⟨[], sep, [], by simp [Blank], hsep, by simp [Blank], fun xs ↦ ?_⟩
    have hitems : (xs.map (dumps floatRepr o)).map String.toList =
        xs.map fun x ↦ (dumps floatRepr o x).toList := by simp [Function.comp_def]
    have htext : (dumps floatRepr o (arr xs)).toList = '[' :: ((',' :: sep).intercalate
        (xs.map fun x ↦ (dumps floatRepr o x).toList) ++ [']']) := by
      rw [dumps, dumpsItems_eq, ← hitems, ← hitem]
      simp [String.toList_intercalate]
    rw [htext]
    cases xs with
    | nil => rfl
    | cons x xs => rw [listOf_cons, List.nil_append, List.nil_append]
  obj _ := by
    obtain ⟨sep, hsep, hitem⟩ := ho.item
    obtain ⟨colon, hcolon, hkey⟩ := ho.key
    refine ⟨[], sep, [], colon, by simp [Blank], hsep, by simp [Blank], hcolon, fun kvs ↦ ?_⟩
    have hentries : (kvs.map fun kv ↦ quote o.ensureAscii kv.1 ++ o.keySep ++
        dumps floatRepr o kv.2).map String.toList = kvs.map fun kv ↦
          (quote o.ensureAscii kv.1).toList ++
            (':' :: colon ++ (dumps floatRepr o kv.2).toList) := by
      simp [Function.comp_def, hkey]
    have htext : (dumps floatRepr o (obj kvs)).toList = '\x7b' :: ((',' :: sep).intercalate
        (kvs.map fun kv ↦ (quote o.ensureAscii kv.1).toList ++
          (':' :: colon ++ (dumps floatRepr o kv.2).toList)) ++ ['\x7d']) := by
      rw [dumps, dumpsPairs_eq, ← hentries, ← hitem]
      simp [hsort, String.toList_intercalate, Function.comp_def]
    rw [htext]
    cases kvs with
    | nil => rfl
    | cons kv kvs => rw [listOf_cons, List.nil_append, List.nil_append]

theorem blank_newline (level : ℕ) : Blank (newline level).toList := by
  intro c hc
  simp only [newline, String.toList_append, String.toList_ofList, List.mem_append] at hc
  rcases hc with hc | hc
  · obtain rfl : c = '\n' := by simpa using hc
    decide
  · obtain rfl := List.eq_of_mem_replicate hc
    decide

theorem layout_indent :
    Layout floatRepr true fun n x ↦ (dumpsIndent floatRepr n x).toList where
  atom _ x hx := by
    cases x with
    | null => rfl
    | bool b => cases b <;> rfl
    | int z => rfl
    | float y => rfl
    | _ => simp [atomic] at hx
  str _ s := rfl
  arr n := by
    refine ⟨(newline (n + 1)).toList, (newline (n + 1)).toList, (newline n).toList,
      blank_newline _, blank_newline _, blank_newline _, fun xs ↦ ?_⟩
    cases xs with
    | nil => simp [dumpsIndent, listOf]
    | cons x xs =>
        rw [listOf_cons, dumpsIndent, dumpsIndentItems_eq]
        · simp [String.toList_intercalate, Function.comp_def]
        · simp
  obj n := by
    refine ⟨(newline (n + 1)).toList, (newline (n + 1)).toList, (newline n).toList, [' '],
      blank_newline _, blank_newline _, blank_newline _, by simp [Blank, isBlank], fun kvs ↦ ?_⟩
    cases kvs with
    | nil => simp [dumpsIndent, listOf]
    | cons kv kvs =>
        have hentries : ((kv :: kvs).map fun kv ↦ quote true kv.1 ++ ": " ++
            dumpsIndent floatRepr (n + 1) kv.2).map String.toList =
              (kv :: kvs).map fun kv ↦ (quote true kv.1).toList ++
                (':' :: [' '] ++ (dumpsIndent floatRepr (n + 1) kv.2).toList) := by
          simp [Function.comp_def]
        rw [listOf_cons, dumpsIndent, dumpsIndentPairs_eq]
        · simp only [String.toList_append, String.toList_intercalate, hentries]
          simp
        · simp

end Written

/-! ## One value on each line -/

/-- No control character, and so no end of a line. -/
def Printable (w : List Char) : Prop :=
  ∀ c ∈ w, 32 ≤ c.toNat

theorem Printable.append {v w : List Char} (hv : Printable v) (hw : Printable w) :
    Printable (v ++ w) := by
  intro c hc
  rcases List.mem_append.mp hc with hc | hc
  · exact hv c hc
  · exact hw c hc

theorem Printable.intercalate {sep : List Char} {ws : List (List Char)} (hsep : Printable sep)
    (hws : ∀ w ∈ ws, Printable w) : Printable (sep.intercalate ws) := by
  induction ws with
  | nil => simp [Printable]
  | cons w ws ih =>
      have hw : Printable w := hws w List.mem_cons_self
      cases ws with
      | nil => simpa using hw
      | cons v ws =>
          rw [List.intercalate_cons_cons]
          exact (hw.append hsep).append (ih fun u hu ↦ hws u (List.mem_cons_of_mem w hu))

theorem printable_hexDigit (n : ℕ) : 32 ≤ (hexDigit (n % 16)).toNat := by
  have hlt : n % 16 < 16 := Nat.mod_lt n (by norm_num)
  interval_cases n % 16 <;> decide

theorem printable_unicodeEscape (n : ℕ) : Printable (unicodeEscape n).toList := by
  intro c hc
  rw [toList_unicodeEscape] at hc
  simp only [List.mem_cons, List.not_mem_nil, or_false] at hc
  rcases hc with rfl | rfl | rfl | rfl | rfl | rfl
  · decide
  · decide
  all_goals exact printable_hexDigit _

theorem printable_escapeChar (ascii : Bool) (c : Char) :
    Printable (escapeChar ascii c).toList := by
  have hword (w : String) (hw : (w.toList.all fun c ↦ 32 ≤ c.toNat) = true) :
      Printable w.toList := fun d hd ↦ of_decide_eq_true (List.all_eq_true.mp hw d hd)
  unfold escapeChar
  split
  · exact hword _ (by decide)
  split
  · exact hword _ (by decide)
  split
  · exact hword _ (by decide)
  split
  · exact hword _ (by decide)
  split
  · exact hword _ (by decide)
  split
  · exact hword _ (by decide)
  split
  · exact hword _ (by decide)
  split
  · split
    · exact printable_unicodeEscape _
    · rw [String.toList_append]
      exact (printable_unicodeEscape _).append (printable_unicodeEscape _)
  · rename_i hprintable
    intro d hd
    obtain rfl : d = c := by simpa using hd
    exact not_lt.mp fun hlt ↦ hprintable (Or.inl hlt)

theorem printable_quote (ascii : Bool) (s : String) : Printable (quote ascii s).toList := by
  intro c hc
  rw [toList_quoted, List.mem_cons, List.mem_append, List.mem_flatMap,
    List.mem_singleton] at hc
  rcases hc with rfl | ⟨d, _, hc⟩ | rfl
  · decide
  · exact printable_escapeChar ascii d c hc
  · decide

theorem printable_digits {w : List Char} (h : Digits w) : Printable w := by
  intro c hc
  have hdigit := h c hc
  simp only [Char.isDigit, Bool.and_eq_true, decide_eq_true_eq] at hdigit
  have hlow : 48 ≤ c.toNat := hdigit.1
  omega

theorem printable_int (z : ℤ) : Printable (Int.repr z).toList := by
  intro c hc
  have hincl : "0123456789-".toList.all (fun c ↦ 32 ≤ c.toNat) = true := by decide
  exact of_decide_eq_true (List.all_eq_true.mp hincl c (chars_int z c hc))

theorem printable_literal {w : List Char} (h : FloatLiteral w) : Printable w := by
  obtain ⟨sign, whole, fraction, exponent, rfl, hsign, hwhole, hfraction, hexponent, _⟩ := h
  have hsigned {v : List Char} (hv : v = [] ∨ v = ['-'] ∨ v = ['+']) : Printable v := by
    rcases hv with rfl | rfl | rfl <;> simp [Printable]
  have hpoint : Printable whole := by
    rcases hwhole with rfl | ⟨c, ds, rfl, _, hdigits⟩
    · simp [Printable]
    · exact printable_digits hdigits
  have htail : Printable fraction := by
    rcases hfraction with rfl | ⟨ds, rfl, _, hdigits⟩
    · simp [Printable]
    · exact List.forall_mem_cons.mpr ⟨by decide, printable_digits hdigits⟩
  have hpower : Printable exponent := by
    rcases hexponent with rfl | ⟨e, sign, ds, rfl, he, hsign, _, hdigits⟩
    · simp [Printable]
    · refine List.forall_mem_cons.mpr ⟨?_, (hsigned hsign).append (printable_digits hdigits)⟩
      rcases he with rfl | rfl <;> decide
  exact (hsigned (hsign.imp_right Or.inl)).append (hpoint.append (htail.append hpower))

section OneLine

variable {floatRepr : PyFloat → String} {o : DumpOptions}

theorem printable_float (h : FloatsRead readFloat floatRepr) (x : PyFloat) :
    Printable (floatRepr x).toList := by
  cases x with
  | finite q => exact printable_literal (h.literal q)
  | posInf =>
      rw [h.posInf]
      simp [Printable]
  | negInf =>
      rw [h.negInf]
      simp [Printable]
  | nan =>
      rw [h.nan]
      simp [Printable]

/-- No separator ends the line. -/
structure DumpOptions.Inline (o : DumpOptions) : Prop where
  sort : o.sortKeys = false
  item : Printable o.itemSep.toList
  key : Printable o.keySep.toList

mutual

/-- A value takes one line. -/
theorem printable_dumps (h : FloatsRead readFloat floatRepr) (ho : o.Inline) :
    ∀ x : Json, Printable (dumps floatRepr o x).toList
  | .null => by simp [dumps, Printable]
  | .bool b => by cases b <;> simp [dumps, Printable]
  | .int z => printable_int z
  | .float x => printable_float h x
  | .str s => printable_quote o.ensureAscii s
  | .arr xs => by
      have hitems := printable_dumps_items h ho xs
      have hone (c : Char) (hc : 32 ≤ c.toNat) : Printable [c] := by simpa [Printable] using hc
      rw [dumps, dumpsItems_eq, String.toList_append, String.toList_append,
        String.toList_intercalate]
      refine ((hone '[' (by decide)).append (ho.item.intercalate ?_)).append (hone ']' (by decide))
      simpa using hitems
  | .obj kvs => by
      have hentries := printable_dumps_entries h ho kvs
      have hone (c : Char) (hc : 32 ≤ c.toNat) : Printable [c] := by simpa [Printable] using hc
      rw [dumps, dumpsPairs_eq, if_neg (by simp [ho.sort]), String.toList_append,
        String.toList_append, String.toList_intercalate]
      refine ((hone '\x7b' (by decide)).append (ho.item.intercalate ?_)).append
        (hone '\x7d' (by decide))
      intro w hw
      obtain ⟨entry, hentry, rfl⟩ := List.mem_map.mp hw
      simp only [List.map_map, List.mem_map, Function.comp_apply] at hentry
      obtain ⟨kv, hkv, rfl⟩ := hentry
      rw [String.toList_append, String.toList_append]
      exact ((printable_quote o.ensureAscii kv.1).append ho.key).append (hentries kv hkv)

theorem printable_dumps_items (h : FloatsRead readFloat floatRepr) (ho : o.Inline) :
    ∀ xs : List Json, ∀ x ∈ xs, Printable (dumps floatRepr o x).toList
  | [] => by simp
  | x :: xs => List.forall_mem_cons.mpr ⟨printable_dumps h ho x, printable_dumps_items h ho xs⟩

theorem printable_dumps_entries (h : FloatsRead readFloat floatRepr) (ho : o.Inline) :
    ∀ kvs : List (String × Json), ∀ kv ∈ kvs, Printable (dumps floatRepr o kv.2).toList
  | [] => by simp
  | (_, x) :: kvs =>
      List.forall_mem_cons.mpr ⟨printable_dumps h ho x, printable_dumps_entries h ho kvs⟩

end

end OneLine

/-- `for line in f` with universal newlines: a line keeps its end, as `\n`. -/
def linesFrom (line : List Char) : List Char → List (List Char)
  | [] => if line = [] then [] else [line]
  | '\r' :: '\n' :: text => (line ++ ['\n']) :: linesFrom [] text
  | '\r' :: text => (line ++ ['\n']) :: linesFrom [] text
  | '\n' :: text => (line ++ ['\n']) :: linesFrom [] text
  | c :: text => linesFrom (line ++ [c]) text

/-- A printable line ends where it was ended. -/
theorem linesFrom_append {w : List Char} (h : Printable w) (line text : List Char) :
    linesFrom line (w ++ '\n' :: text) = (line ++ w ++ ['\n']) :: linesFrom [] text := by
  induction w generalizing line with
  | nil => simp [linesFrom]
  | cons c w ih =>
      have hc : 32 ≤ c.toNat := h c List.mem_cons_self
      have hreturn : c ≠ '\r' := by
        rintro rfl
        exact absurd hc (by decide)
      have hnewline : c ≠ '\n' := by
        rintro rfl
        exact absurd hc (by decide)
      rw [List.cons_append, linesFrom]
      · rw [ih fun d hd ↦ h d (List.mem_cons_of_mem c hd)]
        simp
      · rintro _ rfl
        exact absurd rfl hreturn
      · rintro rfl
        exact absurd rfl hreturn
      · rintro rfl
        exact absurd rfl hnewline

/-- `[json.loads(line) for line in f]`. -/
def loadLines (readFloat : String → Option PyFloat) (text : String) : Option (List Json) :=
  (linesFrom [] text.toList).mapM fun line ↦ loads readFloat (String.ofList line)

section RoundTrip

variable {floatRepr : PyFloat → String} (h : FloatsRead readFloat floatRepr)
include h

theorem loads_dumpsIndent {x : Json} (hx : keyed x = true) :
    loads readFloat (dumpsIndent floatRepr 0 x) = some x :=
  (layout_indent floatRepr).loads h hx (n := 0) (w := []) (by simp [Blank]) (by simp)

/-- A file of one value on each line is read back. -/
theorem loadLines_dumps {o : DumpOptions} (hspaced : o.Spaced) (ho : o.Inline) {xs : List Json}
    (hxs : ∀ x ∈ xs, keyed x = true) :
    loadLines readFloat (String.join (xs.map fun x ↦ dumps floatRepr o x ++ "\n")) = some xs := by
  induction xs with
  | nil => rfl
  | cons x xs ih =>
      have hx : keyed x = true := hxs x List.mem_cons_self
      have hrest := ih fun y hy ↦ hxs y (List.mem_cons_of_mem x hy)
      have hline : linesFrom [] (String.join ((x :: xs).map fun x ↦
          dumps floatRepr o x ++ "\n")).toList = ((dumps floatRepr o x).toList ++ ['\n']) ::
            linesFrom [] (String.join (xs.map fun x ↦ dumps floatRepr o x ++ "\n")).toList := by
        have hsplit := linesFrom_append (printable_dumps h ho x) []
          (String.join (xs.map fun x ↦ dumps floatRepr o x ++ "\n")).toList
        simpa [String.toList_join] using hsplit
      have hread : loads readFloat (String.ofList ((dumps floatRepr o x).toList ++ ['\n'])) =
          some x :=
        (layout_dumps floatRepr o ho.sort hspaced).loads h hx (n := 0) (w := ['\n'])
          (by simp [Blank, isBlank]) (by simp)
      unfold loadLines at hrest ⊢
      rw [hline, List.mapM_cons, hread, hrest]
      rfl

end RoundTrip

end Json

end HumanDataFactory
