import HumanDataFactory.RateLimit

/-!
# What the limiter remembers

The table of counts against the calls that were made: what it says of a window,
what it forgets, and what a rejected caller is told to wait.
-/

namespace HumanDataFactory

namespace RateLimit

/-- A call of `hit`. -/
structure Call where
  now : ℚ
  key : String
  deriving DecidableEq, Repr

/-- The limiter before its first call. -/
def fresh : FixedWindow :=
  ⟨∅⟩

variable (limit : ℤ)

def FixedWindow.after (fw : FixedWindow) (calls : List Call) : FixedWindow :=
  calls.foldl (fun fw c ↦ (fw.hit c.now c.key limit).2) fw

theorem after_append (fw : FixedWindow) (calls : List Call) (c : Call) :
    fw.after limit (calls ++ [c]) = ((fw.after limit calls).hit c.now c.key limit).2 := by
  simp [FixedWindow.after]

/-- How many of the calls are of the key and in the window. -/
def made (calls : List Call) (window : ℤ) (key : String) : ℕ :=
  calls.countP fun c ↦ windowOf c.now = window ∧ c.key = key

/-- One call after the other, by the clock. -/
def InOrder (calls : List Call) : Prop :=
  calls.Pairwise fun c d ↦ c.now ≤ d.now

instance (calls : List Call) : Decidable (InOrder calls) :=
  inferInstanceAs (Decidable (List.Pairwise _ _))

theorem windowOf_mono {s t : ℚ} (h : s ≤ t) : windowOf s ≤ windowOf t := by
  apply Int.floor_mono
  linarith

variable (fw : FixedWindow) (now : ℚ) (key : String)

/-- The table with the call counted. -/
def FixedWindow.counted : Counts :=
  fw.counts.insert key (windowOf now, fw.spent (windowOf now) key + 1)

/-- A call is counted, and where that makes the table too large the entries of
other windows are dropped. -/
theorem counts_hit :
    ((fw.hit now key limit).2.counts = fw.counted now key ∧
        (fw.counted now key).entries.length ≤ 10000) ∨
      (fw.hit now key limit).2.counts = inWindow (windowOf now) (fw.counted now key) := by
  have hhit : (fw.hit now key limit).2.counts =
      if 10000 < (fw.counted now key).entries.length then
        inWindow (windowOf now) (fw.counted now key) else fw.counted now key := by
    unfold FixedWindow.hit
    simp only [count_of_lookup]
    rfl
  by_cases hlarge : 10000 < (fw.counted now key).entries.length
  · rw [if_pos hlarge] at hhit
    exact .inr hhit
  · rw [if_neg hlarge] at hhit
    exact .inl ⟨hhit, by omega⟩

theorem spent_inWindow_le (window window' : ℤ) (counts : Counts) (k : String) :
    (FixedWindow.mk (inWindow window counts)).spent window' k ≤
      (FixedWindow.mk counts).spent window' k := by
  unfold FixedWindow.spent
  rw [lookup_inWindow]
  cases counts.lookup k with
  | none => exact le_refl 0
  | some entry => by_cases h : entry.1 = window <;> simp [Option.filter, h, countIn]

theorem spent_hit_le (window : ℤ) (k : String) :
    (fw.hit now key limit).2.spent window k ≤
      (FixedWindow.mk (fw.counted now key)).spent window k := by
  have hcounts : (fw.hit now key limit).2 = ⟨(fw.hit now key limit).2.counts⟩ := rfl
  rw [hcounts]
  rcases counts_hit limit fw now key with ⟨hkept, -⟩ | hdropped
  · rw [hkept]
  · rw [hdropped]
    exact spent_inWindow_le ..

/-- The count of a key that is not called can only be forgotten. -/
theorem spent_hit_of_ne (window : ℤ) {k : String} (h : k ≠ key) :
    (fw.hit now key limit).2.spent window k ≤ fw.spent window k := by
  refine (spent_hit_le limit fw now key window k).trans (le_of_eq ?_)
  simp only [FixedWindow.spent, FixedWindow.counted, AList.lookup_insert_ne h]

/-- A key that is called has no count in other windows. -/
theorem spent_hit_self {window : ℤ} (h : window ≠ windowOf now) :
    (fw.hit now key limit).2.spent window key = 0 := by
  apply Nat.eq_zero_of_le_zero
  refine (spent_hit_le limit fw now key window key).trans (le_of_eq ?_)
  simp [FixedWindow.spent, FixedWindow.counted, countIn, Ne.symm h]

theorem entries_hit : (fw.hit now key limit).2.counts.entries.length ≤ 10000 ∨
    ∀ entry ∈ (fw.hit now key limit).2.counts.entries, entry.2.1 = windowOf now := by
  rcases counts_hit limit fw now key with ⟨hkept, hsize⟩ | hdropped
  · rw [hkept]
    exact .inl hsize
  · rw [hdropped]
    exact .inr fun entry hentry ↦ of_decide_eq_true (List.mem_filter.mp hentry).2

variable {limit}

theorem made_append (calls : List Call) (c : Call) (window : ℤ) :
    made (calls ++ [c]) window =
      if windowOf c.now = window then Quota.charge (made calls window) c.key
      else made calls window := by
  funext k
  by_cases hwindow : windowOf c.now = window
  · by_cases hkey : c.key = k
    · subst hkey
      simp [made, List.countP_append, hwindow]
    · rw [if_pos hwindow, Quota.charge_of_ne _ (Ne.symm hkey)]
      simp [made, List.countP_append, hkey]
  · simp [made, List.countP_append, hwindow]

theorem made_eq_zero {calls : List Call} {window : ℤ}
    (h : ∀ c ∈ calls, windowOf c.now < window) (k : String) : made calls window k = 0 := by
  refine List.countP_eq_zero.mpr fun c hc ↦ ?_
  simp [(h c hc).ne]

/-- From the window of the last call on, the table holds how often each key was
called: nothing that still counts is dropped. -/
theorem spent_after {calls : List Call} (horder : InOrder calls) {window : ℤ}
    (hlast : ∀ c ∈ calls, windowOf c.now ≤ window) :
    (fresh.after limit calls).spent window = made calls window := by
  induction calls using List.reverseRecOn generalizing window with
  | nil => rfl
  | append_singleton calls c ih =>
      obtain ⟨horder, -, hbefore⟩ := List.pairwise_append.mp horder
      have hc : ∀ d ∈ calls, windowOf d.now ≤ windowOf c.now :=
        fun d hd ↦ windowOf_mono (hbefore d hd c (List.mem_singleton_self c))
      rw [after_append, made_append]
      by_cases hwindow : windowOf c.now = window
      · subst hwindow
        rw [if_pos rfl, spent_hit, ih horder hc]
      · have hlt : windowOf c.now < window :=
          lt_of_le_of_ne (hlast c (List.mem_append_right _ (List.mem_singleton_self c))) hwindow
        have hmade (k : String) : made calls window k = 0 :=
          made_eq_zero (fun d hd ↦ (hc d hd).trans_lt hlt) k
        have hspent : (fresh.after limit calls).spent window = made calls window :=
          ih horder fun d hd ↦ (hc d hd).trans hlt.le
        rw [if_neg hwindow]
        funext k
        by_cases hk : k = c.key
        · rw [hk, spent_hit_self limit _ _ _ (Ne.symm hwindow), hmade]
        · have hle := spent_hit_of_ne limit (fresh.after limit calls) c.now c.key window hk
          rw [hspent, hmade] at hle
          rw [hmade]
          omega

variable (limit) in
/-- A call is allowed exactly if fewer calls than the limit were made before it
with its key and in its window, and it leaves a table that is bounded or of its
window alone. -/
theorem window_exact (calls : List Call) (horder : InOrder calls) :
    ∀ past c rest, calls = past ++ c :: rest →
      (((fresh.after limit past).hit c.now c.key limit).1.allowed = true ↔
        (made past (windowOf c.now) c.key : ℤ) < limit) ∧
      (((fresh.after limit past).hit c.now c.key limit).2.counts.entries.length ≤ 10000 ∨
        ∀ entry ∈ ((fresh.after limit past).hit c.now c.key limit).2.counts.entries,
          entry.2.1 = windowOf c.now) := by
  rintro past c rest rfl
  obtain ⟨hpast, -, hbefore⟩ := List.pairwise_append.mp horder
  have hlast : ∀ d ∈ past, windowOf d.now ≤ windowOf c.now :=
    fun d hd ↦ windowOf_mono (hbefore d hd c List.mem_cons_self)
  refine ⟨?_, entries_hit ..⟩
  rw [hit_allowed, spent_after hpast hlast, decide_eq_true_iff]
  omega

/-- With a limit of one: a second call of the same minute is rejected, one of
another key or of the next minute is allowed. -/
theorem one_per_minute :
    ((fresh.after 1 [⟨0, "actor:ada"⟩, ⟨1, "actor:rae"⟩]).hit 2 "actor:ada" 1).1.allowed = false ∧
      ((fresh.after 1 [⟨0, "actor:ada"⟩]).hit 1 "actor:rae" 1).1.allowed = true ∧
      ((fresh.after 1 [⟨0, "actor:ada"⟩, ⟨1, "actor:rae"⟩, ⟨2, "actor:ada"⟩]).hit 60
        "actor:ada" 1).1.allowed = true := by
  have hexact := window_exact 1 [⟨0, "actor:ada"⟩, ⟨1, "actor:rae"⟩, ⟨2, "actor:ada"⟩,
    ⟨60, "actor:ada"⟩] (by decide +kernel)
  refine ⟨Bool.eq_false_iff.mpr fun h ↦ ?_, ?_, ?_⟩
  · exact absurd ((hexact [_, _] ⟨2, "actor:ada"⟩ [_] rfl).1.mp h) (by decide +kernel)
  · exact (hexact [_] ⟨1, "actor:rae"⟩ [_, _] rfl).1.mpr (by decide +kernel)
  · exact (hexact [_, _, _] ⟨60, "actor:ada"⟩ [] rfl).1.mpr (by decide +kernel)

variable (limit)

/-- `now % 60`. -/
def intoWindow (now : ℚ) : ℚ :=
  now - 60 * windowOf now

/-- The wait a call is told lies between a second and a minute, and the next
call of the key is allowed after it, whatever calls of other keys come between. -/
def HonestWait (limit : ℤ) (fw : FixedWindow) (now : ℚ) (key : String) : Prop :=
  (1 ≤ (fw.hit now key limit).1.resetIn ∧ (fw.hit now key limit).1.resetIn ≤ 60) ∧
    ∀ others : List Call, (∀ c ∈ others, c.key ≠ key) →
      ∀ now', now + (fw.hit now key limit).1.resetIn ≤ now' →
        (((fw.hit now key limit).2.after limit others).hit now' key limit).1.allowed = true

/-- The waits for which that is so: to the end of the window in whole seconds,
or in its last second. -/
def WholeSeconds (now : ℚ) : Prop :=
  now = ⌊now⌋ ∨ 59 < intoWindow now

theorem windowOf_eq_iff {now : ℚ} {window : ℤ} :
    windowOf now = window ↔ 60 * window ≤ now ∧ now < 60 * (window + 1) := by
  unfold windowOf
  rw [Int.floor_eq_iff, le_div_iff₀ (by norm_num), div_lt_iff₀ (by norm_num), mul_comm (window : ℚ),
    mul_comm ((window : ℚ) + 1)]

theorem resetIn_eq : (fw.hit now key limit).1.resetIn = max 1 ⌊60 - intoWindow now⌋ :=
  rfl

theorem intoWindow_bounds : 0 ≤ intoWindow now ∧ intoWindow now < 60 := by
  have hself : windowOf now = windowOf now := rfl
  obtain ⟨hle, hlt⟩ := windowOf_eq_iff.mp hself
  unfold intoWindow
  constructor
  · linarith
  · linarith

theorem resetIn_bounds : 1 ≤ (fw.hit now key limit).1.resetIn ∧
    (fw.hit now key limit).1.resetIn ≤ 60 := by
  have hfloor : ⌊60 - intoWindow now⌋ ≤ 60 := by
    apply Int.floor_le_iff.mpr
    have hpos := (intoWindow_bounds now).1
    push_cast
    linarith
  rw [resetIn_eq]
  omega

theorem rest_of_whole {now : ℚ} (h : now = ⌊now⌋) :
    60 - intoWindow now = ((60 - ⌊now⌋ + 60 * windowOf now : ℤ) : ℚ) := by
  unfold intoWindow
  push_cast
  linarith

theorem whole_of_rest {now : ℚ} {n : ℤ} (h : 60 - intoWindow now = n) : now = ⌊now⌋ := by
  have hnow : now = ((60 - n + 60 * windowOf now : ℤ) : ℚ) := by
    unfold intoWindow at h
    push_cast
    linarith
  rw [hnow, Int.floor_intCast]

/-- Where the wait reaches the next window. -/
theorem resetIn_reaches_iff :
    60 - intoWindow now ≤ (fw.hit now key limit).1.resetIn ↔ WholeSeconds now := by
  rw [resetIn_eq, Int.cast_max, Int.cast_one, le_max_iff]
  constructor
  · rintro (hone | hfloor)
    · by_cases hlast : 59 < intoWindow now
      · exact .inr hlast
      · have hrest : 60 - intoWindow now = ((1 : ℤ) : ℚ) := by
          push_cast
          linarith
        exact .inl (whole_of_rest hrest)
    · exact .inl (whole_of_rest (le_antisymm hfloor (Int.floor_le _)))
  · rintro (hwhole | hlast)
    · rw [rest_of_whole hwhole, Int.floor_intCast]
      exact .inr le_rfl
    · exact .inl (by linarith)

theorem windowOf_ne_of_reached {now now' : ℚ} (h : 60 - intoWindow now ≤ now' - now) :
    windowOf now' ≠ windowOf now := by
  intro heq
  have hlt := (windowOf_eq_iff.mp heq).2
  unfold intoWindow at h
  linarith

theorem windowOf_eq_of_not_reached {now r : ℚ} (hr : 0 ≤ r) (h : r < 60 - intoWindow now) :
    windowOf (now + r) = windowOf now := by
  have hself : windowOf now = windowOf now := rfl
  have hle := (windowOf_eq_iff.mp hself).1
  unfold intoWindow at h
  refine windowOf_eq_iff.mpr ⟨?_, ?_⟩
  · linarith
  · linarith

theorem spent_after_others {others : List Call} (h : ∀ c ∈ others, c.key ≠ key) (window : ℤ) :
    (fw.after limit others).spent window key ≤ fw.spent window key := by
  induction others using List.reverseRecOn with
  | nil => exact le_refl _
  | append_singleton others c ih =>
      have hc := h c (List.mem_append_right _ (List.mem_singleton_self c))
      rw [after_append]
      refine (spent_hit_of_ne limit _ c.now c.key window (Ne.symm hc)).trans (ih fun d hd ↦ ?_)
      exact h d (List.mem_append_left _ hd)

/-- A rejected call is told the truth exactly if what is left of the window is
whole seconds, or less than one. -/
theorem honestWait_iff {limit : ℤ} (hlimit : 1 ≤ limit) {fw : FixedWindow} {now : ℚ} {key : String}
    (hrejected : (fw.hit now key limit).1.allowed = false) :
    HonestWait limit fw now key ↔ WholeSeconds now := by
  rw [← resetIn_reaches_iff limit fw now key]
  constructor
  · intro hhonest
    by_contra hshort
    have hbounds := resetIn_bounds limit fw now key
    have hpos : (0 : ℚ) ≤ (fw.hit now key limit).1.resetIn := by
      exact_mod_cast hbounds.1.trans' zero_le_one
    have hwindow := windowOf_eq_of_not_reached hpos (not_le.mp hshort)
    have hallowed := hhonest.2 [] (by simp) _ le_rfl
    change (((fw.hit now key limit).2.hit _ key limit).1.allowed = true) at hallowed
    rw [hit_allowed, hwindow, spent_hit, Quota.charge_self, decide_eq_true_iff] at hallowed
    rw [hit_allowed, decide_eq_false_iff_not] at hrejected
    push_cast at hallowed hrejected
    omega
  · intro hreach
    refine ⟨resetIn_bounds limit fw now key, fun others hothers now' hnow' ↦ ?_⟩
    have hne : windowOf now' ≠ windowOf now := windowOf_ne_of_reached (by linarith)
    have hspent := spent_after_others limit (fw.hit now key limit).2 key hothers (windowOf now')
    rw [spent_hit_self limit fw now key hne] at hspent
    rw [hit_allowed, decide_eq_true_iff]
    omega

/-- After any history, a rejected call is told an honest wait exactly at these
times. -/
theorem retryAfter_honest_iff {limit : ℤ} (hlimit : 1 ≤ limit) (past : List Call) {now : ℚ}
    {key : String} (hrejected : ((fresh.after limit past).hit now key limit).1.allowed = false) :
    HonestWait limit (fresh.after limit past) now key ↔ WholeSeconds now :=
  honestWait_iff hlimit hrejected

theorem honest_at_ten : HonestWait 1 (fresh.after 1 [⟨0, "actor:ada"⟩]) 10 "actor:ada" :=
  (retryAfter_honest_iff (by decide) [⟨0, "actor:ada"⟩] (by decide +kernel)).mpr
    (.inl (by decide +kernel))

/-- Half a second into the minute: the rejected call is told to come back after
59 seconds, and is rejected again half a second before the minute is over. -/
theorem early_return :
    ((fresh.after 1 [⟨0, "actor:ada"⟩]).hit (1 / 2) "actor:ada" 1).1 = ⟨false, 59⟩ ∧
      ¬HonestWait 1 (fresh.after 1 [⟨0, "actor:ada"⟩]) (1 / 2) "actor:ada" := by
  refine ⟨by decide +kernel, fun hhonest ↦ ?_⟩
  exact absurd (hhonest.2 [] (by simp) (1 / 2 + 59) (by decide +kernel)) (by decide +kernel)

end RateLimit

end HumanDataFactory
