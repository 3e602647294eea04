import HumanDataFactory.Development
import HumanDataFactory.Quota
import Mathlib.Data.List.AList
import Mathlib.Data.List.DropRight
import Mathlib.Data.Rat.Floor

/-!
# Rate limiting

`ratelimit.py`: requests are counted in fixed windows of a minute, under an
identity the middleware reads from the raw headers.  Behind it `_resolve` reads
the same headers in its own way, so the limit holds for each API key and each
client only as far as the two readings agree.
-/

namespace HumanDataFactory

open Transact

namespace RateLimit

variable (env : Env)

def EXEMPT_PATHS : List String := ["/healthz"]

structure Request where
  path : String
  authorization : Option String
  xActorId : Option String
  /-- `request.client.host`, if there is a client. -/
  client : Option String
  deriving DecidableEq, Repr

/-- `int(now // 60)`. -/
def windowOf (now : ℚ) : ℤ :=
  ⌊now / 60⌋

/-- `_counts`: key -> (window, count). -/
abbrev Counts := AList fun _ : String ↦ ℤ × ℕ

/-- `{k: v for k, v in counts.items() if v[0] == window}`. -/
def inWindow (window : ℤ) (counts : Counts) : Counts :=
  ⟨counts.entries.filter fun entry ↦ entry.2.1 = window,
    counts.nodupKeys.sublist List.filter_sublist⟩

structure FixedWindow where
  counts : Counts

/-- Whether the hit is allowed, and the seconds until the next window. -/
structure Hit where
  allowed : Bool
  resetIn : ℤ
  deriving DecidableEq, Repr

def FixedWindow.hit (fw : FixedWindow) (now : ℚ) (key : String) (limit : ℤ) :
    Hit × FixedWindow :=
  let window := windowOf now
  let (prevWindow, count) := (fw.counts.lookup key).getD (window, 0)
  let count := (if prevWindow ≠ window then 0 else count) + 1
  let counts := fw.counts.insert key (window, count)
  let counts := if 10000 < counts.entries.length then inWindow window counts else counts
  (⟨decide (count ≤ limit), max 1 ⌊60 - (now - 60 * window)⌋⟩, ⟨counts⟩)

/-- `_identity`. -/
def identity (request : Request) : String :=
  match StripeGateway.truthyId request.authorization with
  | some authHeader => StripeGateway.take 32 (env.sha256 authHeader)
  | none =>
      match StripeGateway.truthyId request.xActorId with
      | some actor => s!"actor:{actor}"
      | none =>
          let client := request.client.getD "unknown"
          s!"ip:{client}"

structure JSONResponse where
  content : Json
  statusCode : ℕ
  headers : List (String × String)

/-- What the middleware does with a request. -/
inductive Outcome
  | callNext
  | refused (response : JSONResponse)

def Outcome.isCallNext : Outcome → Bool
  | .callNext => true
  | .refused _ => false

def dispatch (limit : ℤ) (fw : FixedWindow) (now : ℚ) (request : Request) :
    Outcome × FixedWindow :=
  if limit ≤ 0 ∨ request.path ∈ EXEMPT_PATHS then (.callNext, fw)
  else
    let (hit, fw') := fw.hit now (identity env request) limit
    if hit.allowed then (.callNext, fw')
    else (.refused {
      content := .obj [("detail", .str "rate limit exceeded"),
        ("retry_after_seconds", .int hit.resetIn)]
      statusCode := 429
      headers := [("Retry-After", toString hit.resetIn)] }, fw')

/-- A request, and the database as it is when the request would be answered. -/
structure Arrival where
  request : Request
  db : Db

/-- Who a request counts for: the API key that authenticates it, or the client
address it comes from without a valid key. -/
inductive Principal
  | apiKey (keyHash : String)
  | client (host : String)
  deriving DecidableEq, Repr

/-- The hash of the key that authenticates this header. -/
def authenticatedKey (s : Db) (authorization : Option String) : Option String :=
  ((authorization.bind (Auth.bearerToken env)).map (Auth.hashKey env)).filter fun keyHash ↦
    !(Auth.usersOfKey s keyHash).isEmpty

def principal (a : Arrival) : Option Principal :=
  match authenticatedKey env a.db a.request.authorization with
  | some keyHash => some (.apiKey keyHash)
  | none => a.request.client.map .client

/-- With keys required, the requests `_resolve` finds an actor for are those
with an authenticated key. -/
theorem resolve_ok_iff {env : Env} (henabled : env.authDisabled = false) (s : Db)
    (authorization xActorId : Option String) :
    (∃ actor, (Auth.resolve env authorization xActorId).answer s = some (.ok actor)) ↔
      (authenticatedKey env s authorization).isSome = true := by
  unfold Auth.resolve authenticatedKey
  rw [if_neg (by simp [henabled]), Prog.answer_getSome_bind]
  cases htoken : authorization.bind (Auth.bearerToken env) with
  | none => simp
  | some token =>
      simp only [Option.elim_some, Prog.answer_select_bind, Prog.answer_getSome_bind,
        Option.map_some, Option.isSome_filter]
      cases hfound : Auth.usersOfKey s (Auth.hashKey env token) with
      | nil => simp [hfound]
      | cons user users => simp [hfound]

/-- A key is the principal of the arrivals that `_resolve` finds an actor for. -/
theorem principal_apiKey_iff {env : Env} (henabled : env.authDisabled = false) (a : Arrival) :
    (∃ keyHash, principal env a = some (.apiKey keyHash)) ↔ ∃ actor,
      (Auth.resolve env a.request.authorization a.request.xActorId).answer a.db =
        some (.ok actor) := by
  rw [resolve_ok_iff henabled, principal]
  cases authenticatedKey env a.db a.request.authorization with
  | some keyHash => simp
  | none => cases a.request.client <;> simp

/-- The arrivals of a timed sequence that reach the application. -/
def passed (limit : ℤ) : FixedWindow → List (ℚ × Arrival) → List Arrival
  | _, [] => []
  | fw, (now, a) :: rest =>
      let (outcome, fw') := dispatch env limit fw now a.request
      if outcome.isCallNext then a :: passed limit fw' rest else passed limit fw' rest

def Exempt (a : Arrival) : Prop :=
  a.request.path ∈ EXEMPT_PATHS

instance (a : Arrival) : Decidable (Exempt a) :=
  inferInstanceAs (Decidable (_ ∈ EXEMPT_PATHS))

/-- At most `limit` requests of each principal pass, exempt paths aside. -/
def HoldsPerPrincipal (limit : ℤ) (fw : FixedWindow) (arrivals : List (ℚ × Arrival)) : Prop :=
  ∀ p, ((passed env limit fw arrivals).countP fun a ↦
    ¬Exempt a ∧ principal env a = some p : ℕ) ≤ limit

/-- Every sequence of the requests `H` within one window, in any order and from
any counts, keeps each principal within the limit. -/
def HoldsAmong (limit : ℤ) (H : Set Arrival) : Prop :=
  ∀ (window : ℤ) (fw : FixedWindow) (arrivals : List (ℚ × Arrival)),
    (∀ x ∈ arrivals, windowOf x.1 = window ∧ x.2 ∈ H) → HoldsPerPrincipal env limit fw arrivals

/-- The count of an entry, in its own window. -/
def countIn (window : ℤ) : Option (ℤ × ℕ) → ℕ
  | some entry => if entry.1 = window then entry.2 else 0
  | none => 0

@[simp] theorem countIn_some (window : ℤ) (count : ℕ) :
    countIn window (some (window, count)) = count :=
  if_pos rfl

theorem countIn_filter (window : ℤ) (entry : Option (ℤ × ℕ)) :
    countIn window (entry.filter fun e ↦ e.1 = window) = countIn window entry := by
  cases entry with
  | none => rfl
  | some e =>
      by_cases h : e.1 = window
      · simp [Option.filter, h]
      · simp [Option.filter, countIn, h]

/-- How often a key has been counted in a window. -/
def FixedWindow.spent (fw : FixedWindow) (window : ℤ) (key : String) : ℕ :=
  countIn window (fw.counts.lookup key)

theorem lookup_inWindow (window : ℤ) (counts : Counts) (key : String) :
    (inWindow window counts).lookup key =
      (counts.lookup key).filter fun entry ↦ entry.1 = window := by
  ext entry
  have hmem := AList.mem_lookup_iff (a := key) (b := entry) (s := inWindow window counts)
  have hmem' := AList.mem_lookup_iff (a := key) (b := entry) (s := counts)
  simp only [Option.mem_def] at hmem hmem'
  rw [hmem, Option.filter_eq_some_iff, hmem']
  simp [inWindow, List.mem_filter]

/-- The stale entries that are dropped were not counted any more. -/
theorem spent_inWindow (window : ℤ) (counts : Counts) :
    (FixedWindow.mk (inWindow window counts)).spent window =
      (FixedWindow.mk counts).spent window := by
  funext key
  unfold FixedWindow.spent
  rw [lookup_inWindow, countIn_filter]

theorem spent_insert (counts : Counts) (window : ℤ) (key : String) (count : ℕ) :
    (FixedWindow.mk (counts.insert key (window, count))).spent window =
      Function.update ((FixedWindow.mk counts).spent window) key count := by
  funext k
  unfold FixedWindow.spent
  by_cases hk : k = key
  · subst hk
    rw [AList.lookup_insert, countIn_some, Function.update_self]
  · rw [AList.lookup_insert_ne hk, Function.update_of_ne hk]

variable {env}

/-- The count a hit goes by. -/
theorem count_of_lookup (window : ℤ) (entry : Option (ℤ × ℕ)) :
    (if (entry.getD (window, 0)).1 ≠ window then 0 else (entry.getD (window, 0)).2) =
      countIn window entry := by
  cases entry with
  | none => simp [countIn]
  | some e =>
      by_cases h : e.1 = window
      · simp [countIn, h]
      · simp [countIn, h]

theorem hit_allowed (fw : FixedWindow) (now : ℚ) (key : String) (limit : ℤ) :
    (fw.hit now key limit).1.allowed =
      decide ((fw.spent (windowOf now) key + 1 : ℕ) ≤ limit) := by
  unfold FixedWindow.hit FixedWindow.spent
  simp only [count_of_lookup]

theorem spent_hit (fw : FixedWindow) (now : ℚ) (key : String) (limit : ℤ) :
    (fw.hit now key limit).2.spent (windowOf now) =
      Quota.charge (fw.spent (windowOf now)) key := by
  have hinsert : (FixedWindow.mk (fw.counts.insert key
      (windowOf now, fw.spent (windowOf now) key + 1))).spent (windowOf now) =
        Quota.charge (fw.spent (windowOf now)) key := spent_insert ..
  unfold FixedWindow.hit
  simp only [count_of_lookup]
  split
  · rw [spent_inWindow]
    exact hinsert
  · exact hinsert

theorem dispatch_exempt (limit : ℤ) (fw : FixedWindow) (now : ℚ) {a : Arrival} (h : Exempt a) :
    dispatch env limit fw now a.request = (.callNext, fw) :=
  if_pos (Or.inr h)

variable (env) in
/-- What a counted request meets, by the count of its identity. -/
theorem dispatch_counted {limit : ℤ} (hlimit : 0 < limit) (fw : FixedWindow) (now : ℚ)
    {a : Arrival} (h : ¬Exempt a) :
    ((dispatch env limit fw now a.request).1.isCallNext = true ↔
        fw.spent (windowOf now) (identity env a.request) < limit.toNat) ∧
      (dispatch env limit fw now a.request).2.spent (windowOf now) =
        Quota.charge (fw.spent (windowOf now)) (identity env a.request) := by
  have hspent := spent_hit fw now (identity env a.request) limit
  have hallowed := hit_allowed fw now (identity env a.request) limit
  have hlt : fw.spent (windowOf now) (identity env a.request) < limit.toNat ↔
      (fw.hit now (identity env a.request) limit).1.allowed = true := by
    rw [hallowed, decide_eq_true_iff]
    omega
  have hcounted : ¬(limit ≤ 0 ∨ a.request.path ∈ EXEMPT_PATHS) := by
    rintro (hle | hexempt)
    · omega
    · exact h hexempt
  unfold dispatch
  rw [if_neg hcounted, hlt]
  cases hhit : (fw.hit now (identity env a.request) limit).1.allowed with
  | true => simpa [hhit, Outcome.isCallNext] using hspent
  | false => simpa [hhit, Outcome.isCallNext] using hspent

/-- The requests that are counted, of a timed sequence. -/
def counted (arrivals : List (ℚ × Arrival)) : List Arrival :=
  (arrivals.map Prod.snd).filter fun a ↦ ¬Exempt a

theorem mem_counted {arrivals : List (ℚ × Arrival)} {a : Arrival} :
    a ∈ counted arrivals ↔ (∃ now, (now, a) ∈ arrivals) ∧ ¬Exempt a := by
  simp [counted]

/-- Within one window the middleware is a quota on identities. -/
theorem passed_eq_admitted {limit : ℤ} (hlimit : 0 < limit) {window : ℤ} (fw : FixedWindow)
    {arrivals : List (ℚ × Arrival)} (h : ∀ x ∈ arrivals, windowOf x.1 = window) :
    (passed env limit fw arrivals).filter (fun a ↦ ¬Exempt a) =
      Quota.admitted (fun a : Arrival ↦ identity env a.request) limit.toNat (fw.spent window)
        (counted arrivals) := by
  induction arrivals generalizing fw with
  | nil => rfl
  | cons x arrivals ih =>
      obtain ⟨now, a⟩ := x
      obtain rfl : windowOf now = window := h (now, a) List.mem_cons_self
      have hrest := fun fw' : FixedWindow ↦ ih fw' fun y hy ↦ h y (List.mem_cons_of_mem _ hy)
      by_cases hexempt : Exempt a
      · have hcounted : counted ((now, a) :: arrivals) = counted arrivals := by
          simp [counted, hexempt]
        rw [hcounted, passed, dispatch_exempt limit fw now hexempt]
        simpa [Outcome.isCallNext, hexempt] using hrest fw
      · obtain ⟨hpass, hspent⟩ := dispatch_counted env hlimit fw now hexempt
        have hcounted : counted ((now, a) :: arrivals) = a :: counted arrivals := by
          simp [counted, hexempt]
        rw [hcounted, passed, Quota.admitted, ← hspent, ← hrest]
        by_cases hlt : fw.spent (windowOf now) (identity env a.request) < limit.toNat
        · simp [hpass.mpr hlt, hlt, hexempt]
        · simp [mt hpass.mp hlt, hlt]

theorem countP_passed {limit : ℤ} (hlimit : 0 < limit) {window : ℤ} (fw : FixedWindow)
    {arrivals : List (ℚ × Arrival)} (h : ∀ x ∈ arrivals, windowOf x.1 = window) (p : Principal) :
    (passed env limit fw arrivals).countP (fun a ↦ ¬Exempt a ∧ principal env a = some p) =
      (Quota.admitted (fun a : Arrival ↦ identity env a.request) limit.toNat (fw.spent window)
        (counted arrivals)).countP fun a ↦ principal env a = some p := by
  rw [← passed_eq_admitted hlimit fw h, List.countP_filter]
  congr 1
  funext a
  rw [Bool.decide_and, Bool.and_comm, decide_not]

theorem counted_simultaneous {cs : List Arrival} (h : ∀ c ∈ cs, ¬Exempt c) (now : ℚ) :
    counted (cs.map fun c ↦ (now, c)) = cs := by
  have hsnd : (cs.map fun c ↦ (now, c)).map Prod.snd = cs := by simp
  rw [counted, hsnd]
  exact List.filter_eq_self.mpr fun c hc ↦ decide_eq_true (h c hc)

theorem holdsAmong_of_identity {limit : ℤ} (hlimit : 0 < limit) {H : Set Arrival}
    (h : ∀ a ∈ H, ∀ b ∈ H, ¬Exempt a → ¬Exempt b → ∀ p, principal env a = some p →
      principal env b = some p → identity env a.request = identity env b.request) :
    HoldsAmong env limit H := by
  intro window fw arrivals harrivals p
  rw [countP_passed hlimit fw fun x hx ↦ (harrivals x hx).1]
  have hmem : ∀ a ∈ counted arrivals, a ∈ H ∧ ¬Exempt a := by
    intro a ha
    obtain ⟨⟨now, hnow⟩, hexempt⟩ := mem_counted.mp ha
    exact ⟨(harrivals _ hnow).2, hexempt⟩
  have hquota := Quota.countP_owner_le (fun a : Arrival ↦ identity env a.request) limit.toNat
    (fw.spent window) fun a ha b hb ↦
      h a (hmem a ha).1 b (hmem b hb).1 (hmem a ha).2 (hmem b hb).2 p
  omega

/-- The limit's worth of requests like `a`, and one like `b`, are too many if
both are of one principal under two identities. -/
theorem identity_of_holdsAmong {limit : ℤ} (hlimit : 0 < limit) {H : Set Arrival}
    (h : HoldsAmong env limit H) {a b : Arrival} (ha : a ∈ H) (hb : b ∈ H) (hna : ¬Exempt a)
    (hnb : ¬Exempt b) {p : Principal} (hpa : principal env a = some p)
    (hpb : principal env b = some p) : identity env a.request = identity env b.request := by
  by_contra hne
  have hall : ∀ c ∈ List.replicate limit.toNat a ++ [b], c ∈ H ∧ ¬Exempt c := by
    intro c hc
    rcases List.mem_append.mp hc with hc | hc
    · rw [List.eq_of_mem_replicate hc]
      exact ⟨ha, hna⟩
    · rw [List.mem_singleton.mp hc]
      exact ⟨hb, hnb⟩
  let arrivals := (List.replicate limit.toNat a ++ [b]).map fun c ↦ ((0 : ℚ), c)
  have harrivals : ∀ x ∈ arrivals, windowOf x.1 = windowOf 0 ∧ x.2 ∈ H := by
    intro x hx
    obtain ⟨c, hc, rfl⟩ := List.mem_map.mp hx
    exact ⟨rfl, (hall c hc).1⟩
  have hunused : (FixedWindow.mk ∅).spent (windowOf 0) = fun _ ↦ 0 := rfl
  have hcount := h (windowOf 0) ⟨∅⟩ arrivals harrivals p
  rw [countP_passed hlimit _ fun x hx ↦ (harrivals x hx).1,
    counted_simultaneous (fun c hc ↦ (hall c hc).2), hunused,
    Quota.admitted_replicate_append (fun c : Arrival ↦ identity env c.request) (by omega)
      (Ne.symm hne),
    Quota.countP_owner_replicate_append hpa hpb] at hcount
  omega

/-- Among the requests `H` the limit holds for every principal exactly if the
middleware gives the requests of one principal one identity. -/
theorem limit_per_principal_iff {limit : ℤ} (hlimit : 0 < limit) (H : Set Arrival) :
    HoldsAmong env limit H ↔
      ∀ a ∈ H, ∀ b ∈ H, ¬Exempt a → ¬Exempt b →
        ∀ p, principal env a = some p → principal env b = some p →
          identity env a.request = identity env b.request :=
  ⟨fun h _ ha _ hb hna hnb _ hpa hpb ↦ identity_of_holdsAmong hlimit h ha hb hna hnb hpa hpb,
    holdsAmong_of_identity hlimit⟩

/-- Keys required, and tokens stripped of blanks. -/
def strippingEnv : Env :=
  { Development.guardedEnv with
    strip := fun s ↦ String.ofList ((s.toList.dropWhile (· = ' ')).rdropWhile (· = ' ')) }

/-- A request for the metrics from one address, on a database with one admin. -/
def metrics (authorization xActorId : Option String) : Arrival :=
  ⟨⟨"/metrics", authorization, xActorId, some "203.0.113.7"⟩, (Development.guardedRun []).2.1⟩

/-- Where each principal keeps to one spelling of its headers, the default limit holds. -/
theorem limit_of_one_spelling : HoldsAmong strippingEnv 120
    {metrics (Development.bearer Development.adminKey) none, metrics none none} := by
  refine (limit_per_principal_iff (by decide) _).mpr ?_
  have hne : principal strippingEnv (metrics (Development.bearer Development.adminKey) none) ≠
      principal strippingEnv (metrics none none) := by
    intro hsame
    have hkey : (Auth.resolve strippingEnv (Development.bearer Development.adminKey) none).answer
        (Development.guardedRun []).2.1 =
          some (.ok ⟨Development.identifier 1, "Root", .admin, none, none⟩) := by
      decide +kernel
    obtain ⟨keyHash, hprincipal⟩ := (principal_apiKey_iff rfl
      (metrics (Development.bearer Development.adminKey) none)).mpr ⟨_, hkey⟩
    obtain ⟨actor, hactor⟩ := (principal_apiKey_iff rfl (metrics none none)).mp
      ⟨keyHash, hsame.symm.trans hprincipal⟩
    cases hactor
  rintro a (rfl | rfl) b (rfl | rfl) - - p ha hb
  · rfl
  · exact absurd (ha.trans hb.symm) hne
  · exact absurd (hb.trans ha.symm) hne
  · rfl

/-- One key with a second blank in front of it, and one address under two
actor ids: with a limit of one, both requests pass. -/
theorem two_spellings_pass :
    ¬HoldsPerPrincipal strippingEnv 1 ⟨∅⟩
        [(0, metrics (some ("Bearer " ++ Development.adminKey)) none),
          (0, metrics (some ("Bearer  " ++ Development.adminKey)) none)] ∧
      ¬HoldsPerPrincipal strippingEnv 1 ⟨∅⟩
        [(0, metrics none (some "ada")), (0, metrics none (some "rae"))] :=
  ⟨fun h ↦ absurd (h (.apiKey (Auth.hashKey strippingEnv Development.adminKey)))
      (by decide +kernel),
    fun h ↦ absurd (h (.client "203.0.113.7")) (by decide +kernel)⟩

end RateLimit

end HumanDataFactory
