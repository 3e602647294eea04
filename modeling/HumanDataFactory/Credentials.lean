import HumanDataFactory.Api.Effects
import HumanDataFactory.Api.Reads
import HumanDataFactory.Development

/-!
# Keys and their holders

Only the digest of a key is stored, so who holds a key cannot be read off the
database.  It can be read off a run: a key is held by the user it was handed to
in a response, until that user is revoked.  The tables carry exactly this
register, and authentication looks up nothing else.
-/

namespace HumanDataFactory

open Transact

namespace Credentials

variable {env : Env}

/-! ## The register of a run -/

/-- A user with the key that was handed out for him. -/
structure Grant where
  user : User
  key : String

def Grant.actor (g : Grant) : Auth.Actor :=
  ⟨g.user.id, g.user.name, g.user.role, g.user.firmId, g.user.expertId⟩

/-- A text of a response. -/
def textOf (out : Json) (k : String) : String :=
  match out.field k with
  | .str t => t
  | _ => ""

/-- The grant that a response completes. -/
def grantOf (e : Served Api.Http Db Json) : Option Grant :=
  e.outcome.bind fun out ↦
    match e.request.request with
    | .bootstrap name email => some
        ⟨⟨textOf out "user_id", name, email, .admin, none, none, true⟩, textOf out "api_key"⟩
    | .createUser body => some
        ⟨⟨textOf out "user_id", body.name, body.email, body.role, body.firmId, body.expertId, true⟩,
          textOf out "api_key"⟩
    | _ => none

/-- The user that a request revoked. -/
def revocationOf (e : Served Api.Http Db Json) : Option String :=
  e.outcome.bind fun _ ↦
    match e.request.request with
    | .revokeUser userId => some userId
    | _ => none

def granted (tr : List (Served Api.Http Db Json)) : List Grant :=
  tr.filterMap grantOf

def revoked (tr : List (Served Api.Http Db Json)) : List String :=
  tr.filterMap revocationOf

/-- The key was handed out, and its user was not revoked. -/
def Live (tr : List (Served Api.Http Db Json)) (g : Grant) : Prop :=
  g ∈ granted tr ∧ g.user.id ∉ revoked tr

theorem granted_concat (tr : List (Served Api.Http Db Json)) (e : Served Api.Http Db Json) :
    granted (tr ++ [e]) = granted tr ++ (grantOf e).toList := by
  cases h : grantOf e <;> simp [granted, h]

theorem revoked_concat (tr : List (Served Api.Http Db Json)) (e : Served Api.Http Db Json) :
    revoked (tr ++ [e]) = revoked tr ++ (revocationOf e).toList := by
  cases h : revocationOf e <;> simp [revoked, h]

/-! ## The tables that carry it -/

/-- The row of a user in the register. -/
def userRow (rs : List String) (g : Grant) : User :=
  { g.user with active := decide (g.user.id ∉ rs) }

/-- What a row of the key table says. -/
def keyFacts (k : ApiKey) : String × String × Bool :=
  (k.userId, k.keyHash, k.active)

variable (env) in
/-- What the row of a grant says. -/
def grantFacts (rs : List String) (g : Grant) : String × String × Bool :=
  (g.user.id, Auth.hashKey env g.key, decide (g.user.id ∉ rs))

variable (env) in
/-- The users and keys of the database are those of the register. -/
structure Carries (gs : List Grant) (rs : List String) (s : Db) : Prop where
  users : s.users.rows = gs.map (userRow rs)
  keys : s.apiKeys.rows.map keyFacts = gs.map (grantFacts env rs)
  digests : (gs.map fun g ↦ Auth.hashKey env g.key).Nodup
  active : ∀ g ∈ gs, g.user.active = true
  known : ∀ id ∈ rs, ∃ g ∈ gs, g.user.id = id

theorem carries_empty : Carries env [] [] Db.empty :=
  ⟨rfl, rfl, List.nodup_nil, by simp, by simp⟩

namespace Carries

variable {gs : List Grant} {rs : List String} {s s' : Db}

theorem congr (h : Carries env gs rs s) (husers : s'.users = s.users)
    (hkeys : s'.apiKeys = s.apiKeys) : Carries env gs rs s' :=
  { h with users := husers ▸ h.users, keys := hkeys ▸ h.keys }

theorem ids (h : Carries env gs rs s) : s.users.rows.map User.id = gs.map fun g ↦ g.user.id := by
  rw [h.users, List.map_map]
  rfl

theorem not_revoked (h : Carries env gs rs s) {id : String} (hid : s.users.Vacant id) :
    id ∉ rs := by
  intro hmem
  obtain ⟨g, hg, rfl⟩ := h.known _ hmem
  have hrow : userRow rs g ∈ s.users.rows := by
    rw [h.users]
    exact List.mem_map_of_mem hg
  exact hid _ hrow rfl

theorem digest_mem (h : Carries env gs rs s) {g : Grant} (hg : g ∈ gs) :
    ∃ k ∈ s.apiKeys.rows, k.keyHash = Auth.hashKey env g.key := by
  have hfacts : grantFacts env rs g ∈ s.apiKeys.rows.map keyFacts := by
    rw [h.keys]
    exact List.mem_map_of_mem hg
  obtain ⟨k, hk, heq⟩ := List.mem_map.mp hfacts
  simp only [keyFacts, grantFacts, Prod.mk.injEq] at heq
  exact ⟨k, hk, heq.2.1⟩

/-- Adding a user with his key adds the grant. -/
theorem grant (h : Carries env gs rs s) {g : Grant} {keyId : String}
    (hid : s.users.Vacant g.user.id) (hactive : g.user.active = true)
    (hkeyId : s.apiKeys.Vacant keyId)
    (hnew : ∀ k ∈ s.apiKeys.rows, k.keyHash ≠ Auth.hashKey env g.key)
    (husers : s'.users = s.users.push g.user)
    (hkeys : s'.apiKeys =
      s.apiKeys.push ⟨keyId, g.user.id, Auth.hashKey env g.key, true⟩) :
    Carries env (gs ++ [g]) rs s' := by
  have hfresh := h.not_revoked hid
  constructor
  · rw [husers, Table.rows_push hid, h.users, List.map_append]
    simp [userRow, hfresh, ← hactive]
  · rw [hkeys, Table.rows_push hkeyId, List.map_append, h.keys, List.map_append]
    simp [keyFacts, grantFacts, hfresh]
  · rw [List.map_append, List.nodup_append]
    refine ⟨h.digests, by simp, ?_⟩
    rintro _ hx _ hy rfl
    obtain ⟨g', hg', hdigest⟩ := List.mem_map.mp hx
    obtain ⟨k, hk, hhash⟩ := h.digest_mem hg'
    rw [List.map_singleton, List.mem_singleton] at hy
    exact hnew k hk (hhash.trans (hdigest.trans hy))
  · intro g' hg'
    rcases List.mem_append.mp hg' with hg' | hg'
    · exact h.active g' hg'
    · rwa [List.mem_singleton.mp hg']
  · intro id hmem
    obtain ⟨g', hg', hsame⟩ := h.known id hmem
    exact ⟨g', List.mem_append_left _ hg', hsame⟩

/-- What is left of the facts when a user is revoked. -/
def withoutUser (id : String) (facts : String × String × Bool) : String × String × Bool :=
  (facts.1, facts.2.1, facts.2.2 && decide (facts.1 ≠ id))

theorem keyFacts_revokeKey {id : String} {k : ApiKey} (hk : k ∈ s.apiKeys) :
    keyFacts (Api.revokeKey (s.apiKeys.rows.filter fun k ↦ k.userId = id) k) =
      withoutUser id (keyFacts k) := by
  have hiff : k.id ∈ (s.apiKeys.rows.filter fun k ↦ k.userId = id).map ApiKey.id ↔
      k.userId = id := by
    constructor
    · intro hmem
      obtain ⟨k', hk', hsame⟩ := List.mem_map.mp hmem
      obtain ⟨hrow, huser⟩ := List.mem_filter.mp hk'
      obtain rfl := Table.eq_of_key hrow hk hsame
      exact of_decide_eq_true huser
    · intro huser
      exact List.mem_map_of_mem (List.mem_filter.mpr ⟨hk, decide_eq_true huser⟩)
  unfold Api.revokeKey
  by_cases huser : k.userId = id
  · rw [if_pos (hiff.mpr huser)]
    simp [keyFacts, withoutUser, huser]
  · rw [if_neg fun hmem ↦ huser (hiff.mp hmem)]
    simp [keyFacts, withoutUser, huser]

theorem grantFacts_concat (id : String) (g : Grant) :
    grantFacts env (rs ++ [id]) g = withoutUser id (grantFacts env rs g) := by
  simp [grantFacts, withoutUser]

/-- Deactivating a user and his keys revokes the user. -/
theorem revoke (h : Carries env gs rs s) {user : User} {userId : String}
    (hfound : s.users.find? userId = some user)
    (husers : s'.users = s.users.replace { user with active := false })
    (hkeys : s'.apiKeys = s.apiKeys.mapRows
      (Api.revokeKey (s.apiKeys.rows.filter fun k ↦ k.userId = user.id)) (Api.revokeKey_id _)) :
    Carries env gs (rs ++ [userId]) s' := by
  obtain ⟨huser, rfl⟩ := Table.find?_eq_some.mp hfound
  have hrow : user ∈ gs.map (userRow rs) := h.users ▸ huser
  obtain ⟨g₀, hg₀, rfl⟩ := List.mem_map.mp hrow
  constructor
  · rw [husers, Table.rows_replace, h.users, List.map_map]
    apply List.map_congr_left
    intro g hg
    have hmem : userRow rs g ∈ s.users := by
      rw [Table.mem_def, h.users]
      exact List.mem_map_of_mem hg
    by_cases hid : (userRow rs g).id = (userRow rs g₀).id
    · have hsame := Table.eq_of_key hmem huser hid
      rw [Function.comp_apply, if_pos hid, ← hsame]
      simp [userRow]
    · have hne : g.user.id ≠ (userRow rs g₀).id := hid
      have hiff : g.user.id ∉ rs ++ [(userRow rs g₀).id] ↔ g.user.id ∉ rs := by simp [hne]
      rw [Function.comp_apply, if_neg hid]
      exact congrArg (fun b ↦ { g.user with active := b }) (decide_eq_decide.mpr hiff.symm)
  · rw [hkeys, Table.rows_mapRows, List.map_map]
    calc s.apiKeys.rows.map _
        = s.apiKeys.rows.map (withoutUser (userRow rs g₀).id ∘ keyFacts) :=
          List.map_congr_left fun k hk ↦ keyFacts_revokeKey hk
      _ = (gs.map (grantFacts env rs)).map (withoutUser (userRow rs g₀).id) := by
          rw [← List.map_map, h.keys]
      _ = gs.map (grantFacts env (rs ++ [(userRow rs g₀).id])) := by
          rw [List.map_map]
          exact List.map_congr_left fun g _ ↦ (grantFacts_concat _ g).symm
  · exact h.digests
  · exact h.active
  · intro id hmem
    rcases List.mem_append.mp hmem with hmem | hmem
    · exact h.known id hmem
    · exact ⟨g₀, hg₀, (List.mem_singleton.mp hmem).symm⟩

/-- The users behind a digest are those of the live grants with it. -/
theorem usersOfKey_eq (h : Carries env gs rs s) (digest : String) :
    Auth.usersOfKey s digest =
      (gs.filter fun g ↦ Auth.hashKey env g.key = digest ∧ g.user.id ∉ rs).map Grant.user := by
  have hfacts : Auth.usersOfKey s digest =
      ((s.apiKeys.rows.map keyFacts).filter fun f ↦ f.2.1 = digest ∧ f.2.2 = true).flatMap fun f ↦
        s.users.rows.filter fun u ↦ u.id = f.1 ∧ u.active = true := by
    rw [List.filter_map, List.flatMap_map]
    rfl
  have hfilter : (gs.map (grantFacts env rs)).filter (fun f ↦ f.2.1 = digest ∧ f.2.2 = true) =
      (gs.filter fun g ↦ Auth.hashKey env g.key = digest ∧ g.user.id ∉ rs).map
        (grantFacts env rs) := by
    rw [List.filter_map]
    simp [Function.comp_def, grantFacts]
  rw [hfacts, h.keys, hfilter, List.flatMap_map, ← List.flatMap_pure_eq_map]
  apply List.flatMap_congr
  intro g hg
  obtain ⟨hg, hcond⟩ := List.mem_filter.mp hg
  obtain ⟨_, hlive⟩ := of_decide_eq_true hcond
  have hrow : userRow rs g = g.user := by
    unfold userRow
    rw [decide_eq_true hlive, ← h.active g hg]
  have hmem : g.user ∈ s.users := by
    rw [Table.mem_def, h.users, ← hrow]
    exact List.mem_map_of_mem hg
  calc s.users.rows.filter (fun u ↦ u.id = g.user.id ∧ u.active = true)
      = (s.users.rows.filter fun u ↦ u.id = g.user.id).filter fun u ↦ u.active = true := by
        rw [List.filter_filter]
        simp [Bool.and_comm]
    _ = [g.user].filter fun u ↦ u.active = true := by
        rw [s.users.filter_key, Table.find?_of_mem hmem]
        rfl
    _ = [g.user] := List.filter_eq_self.mpr (by simp [h.active g hg])

/-- At most one grant has a digest. -/
theorem head?_usersOfKey (h : Carries env gs rs s) {digest : String} {user : User} :
    (Auth.usersOfKey s digest).head? = some user ↔
      ∃ g ∈ gs, g.user.id ∉ rs ∧ Auth.hashKey env g.key = digest ∧ g.user = user := by
  rw [h.usersOfKey_eq, List.head?_map, List.head?_filter, Option.map_eq_some_iff]
  constructor
  · rintro ⟨g, hfind, hof⟩
    have hcond := List.find?_some hfind
    obtain ⟨hdigest, hlive⟩ := of_decide_eq_true hcond
    exact ⟨g, List.mem_of_find?_eq_some hfind, hlive, hdigest, hof⟩
  · rintro ⟨g, hg, hlive, hdigest, hof⟩
    refine ⟨g, ?_, hof⟩
    cases hfind : gs.find? fun g ↦ decide (Auth.hashKey env g.key = digest ∧ g.user.id ∉ rs) with
    | none => exact absurd (decide_eq_true ⟨hdigest, hlive⟩) (List.find?_eq_none.mp hfind g hg)
    | some g' =>
        have hcond := List.find?_some hfind
        obtain ⟨hdigest', _⟩ := of_decide_eq_true hcond
        have hsame := List.inj_on_of_nodup_map h.digests (List.mem_of_find?_eq_some hfind) hg
          (hdigest'.trans hdigest.symm)
        rw [hsame]

/-- With authentication on, a request is its key holder's. -/
theorem authenticates_iff (h : Carries env gs rs s) (hauth : env.authDisabled = false)
    {authorization xActorId : Option String} {actor : Auth.Actor} :
    Api.Authenticates env s authorization xActorId actor ↔
      ∃ token, authorization.bind (Auth.bearerToken env) = some token ∧
        ∃ g ∈ gs, g.user.id ∉ rs ∧ Auth.hashKey env g.key = Auth.hashKey env token ∧
          g.actor = actor := by
  have hon : ¬env.authDisabled = true := by simp [hauth]
  unfold Api.Authenticates Auth.resolve
  rw [if_neg hon, Prog.answer_getSome_bind]
  cases htoken : authorization.bind (Auth.bearerToken env) with
  | none => simp
  | some token =>
      rw [Option.elim_some, Prog.answer_select_bind, Prog.answer_getSome_bind]
      simp only [Option.some.injEq, exists_eq_left']
      constructor
      · intro hanswer
        cases hfound : (Auth.usersOfKey s (Auth.hashKey env token)).head? with
        | none => simp [hfound] at hanswer
        | some user =>
            rw [hfound] at hanswer
            obtain ⟨g, hg, hlive, hdigest, rfl⟩ := h.head?_usersOfKey.mp hfound
            have hactor : g.actor = actor := by simpa [Grant.actor] using hanswer
            exact ⟨g, hg, hlive, hdigest, hactor⟩
      · rintro ⟨g, hg, hlive, hdigest, rfl⟩
        rw [h.head?_usersOfKey.mpr ⟨g, hg, hlive, hdigest, rfl⟩]
        rfl

end Carries

/-! ## A request and the register -/

section Steps

variable {s s' : Db} {w w' : ℕ} {r : Json}

theorem exec_issueKey_bind {user : User} {k : String → Tx Json}
    (h : machine.Exec (Auth.issueKey env user >>= k) s w r s' w') :
    ∃ key id, s.apiKeys.Vacant id ∧ (∀ b ∈ s.apiKeys.rows, b.keyHash ≠ Auth.hashKey env key) ∧
      machine.Exec (k key) { s with
        apiKeys := s.apiKeys.push ⟨id, user.id, Auth.hashKey env key, true⟩ } w r s' w' := by
  unfold Auth.issueKey at h
  rw [Machine.exec_bind] at h
  obtain ⟨key, s₁, w₁, hkey, h⟩ := h
  rw [Machine.exec_ask_bind] at hkey
  obtain ⟨secret, w₂, hw₂, hkey⟩ := hkey
  obtain rfl : w = w₂ := by simpa [accept] using hw₂
  simp only [Session.exec_uuid4_bind, Machine.exec_emit_bind, machine_apply, Db.apply,
    Option.ite_none_right_eq_some, Option.some.injEq, Prog.monad_pure, Machine.exec_pure] at hkey
  obtain ⟨id, _, ⟨⟨hid, hnew⟩, rfl⟩, rfl, rfl, rfl⟩ := hkey
  exact ⟨_, id, hid, hnew, h⟩

/-- A user is added together with a new key, which the response shows. -/
structure Adds (env : Env) (s s' : Db) (user : User) (out : Json) : Prop where
  vacant : s.users.Vacant user.id
  users : s'.users = s.users.push user
  key : ∃ key id, out = Api.keyOut user.id key ∧ s.apiKeys.Vacant id ∧
    (∀ k ∈ s.apiKeys.rows, k.keyHash ≠ Auth.hashKey env key) ∧
    s'.apiKeys = s.apiKeys.push ⟨id, user.id, Auth.hashKey env key, true⟩

theorem adds_of_bootstrap {name email : String}
    (h : machine.Exec (Api.bootstrap env name email) s w r s' w')
    (hseq : Audit.SeqBelow s.auditEvents w) :
    s.users.rows = [] ∧ ∃ id, Adds env s s' ⟨id, name, email, .admin, none, none, true⟩ r := by
  unfold Api.bootstrap at h
  simp only [Machine.exec_select_bind, Machine.exec_ensure_bind, Session.exec_uuid4_bind,
    Machine.exec_emit_bind, machine_apply, Db.apply, Option.ite_none_right_eq_some,
    Option.some.injEq] at h
  obtain ⟨hcount, id, s₁, ⟨⟨hid, _⟩, rfl⟩, h⟩ := h
  obtain ⟨key, keyId, hkeyId, hnew, h⟩ := exec_issueKey_bind h
  rw [Machine.exec_bind] at h
  obtain ⟨aud, s₂, w₂, haud, rfl, rfl, rfl⟩ := h
  obtain ⟨rfl, _, _⟩ := Audit.exec_record haud hseq
  exact ⟨List.length_eq_zero_iff.mp hcount, id, hid, rfl, key, keyId, rfl, hkeyId, hnew, rfl⟩

theorem adds_of_createUser {actor : Auth.Actor} {body : Api.UserIn}
    (h : machine.Exec (Api.createUser env actor body) s w r s' w')
    (hseq : Audit.SeqBelow s.auditEvents w) :
    ∃ id, Adds env s s'
      ⟨id, body.name, body.email, body.role, body.firmId, body.expertId, true⟩ r := by
  unfold Api.createUser at h
  rw [Machine.exec_select_bind, Machine.exec_bind] at h
  obtain ⟨other, s₁, w₁, hother, h⟩ := h
  obtain ⟨_, rfl, rfl⟩ := Session.exec_scalarOneOrNone.mp hother
  simp only [Machine.exec_ensure_bind] at h
  obtain ⟨_, _, _, h⟩ := h
  replace h := Api.exec_checkLinked_bind (Api.exec_checkLinked_bind h)
  simp only [Session.exec_uuid4_bind, Machine.exec_emit_bind, machine_apply, Db.apply,
    Option.ite_none_right_eq_some, Option.some.injEq] at h
  obtain ⟨id, s₂, ⟨⟨hid, _⟩, rfl⟩, h⟩ := h
  obtain ⟨key, keyId, hkeyId, hnew, h⟩ := exec_issueKey_bind h
  rw [Machine.exec_bind] at h
  obtain ⟨aud, s₃, w₃, haud, rfl, rfl, rfl⟩ := h
  obtain ⟨rfl, _, _⟩ := Audit.exec_record haud hseq
  exact ⟨id, hid, rfl, key, keyId, rfl, hkeyId, hnew, rfl⟩

/-- The requests that touch users and keys. -/
def Administers : Api.Request → Prop
  | .bootstrap .. => True
  | .createUser _ => True
  | .revokeUser _ => True
  | _ => False

theorem accounts_of_submitted {task : Task} {expert : Expert} {content : Json}
    (h : Engine.Submitted env task expert content s s') :
    s'.users = s.users ∧ s'.apiKeys = s.apiKeys := by
  obtain ⟨hproject, hqualified, hheld, hassigned, hsub, hid, haud, hprocess⟩ := h
  cases hprocess with
  | autoApproved hpassed hgold hroute hid hid' hmeter haud => cases hmeter <;> exact ⟨rfl, rfl⟩
  | _ => exact ⟨rfl, rfl⟩

theorem accounts_of_reviewed {sub : Submission} {reviewer : Expert} {verdict : Verdict}
    (h : Engine.Reviewed env sub reviewer verdict s s') :
    s'.users = s.users ∧ s'.apiKeys = s.apiKeys := by
  obtain ⟨hstatus, hother, hreviewer, hqualified, hid, hdecided, haud⟩ := h
  cases hdecided with
  | pass htask hproject hauthor hmeter => cases hmeter <;> exact ⟨rfl, rfl⟩
  | _ => exact ⟨rfl, rfl⟩

theorem accounts_of_effect {actor : Auth.Actor} {request : Api.Request}
    (h : Api.Effect env actor s request s') (hrequest : ¬Administers request) :
    s'.users = s.users ∧ s'.apiKeys = s.apiKeys := by
  cases h with
  | bootstrap => exact absurd trivial hrequest
  | createUser => exact absurd trivial hrequest
  | revokeUser => exact absurd trivial hrequest
  | createSubmission htask hexpert h => exact accounts_of_submitted h
  | postHumanReview hsub hreviewer h => exact accounts_of_reviewed h
  | generateInvoice hfirm h =>
      cases h
      exact ⟨rfl, rfl⟩
  | createInvoiceCheckout hinv haccess h =>
      cases h
      exact ⟨rfl, rfl⟩
  | recordExternalPayment hinv h =>
      cases h
      exact ⟨rfl, rfl⟩
  | stripeWebhook hevent hact h => cases h <;> exact ⟨rfl, rfl⟩
  | _ => exact ⟨rfl, rfl⟩

/-- The grant of a response that shows a new key. -/
theorem Carries.adds {gs : List Grant} {rs : List String} (h : Carries env gs rs s) {user : User}
    {out : Json} (hadds : Adds env s s' user out) (hactive : user.active = true) :
    textOf out "user_id" = user.id ∧
      Carries env (gs ++ [⟨user, textOf out "api_key"⟩]) rs s' := by
  obtain ⟨hid, husers, key, keyId, rfl, hkeyId, hnew, hkeys⟩ := hadds
  exact ⟨rfl, h.grant (g := ⟨user, key⟩) hid hactive hkeyId hnew husers hkeys⟩

end Steps

/-! ## Runs -/

section Runs

variable {tr : List (Served Api.Http Db Json)} {s : Db} {w₀ w w' : ℕ}

/-- Each entry of a trace does to the tables what it does to the register. -/
theorem Carries.serves {e : Served Api.Http Db Json}
    (h : Carries env (granted tr) (revoked tr) e.before)
    (he : machine.Serves (Api.serve env) e w w') (hseq : Audit.SeqBelow e.before.auditEvents w) :
    Carries env (granted (tr ++ [e])) (revoked (tr ++ [e])) e.after := by
  rw [granted_concat, revoked_concat]
  cases he with
  | failed _ => simpa [grantOf, revocationOf] using h
  | @ok http s r s' _ _ hexec =>
      obtain ⟨⟨actor, heffect⟩, _⟩ := Api.exec_serve hexec hseq
      obtain ⟨authorization, xActorId, request⟩ := http
      cases request with
      | bootstrap name email =>
          obtain ⟨_, id, hadds⟩ := adds_of_bootstrap hexec hseq
          obtain ⟨hid, hcarries⟩ := h.adds hadds rfl
          simpa [grantOf, revocationOf, hid] using hcarries
      | createUser body =>
          have hserve : Api.serve env ⟨authorization, xActorId, .createUser body⟩ =
              Auth.currentActor env Api.adminOnly authorization xActorId >>= fun actor ↦
                Api.createUser env actor body := rfl
          rw [hserve, Machine.exec_bind] at hexec
          obtain ⟨_, s₁, w₁, hactor, hexec⟩ := hexec
          obtain ⟨rfl, rfl⟩ := Auth.exec_currentActor env hactor
          obtain ⟨id, hadds⟩ := adds_of_createUser hexec hseq
          obtain ⟨hid, hcarries⟩ := h.adds hadds rfl
          simpa [grantOf, revocationOf, hid] using hcarries
      | revokeUser userId =>
          cases heffect with
          | revokeUser hfound => simpa [grantOf, revocationOf] using h.revoke hfound rfl rfl
      | _ =>
          obtain ⟨husers, hkeys⟩ := accounts_of_effect heffect id
          simpa [grantOf, revocationOf] using h.congr husers hkeys

theorem carries_of_run (h : machine.Run (Api.serve env) Db.empty w₀ tr s w) :
    Carries env (granted tr) (revoked tr) s := by
  induction h with
  | nil => exact carries_empty
  | @snoc tr s w e w' h hb he ih =>
      subst hb
      exact ih.serves he (Api.below_of_run (Audit.seqBelow_empty w₀) h)

variable (env) in
/-- The header shows the key, as far as digests tell. -/
def Shows (authorization : Option String) (key : String) : Prop :=
  ∃ token, authorization.bind (Auth.bearerToken env) = some token ∧
    Auth.hashKey env key = Auth.hashKey env token

/-- In every state of a run with authentication on, the headers that stand for
an actor are those that show a key which was handed out for him and whose user
was not revoked since. -/
theorem authenticates_iff_holds (h : machine.Run (Api.serve env) Db.empty w₀ tr s w)
    (hauth : env.authDisabled = false) {authorization xActorId : Option String}
    {actor : Auth.Actor} :
    Api.Authenticates env s authorization xActorId actor ↔
      ∃ g, Live tr g ∧ Shows env authorization g.key ∧ g.actor = actor := by
  rw [(carries_of_run h).authenticates_iff hauth]
  constructor
  · rintro ⟨token, htoken, g, hg, hlive, hdigest, hactor⟩
    exact ⟨g, ⟨hg, hlive⟩, ⟨token, htoken, hdigest⟩, hactor⟩
  · rintro ⟨g, ⟨hg, hlive⟩, ⟨token, htoken, hdigest⟩, hactor⟩
    exact ⟨token, htoken, g, hg, hlive, hdigest, hactor⟩

/-- The first admin adds a second one and revokes him again. -/
def leadRevoked : List Api.Request :=
  [.createUser ⟨"Lead", "lead@example.com", .admin, none, none⟩,
    .revokeUser (Development.identifier 6)]

theorem authenticates_iff_holds_leadRevoked :
    (granted (Development.guardedRun leadRevoked).1).map Grant.key =
        [Development.adminKey, "hdf_" ++ Development.identifier 7] ∧
      revoked (Development.guardedRun leadRevoked).1 = [Development.identifier 6] ∧
        ∀ authorization xActorId actor,
          Api.Authenticates Development.guardedEnv (Development.guardedRun leadRevoked).2.1
              authorization xActorId actor ↔
            ∃ g, Live (Development.guardedRun leadRevoked).1 g ∧
              Shows Development.guardedEnv authorization g.key ∧ g.actor = actor :=
  ⟨by decide +kernel, by decide +kernel, fun _ _ _ ↦
    authenticates_iff_holds (Development.guardedRun_spec leadRevoked) rfl⟩

/-! ## Where authority comes from -/

theorem exists_answer_resolve (authorization xActorId : Option String) :
    ∃ r, (Auth.resolve env authorization xActorId).answer s = some r := by
  unfold Auth.resolve
  split
  · exact ⟨_, rfl⟩
  · rw [Prog.answer_getSome_bind]
    cases authorization.bind (Auth.bearerToken env) with
    | none => exact ⟨_, rfl⟩
    | some token =>
        rw [Option.elim_some, Prog.answer_select_bind, Prog.answer_getSome_bind]
        cases (Auth.usersOfKey s (Auth.hashKey env token)).head? with
        | none => exact ⟨_, rfl⟩
        | some user => exact ⟨_, rfl⟩

theorem authenticates_of_exec {allowed : List Role} {authorization xActorId : Option String}
    {actor : Auth.Actor} {s' : Db}
    (h : machine.Exec (Auth.currentActor env allowed authorization xActorId) s w actor s' w') :
    Api.Authenticates env s authorization xActorId actor ∧ actor.role ∈ allowed := by
  unfold Auth.currentActor Auth.requireRoles at h
  rw [Machine.exec_bind] at h
  obtain ⟨actor', s₁, w₁, hresolve, h⟩ := h
  rw [Machine.exec_ensure_bind] at h
  obtain ⟨hrole, rfl, _⟩ := h
  refine ⟨?_, hrole⟩
  obtain ⟨r, hanswer⟩ := exists_answer_resolve authorization xActorId
  have hresponds := Machine.responds_ok_iff.mpr ⟨_, _, hresolve⟩
  rw [Machine.responds_iff_of_answer hanswer] at hresponds
  exact hanswer.trans (congrArg some hresponds.symm)

/-- Who sent a guarded request that went through. -/
theorem holder_of_serves (h : machine.Run (Api.serve env) Db.empty w₀ tr s w)
    (hauth : env.authDisabled = false) {http : Api.Http} {allowed : List Role}
    (hroles : Api.rolesOf http.request = some allowed) {r : Json} {s' : Db}
    (hexec : machine.Exec (Api.serve env http) s w r s' w') :
    ∃ g, Live tr g ∧ Shows env http.authorization g.key ∧ g.user.role ∈ allowed := by
  unfold Api.serve at hexec
  rw [hroles] at hexec
  obtain ⟨actor, s₁, w₁, hactor, _⟩ := Machine.exec_bind.mp hexec
  obtain ⟨hauthenticates, hrole⟩ := authenticates_of_exec hactor
  obtain ⟨g, hlive, hkey, rfl⟩ := (authenticates_iff_holds h hauth).mp hauthenticates
  exact ⟨g, hlive, hkey, hrole⟩

variable (env) in
/-- A grant that goes back to the first user of the factory: each was made with
the key of a live admin who was entrusted before. -/
inductive Entrusted : List (Served Api.Http Db Json) → Grant → Prop
  | root {pre e g name email} (hfirst : granted pre = [])
      (hrequest : e.request.request = .bootstrap name email) (hg : grantOf e = some g) :
      Entrusted (pre ++ [e]) g
  | byAdmin {pre e g admin} (hadmin : Entrusted pre admin) (hlive : Live pre admin)
      (hrole : admin.user.role = .admin) (hkey : Shows env e.request.authorization admin.key)
      (hg : grantOf e = some g) : Entrusted (pre ++ [e]) g
  | later {pre e g} (h : Entrusted pre g) : Entrusted (pre ++ [e]) g

/-- A grant that an entry adds. -/
theorem Entrusted.of_serves (h : machine.Run (Api.serve env) Db.empty w₀ tr s w)
    (hauth : env.authDisabled = false) (htrusted : ∀ g ∈ granted tr, Entrusted env tr g)
    {e : Served Api.Http Db Json} (hb : e.before = s) (he : machine.Serves (Api.serve env) e w w')
    {g : Grant} (hg : grantOf e = some g) : Entrusted env (tr ++ [e]) g := by
  subst hb
  cases he with
  | failed _ => simp [grantOf] at hg
  | @ok http s r s' _ _ hexec =>
      obtain ⟨authorization, xActorId, request⟩ := http
      cases request with
      | bootstrap name email =>
          obtain ⟨hempty, _⟩ := adds_of_bootstrap hexec
            (Api.below_of_run (Audit.seqBelow_empty w₀) h)
          have hfirst : granted tr = [] := by
            have husers := (carries_of_run h).users
            rw [hempty] at husers
            exact List.map_eq_nil_iff.mp husers.symm
          exact .root hfirst rfl hg
      | createUser body =>
          obtain ⟨admin, hlive, hkey, hrole⟩ := holder_of_serves h hauth rfl hexec
          exact .byAdmin (htrusted admin hlive.1) hlive (List.mem_singleton.mp hrole) hkey hg
      | _ => simp [grantOf] at hg

/-- With authentication on, every key of a run descends from the bootstrap
through keys of admins that were live when they were used, and every guarded
request that went through showed a live key of a user whose role admits it. -/
theorem authority_descends (h : machine.Run (Api.serve env) Db.empty w₀ tr s w)
    (hauth : env.authDisabled = false) :
    (∀ g ∈ granted tr, Entrusted env tr g) ∧
      ∀ pre e post allowed, tr = pre ++ e :: post → e.outcome ≠ none →
        Api.rolesOf e.request.request = some allowed →
          ∃ g, Live pre g ∧ Shows env e.request.authorization g.key ∧ g.user.role ∈ allowed := by
  refine ⟨?_, ?_⟩
  · induction h with
    | nil => simp [granted]
    | @snoc tr s w e w' h hb he ih =>
        intro g hg
        rw [granted_concat] at hg
        rcases List.mem_append.mp hg with hg | hg
        · exact .later (ih g hg)
        · exact .of_serves h hauth ih hb he (Option.mem_toList.mp hg)
  · rintro pre e post allowed rfl hout hroles
    obtain ⟨w₁, w₂, hpre, hserves, _⟩ := h.split
    cases hserves with
    | failed _ => exact absurd rfl hout
    | ok hexec => exact holder_of_serves hpre hauth hroles hexec

theorem authority_descends_leadRevoked :
    (granted (Development.guardedRun leadRevoked).1).length = 2 ∧
      (∀ g ∈ granted (Development.guardedRun leadRevoked).1,
        Entrusted Development.guardedEnv (Development.guardedRun leadRevoked).1 g) ∧
      ∀ pre e post allowed, (Development.guardedRun leadRevoked).1 = pre ++ e :: post →
        e.outcome ≠ none → Api.rolesOf e.request.request = some allowed →
          ∃ g, Live pre g ∧ Shows Development.guardedEnv e.request.authorization g.key ∧
            g.user.role ∈ allowed :=
  ⟨by decide +kernel, authority_descends (Development.guardedRun_spec leadRevoked) rfl⟩

end Runs

end Credentials

end HumanDataFactory
