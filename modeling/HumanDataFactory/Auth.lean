import HumanDataFactory.Billing.Service

/-!
# Authentication and roles

`auth.py`: a bearer key resolves to an actor, roles guard the endpoints, and a
firm's records are open to internal roles and to its own client users.
-/

namespace HumanDataFactory

open Transact

namespace Auth

variable (env : Env)

structure Actor where
  id : String
  name : String
  role : Role
  firmId : Option String
  expertId : Option String
  deriving DecidableEq, Repr

def Actor.isInternal (actor : Actor) : Bool :=
  actor.role = .admin ∨ actor.role = .ops

def KEY_PREFIX : String := "hdf_"

def hashKey (key : String) : String :=
  env.sha256 key

def issueKey (user : User) : Tx String := do
  let secret ← Prog.ask (.tokenUrlsafe : Call)
  let key := KEY_PREFIX ++ secret
  let id ← Session.uuid4
  Session.write (.insertApiKey {
    id := id
    userId := user.id
    keyHash := hashKey env key
    active := true })
  return key

/-- The active users behind active keys with this hash. -/
def usersOfKey (s : Db) (keyHash : String) : List User :=
  (s.apiKeys.rows.filter fun k ↦ k.keyHash = keyHash ∧ k.active = true).flatMap fun k ↦
    s.users.rows.filter fun u ↦ u.id = k.userId ∧ u.active = true

/-- The header with `"Bearer "` taken off its start. -/
def bearerToken (authorization : String) : Option String :=
  if startsWith "Bearer " authorization then
    some (env.strip (String.ofList (authorization.toList.drop 7)))
  else none

def devActor (xActorId : Option String) : Actor :=
  let name := (StripeGateway.truthyId xActorId).getD "dev-admin"
  ⟨name, name, .admin, none, none⟩

def resolve (authorization xActorId : Option String) : Tx Actor :=
  if env.authDisabled then return devActor xActorId
  else do
    let token ← Prog.getSome (.http 401 "missing bearer API key")
      (authorization.bind (bearerToken env))
    let found ← Session.select (.rows .apiKeys) fun s ↦
      (usersOfKey s (hashKey env token)).head?
    let user ← Prog.getSome (.http 401 "invalid or revoked API key") found
    return ⟨user.id, user.name, user.role, user.firmId, user.expertId⟩

def requireRoles (allowed : List Role) (actor : Actor) : Tx Unit :=
  Prog.ensure (actor.role ∈ allowed)
    (.http 403 s!"role '{actor.role.value}' is not permitted for this action")

/-- The `actor: Actor = Depends(...)` of an endpoint. -/
def currentActor (allowed : List Role) (authorization xActorId : Option String) : Tx Actor := do
  let actor ← resolve env authorization xActorId
  requireRoles allowed actor
  return actor

def firmAccess (actor : Actor) (firmId : String) : Prop :=
  actor.isInternal = true ∨ (actor.role = .client ∧ actor.firmId = some firmId)

instance (actor : Actor) (firmId : String) : Decidable (firmAccess actor firmId) :=
  inferInstanceAs (Decidable (_ ∨ _))

def assertFirmAccess (actor : Actor) (firmId : String) : Tx Unit :=
  Prog.ensure (firmAccess actor firmId) (.http 403 "not permitted for this firm")

theorem writeless_currentActor (allowed : List Role) (authorization xActorId : Option String) :
    (currentActor env allowed authorization xActorId).Writeless := by
  refine Prog.Writeless.bind ?_ fun actor ↦ (Prog.Writeless.ensure _ _).bind fun _ ↦ .pure _
  unfold resolve
  split
  · exact .pure _
  · exact (Prog.Writeless.getSome _ _).bind fun _ ↦ (Prog.Writeless.select _ _).bind fun _ ↦
      (Prog.Writeless.getSome _ _).bind fun _ ↦ .pure _

theorem exec_resolve {authorization xActorId : Option String} {actor : Actor} {s s' : Db}
    {w w' : ℕ} (h : machine.Exec (resolve env authorization xActorId) s w actor s' w') :
    s' = s ∧ w' = w := by
  unfold resolve at h
  split at h
  · exact h.2
  · rw [Machine.exec_getSome_bind] at h
    obtain ⟨token, _, h⟩ := h
    rw [Machine.exec_select_bind, Machine.exec_getSome_bind] at h
    obtain ⟨user, _, h⟩ := h
    exact h.2

theorem exec_currentActor {allowed : List Role} {authorization xActorId : Option String}
    {actor : Actor} {s s' : Db} {w w' : ℕ}
    (h : machine.Exec (currentActor env allowed authorization xActorId) s w actor s' w') :
    s' = s ∧ w' = w := by
  unfold currentActor at h
  rw [Machine.exec_bind] at h
  obtain ⟨actor', s₁, w₁, hres, h⟩ := h
  obtain ⟨rfl, rfl⟩ := exec_resolve env hres
  unfold requireRoles at h
  rw [Machine.exec_ensure_bind] at h
  exact h.2.2

end Auth

end HumanDataFactory
