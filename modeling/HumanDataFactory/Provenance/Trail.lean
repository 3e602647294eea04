import HumanDataFactory.Provenance.Runs

/-!
# The audit trail and the people behind it

What is created, released, paid or revoked is in the trail; the names in the
trail are those of users who were allowed to act; a release takes two of them;
and nobody acts after his access was revoked.
-/

namespace HumanDataFactory

open Transact

namespace Development

/-! ### Two admins

The second one is made by the first, has a key of his own, and approves what
the first requests. -/

def leadKey : String := "hdf_" ++ identifier 7

/-- A digest that tells the two keys apart. -/
def keyedEnv : Env :=
  { guardedEnv with
    sha256 := fun s ↦ if s = adminKey then "admin" else if s = leadKey then "lead"
      else String.ofList (List.replicate 64 'f') }

def keyedRun (requests : List Api.Http) : List (Served Api.Http Db Json) × Db × ℕ :=
  machine.simulateRun answers (Api.serve keyedEnv) requests 1 Db.empty 1

theorem keyedRun_spec (requests : List Api.Http) :
    machine.Run (Api.serve keyedEnv) Db.empty 1 (keyedRun requests).1 (keyedRun requests).2.1
      (keyedRun requests).2.2 :=
  Machine.run_of_simulateRun _ _ _ _ _

def rootId : String := identifier 1

def signedByLead (request : Api.Request) : Api.Http :=
  ⟨bearer leadKey, none, request⟩

def twoAdmins : List Api.Http :=
  [signedIn, signed (.createUser ⟨"Lead", "lead@example.com", .admin, none, none⟩)]

def createAlder : Api.Request :=
  .createFirm ⟨"Alder", "ap@alder.example.com", .external, "usd", ""⟩

/-- A delivery from the first firm to the release. -/
def releasedDelivery : List Api.Http :=
  twoAdmins ++ [createAlder, .createExpert ⟨"Ada", "ada@example.com", ["CPA"], false⟩,
    .createExpert ⟨"Rae", "rae@example.com", ["CPA"], true⟩,
    .recordExam (identifier 14) ⟨.tax, .finite 90, ninety_inRange⟩,
    .recordExam (identifier 17) ⟨.tax, .finite 90, ninety_inRange⟩,
    .createProject ⟨"Returns", identifier 11, .tax, .sft, "", none⟩,
    .createTask (identifier 26) ⟨"Explain the treatment", [], false, none⟩,
    .createSubmission (identifier 29) (identifier 14) [("response", .str "It is deductible.")],
    .postHumanReview (identifier 33) ⟨identifier 17, .pass, none, ""⟩,
    .requestExport (identifier 26)].map signed ++
      [signedByLead (.approveExport (identifier 51) "")]

def deliveredStore : Db := (keyedRun releasedDelivery).2.1

/-- The second admin revokes the first. -/
def rootRevoked : List Api.Http :=
  twoAdmins ++ [signedByLead (.revokeUser rootId)]

end Development

namespace Provenance

variable {env : Env} {s : Db}

theorem reached_deliveredStore : Reached Development.keyedEnv Development.deliveredStore :=
  .of_run (Development.keyedRun_spec Development.releasedDelivery)

/-- Each deed the rows tell of has its event, in every interleaving: nothing is
created, released, paid or revoked off the record. -/
theorem trail_is_complete (h : Reached env s) {x : Row} {d : Deed} (hx : s.Has x)
    (hd : d ∈ deedsOf x) : ∃ ev ∈ s.auditEvents, Shows ev d :=
  (h.accounted.covered x d hx hd).resolve_left fun hd ↦ hd

theorem trail_is_complete_deliveredStore :
    ∃ b ∈ Development.deliveredStore.exportBatches, b.status = .released ∧
      ∃ ev ∈ Development.deliveredStore.auditEvents, Shows ev (.released b.id) := by
  have hbatch : ∃ b ∈ Development.deliveredStore.exportBatches.rows, b.status = .released := by
    decide +kernel
  obtain ⟨b, hb, hstatus⟩ := hbatch
  exact ⟨b, hb, hstatus, trail_is_complete reached_deliveredStore (x := .exportBatch b) hb
    (Or.inr ⟨hstatus, rfl⟩)⟩

theorem user_of_by (henv : env.authDisabled = false) {roles : List Role} {id : String}
    (h : By (Known env) s roles id) : ∃ user ∈ s.users, user.id = id ∧ user.role ∈ roles := by
  obtain ⟨actor, hknown, hid, hrole⟩ := h
  obtain ⟨user, hu, rfl⟩ := hknown henv
  exact ⟨user, hu, hid, hrole⟩

/-- With authentication on, every action that the API records under its
caller's name was taken by a user in a role the action asks for. -/
theorem actions_are_authorised (henv : env.authDisabled = false) (h : Reached env s)
    {ev : AuditEvent} (hev : ev ∈ s.auditEvents) {roles : List Role}
    (hroles : actionRoles ev.action = some roles) :
    ∃ user ∈ s.users, user.id = ev.actor ∧ user.role ∈ roles ∧
      (ev.action = "invoice.checkout_created" →
        ∃ inv ∈ s.invoices, inv.id = ev.entityId ∧ Auth.firmAccess (actorOf user) inv.firmId) := by
  obtain ⟨actor, hknown, hid, hrole, hcheckout⟩ := h.grounded (x := .auditEvent ev) hev roles hroles
  obtain ⟨user, hu, rfl⟩ := hknown henv
  exact ⟨user, hu, hid, hrole, hcheckout⟩

theorem actions_are_authorised_deliveredStore :
    ∃ ev ∈ Development.deliveredStore.auditEvents, ev.action = "export.released" ∧
      ∃ user ∈ Development.deliveredStore.users, user.id = ev.actor ∧ user.role ∈ Api.internal ∧
        (ev.action = "invoice.checkout_created" →
          ∃ inv ∈ Development.deliveredStore.invoices, inv.id = ev.entityId ∧
            Auth.firmAccess (actorOf user) inv.firmId) := by
  have hevent : ∃ ev ∈ Development.deliveredStore.auditEvents,
      ev.action = "export.released" := by decide +kernel
  obtain ⟨ev, hev, haction⟩ := hevent
  have hroles : actionRoles ev.action = some Api.internal := by rw [haction]; rfl
  exact ⟨ev, hev, haction, actions_are_authorised rfl reached_deliveredStore hev hroles⟩

/-- A released batch was requested and approved by two different users, both
of them internal, and both steps are in the trail. -/
theorem released_by_two (henv : env.authDisabled = false) (h : Reached env s) {b : ExportBatch}
    (hb : b ∈ s.exportBatches) (hreleased : b.status = .released) :
    ∃ requester ∈ s.users, ∃ approver ∈ s.users, requester.id = b.requestedBy ∧
      b.approvedBy = some approver.id ∧ requester.id ≠ approver.id ∧
        requester.role ∈ Api.internal ∧ approver.role ∈ Api.internal ∧
          (∃ ev ∈ s.auditEvents, Shows ev (.created "export_batch" b.id)) ∧
            ∃ ev ∈ s.auditEvents, Shows ev (.released b.id) := by
  have hgrounds : BatchGrounds env s b := h.grounded (x := .exportBatch b) hb
  obtain ⟨requester, hr, hrid, hrrole⟩ := user_of_by henv hgrounds.requester
  obtain ⟨id, happroved, hne, hby⟩ := hgrounds.released hreleased
  obtain ⟨approver, ha, rfl, harole⟩ := user_of_by henv hby
  have hcovered (d : Deed) (hd : d ∈ deedsOf (.exportBatch b)) : ∃ ev ∈ s.auditEvents, Shows ev d :=
    (h.accounted.covered (.exportBatch b) d hb hd).resolve_left fun hd ↦ hd
  refine ⟨requester, hr, approver, ha, hrid, happroved, ?_, hrrole, harole, ?_, ?_⟩
  · rw [hrid]
    exact hne.symm
  · exact hcovered _ (Or.inl rfl)
  · exact hcovered _ (Or.inr ⟨hreleased, rfl⟩)

theorem released_by_two_deliveredStore :
    ∃ b ∈ Development.deliveredStore.exportBatches, b.status = .released ∧
      ∃ requester ∈ Development.deliveredStore.users,
        ∃ approver ∈ Development.deliveredStore.users, requester.id = b.requestedBy ∧
          b.approvedBy = some approver.id ∧ requester.id ≠ approver.id ∧
            requester.role ∈ Api.internal ∧ approver.role ∈ Api.internal ∧
              (∃ ev ∈ Development.deliveredStore.auditEvents,
                Shows ev (.created "export_batch" b.id)) ∧
                ∃ ev ∈ Development.deliveredStore.auditEvents, Shows ev (.released b.id) := by
  have hbatch : ∃ b ∈ Development.deliveredStore.exportBatches.rows, b.status = .released := by
    decide +kernel
  obtain ⟨b, hb, hstatus⟩ := hbatch
  exact ⟨b, hb, hstatus, released_by_two rfl reached_deliveredStore hb hstatus⟩

/-- Everybody but one user, where users have to authenticate. -/
def others (henv : env.authDisabled = false) (userId : String) : Authority env where
  holds := fun actor s ↦ Known env actor s ∧ actor.id ≠ userId
  mono := fun h hs ↦ ⟨Known.mono h hs.1, hs.2⟩
  known := And.left
  dev := fun hdev _ _ ↦ by simp [henv] at hdev

/-- Once the user is inactive, authentication finds only others. -/
theorem holds_others (henv : env.authDisabled = false) {user : User} (hu : user ∈ s.users)
    (hinactive : user.active = false) {actor : Auth.Actor} {t : Db} (hst : s.Grows t)
    (hres : Resolved env actor t) : (others henv user.id).holds actor t := by
  refine ⟨hres.known, ?_⟩
  intro hid
  obtain ⟨b, hb, hactive, rfl⟩ := hres henv
  obtain ⟨active, hrow, hstays⟩ := hst.user hu
  obtain rfl := Table.eq_of_key hb hrow hid
  simp [hstays hinactive] at hactive

section Revoked

variable {ι : Type} [DecidableEq ι] {http : ι → Api.Http} {w₀ w : ℕ}
  {tr : List (Served Api.Http Db Json)}
  {S S' : Sys ι Db Write Query Call Reply ℕ PyError Json} {i : ι}

/-- Once a revocation is committed, no request that starts afterwards records
an action in that user's name, whatever else is running. -/
theorem revoked_user_signs_nothing (henv : env.authDisabled = false)
    (hrun : machine.Run (Api.serve env) Db.empty w₀ tr s w)
    (hS : machine.Interleaves (.init s w fun i ↦ Api.serve env (http i)) S) {user : User}
    (hu : user ∈ S.store.users) (hrevoked : user.active = false)
    (hi : S.txn i = .running (Api.serve env (http i)) [] []) (hS' : machine.Interleaves S S')
    {r : Json} {ws : List Write} {seen : List (Query × Db)}
    (hdone : S'.txn i = .committed r ws seen) :
    ∀ ev, Write.insertAuditEvent ev ∈ ws → (actionRoles ev.action).isSome = true →
      ev.actor ≠ user.id := by
  intro ev hev hsome
  obtain ⟨roles, hroles⟩ := Option.isSome_iff_exists.mp hsome
  have hinv (T : Sys ι Db Write Query Call Reply ℕ PyError Json)
      (hT : machine.Interleaves S T) : Accounted env ∅ T.store :=
    accounted_of_interleaves (accounted_of_run hrun) (hS.trans hT)
  have hserve : (terms (others henv user.id)).Honours (Api.serve env (http i))
      (fun _ d _ ↦ d = ∅) ∅ S.store :=
    honours_serve fun _ _ hst hres ↦ holds_others henv hu hrevoked hst hres
  obtain ⟨v, hdue⟩ := Contract.due_of_steps (C := terms (others henv user.id))
    (fun _ _ _ _ _ h ↦ h) hinv hi hserve hS' hdone _ hev
  obtain ⟨actor, ⟨_, hother⟩, hid, _⟩ := hdue roles hroles
  rwa [hid] at hother

end Revoked

/-- The second admin goes on after revoking the first, who tries to do the
same. -/
def afterRevocation : Sys Bool Db Write Query Call Reply ℕ PyError Json :=
  .init (Development.keyedRun Development.rootRevoked).2.1
    (Development.keyedRun Development.rootRevoked).2.2 fun i ↦
      Api.serve Development.keyedEnv
        (if i then Development.signed Development.createAlder
          else Development.signedByLead Development.createAlder)

/-- Whether the transaction is committed with a firm created by it. -/
def createdFirm : Txn Db Write Query Call Reply PyError Json → Bool
  | .committed _ ws _ => ws.any fun u ↦
      match u with
      | .insertAuditEvent ev => ev.action = "firm.created"
      | _ => false
  | _ => false

theorem committed_of_createdFirm {x : Txn Db Write Query Call Reply PyError Json}
    (h : createdFirm x = true) : ∃ r ws seen, x = .committed r ws seen ∧
      ∃ ev, Write.insertAuditEvent ev ∈ ws ∧ ev.action = "firm.created" := by
  unfold createdFirm at h
  split at h
  · rename_i r ws seen
    obtain ⟨u, hu, haction⟩ := List.any_eq_true.mp h
    split at haction
    · exact ⟨r, ws, seen, rfl, _, hu, of_decide_eq_true haction⟩
    · cases haction
  · cases h

theorem revoked_user_signs_nothing_afterRevocation :
    ∃ S' r ws seen, machine.Interleaves afterRevocation S' ∧
      S'.txn false = .committed r ws seen ∧
        (∃ ev, Write.insertAuditEvent ev ∈ ws ∧ ev.action = "firm.created") ∧
          ∀ ev, Write.insertAuditEvent ev ∈ ws → (actionRoles ev.action).isSome = true →
            ev.actor ≠ Development.rootId := by
  have hplay : (machine.play Development.answers (List.replicate 5 (.advance true) ++
      List.replicate 12 (.advance false) ++ [.commit false]) 100 afterRevocation).map
        (fun S ↦ createdFirm (S.txn false)) = some true := by decide +kernel
  have huser : ∃ user ∈ afterRevocation.store.users.rows, user.active = false ∧
      user.id = Development.rootId := by decide +kernel
  obtain ⟨S', hS', hcreated⟩ := Option.map_eq_some_iff.mp hplay
  obtain ⟨r, ws, seen, hdone, hev⟩ := committed_of_createdFirm hcreated
  obtain ⟨user, hu, hrevoked, hid⟩ := huser
  have hinter := Machine.interleaves_of_play hS'
  refine ⟨S', r, ws, seen, hinter, hdone, hev, ?_⟩
  rw [← hid]
  exact revoked_user_signs_nothing rfl (Development.keyedRun_spec Development.rootRevoked) .refl
    hu hrevoked rfl hinter hdone

end Provenance

end HumanDataFactory
