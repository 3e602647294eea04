import HumanDataFactory.Api.Reads
import HumanDataFactory.Release.Versions
import HumanDataFactory.TieOut

/-!
# What a client can read

Two databases that agree on the records of one firm.  What a client of the
firm gets to read is the same in both, except where a handler looks at a row
before it asks whose it is, or at no owner at all, and in the control report,
which counts the audit events of everyone.
-/

namespace HumanDataFactory

open Transact

namespace Isolation

variable {env : Env} {s s' : Db} {firmId : String}

/-! ## The records of a firm -/

def OwnTask (s : Db) (firmId : String) (t : Task) : Prop :=
  ∃ p ∈ s.projects.rows, p.id = t.projectId ∧ p.firmId = firmId

def OwnSubmission (s : Db) (firmId : String) (sub : Submission) : Prop :=
  ∃ t ∈ s.tasks.rows, t.id = sub.taskId ∧ OwnTask s firmId t

def OwnReview (s : Db) (firmId : String) (r : Review) : Prop :=
  ∃ sub ∈ s.submissions.rows, sub.id = r.submissionId ∧ OwnSubmission s firmId sub

instance (s : Db) (firmId : String) : DecidablePred (OwnTask s firmId) :=
  fun _ ↦ inferInstanceAs (Decidable (∃ _ ∈ _, _))

instance (s : Db) (firmId : String) : DecidablePred (OwnSubmission s firmId) :=
  fun _ ↦ inferInstanceAs (Decidable (∃ _ ∈ _, _))

instance (s : Db) (firmId : String) : DecidablePred (OwnReview s firmId) :=
  fun _ ↦ inferInstanceAs (Decidable (∃ _ ∈ _, _))

/-- The two databases agree on users, keys and all rows of the firm. -/
structure SameFirm (firmId : String) (s s' : Db) : Prop where
  users : s.users = s'.users
  apiKeys : s.apiKeys = s'.apiKeys
  firm : s.firms.find? firmId = s'.firms.find? firmId
  projects : (s.projects.rows.filter fun p ↦ p.firmId = firmId) =
    s'.projects.rows.filter fun p ↦ p.firmId = firmId
  tasks : (s.tasks.rows.filter fun t ↦ OwnTask s firmId t) =
    s'.tasks.rows.filter fun t ↦ OwnTask s' firmId t
  submissions : (s.submissions.rows.filter fun sub ↦ OwnSubmission s firmId sub) =
    s'.submissions.rows.filter fun sub ↦ OwnSubmission s' firmId sub
  reviews : (s.reviews.rows.filter fun r ↦ OwnReview s firmId r) =
    s'.reviews.rows.filter fun r ↦ OwnReview s' firmId r
  usageEvents : (s.usageEvents.rows.filter fun ev ↦ ev.firmId = firmId) =
    s'.usageEvents.rows.filter fun ev ↦ ev.firmId = firmId
  invoices : (s.invoices.rows.filter fun inv ↦ inv.firmId = firmId) =
    s'.invoices.rows.filter fun inv ↦ inv.firmId = firmId

namespace SameFirm

theorem symm (h : SameFirm firmId s s') : SameFirm firmId s' s :=
  ⟨h.users.symm, h.apiKeys.symm, h.firm.symm, h.projects.symm, h.tasks.symm, h.submissions.symm,
    h.reviews.symm, h.usageEvents.symm, h.invoices.symm⟩

variable (h : SameFirm firmId s s')
include h

theorem authenticates {authorization xActorId : Option String} {actor : Auth.Actor}
    (ha : Api.Authenticates env s authorization xActorId actor) :
    Api.Authenticates env s' authorization xActorId actor :=
  ha.congr h.users.symm h.apiKeys.symm

theorem projectsFor_eq {actor : Auth.Actor} (hrole : actor.role = .client)
    (hfirm : actor.firmId = some firmId) : Api.projectsFor s actor = Api.projectsFor s' actor := by
  unfold Api.projectsFor
  refine Table.filter_eq_of_filter_eq h.projects ?_ ?_ <;>
  · intro p _ hp
    simpa [hrole, hfirm] using hp

theorem firmEvents_eq (periodStart periodEnd : Option Time) :
    Billing.firmEvents s firmId periodStart periodEnd =
      Billing.firmEvents s' firmId periodStart periodEnd := by
  refine Table.filter_eq_of_filter_eq h.usageEvents ?_ ?_ <;>
  · intro ev _ hev
    exact decide_eq_true (of_decide_eq_true hev).1

theorem firmInvoices_eq (periodStart periodEnd : Option Time) :
    Billing.firmInvoices s firmId periodStart periodEnd =
      Billing.firmInvoices s' firmId periodStart periodEnd := by
  refine Table.filter_eq_of_filter_eq h.invoices ?_ ?_ <;>
  · intro inv _ hinv
    exact decide_eq_true (of_decide_eq_true hinv).1

theorem billingSummaryOf_eq {firm : Firm} (hid : firm.id = firmId) :
    Billing.billingSummaryOf s firm = Billing.billingSummaryOf s' firm := by
  have hunattached : Billing.unattached s firmId = Billing.unattached s' firmId := by
    refine Table.filter_eq_of_filter_eq h.usageEvents ?_ ?_ <;>
    · intro ev _ hev
      exact decide_eq_true (of_decide_eq_true hev).1
  unfold Billing.billingSummaryOf
  rw [hid, hunattached, h.invoices]

theorem usageOf_eq (uninvoicedOnly : Bool) :
    Api.usageOf env s firmId uninvoicedOnly = Api.usageOf env s' firmId uninvoicedOnly := by
  unfold Api.usageOf
  congr 1
  refine Table.filter_eq_of_filter_eq h.usageEvents ?_ ?_ <;>
  · intro ev _ hev
    exact decide_eq_true (of_decide_eq_true hev).1

theorem invoicesOf_eq : Api.invoicesOf env s firmId = Api.invoicesOf env s' firmId := by
  unfold Api.invoicesOf
  rw [h.invoices]

theorem find?_project {id : String} {p : Project} (hp : s.projects.find? id = some p)
    (hown : p.firmId = firmId) : s'.projects.find? id = some p :=
  Table.find?_of_filter_eq h.projects hp (decide_eq_true hown)

theorem find?_invoice {id : String} {inv : Invoice} (hinv : s.invoices.find? id = some inv)
    (hown : inv.firmId = firmId) : s'.invoices.find? id = some inv :=
  Table.find?_of_filter_eq h.invoices hinv (decide_eq_true hown)

/-- The projects that events of the firm belong to have the same names. -/
theorem withName_eq (hb : (Metering.bookOf s).Balanced) {ev : UsageEvent} (hev : ev ∈ s.usageEvents)
    (hown : ev.firmId = firmId) {row : Billing.ProjectRow} (hrow : ev.projectId = row.projectId) :
    Billing.withName s row = Billing.withName s' row := by
  obtain ⟨t, _, _, hfor, hproject, _⟩ := hb.backed (Metering.chargeOf ev) ⟨ev, hev, rfl⟩
  obtain ⟨p, hp, hpair⟩ := hproject
  obtain ⟨hid, hfirm⟩ := Prod.mk.inj (Option.some.inj hpair)
  have hkey : p.id = row.projectId := (hid.trans hfor.project.symm).trans hrow
  have hfind : s.projects.find? row.projectId = some p := hkey ▸ Table.find?_of_mem hp
  unfold Billing.withName
  rw [hfind, h.find?_project hfind (hfirm.trans hown)]

theorem reconciliationOf_eq (hb : (Metering.bookOf s).Balanced) {firm : Firm}
    (hid : firm.id = firmId) (periodStart periodEnd : Option Time) :
    Billing.reconciliationOf s firm periodStart periodEnd =
      Billing.reconciliationOf s' firm periodStart periodEnd := by
  have hnames : (Billing.perProject (Billing.firmEvents s firmId periodStart periodEnd)).map
      (Billing.withName s) =
      (Billing.perProject (Billing.firmEvents s firmId periodStart periodEnd)).map
        (Billing.withName s') := by
    apply List.map_congr_left
    intro row hrow
    obtain ⟨ev, hev, hgroup⟩ := TieOut.projectRollup.exists_item hrow
    obtain ⟨hmem, hmeets⟩ := List.mem_filter.mp hev
    exact h.withName_eq hb hmem (of_decide_eq_true hmeets).1 hgroup
  unfold Billing.reconciliationOf
  dsimp only
  rw [hid, hnames, h.firmEvents_eq, h.firmInvoices_eq]

variable {project : Project} (hp : project ∈ s.projects) (hp' : project ∈ s'.projects)
  (hown : project.firmId = firmId)
include hp hp' hown

theorem tasks_eq : (s.tasks.rows.filter fun t ↦ t.projectId = project.id ∧ t.isGold = false) =
    s'.tasks.rows.filter fun t ↦ t.projectId = project.id ∧ t.isGold = false := by
  refine Table.filter_eq_of_filter_eq h.tasks ?_ ?_
  · intro t _ ht
    exact decide_eq_true ⟨project, hp, (of_decide_eq_true ht).1.symm, hown⟩
  · intro t _ ht
    exact decide_eq_true ⟨project, hp', (of_decide_eq_true ht).1.symm, hown⟩

theorem approvedJoin_eq : Export.approvedJoin s project = Export.approvedJoin s' project := by
  unfold Export.approvedJoin
  rw [← h.tasks_eq hp hp' hown]
  apply List.flatMap_congr
  intro t ht
  congr 1
  obtain ⟨hmem, hproject⟩ := List.mem_filter.mp ht
  have howned : OwnTask s firmId t := ⟨project, hp, (of_decide_eq_true hproject).1.symm, hown⟩
  obtain ⟨hmem', howned'⟩ := Table.mem_of_filter_eq h.tasks hmem (decide_eq_true howned)
  refine Table.filter_eq_of_filter_eq h.submissions ?_ ?_
  · intro sub _ hsub
    exact decide_eq_true ⟨t, hmem, (of_decide_eq_true hsub).1.symm, howned⟩
  · intro sub _ hsub
    exact decide_eq_true ⟨t, hmem', (of_decide_eq_true hsub).1.symm, of_decide_eq_true howned'⟩

omit hp hp' hown in
theorem hasReviewEvidence_of {sub : Submission} (hsub : sub ∈ s.submissions)
    (howned : OwnSubmission s firmId sub) (he : Export.hasReviewEvidence s sub.id = true) :
    Export.hasReviewEvidence s' sub.id = true := by
  unfold Export.hasReviewEvidence at he ⊢
  obtain ⟨r, hr, hmeets⟩ := List.any_eq_true.mp he
  have howns : OwnReview s firmId r := ⟨sub, hsub, (of_decide_eq_true hmeets).1.symm, howned⟩
  have hmem := Table.mem_of_filter_eq h.reviews hr (decide_eq_true howns)
  exact List.any_eq_true.mpr ⟨r, hmem.1, hmeets⟩

omit hp hp' hown in
theorem hasReviewEvidence_eq {sub : Submission} (hsub : sub ∈ s.submissions)
    (howned : OwnSubmission s firmId sub) :
    Export.hasReviewEvidence s sub.id = Export.hasReviewEvidence s' sub.id := by
  obtain ⟨hsub', howned'⟩ := Table.mem_of_filter_eq h.submissions hsub (decide_eq_true howned)
  rw [Bool.eq_iff_iff]
  exact ⟨h.hasReviewEvidence_of hsub howned,
    h.symm.hasReviewEvidence_of hsub' (of_decide_eq_true howned')⟩

/-- Everything in the report but the audit trail is the firm's. -/
theorem reportOf_eq : Export.reportOf env s project =
    { Export.reportOf env s' project with
      auditChainIntact := (Audit.verifyChain env s).1
      auditChainLength := (Audit.verifyChain env s).2
      clean := (Audit.verifyChain env s).1 &&
        (Export.reportOf env s' project).approvedWithoutReviewEvidence.isEmpty &&
        decide (0 < (Export.reportOf env s' project).approvedRecords) } := by
  have happroved : Export.approvedRows env s project = Export.approvedRows env s' project := by
    unfold Export.approvedRows
    rw [h.approvedJoin_eq hp hp' hown]
  have hmissing : ((Export.approvedRows env s project).filter fun row ↦
        !Export.hasReviewEvidence s row.2.id) =
      (Export.approvedRows env s project).filter fun row ↦
        !Export.hasReviewEvidence s' row.2.id := by
    apply List.filter_congr
    intro row hrow
    obtain ⟨htask, hproject, _, hsub, hof, _⟩ := Export.approved_of_mem hrow
    rw [h.hasReviewEvidence_eq hsub ⟨row.1, htask, hof.symm, project, hp, hproject.symm, hown⟩]
  unfold Export.reportOf
  dsimp only
  rw [hmissing, happroved, h.tasks_eq hp hp' hown]

end SameFirm

/-! ## Where another firm shows -/

/-- What a task's response shows besides its identifier. -/
def shown (t : Task) : String × String × Json × TaskStatus × Option String × Bool :=
  (t.projectId, t.prompt, t.context, t.status, t.assignedTo, t.isGold)

/-- The two databases give a client of the firm the same response: for most
endpoints always, for a task if they show the same task under its identifier,
for an invoice or a project if the identifier is taken in both or in neither,
and for the control report of the firm's own project if their audit trails are
equally long. -/
def Shielded (firmId : String) (s s' : Db) : Api.Read → Prop
  | .getTask id => (s.tasks.find? id).map shown = (s'.tasks.find? id).map shown
  | .getInvoice id => s.invoices.Vacant id ↔ s'.invoices.Vacant id
  | .getControlReport id => (s.projects.Vacant id ↔ s'.projects.Vacant id) ∧
      ∀ p ∈ s.projects, p.id = id → p.firmId = firmId →
        s.auditEvents.length = s'.auditEvents.length
  | _ => True

theorem optStr_inj {a b : Option String} (h : Api.optStr a = Api.optStr b) : a = b := by
  cases a <;> cases b <;> simp_all [Api.optStr]

theorem taskStatus_value_inj {a b : TaskStatus} (h : a.value = b.value) : a = b := by
  cases a <;> cases b <;> first | rfl | exact absurd h (by decide)

theorem taskOut_eq_iff {t t' : Task} (hid : t.id = t'.id) :
    Api.taskOut t = Api.taskOut t' ↔ shown t = shown t' := by
  simp only [Api.taskOut, shown, hid, Json.obj.injEq, List.cons.injEq, Prod.mk.injEq,
    Json.str.injEq, Json.bool.injEq, true_and, and_true]
  constructor
  · rintro ⟨hproject, hprompt, hcontext, hstatus, hassigned, hgold⟩
    exact ⟨hproject, hprompt, hcontext, taskStatus_value_inj hstatus, optStr_inj hassigned, hgold⟩
  · rintro ⟨hproject, hprompt, hcontext, hstatus, hassigned, hgold⟩
    exact ⟨hproject, hprompt, hcontext, congrArg _ hstatus, congrArg _ hassigned, hgold⟩

section Client

variable {actor : Auth.Actor} (hrole : actor.role = .client) (hfirm : actor.firmId = some firmId)
include hrole hfirm

theorem firmAccess_iff (id : String) : Auth.firmAccess actor id ↔ id = firmId := by
  simp [Auth.firmAccess, Auth.Actor.isInternal, hrole, hfirm, eq_comm]

theorem permitted_own (r : Except PyError Json) : Api.permitted actor firmId r = r :=
  if_pos ((firmAccess_iff hrole hfirm firmId).mpr rfl)

theorem permitted_other {id : String} (hid : id ≠ firmId) (r : Except PyError Json) :
    Api.permitted actor id r = .error (.http 403 "not permitted for this firm") :=
  if_neg fun h ↦ hid ((firmAccess_iff hrole hfirm id).mp h)

/-- A response that is refused, or about the firm itself. -/
theorem permitted_congr {id : String} {r r' : Except PyError Json} (h : id = firmId → r = r') :
    Api.permitted actor id r = Api.permitted actor id r' := by
  by_cases hid : id = firmId
  · rw [h hid]
  · rw [permitted_other hrole hfirm hid, permitted_other hrole hfirm hid]

/-- A handler that looks a row up and then asks whose it is. -/
theorem lookedUp_eq_iff {α : Type} {model id : String} {row row' : Option α} {owner : α → String}
    {r r' : α → Except PyError Json}
    (hown : ∀ a, owner a = firmId → (row = some a ↔ row' = some a)) :
    Api.found model id row (fun a ↦ Api.permitted actor (owner a) (r a)) =
        Api.found model id row' (fun a ↦ Api.permitted actor (owner a) (r' a)) ↔
      (row = none ↔ row' = none) ∧ ∀ a, row = some a → owner a = firmId → r a = r' a := by
  cases row with
  | none =>
      cases row' with
      | none => simp [Api.found]
      | some b =>
          have hb : owner b ≠ firmId := fun hb ↦ by simpa using (hown b hb).mpr rfl
          simp [Api.found, permitted_other hrole hfirm hb]
  | some a =>
      by_cases ha : owner a = firmId
      · rw [(hown a ha).mp rfl]
        simp [Api.found, ha, permitted_own hrole hfirm]
      · cases row' with
        | none => simp [Api.found, permitted_other hrole hfirm ha]
        | some b =>
            have hb : owner b ≠ firmId := by
              intro hb
              obtain rfl := Option.some.inj ((hown b hb).mpr rfl)
              exact ha hb
            simp [Api.found, permitted_other hrole hfirm ha, permitted_other hrole hfirm hb, ha]

end Client

/-! ## Isolation of firms -/

variable (env) in
/-- What a run keeps for the reading endpoints. -/
structure Kept (s : Db) : Prop where
  book : (Metering.bookOf s).Balanced
  verified : Audit.verifyChain env s = (true, s.auditEvents.length)

theorem kept_of_run {tr : List (Served Api.Http Db Json)} {w₀ w : ℕ}
    (h : machine.Run (Api.serve env) Db.empty w₀ tr s w) : Kept env s :=
  ⟨(Ledger.kept_of_run h).sound.balanced,
    (Audit.verifyChain_eq env).mpr (Replay.sound_of_run h).intact.linked⟩

theorem controlReport_eq_iff (hk : Kept env s) (hk' : Kept env s') (h : SameFirm firmId s s')
    {project : Project} (hp : project ∈ s.projects) (hp' : project ∈ s'.projects)
    (hown : project.firmId = firmId) :
    (Export.reportOf env s project).asJson = (Export.reportOf env s' project).asJson ↔
      s.auditEvents.length = s'.auditEvents.length := by
  have hlength : ∀ {s : Db}, Kept env s → ∀ project,
      (Export.reportOf env s project).auditChainLength = s.auditEvents.length :=
    fun hk project ↦ congrArg Prod.snd hk.verified
  constructor
  · intro heq
    have hfield : (Export.reportOf env s project).auditChainLength =
        (Export.reportOf env s' project).auditChainLength := by
      simp only [Export.ControlReport.asJson, Json.obj.injEq, List.cons.injEq, Prod.mk.injEq,
        Json.int.injEq, true_and, and_true] at heq
      omega
    rwa [hlength hk, hlength hk'] at hfield
  · intro hlen
    rw [h.reportOf_eq hp hp' hown, hk.verified, hlen, ← hk'.verified]
    rfl

/-- A client reads the same in two databases that agree on its firm, exactly
where the endpoint is shielded from the others. -/
theorem respond_eq_iff (hk : Kept env s) (hk' : Kept env s') (h : SameFirm firmId s s')
    {actor : Auth.Actor} (hrole : actor.role = .client) (hfirm : actor.firmId = some firmId)
    {read : Api.Read} (hadmits : .client ∈ read.roles) :
    Api.respond env s actor read = Api.respond env s' actor read ↔ Shielded firmId s s' read := by
  have hpermitted : ∀ {id : String} {r r' : Except PyError Json}, (id = firmId → r = r') →
      (Api.permitted actor id r = Api.permitted actor id r' ↔ True) :=
    fun heq ↦ iff_true_intro (permitted_congr hrole hfirm heq)
  cases read with
  | getFirm id =>
      refine hpermitted ?_
      rintro rfl
      rw [h.firm]
  | listProjects => exact iff_true_intro (by simp only [Api.respond, h.projectsFor_eq hrole hfirm])
  | getTask id =>
      simp only [Api.respond, Shielded]
      cases hfind : s.tasks.find? id with
      | none => cases hfind' : s'.tasks.find? id <;> simp [Api.found]
      | some t =>
          cases hfind' : s'.tasks.find? id with
          | none => simp [Api.found]
          | some t' =>
              have hid : t.id = t'.id :=
                (Table.key_of_find? hfind).trans (Table.key_of_find? hfind').symm
              simp [Api.found, taskOut_eq_iff hid]
  | getBillingSummary id =>
      refine hpermitted ?_
      rintro rfl
      rw [h.firm]
      cases hfind : s'.firms.find? id with
      | none => rfl
      | some f =>
          have hid : f.id = id := Table.key_of_find? hfind
          simp only [Api.found, Option.elim_some, h.billingSummaryOf_eq hid]
  | listUsage id uninvoicedOnly =>
      refine hpermitted ?_
      rintro rfl
      rw [h.firm, h.usageOf_eq]
  | listInvoices id =>
      refine hpermitted ?_
      rintro rfl
      rw [h.firm, h.invoicesOf_eq]
  | getInvoice id =>
      have hown : ∀ inv : Invoice, inv.firmId = firmId →
          (s.invoices.find? id = some inv ↔ s'.invoices.find? id = some inv) :=
        fun inv hown ↦ ⟨fun hf ↦ h.find?_invoice hf hown, fun hf ↦ h.symm.find?_invoice hf hown⟩
      refine (lookedUp_eq_iff hrole hfirm hown).trans ?_
      rw [Table.find?_eq_none, Table.find?_eq_none]
      exact and_iff_left fun _ _ _ ↦ rfl
  | firmReconciliation id periodStart periodEnd =>
      refine hpermitted ?_
      rintro rfl
      rw [h.firm]
      cases hfind : s'.firms.find? id with
      | none => rfl
      | some f =>
          have hid : f.id = id := Table.key_of_find? hfind
          simp only [Api.found, Option.elim_some, h.reconciliationOf_eq hk.book hid]
  | getControlReport id =>
      have hown : ∀ p : Project, p.firmId = firmId →
          (s.projects.find? id = some p ↔ s'.projects.find? id = some p) :=
        fun p hown ↦ ⟨fun hf ↦ h.find?_project hf hown, fun hf ↦ h.symm.find?_project hf hown⟩
      refine (lookedUp_eq_iff hrole hfirm hown).trans ?_
      simp only [Shielded, Table.find?_eq_none]
      refine and_congr_right fun _ ↦ ⟨?_, ?_⟩
      · rintro hsame p hp rfl howned
        have hfind := Table.find?_of_mem hp
        have hp' := Table.mem_of_find? ((hown p howned).mp hfind)
        have heq := hsame p hfind howned
        rw [Except.ok.injEq] at heq
        exact (controlReport_eq_iff hk hk' h hp hp' howned).mp heq
      · intro hlen p hfind howned
        have hp := Table.mem_of_find? hfind
        have hp' := Table.mem_of_find? ((hown p howned).mp hfind)
        rw [Except.ok.injEq, controlReport_eq_iff hk hk' h hp hp' howned]
        exact hlen p hp (Table.key_of_find? hfind) howned
  | _ => simp [Api.Read.roles, Api.internal, Api.reviewRoles] at hadmits

theorem isolated_iff_of_run {tr tr' : List (Served Api.Http Db Json)} {w₀ w w₀' w' : ℕ}
    (h : machine.Run (Api.serve env) Db.empty w₀ tr s w)
    (h' : machine.Run (Api.serve env) Db.empty w₀' tr' s' w') (hsame : SameFirm firmId s s')
    {authorization xActorId : Option String} {actor : Auth.Actor}
    (hactor : Api.Authenticates env s authorization xActorId actor)
    (hrole : actor.role = .client) (hfirm : actor.firmId = some firmId) {read : Api.Read}
    (hadmits : .client ∈ read.roles) :
    (Api.serveRead env authorization xActorId read).answer s =
        (Api.serveRead env authorization xActorId read).answer s' ↔
      Shielded firmId s s' read := by
  rw [Api.answer_serveRead hactor, Api.answer_serveRead (hsame.authenticates hactor), hrole,
    if_pos hadmits, if_pos hadmits, Option.some.injEq]
  exact respond_eq_iff (kept_of_run h) (kept_of_run h') hsame hrole hfirm hadmits

/-- Alder with a client, and Birch with a project. -/
def twoFirms : List Api.Request :=
  [.createFirm ⟨"Alder", "ap@alder.example.com", .external, "usd", ""⟩,
    .createUser ⟨"Cleo", "cleo@alder.example.com", .client, some (Development.identifier 6), none⟩,
    .createFirm ⟨"Birch", "ap@birch.example.com", .external, "usd", ""⟩,
    .createProject ⟨"Ledgers", Development.identifier 14, .tax, .sft, "", none⟩]

def birchTask : Api.Request :=
  .createTask (Development.identifier 17) ⟨"Explain the treatment", [], false, none⟩

def before : Db :=
  (Development.guardedRun twoFirms).2.1

def after : Db :=
  (Development.guardedRun (twoFirms ++ [birchTask])).2.1

def clientKey : String := "hdf_" ++ Development.identifier 10

def cleo : Auth.Actor :=
  ⟨Development.identifier 9, "Cleo", .client, some (Development.identifier 6), none⟩

theorem authenticates_cleo :
    Api.Authenticates Development.guardedEnv after (Development.bearer clientKey) none cleo := by
  unfold Api.Authenticates
  decide +kernel

theorem sameFirm_twoFirms : SameFirm (Development.identifier 6) after before := by
  have hnil : ∀ {α : Type} {l l' : List α}, l.isEmpty = true → l'.isEmpty = true → l = l' := by
    intro α l l' hl hl'
    rw [List.isEmpty_iff.mp hl, List.isEmpty_iff.mp hl']
  exact ⟨Table.ext (by decide +kernel), Table.ext (by decide +kernel), by decide +kernel,
    by decide +kernel, hnil (by decide +kernel) (by decide +kernel),
    hnil (by decide +kernel) (by decide +kernel), hnil (by decide +kernel) (by decide +kernel),
    by decide +kernel, by decide +kernel⟩

/-- What the client is shown of her own firm is the same with the task and
without it. -/
theorem isolated_iff_of_twoFirms :
    before.tasks.rows.length < after.tasks.rows.length ∧
      ∀ read ∈ [Api.Read.listProjects, .getFirm (Development.identifier 6),
          .listInvoices (Development.identifier 6)],
        (Api.serveRead Development.guardedEnv (Development.bearer clientKey) none read).answer
            after =
          (Api.serveRead Development.guardedEnv (Development.bearer clientKey) none read).answer
            before := by
  refine ⟨by decide +kernel, fun read hread ↦ ?_⟩
  have hlisted : .client ∈ read.roles ∧
      Shielded (Development.identifier 6) after before read := by
    simp only [List.mem_cons, List.not_mem_nil, or_false] at hread
    obtain rfl | rfl | rfl := hread <;> exact ⟨by decide, trivial⟩
  exact (isolated_iff_of_run (Development.guardedRun_spec _) (Development.guardedRun_spec _)
    sameFirm_twoFirms authenticates_cleo rfl rfl hlisted.1).mpr hlisted.2

/-- The identifier of another firm's task answers with the task. -/
theorem client_reads_foreign_task :
    ¬∀ (env : Env) (tr tr' : List (Served Api.Http Db Json)) (w₀ w w₀' w' : ℕ) (s s' : Db)
      (firmId : String) (authorization xActorId : Option String) (actor : Auth.Actor)
      (read : Api.Read),
      machine.Run (Api.serve env) Db.empty w₀ tr s w →
      machine.Run (Api.serve env) Db.empty w₀' tr' s' w' → SameFirm firmId s s' →
      Api.Authenticates env s authorization xActorId actor → actor.role = .client →
      actor.firmId = some firmId → .client ∈ read.roles →
      (Api.serveRead env authorization xActorId read).answer s =
        (Api.serveRead env authorization xActorId read).answer s' := by
  intro hclaim
  have heq := hclaim _ _ _ _ _ _ _ _ _ _ _ none cleo (.getTask (Development.identifier 20))
    (Development.guardedRun_spec _) (Development.guardedRun_spec _) sameFirm_twoFirms
    authenticates_cleo rfl rfl (by decide)
  change (Api.serveRead _ _ _ _).answer after = (Api.serveRead _ _ _ _).answer before at heq
  have hnone : before.tasks.find? (Development.identifier 20) = none :=
    Option.isNone_iff_eq_none.mp (by decide +kernel)
  obtain ⟨t, ht⟩ := Option.isSome_iff_exists.mp
    (show (after.tasks.find? (Development.identifier 20)).isSome = true by decide +kernel)
  rw [Api.answer_serveRead authenticates_cleo,
    Api.answer_serveRead (sameFirm_twoFirms.authenticates authenticates_cleo), Option.some.injEq,
    if_pos (by decide), if_pos (by decide)] at heq
  simp only [Api.respond, ht, hnone] at heq
  cases heq

end Isolation

end HumanDataFactory
