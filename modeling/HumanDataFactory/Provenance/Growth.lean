import HumanDataFactory.Concurrency.AuditChain

/-!
# The database only grows

Seen as one collection of rows, the database changes in a single way: a write
rewrites some columns of the rows that are there and adds at most one row.  No
row goes away, and most columns of a row never change; an account or a key
that was switched off stays so, and so does a release.  `Grows` is the order
this makes of the states.
-/

namespace HumanDataFactory

inductive Row
  | firm (a : Firm)
  | user (a : User)
  | apiKey (a : ApiKey)
  | expert (a : Expert)
  | qualification (a : Qualification)
  | project (a : Project)
  | task (a : Task)
  | submission (a : Submission)
  | review (a : Review)
  | auditEvent (a : AuditEvent)
  | rateCard (a : RateCard)
  | usageEvent (a : UsageEvent)
  | invoice (a : Invoice)
  | exportBatch (a : ExportBatch)

/-- The database holds the row. -/
def Db.Has (s : Db) : Row → Prop
  | .firm a => a ∈ s.firms
  | .user a => a ∈ s.users
  | .apiKey a => a ∈ s.apiKeys
  | .expert a => a ∈ s.experts
  | .qualification a => a ∈ s.qualifications
  | .project a => a ∈ s.projects
  | .task a => a ∈ s.tasks
  | .submission a => a ∈ s.submissions
  | .review a => a ∈ s.reviews
  | .auditEvent a => a ∈ s.auditEvents
  | .rateCard a => a ∈ s.rateCards
  | .usageEvent a => a ∈ s.usageEvents
  | .invoice a => a ∈ s.invoices
  | .exportBatch a => a ∈ s.exportBatches

namespace Write

/-- The row a write makes of one that is there. -/
def touch : Write → Row → Row
  | .setStripeCustomerId id v, .firm a =>
      .firm (if a.id = id then { a with stripeCustomerId := v } else a)
  | .deactivateUser id, .user a => .user (if a.id = id then { a with active := false } else a)
  | .deactivateApiKey id, .apiKey a =>
      .apiKey (if a.id = id then { a with active := false } else a)
  | .setExpertStatus id v, .expert a => .expert (if a.id = id then { a with status := v } else a)
  | .setQualityScore id v, .expert a =>
      .expert (if a.id = id then { a with qualityScore := v } else a)
  | .setApprovedCount id v, .expert a =>
      .expert (if a.id = id then { a with approvedCount := v } else a)
  | .setGoldPassCount id v, .expert a =>
      .expert (if a.id = id then { a with goldPassCount := v } else a)
  | .setGoldFailCount id v, .expert a =>
      .expert (if a.id = id then { a with goldFailCount := v } else a)
  | .setAssignedTo id v, .task a => .task (if a.id = id then { a with assignedTo := v } else a)
  | .setTaskStatus id v, .task a => .task (if a.id = id then { a with status := v } else a)
  | .setSubmissionStatus id v, .submission a =>
      .submission (if a.id = id then { a with status := v } else a)
  | .setSampledForHumanReview id v, .submission a =>
      .submission (if a.id = id then { a with sampledForHumanReview := v } else a)
  | .deactivateRateCard id, .rateCard a =>
      .rateCard (if a.id = id then { a with active := false } else a)
  | .setInvoiceId id v, .usageEvent a =>
      .usageEvent (if a.id = id then { a with invoiceId := v } else a)
  | .setStripeInvoice id stripeId url, .invoice a =>
      .invoice (if a.id = id then
        { a with stripeInvoiceId := stripeId, hostedInvoiceUrl := url } else a)
  | .setInvoiceStatus id v, .invoice a => .invoice (if a.id = id then { a with status := v } else a)
  | .setIssuedAt id v, .invoice a => .invoice (if a.id = id then { a with issuedAt := v } else a)
  | .setPaidAt id v, .invoice a => .invoice (if a.id = id then { a with paidAt := v } else a)
  | .setExternalPaidReference id v, .invoice a =>
      .invoice (if a.id = id then { a with externalPaidReference := v } else a)
  | .setCheckoutSessionId id v, .invoice a =>
      .invoice (if a.id = id then { a with checkoutSessionId := v } else a)
  | .releaseBatch id approvedBy path manifest, .exportBatch a =>
      .exportBatch (if a.id = id then
        { a with approvedBy := approvedBy, path := path, manifest := manifest, status := .released }
        else a)
  | _, x => x

/-- The row a write adds. -/
def adds : Write → Option Row
  | .insertFirm a => some (.firm a)
  | .insertUser a => some (.user a)
  | .insertApiKey a => some (.apiKey a)
  | .insertExpert a => some (.expert a)
  | .insertQualification a => some (.qualification a)
  | .insertProject a => some (.project a)
  | .insertTask a => some (.task a)
  | .insertSubmission a => some (.submission a)
  | .insertReview a => some (.review a)
  | .insertAuditEvent a => some (.auditEvent a)
  | .insertRateCard a => some (.rateCard a)
  | .insertUsageEvent a => some (.usageEvent a)
  | .insertInvoice a => some (.invoice a)
  | .insertExportBatch a => some (.exportBatch a)
  | _ => none

end Write

namespace Db

open Write

variable {u : Write} {s s' t t' : Db} {x y : Row}

/-- Every row is still there, as the write left it. -/
theorem has_touch (h : Db.apply u s = some s') (hx : s.Has x) : s'.Has (u.touch x) := by
  cases u <;> simp only [Db.apply, Option.ite_none_right_eq_some, Option.some.injEq] at h
  case insertAuditEvent a =>
    subst h
    cases x <;> first | exact hx | exact Audit.mem_insertBySeq.mpr (Or.inr hx)
  all_goals first
    | subst h
      cases x <;> try exact hx
      simp only [Write.touch, Has, Table.mem_modify]
      exact ⟨_, hx, rfl⟩
    | obtain ⟨hv, rfl⟩ := h
      cases x <;> first
        | exact hx
        | exact (Table.mem_push hv).mpr (Or.inl hx)
        | exact (Table.mem_push hv.1).mpr (Or.inl hx)

theorem has_adds (h : Db.apply u s = some s') (hy : u.adds = some y) : s'.Has y := by
  cases u <;> simp only [Write.adds, Option.some.injEq, reduceCtorEq] at hy <;>
    simp only [Db.apply, Option.ite_none_right_eq_some, Option.some.injEq] at h <;> subst hy
  case insertAuditEvent a =>
    subst h
    exact Audit.mem_insertBySeq.mpr (Or.inl rfl)
  all_goals
    obtain ⟨hv, rfl⟩ := h
    first
    | exact (Table.mem_push hv).mpr (Or.inr rfl)
    | exact (Table.mem_push hv.1).mpr (Or.inr rfl)

/-- A row is there after a write because the write touched or added it. -/
theorem has_cases (h : Db.apply u s = some s') (hy : s'.Has y) :
    (∃ x, s.Has x ∧ u.touch x = y) ∨ u.adds = some y := by
  have hsame (hold : s.Has y) (ht : u.touch y = y) :
      (∃ x, s.Has x ∧ u.touch x = y) ∨ u.adds = some y := Or.inl ⟨y, hold, ht⟩
  have hrow {α : Type} {row : α → Row} {b : α} (a : α) (ha : s.Has (row a))
      (ht : u.touch (row a) = row b) :
      (∃ x, s.Has x ∧ u.touch x = row b) ∨ u.adds = some (row b) := Or.inl ⟨row a, ha, ht⟩
  cases u <;> simp only [Db.apply, Option.ite_none_right_eq_some, Option.some.injEq] at h
  case insertAuditEvent a =>
    subst h
    cases y <;> try exact hsame hy rfl
    simp only [Has, Audit.mem_insertBySeq] at hy
    rcases hy with rfl | hy
    · exact Or.inr rfl
    · exact hrow _ hy rfl
  all_goals first
    | subst h
      cases y <;> try exact hsame hy rfl
      simp only [Has, Table.mem_modify] at hy
      obtain ⟨a, ha, rfl⟩ := hy
      exact hrow a ha rfl
    | obtain ⟨hv, rfl⟩ := h
      cases y <;> try exact hsame hy rfl
      simp only [Has] at hy
      rcases (Table.mem_push (by first | exact hv | exact hv.1)).mp hy with hy | rfl
      · exact hrow _ hy rfl
      · exact Or.inr rfl

end Db

/-- What a row can become: the columns that are ever written may differ, but
nothing is switched on again and no release is taken back. -/
inductive Row.Becomes : Row → Row → Prop
  | firm (a : Firm) (customer : Option String) :
      Becomes (.firm a) (.firm { a with stripeCustomerId := customer })
  | user (a : User) (active : Bool) (h : a.active = false → active = false) :
      Becomes (.user a) (.user { a with active := active })
  | apiKey (a : ApiKey) (active : Bool) (h : a.active = false → active = false) :
      Becomes (.apiKey a) (.apiKey { a with active := active })
  | expert (a : Expert) (status : ExpertStatus) (score : PyFloat) (approved passes fails : ℕ) :
      Becomes (.expert a) (.expert { a with
        status := status, qualityScore := score, approvedCount := approved,
        goldPassCount := passes, goldFailCount := fails })
  | qualification (a : Qualification) : Becomes (.qualification a) (.qualification a)
  | project (a : Project) : Becomes (.project a) (.project a)
  | task (a : Task) (status : TaskStatus) (assignedTo : Option String) :
      Becomes (.task a) (.task { a with status := status, assignedTo := assignedTo })
  | submission (a : Submission) (status : SubmissionStatus) (sampled : Bool) :
      Becomes (.submission a)
        (.submission { a with status := status, sampledForHumanReview := sampled })
  | review (a : Review) : Becomes (.review a) (.review a)
  | auditEvent (a : AuditEvent) : Becomes (.auditEvent a) (.auditEvent a)
  | rateCard (a : RateCard) (active : Bool) (h : a.active = false → active = false) :
      Becomes (.rateCard a) (.rateCard { a with active := active })
  | usageEvent (a : UsageEvent) (invoiceId : Option String) :
      Becomes (.usageEvent a) (.usageEvent { a with invoiceId := invoiceId })
  | invoice (a : Invoice) (status : InvoiceStatus) (stripeId url session reference : Option String)
      (issuedAt paidAt : Option Time) :
      Becomes (.invoice a) (.invoice { a with
        status := status, stripeInvoiceId := stripeId, hostedInvoiceUrl := url,
        checkoutSessionId := session, externalPaidReference := reference, issuedAt := issuedAt,
        paidAt := paidAt })
  | exportBatch (a : ExportBatch) (approvedBy path : Option String) (manifest : Json)
      (status : BatchStatus) (h : a.status = .released → status = .released) :
      Becomes (.exportBatch a) (.exportBatch { a with
        approvedBy := approvedBy, path := path, manifest := manifest, status := status })

namespace Row.Becomes

theorem refl (x : Row) : x.Becomes x := by
  cases x with
  | firm a => exact .firm a a.stripeCustomerId
  | user a => exact .user a a.active id
  | apiKey a => exact .apiKey a a.active id
  | expert a =>
      exact .expert a a.status a.qualityScore a.approvedCount a.goldPassCount a.goldFailCount
  | qualification a => exact .qualification a
  | project a => exact .project a
  | task a => exact .task a a.status a.assignedTo
  | submission a => exact .submission a a.status a.sampledForHumanReview
  | review a => exact .review a
  | auditEvent a => exact .auditEvent a
  | rateCard a => exact .rateCard a a.active id
  | usageEvent a => exact .usageEvent a a.invoiceId
  | invoice a =>
      exact .invoice a a.status a.stripeInvoiceId a.hostedInvoiceUrl a.checkoutSessionId
        a.externalPaidReference a.issuedAt a.paidAt
  | exportBatch a => exact .exportBatch a a.approvedBy a.path a.manifest a.status id

theorem trans {x y z : Row} (hxy : x.Becomes y) (hyz : y.Becomes z) : x.Becomes z := by
  cases hxy with
  | firm a v => cases hyz with | firm _ v' => exact .firm a v'
  | user a v h => cases hyz with | user _ v' h' => exact .user a v' (h' ∘ h)
  | apiKey a v h => cases hyz with | apiKey _ v' h' => exact .apiKey a v' (h' ∘ h)
  | expert a => cases hyz with | expert _ st sc n m k => exact .expert a st sc n m k
  | qualification a => exact hyz
  | project a => exact hyz
  | task a => cases hyz with | task _ st v' => exact .task a st v'
  | submission a => cases hyz with | submission _ st v' => exact .submission a st v'
  | review a => exact hyz
  | auditEvent a => exact hyz
  | rateCard a v h => cases hyz with | rateCard _ v' h' => exact .rateCard a v' (h' ∘ h)
  | usageEvent a => cases hyz with | usageEvent _ v' => exact .usageEvent a v'
  | invoice a =>
      cases hyz with | invoice _ st i u c r t t' => exact .invoice a st i u c r t t'
  | exportBatch a b p m st h =>
      cases hyz with | exportBatch _ b' p' m' st' h' => exact .exportBatch a b' p' m' st' (h' ∘ h)

/-- A write changes what it touches as it may be changed. -/
theorem self_touch (u : Write) (x : Row) : x.Becomes (u.touch x) := by
  have hite {p : Prop} [Decidable p] {α : Type} {row : α → Row} {a b : α} (h : x.Becomes (row a))
      (h' : x.Becomes (row b)) : x.Becomes (row (if p then a else b)) := by
    split
    · exact h
    · exact h'
  cases u <;> cases x <;> first
    | exact refl _
    | refine hite ?_ (refl _)
      constructor <;> exact fun _ ↦ rfl

/-- Writes keep to what rows have become. -/
theorem touch {x y : Row} (u : Write) (h : x.Becomes y) : (u.touch x).Becomes (u.touch y) := by
  have hite {p : Prop} [Decidable p] {α : Type} {row : α → Row} {a a' b b' : α}
      (h : (row a).Becomes (row b)) (h' : (row a').Becomes (row b')) :
      (row (if p then a else a')).Becomes (row (if p then b else b')) := by
    split
    · exact h
    · exact h'
  cases u <;> cases h <;> first
    | constructor <;> assumption
    | refine hite ?_ ?_ <;> constructor <;> first | assumption | exact fun _ ↦ rfl

end Row.Becomes

namespace Db

/-- Every row of `s` has become a row of `t`. -/
def Grows (s t : Db) : Prop :=
  ∀ x, s.Has x → ∃ y, t.Has y ∧ x.Becomes y

namespace Grows

variable {s t : Db}

theorem refl (s : Db) : s.Grows s :=
  fun x hx ↦ ⟨x, hx, .refl x⟩

theorem trans {u : Db} (hst : s.Grows t) (htu : t.Grows u) : s.Grows u := by
  intro x hx
  obtain ⟨y, hy, hxy⟩ := hst x hx
  obtain ⟨z, hz, hyz⟩ := htu y hy
  exact ⟨z, hz, hxy.trans hyz⟩

theorem of_apply {u : Write} {s s' : Db} (h : Db.apply u s = some s') : s.Grows s' :=
  fun x hx ↦ ⟨u.touch x, has_touch h hx, .self_touch u x⟩

/-- Over a larger database a write leads to a larger database. -/
theorem apply {u : Write} {s s' t t' : Db} (hst : s.Grows t) (hs : Db.apply u s = some s')
    (ht : Db.apply u t = some t') : s'.Grows t' := by
  intro y hy
  rcases has_cases hs hy with ⟨x, hx, rfl⟩ | hadds
  · obtain ⟨z, hz, hxz⟩ := hst x hx
    exact ⟨u.touch z, has_touch ht hz, hxz.touch u⟩
  · exact ⟨y, has_adds ht hadds, .refl y⟩

section Later

variable (h : s.Grows t)
include h

theorem firm {a : Firm} (ha : a ∈ s.firms) :
    ∃ customer, { a with stripeCustomerId := customer } ∈ t.firms := by
  obtain ⟨y, hy, hb⟩ := h (.firm a) ha
  cases hb with
  | firm _ customer => exact ⟨customer, hy⟩

theorem user {a : User} (ha : a ∈ s.users) :
    ∃ active, { a with active := active } ∈ t.users ∧ (a.active = false → active = false) := by
  obtain ⟨y, hy, hb⟩ := h (.user a) ha
  cases hb with
  | user _ active hoff => exact ⟨active, hy, hoff⟩

theorem expert {a : Expert} (ha : a ∈ s.experts) :
    ∃ b ∈ t.experts, b.id = a.id ∧ b.isReviewer = a.isReviewer := by
  obtain ⟨y, hy, hb⟩ := h (.expert a) ha
  cases hb
  exact ⟨_, hy, rfl, rfl⟩

theorem qualification {a : Qualification} (ha : a ∈ s.qualifications) : a ∈ t.qualifications := by
  obtain ⟨y, hy, hb⟩ := h (.qualification a) ha
  cases hb
  exact hy

theorem project {a : Project} (ha : a ∈ s.projects) : a ∈ t.projects := by
  obtain ⟨y, hy, hb⟩ := h (.project a) ha
  cases hb
  exact hy

theorem task {a : Task} (ha : a ∈ s.tasks) :
    ∃ status assignedTo, { a with status := status, assignedTo := assignedTo } ∈ t.tasks := by
  obtain ⟨y, hy, hb⟩ := h (.task a) ha
  cases hb with
  | task _ status assignedTo => exact ⟨status, assignedTo, hy⟩

theorem submission {a : Submission} (ha : a ∈ s.submissions) :
    ∃ status sampled,
      { a with status := status, sampledForHumanReview := sampled } ∈ t.submissions := by
  obtain ⟨y, hy, hb⟩ := h (.submission a) ha
  cases hb with
  | submission _ status sampled => exact ⟨status, sampled, hy⟩

theorem review {a : Review} (ha : a ∈ s.reviews) : a ∈ t.reviews := by
  obtain ⟨y, hy, hb⟩ := h (.review a) ha
  cases hb
  exact hy

theorem auditEvent {a : AuditEvent} (ha : a ∈ s.auditEvents) : a ∈ t.auditEvents := by
  obtain ⟨y, hy, hb⟩ := h (.auditEvent a) ha
  cases hb
  exact hy

theorem rateCard {a : RateCard} (ha : a ∈ s.rateCards) :
    ∃ active, { a with active := active } ∈ t.rateCards := by
  obtain ⟨y, hy, hb⟩ := h (.rateCard a) ha
  cases hb with
  | rateCard _ active => exact ⟨active, hy⟩

theorem usageEvent {a : UsageEvent} (ha : a ∈ s.usageEvents) :
    ∃ invoiceId, { a with invoiceId := invoiceId } ∈ t.usageEvents := by
  obtain ⟨y, hy, hb⟩ := h (.usageEvent a) ha
  cases hb with
  | usageEvent _ invoiceId => exact ⟨invoiceId, hy⟩

theorem invoice {a : Invoice} (ha : a ∈ s.invoices) :
    ∃ b ∈ t.invoices, b.id = a.id ∧ b.firmId = a.firmId ∧ b.mode = a.mode ∧
      b.currency = a.currency := by
  obtain ⟨y, hy, hb⟩ := h (.invoice a) ha
  cases hb
  exact ⟨_, hy, rfl, rfl, rfl, rfl⟩

theorem exportBatch {a : ExportBatch} (ha : a ∈ s.exportBatches) :
    ∃ b ∈ t.exportBatches, b.id = a.id ∧ b.projectId = a.projectId ∧
      b.requestedBy = a.requestedBy ∧ (a.status = .released → b.status = .released) := by
  obtain ⟨y, hy, hb⟩ := h (.exportBatch a) ha
  cases hb with
  | exportBatch _ _ _ _ status hrel => exact ⟨_, hy, rfl, rfl, rfl, hrel⟩

end Later

end Grows

end Db

end HumanDataFactory
