import HumanDataFactory.Api
import HumanDataFactory.Python.Canonical
import HumanDataFactory.Transact.Simulate

/-!
# The development set-up

An environment as a developer runs it, with authentication switched off and
no keys for Stripe or the model API, and answers to the calls that make every
run a computation.  The digest is a stand-in: injective, and hexadecimal where
the sampling rule reads it.  Webhook bodies are read back where they were
dumped.
-/

namespace HumanDataFactory

open Transact

namespace Development

/-- The `n`-th identifier made up. -/
def identifier (n : ℕ) : String :=
  String.ofList (List.replicate n 'i')

def invoiceId : String := identifier 42

def stripeId : String := "in_fake_" ++ identifier 16

def stripeEvent (etype : String) (object : List (String × Json)) : Json :=
  .obj [("type", .str etype), ("data", .obj [("object", .obj object)])]

def invoiceEvent (etype : String) : Json :=
  stripeEvent etype [("id", .str stripeId)]

def checkoutCompleted (paymentIntent : String) : Json :=
  stripeEvent "checkout.session.completed"
    [("id", .str ("cs_" ++ paymentIntent)), ("payment_intent", .str paymentIntent),
      ("metadata", .obj [("hdf_invoice_id", .str invoiceId)])]

def bodyOf (event : Json) : String :=
  Json.dumps (fun _ ↦ "0.0") Json.readable event

/-- The events with their bodies. -/
def events : Table String Json bodyOf :=
  ⟨[invoiceEvent "invoice.paid", invoiceEvent "invoice.voided", checkoutCompleted "pi_1",
    checkoutCompleted "pi_2"], by decide +kernel⟩

def env : Env where
  sha256 := fun s ↦ "ffffffff" ++ s
  reprJson := fun _ ↦ "{}"
  floatRepr := fun _ ↦ "0.0"
  parseFloat := fun _ ↦ none
  lower := String.map Char.toLower
  upper := String.map Char.toUpper
  strip := id
  isoformat := fun t ↦ toString t
  jsonLoads := events.find?
  constructEvent := fun _ _ _ ↦ none
  orderBy := fun key rows ↦ rows.insertionSort fun a b ↦ key a ≤ key b
  orderBy_perm := fun key rows ↦ rows.perm_insertionSort fun a b ↦ key a ≤ key b
  orderBy_sorted := fun key rows ↦ by
    have : Std.Total fun a b ↦ key a ≤ key b := ⟨fun a b ↦ le_total (key a) (key b)⟩
    have : IsTrans _ fun a b ↦ key a ≤ key b := ⟨fun _ _ _ ↦ le_trans⟩
    exact List.pairwise_map.mpr (rows.pairwise_insertionSort fun a b ↦ key a ≤ key b)
  runAll := fun _ _ _ ↦ .ok ⟨[]⟩
  contentFingerprint := fun _ _ ↦ ""
  anthropicAvailable := false
  qcModel := "claude"
  defaultRatesCents := fun _ ↦ 1500
  authDisabled := true
  stripeSecretKey := ""
  stripeWebhookSecret := ""
  exportsDir := "exports"
  exportS3Bucket := ""
  exportS3Endpoint := ""
  exportS3Prefix := ""

theorem parseWebhook_bodyOf {event : Json} (h : event ∈ events) (signature : Option String) :
    StripeGateway.parseWebhook env (bodyOf event) signature = .ok event := by
  have hfind : env.jsonLoads (bodyOf event) = some event := Table.find?_of_mem h
  simp only [StripeGateway.parseWebhook, hfind]
  rfl

/-- A fresh identifier and a later clock at each call; the sequence counts. -/
def answers : Oracle Call Reply ℕ
  | n, _, .uuid4 => identifier n
  | n, _, .now => (n : ℤ)
  | _, w, .nextSeq => w
  | n, _, .tokenUrlsafe => identifier n
  | _, _, .messagesCreate .. => .raised
  | n, _, .customerCreate .. => some (identifier n)
  | _, _, .invoiceItemCreate .. => some ()
  | n, _, .invoiceCreate .. => some (identifier n)
  | n, _, .finalizeInvoice _ => some (identifier n, none)
  | _, _, .sendInvoice _ => some ()
  | n, _, .sessionCreate .. => some (identifier n, none)
  | _, _, .mkdir _ => some ()
  | _, _, .writeText _ _ => some ()
  | _, _, .readFile _ => some ""
  | _, _, .iterdir _ => some []
  | _, _, .uploadFile .. => some ()

/-- A request of the developer. -/
def http (request : Api.Request) : Api.Http :=
  ⟨none, none, request⟩

/-- The run of these requests from an empty database. -/
def run (requests : List Api.Request) :
    List (Served Api.Http Db Json) × Db × ℕ :=
  machine.simulateRun answers (Api.serve env) (requests.map http) 1 Db.empty 1

theorem run_spec (requests : List Api.Request) :
    machine.Run (Api.serve env) Db.empty 1 (run requests).1 (run requests).2.1
      (run requests).2.2 :=
  Machine.run_of_simulateRun _ _ _ _ _

/-! ## A first delivery

A firm with a project, an author, a reviewer and one task; the submission, its
approval by the reviewer, and the invoice for it. -/

def firmId : String := identifier 1

def authorId : String := identifier 4

def reviewerId : String := identifier 7

def projectId : String := identifier 16

def taskId : String := identifier 19

def submissionId : String := identifier 23

/-- The score of a passed exam. -/
theorem ninety_inRange : PyFloat.le (.finite 0) (.finite 90) = true ∧
    PyFloat.le (.finite 90) (.finite 100) = true := by
  decide +kernel

def setUp (mode : BillingMode) : List Api.Request :=
  [.createFirm ⟨"Alder", "ap@alder.example.com", mode, "usd", ""⟩,
    .createExpert ⟨"Ada", "ada@example.com", ["CPA"], false⟩,
    .createExpert ⟨"Rae", "rae@example.com", ["CPA"], true⟩,
    .recordExam authorId ⟨.tax, .finite 90, ninety_inRange⟩,
    .recordExam reviewerId ⟨.tax, .finite 90, ninety_inRange⟩,
    .createProject ⟨"Returns", firmId, .tax, .sft, "", none⟩,
    .createTask projectId ⟨"Explain the treatment", [], false, none⟩,
    .createSubmission taskId authorId [("response", .str "It is deductible.")]]

/-- The same start, with this content instead. -/
def submissionOf (content : List (String × Json)) : List Api.Request :=
  (setUp .external).dropLast ++ [.createSubmission taskId authorId content]

def review (verdict : Verdict) : Api.Request :=
  .postHumanReview submissionId ⟨reviewerId, verdict, none, ""⟩

def firstSubmission : List Api.Request :=
  setUp .external

def firstApproval : List Api.Request :=
  firstSubmission ++ [review .pass]

def firstInvoice : List Api.Request :=
  firstApproval ++ [.generateInvoice firmId 0 1000]

/-- The same invoice, for a firm that pays through Stripe. -/
def stripeInvoice : List Api.Request :=
  setUp .stripe ++ [review .pass, .generateInvoice firmId 0 1000]

def webhook (event : Json) : Api.Request :=
  .stripeWebhook (bodyOf event) none

/-- The body of a webhook request. -/
def bodyOf? : Api.Request → Option String
  | .stripeWebhook payload _ => some payload
  | _ => none

theorem bodyOf?_eq_some {request : Api.Request} {body : String} (h : bodyOf? request = some body) :
    ∃ signature, request = .stripeWebhook body signature := by
  cases request with
  | stripeWebhook payload signature =>
      cases h
      exact ⟨signature, rfl⟩
  | _ => cases h

def openCheckout : Api.Request :=
  .createInvoiceCheckout invoiceId "https://alder.example.com/ok" "https://alder.example.com/no"

/-! ## With authentication

The same environment with keys required; the first request makes the admin
that signs the others. -/

def guardedEnv : Env :=
  { env with authDisabled := false }

def bearer (key : String) : Option String :=
  some ("Bearer " ++ key)

def adminKey : String := "hdf_" ++ identifier 2

def signedIn : Api.Http :=
  ⟨none, none, .bootstrap "Root" "root@example.com"⟩

def signed (request : Api.Request) : Api.Http :=
  ⟨bearer adminKey, none, request⟩

def guardedRun (requests : List Api.Request) : List (Served Api.Http Db Json) × Db × ℕ :=
  machine.simulateRun answers (Api.serve guardedEnv) (signedIn :: requests.map signed) 1
    Db.empty 1

theorem guardedRun_spec (requests : List Api.Request) :
    machine.Run (Api.serve guardedEnv) Db.empty 1 (guardedRun requests).1
      (guardedRun requests).2.1 (guardedRun requests).2.2 :=
  Machine.run_of_simulateRun _ _ _ _ _

/-! ## A live reviewer

The model API is there and answers every review request with one text, which
parses to a given response; the digest is 64 hex digits, always the same. -/

def liveEnv (response : Json) : Env :=
  { env with
    sha256 := fun _ ↦ String.ofList (List.replicate 64 'f')
    anthropicAvailable := true
    jsonLoads := fun text ↦ if text = "review" then some response else none }

def liveAnswers : Oracle Call Reply ℕ
  | _, _, .messagesCreate .. => .message (some "review")
  | n, w, c => answers n w c

def liveRun (response : Json) (requests : List Api.Request) :
    List (Served Api.Http Db Json) × Db × ℕ :=
  machine.simulateRun liveAnswers (Api.serve (liveEnv response)) (requests.map http) 1 Db.empty 1

/-- A response without flags on grounded evidence. -/
def responseWith (scores : List (String × ℤ)) : Json :=
  .obj [("criterion_scores", .arr (scores.map fun row ↦
      .obj [("criterion", .str row.1), ("score", .int row.2), ("justification", .str ""),
        ("evidence", .str "")])),
    ("flags", .arr []), ("insufficient_evidence", .bool false), ("summary", .str "")]

def deskProject : Project :=
  ⟨"project", "Returns", "firm", .tax, .sft, "", "fin-sft-v1", "ops"⟩

def deskTask : Task :=
  ⟨"task", "project", "Explain the treatment", .obj [], false, none, .open, none, 0⟩

def deskExpert : Expert :=
  ⟨"author", "Ada", "ada@example.com", ["CPA"], .qualified, false, .finite 4, 0, 0, 0⟩

def deskSubmission : Submission :=
  ⟨"submission", "task", "author", 1, .obj [("response", .str "It is deductible.")],
    .submitted, false, 0⟩

def desk : Db :=
  { Db.empty with
    firms := .push .empty ⟨"firm", "Alder", "ap@alder.example.com", .external, "usd", "", none⟩
    projects := .push .empty deskProject
    tasks := .push .empty deskTask
    experts := .push .empty deskExpert
    submissions := .push .empty deskSubmission }

/-- Full marks on every criterion of an SFT project. -/
def fullScores : List (String × ℤ) :=
  Rubrics.finSft.criteria.map fun c ↦ (c.key, 5)

/-- Integral floats as Python writes them. -/
def reprFloat : PyFloat → String
  | .finite q => Int.repr q.num ++ "." ++ Nat.repr (q.den - 1)
  | .posInf => "Infinity"
  | .negInf => "-Infinity"
  | .nan => "NaN"

theorem toList_reprFloat (q : ℚ) :
    (reprFloat (.finite q)).toList =
      (Int.repr q.num).toList ++ '.' :: (Nat.repr (q.den - 1)).toList := by
  simp [reprFloat]

theorem reprFloat_finite_inj {p q : ℚ} (h : reprFloat (.finite p) = reprFloat (.finite q)) :
    p = q := by
  have htext := congrArg String.toList h
  rw [toList_reprFloat, toList_reprFloat] at htext
  have hnodot (z : ℤ) : ∀ c ∈ (Int.repr z).toList, c ∉ ({'.'} : Set Char) := by
    have hdot : "0123456789-".toList.all (fun c ↦ c ≠ '.') := by decide
    exact fun c hc ↦ of_decide_eq_true (List.all_eq_true.mp hdot c (Json.chars_int z c hc))
  obtain ⟨hnum, hden⟩ := PrefixCode.append_inj_of_delimited (hnodot p.num) (hnodot q.num)
    (PrefixCode.delimited_cons (Set.mem_singleton _) _)
    (PrefixCode.delimited_cons (Set.mem_singleton _) _) htext
  have hdenom := Json.repr_nat_inj (String.toList_inj.mp (List.cons.inj hden).2)
  have hp : 0 < p.den := p.pos
  have hq : 0 < q.den := q.pos
  exact Rat.ext (Json.repr_int_inj (String.toList_inj.mp hnum)) (by omega)

theorem reprFloat_notation : Json.FloatNotation reprFloat where
  injective := by
    have hpoint (q : ℚ) (w : String) (hw : '.' ∉ w.toList) : reprFloat (.finite q) ≠ w := by
      rintro rfl
      rw [toList_reprFloat] at hw
      exact hw (by simp)
    intro x y h
    cases x with
    | finite p =>
        cases y with
        | finite q => rw [reprFloat_finite_inj h]
        | posInf => exact absurd h (hpoint p "Infinity" (by decide))
        | negInf => exact absurd h (hpoint p "-Infinity" (by decide))
        | nan => exact absurd h (hpoint p "NaN" (by decide))
    | posInf =>
        cases y with
        | finite q => exact absurd h.symm (hpoint q "Infinity" (by decide))
        | posInf => rfl
        | negInf => exact absurd h (by decide)
        | nan => exact absurd h (by decide)
    | negInf =>
        cases y with
        | finite q => exact absurd h.symm (hpoint q "-Infinity" (by decide))
        | posInf => exact absurd h (by decide)
        | negInf => rfl
        | nan => exact absurd h (by decide)
    | nan =>
        cases y with
        | finite q => exact absurd h.symm (hpoint q "NaN" (by decide))
        | posInf => exact absurd h (by decide)
        | negInf => exact absurd h (by decide)
        | nan => rfl
  chars := by
    intro x c hc
    cases x with
    | finite q =>
        have hint : "0123456789-".toList ⊆ "0123456789.e+-NaInfity".toList := by decide
        have hnat : "0123456789".toList ⊆ "0123456789.e+-NaInfity".toList := by decide
        rw [toList_reprFloat, List.mem_append, List.mem_cons] at hc
        rcases hc with hc | rfl | hc
        · exact hint (Json.chars_int _ c hc)
        · decide
        · exact hnat (Json.chars_nat _ c hc)
    | posInf => exact (by decide : "Infinity".toList ⊆ "0123456789.e+-NaInfity".toList) hc
    | negInf => exact (by decide : "-Infinity".toList ⊆ "0123456789.e+-NaInfity".toList) hc
    | nan => exact (by decide : "NaN".toList ⊆ "0123456789.e+-NaInfity".toList) hc
  marked := by
    intro x
    cases x with
    | finite q => exact ⟨'.', by rw [toList_reprFloat]; simp, by decide⟩
    | posInf => exact ⟨'I', by decide, by decide⟩
    | negInf => exact ⟨'I', by decide, by decide⟩
    | nan => exact ⟨'N', by decide, by decide⟩

end Development

end HumanDataFactory
