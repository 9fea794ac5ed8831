import Tatara.Crd.Receipt
import Tatara.Reconciler.Runs

/-! The conditions that ask for a Job and its receipt, and when they are satisfied. -/

namespace Tatara.Reconciler

open Tatara.Rust Tatara.Crd
open Tatara.Program (Runs runs_bind_iff runs_call_iff runs_pure_iff runs_try_iff)

/-- The labels of the Jobs in the messages. -/
inductive JobEvaluatorLabel where
  | jobAttested
  | closedLoopProbe

/-- `as_str`. -/
def JobEvaluatorLabel.asStr : JobEvaluatorLabel → String
  | jobAttested => "Job"
  | closedLoopProbe => "closed-loop probe Job"

namespace Satisfaction

/-- `resource_not_found`. -/
def resourceNotFound (label ns name : String) : Satisfaction :=
  .unsatisfied (label ++ " " ++ qualifiedProcessRef ns name ++ " not found")

/-- `labeled_diagnostic`. -/
def labeledDiagnostic (label ns name tail : String) : Satisfaction :=
  .unsatisfied (label ++ " " ++ qualifiedProcessRef ns name ++ " " ++ tail)

end Satisfaction

/-- `as_i64` of a value under a key. -/
def jsonGetI64 (value : Json) (key : String) : Option Int :=
  match jsonGet value key with
  | some (.number (.posInt n)) => if n.toNat < 2 ^ 63 then some n.toNat else none
  | some (.number (.negInt n)) => some n.toInt
  | _ => none

/-- The counters of a Job. -/
structure JobStatusView where
  succeeded : Int
  failed : Int
  active : Int
  deriving DecidableEq, Repr

/-- What the look for a Job has found. -/
inductive JobLookup where
  | missing
  | found (status : JobStatusView)
  deriving DecidableEq, Repr

/-- What the look for a receipt has found; of a receipt that is accepted there is the root. -/
inductive ReceiptVerdict where
  | missing
  | malformed (why : String)
  | ok (root : String)
  deriving DecidableEq, Repr

/-- The counters of a Job, as the API server has it. -/
def jobStatusView (job : Json) : JobStatusView :=
  let status := (jsonGet job "status").getD .null
  { succeeded := (jsonGetI64 status "succeeded").getD 0
    failed := (jsonGetI64 status "failed").getD 0
    active := (jsonGetI64 status "active").getD 0 }

/-- What there is of a Job. -/
def jobLookup : Option Json → JobLookup
  | none => .missing
  | some job => .found (jobStatusView job)

/-- `fetch_job_status`. -/
def fetchJobStatus (ns name : String) : Handler JobLookup := do
  let job ← errCtx ("fetch Job " ++ qualifiedProcessRef ns name)
    (send (.getObject ns "batch/v1" "Job" name))
  return jobLookup job

/-- `Display` for `i64`. -/
def renderCounter (n : Int) : String := String.ofList (renderInt n)

/-- `classify_job_status`. -/
def classifyJobStatus (label ns name : String) : JobLookup → Except Satisfaction JobStatusView
  | .missing => .error (.resourceNotFound label ns name)
  | .found status =>
    if 0 < status.failed then
      .error (.labeledDiagnostic label ns name
        ("failed (status.failed=" ++ renderCounter status.failed ++ ")"))
    else if status.succeeded < 1 then
      .error (.labeledDiagnostic label ns name
        ("still running (succeeded=" ++ renderCounter status.succeeded ++ ", active=" ++
          renderCounter status.active ++ ")"))
    else .ok status

/-- `require_succeeded_job`. -/
def requireSucceededJob (ns name label : String) : Handler (Except Satisfaction JobStatusView) := do
  let lookup ← fetchJobStatus ns name
  return classifyJobStatus label ns name lookup

/-- `extract_receipt_payload_json`. -/
def extractReceiptPayloadJson (data : Option Json) : Option String :=
  receiptCmKeys.findSome? fun key => data.bind (jsonGetStr · key)

/-- `classify_receipt_verdict`. -/
def classifyReceiptVerdict (label ns name cmName : String) : ReceiptVerdict → Satisfaction
  | .ok _ => .satisfied
  | .missing =>
    .labeledDiagnostic label ns name
      ("receipt ConfigMap " ++ qualifiedProcessRef ns cmName ++ " missing")
  | .malformed why => .labeledDiagnostic label ns name ("receipt malformed: " ++ why)

section

variable [CharTable]

/-- `receipt_error_message`. -/
def receiptErrorMessage : ReceiptError → String
  | .invalidJson m => "invalid JSON: " ++ m
  | .invalidYaml m => "invalid YAML: " ++ m
  | .wrongVersion v =>
    "version != " ++ receiptVersion ++ " (got " ++ String.ofList (debugStr v.toList) ++ ")"
  | .missingField f => "missing '" ++ f ++ "' string field"
  | .emptyKind => "kind is empty"
  | .rootMismatch got want => "composed_root mismatch (got " ++ got ++ ", want " ++ want ++ ")"

variable [ReceiptFormat]

/-- `parse_receipt_payload`. -/
def parseReceiptPayload (payload : String) (expectedRoot : Option String) : ReceiptVerdict :=
  match ReceiptEnvelope.parseEither payload with
  | .error e => .malformed (receiptErrorMessage e)
  | .ok envelope =>
    match envelope.expectRoot expectedRoot with
    | .error e => .malformed (receiptErrorMessage e)
    | .ok root => .ok root

/-- What a ConfigMap says, if there is one. -/
def receiptVerdict (expectedRoot : Option String) : Option Json → ReceiptVerdict
  | none => .missing
  | some configMap =>
    match extractReceiptPayloadJson (jsonGet configMap "data") with
    | none => .malformed receiptCmMissingKeyMsg
    | some payload => parseReceiptPayload payload expectedRoot

/-- `verify_receipt_cm`. -/
def verifyReceiptCm (ns name : String) (expectedRoot : Option String) : Handler ReceiptVerdict := do
  let configMap ← errCtx ("fetch ConfigMap " ++ qualifiedProcessRef ns name)
    (send (.getObject ns "v1" "ConfigMap" name))
  return receiptVerdict expectedRoot configMap

/-- `verify_and_classify_receipt`. -/
def verifyAndClassifyReceipt (ns jobName cmName label : String) (expectedRoot : Option String) :
    Handler Satisfaction := do
  let verdict ← verifyReceiptCm ns cmName expectedRoot
  return classifyReceiptVerdict label ns jobName cmName verdict

end

/-- The parameters of `JobAttested`. -/
structure JobAttestedParams where
  name : String
  ns : Option String
  expectReceipt : Bool
  receiptConfigMap : Option String

/-- The parameters of `ClosedLoopAuth`. -/
structure ClosedLoopAuthParams where
  ns : Option String
  jobName : Option String
  receiptConfigMap : Option String
  expectedRoot : Option String

/-- The deserializers of the parameters, with the texts of their errors. -/
class ParamsFormat extends ReceiptFormat where
  jobAttested : Json → Except String JobAttestedParams
  closedLoopAuth : Json → Except String ClosedLoopAuthParams

section

variable [CharTable] [ParamsFormat]

/-- `evaluate_job_attested`. -/
def evaluateJobAttested (defaultNs : String) (params : Json) : Handler Satisfaction := do
  match ParamsFormat.jobAttested params with
  | .error e => return .unknown ("JobAttested params invalid: " ++ e)
  | .ok parsed =>
    let ns := parsed.ns.getD defaultNs
    let label := JobEvaluatorLabel.jobAttested.asStr
    match ← requireSucceededJob ns parsed.name label with
    | .error unsat => return unsat
    | .ok _ =>
      if !parsed.expectReceipt then return .satisfied
      else
        let cmName := resolveReceiptConfigMapName parsed.receiptConfigMap parsed.name
        verifyAndClassifyReceipt ns parsed.name cmName label none

/-- `evaluate_closed_loop_auth`. -/
def evaluateClosedLoopAuth (defaultNs : String) (params : Json) (process : Process) :
    Handler Satisfaction := do
  match ParamsFormat.closedLoopAuth params with
  | .error e => return .unknown ("ClosedLoopAuth params invalid: " ++ e)
  | .ok parsed =>
    let ns := parsed.ns.getD defaultNs
    let jobName := parsed.jobName.getD (process.metadata.name ++ "-closed-loop-probe")
    let cmName := resolveReceiptConfigMapName parsed.receiptConfigMap jobName
    let label := JobEvaluatorLabel.closedLoopProbe.asStr
    match ← requireSucceededJob ns jobName label with
    | .error unsat => return unsat
    | .ok _ => verifyAndClassifyReceipt ns jobName cmName label parsed.expectedRoot

/-- `evaluate`; the conditions that look at no Job are left to the request. -/
def evaluate (defaultNs : String) (process : Process) (c : Condition) : Handler Satisfaction :=
  match c.kind with
  | .jobAttested => evaluateJobAttested defaultNs c.params
  | .closedLoopAuth => evaluateClosedLoopAuth defaultNs c.params process
  | _ => ExceptT.mk (send (.evaluate c))

end

/-- What a condition asks of a Job and of its receipt. -/
structure ReceiptGate where
  ns : String
  jobName : String
  cmName : String
  label : String
  expectedRoot : Option String

/-- The condition waits for a receipt. -/
def ExpectsReceipt [ParamsFormat] (c : Condition) : Prop :=
  c.kind = .closedLoopAuth ∨
    c.kind = .jobAttested ∧
      ∀ parsed, ParamsFormat.jobAttested c.params = .ok parsed → parsed.expectReceipt = true

/-- What a condition that waits for a receipt asks for, if its parameters are readable. -/
def receiptGate [ParamsFormat] (defaultNs : String) (process : Process) (c : Condition) :
    Option ReceiptGate :=
  if c.kind = .closedLoopAuth then
    (ParamsFormat.closedLoopAuth c.params).toOption.map fun parsed =>
      let jobName := parsed.jobName.getD (process.metadata.name ++ "-closed-loop-probe")
      { ns := parsed.ns.getD defaultNs
        jobName
        cmName := resolveReceiptConfigMapName parsed.receiptConfigMap jobName
        label := JobEvaluatorLabel.closedLoopProbe.asStr
        expectedRoot := parsed.expectedRoot }
  else
    (ParamsFormat.jobAttested c.params).toOption.map fun parsed =>
      { ns := parsed.ns.getD defaultNs
        jobName := parsed.name
        cmName := resolveReceiptConfigMapName parsed.receiptConfigMap parsed.name
        label := JobEvaluatorLabel.jobAttested.asStr
        expectedRoot := none }

namespace ReceiptGate

/-- The Job has been found, and it has succeeded. -/
def JobSucceeded (gate : ReceiptGate) (events : List Event) : Prop :=
  ∃ job, ⟨.request (.getObject gate.ns "batch/v1" "Job" gate.jobName), .ok (some job)⟩ ∈ events ∧
    (jobStatusView job).failed ≤ 0 ∧ 1 ≤ (jobStatusView job).succeeded

/-- The ConfigMap has been found, and its payload reads as this receipt. -/
def Presents [ReceiptFormat] (gate : ReceiptGate) (events : List Event)
    (envelope : ReceiptEnvelope) : Prop :=
  ∃ configMap payload,
    ⟨.request (.getObject gate.ns "v1" "ConfigMap" gate.cmName), .ok (some configMap)⟩ ∈ events ∧
      extractReceiptPayloadJson (jsonGet configMap "data") = some payload ∧
        ReceiptEnvelope.parseEither payload = .ok envelope

/-- The receipt has the root that the condition names, if it names one. -/
def Expects (gate : ReceiptGate) (envelope : ReceiptEnvelope) : Prop :=
  ∀ root ∈ gate.expectedRoot, root = envelope.composedRoot

/-- The Job first, and its receipt after it. -/
def evaluate [CharTable] [ReceiptFormat] (gate : ReceiptGate) : Handler Satisfaction := do
  match ← requireSucceededJob gate.ns gate.jobName gate.label with
  | .error unsat => return unsat
  | .ok _ =>
    verifyAndClassifyReceipt gate.ns gate.jobName gate.cmName gate.label gate.expectedRoot

end ReceiptGate

/-- Both evaluators come down to the same gate, and stop where the parameters are not readable. -/
theorem evaluate_of_expectsReceipt [CharTable] [ParamsFormat] {c : Condition}
    (expects : ExpectsReceipt c) (defaultNs : String) (process : Process) :
    match receiptGate defaultNs process c with
    | none => ∃ message, evaluate defaultNs process c = pure (.unknown message)
    | some gate => evaluate defaultNs process c = gate.evaluate := by
  -- Both kinds of conditions come to the same gate once their parameters are read.
  rcases expects with kind | ⟨kind, expects⟩
  · simp only [receiptGate, evaluate, kind, if_true, evaluateClosedLoopAuth]
    cases ParamsFormat.closedLoopAuth c.params with
    | error e => exact ⟨_, rfl⟩
    | ok parsed => rfl
  · simp only [receiptGate, evaluate, kind, reduceCtorEq, if_false, evaluateJobAttested]
    cases read : ParamsFormat.jobAttested c.params with
    | error e => exact ⟨_, rfl⟩
    | ok parsed =>
      simp only [expects parsed read]
      rfl

/-- A look at an object is one call, and what is made of it comes without another one. -/
theorem runs_fetch_iff {β : Type} {context : String} {r : Request} {f : r.Reply → β}
    {events : List Event} {outcome : Except String β} :
    Runs (errCtx context (send r) >>= fun reply => (pure (f reply) : Handler β)).run
        events outcome ↔
      ∃ answer : Except String r.Reply, events = [⟨.request r, answer⟩] ∧
        outcome = (answer.mapError (context ++ ": " ++ ·)).map f := by
  -- The one request is answered with an error, which ends it all, or with a reply.
  constructor
  · intro runs
    rcases runs_try_iff.mp runs with ⟨error, failed, rfl⟩ | ⟨front, reply, back, sent, ended, rfl⟩
    · obtain ⟨answer, called, same⟩ := runs_errCtx failed
      obtain rfl := runs_call_iff.mp called
      exact ⟨answer, rfl, by rw [← same]; rfl⟩
    · obtain ⟨answer, called, same⟩ := runs_errCtx sent
      obtain rfl := runs_call_iff.mp called
      obtain ⟨rfl, rfl⟩ := runs_pure_iff.mp ended
      exact ⟨answer, rfl, by rw [← same]; rfl⟩
  · intro answered
    obtain ⟨answer, rfl, rfl⟩ := answered
    have called : Runs (send r) [⟨.request r, answer⟩] answer := runs_call_iff.mpr rfl
    cases answer with
    | error e =>
      have failed : Runs (errCtx context (send r)).run [⟨.request r, .error e⟩]
          (.error (context ++ ": " ++ e)) :=
        runs_bind_iff.mpr ⟨_, _, [], called, runs_pure_iff.mpr ⟨rfl, rfl⟩, rfl⟩
      exact runs_try_iff.mpr (.inl ⟨_, failed, rfl⟩)
    | ok reply =>
      have sent : Runs (errCtx context (send r)).run [⟨.request r, .ok reply⟩] (.ok reply) :=
        runs_bind_iff.mpr ⟨_, _, [], called, runs_pure_iff.mpr ⟨rfl, rfl⟩, rfl⟩
      exact runs_try_iff.mpr (.inr ⟨_, reply, [], sent, runs_pure_iff.mpr ⟨rfl, rfl⟩, rfl⟩)

/-- The check of a Job is one look at it. -/
theorem runs_requireSucceededJob {ns name label : String} {events : List Event}
    {outcome : Except String (Except Satisfaction JobStatusView)}
    (runs : Runs (requireSucceededJob ns name label).run events outcome) :
    ∃ answer : Except String (Option Json),
      events = [⟨.request (.getObject ns "batch/v1" "Job" name), answer⟩] ∧
        outcome = (answer.mapError ("fetch Job " ++ qualifiedProcessRef ns name ++ ": " ++ ·)).map
          fun job => classifyJobStatus label ns name (jobLookup job) := by
  simp only [requireSucceededJob, fetchJobStatus, bind_assoc, pure_bind] at runs
  exact runs_fetch_iff.mp runs

/-- A Job that is let pass has been found, has not failed, and has succeeded. -/
theorem classifyJobStatus_ok_iff {label ns name : String} {job : Option Json} :
    (∃ status, classifyJobStatus label ns name (jobLookup job) = .ok status) ↔
      ∃ j, job = some j ∧ (jobStatusView j).failed ≤ 0 ∧ 1 ≤ (jobStatusView j).succeeded := by
  cases job with
  | none => simp [jobLookup, classifyJobStatus]
  | some j =>
    simp only [jobLookup, classifyJobStatus]
    -- The two counters are looked at one after the other.
    split
    · simp
      omega
    · split
      · simp
        omega
      · simp
        omega

/-- A Job that is not let pass does not satisfy the condition. -/
theorem classifyJobStatus_error {label ns name : String} {job : Option Json} {unsat : Satisfaction}
    (stopped : classifyJobStatus label ns name (jobLookup job) = .error unsat) :
    unsat ≠ .satisfied := by
  -- What stops the gate at the Job says that it is not satisfied yet.
  intro satisfied
  subst satisfied
  cases job with
  | none => cases stopped
  | some j =>
    simp only [jobLookup, classifyJobStatus] at stopped
    split at stopped
    · cases stopped
    · split at stopped <;> cases stopped

/-- A root is accepted where it is the one that is expected, if there is one. -/
theorem expectRoot_ok_iff {envelope : ReceiptEnvelope} {expected : Option String} :
    (∃ root, envelope.expectRoot expected = .ok root) ↔
      ∀ root ∈ expected, root = envelope.composedRoot := by
  -- Without an expected root any root will do.
  cases expected with
  | none => simp [ReceiptEnvelope.expectRoot]
  | some want =>
    simp only [ReceiptEnvelope.expectRoot]
    split <;> simp_all

section

variable [CharTable] [ReceiptFormat]

/-- A payload is accepted where it can be read and its root is the one that is expected. -/
theorem parseReceiptPayload_ok_iff {payload : String} {expected : Option String} :
    (∃ root, parseReceiptPayload payload expected = .ok root) ↔
      ∃ envelope, ReceiptEnvelope.parseEither payload = .ok envelope ∧
        ∀ root ∈ expected, root = envelope.composedRoot := by
  unfold parseReceiptPayload
  cases ReceiptEnvelope.parseEither payload with
  | error e => simp
  | ok envelope =>
    have roots : (∃ root, envelope.expectRoot expected = .ok root) ↔
        ∀ root ∈ expected, root = envelope.composedRoot := expectRoot_ok_iff
    simp only [Except.ok.injEq, exists_eq_left', ← roots]
    -- An accepted root is passed on as it is.
    cases envelope.expectRoot expected <;> simp

/-- A ConfigMap is accepted for a receipt that reads and has the root in question. -/
theorem receiptVerdict_ok_iff {expected : Option String} {configMap : Option Json} :
    (∃ root, receiptVerdict expected configMap = .ok root) ↔
      ∃ cm payload envelope, configMap = some cm ∧
        extractReceiptPayloadJson (jsonGet cm "data") = some payload ∧
          ReceiptEnvelope.parseEither payload = .ok envelope ∧
            ∀ root ∈ expected, root = envelope.composedRoot := by
  cases configMap with
  | none => simp [receiptVerdict]
  | some cm =>
    -- The payload is found before it is parsed.
    simp only [receiptVerdict, Option.some.injEq]
    cases found : extractReceiptPayloadJson (jsonGet cm "data") with
    | none => simp [found]
    | some payload => simp [found, parseReceiptPayload_ok_iff]

omit [CharTable] [ReceiptFormat] in
/-- A verdict is satisfied where it has a root. -/
theorem classifyReceiptVerdict_satisfied_iff {label ns name cmName : String}
    {verdict : ReceiptVerdict} :
    classifyReceiptVerdict label ns name cmName verdict = .satisfied ↔
      ∃ root, verdict = .ok root := by
  cases verdict <;> simp [classifyReceiptVerdict, Satisfaction.labeledDiagnostic]

namespace ReceiptGate

variable {gate : ReceiptGate} {events : List Event}

/-- The calls of a gate are one for the Job and, if that one is let pass, one for the receipt. -/
theorem runs_evaluate {outcome : Except String Satisfaction}
    (runs : Runs gate.evaluate.run events outcome) :
    (∃ answer : Except String (Option Json),
      events = [⟨.request (.getObject gate.ns "batch/v1" "Job" gate.jobName), answer⟩] ∧
        outcome ≠ .ok .satisfied ∧
          ∀ job, answer = .ok job → ¬ ∃ status,
            classifyJobStatus gate.label gate.ns gate.jobName (jobLookup job) = .ok status) ∨
    ∃ (job : Option Json) (answer : Except String (Option Json)),
      events = [⟨.request (.getObject gate.ns "batch/v1" "Job" gate.jobName), .ok job⟩,
        ⟨.request (.getObject gate.ns "v1" "ConfigMap" gate.cmName), answer⟩] ∧
      (∃ status, classifyJobStatus gate.label gate.ns gate.jobName (jobLookup job) = .ok status) ∧
        (outcome = .ok .satisfied ↔
          ∃ cm root, answer = .ok cm ∧ receiptVerdict gate.expectedRoot cm = .ok root) := by
  rcases runs_try_iff.mp runs with ⟨error, looked, rfl⟩ | ⟨front, result, back, looked, rest, rfl⟩
  · obtain ⟨answer, rfl, same⟩ := runs_requireSucceededJob looked
    refine .inl ⟨answer, rfl, by simp, fun job found => ?_⟩
    -- The look for the Job has not failed, so that there is no error.
    subst found
    cases same
  · obtain ⟨answer, rfl, same⟩ := runs_requireSucceededJob looked
    cases answer with
    | error e => cases same
    | ok job =>
      obtain rfl := Except.ok.inj same
      cases classified : classifyJobStatus gate.label gate.ns gate.jobName (jobLookup job) with
      | error unsat =>
        simp only [classified] at rest
        obtain ⟨rfl, rfl⟩ := runs_pure_iff.mp rest
        refine .inl ⟨.ok job, rfl, ?_, fun other same => ?_⟩
        · intro satisfied
          exact classifyJobStatus_error classified (Except.ok.inj satisfied)
        · obtain rfl := Except.ok.inj same
          simp [classified]
      | ok status =>
        simp only [classified] at rest
        simp only [verifyAndClassifyReceipt, verifyReceiptCm, bind_assoc, pure_bind] at rest
        obtain ⟨answer, rfl, rfl⟩ := runs_fetch_iff.mp rest
        refine .inr ⟨job, answer, rfl, ⟨status, classified⟩, ?_⟩
        cases answer with
        | error e => simp [Except.mapError, Except.map]
        | ok cm => simp [Except.mapError, Except.map, classifyReceiptVerdict_satisfied_iff]

/-- A gate is satisfied where the Job has succeeded and its receipt has the root in question. -/
theorem satisfied_iff {outcome : Except String Satisfaction}
    (runs : Runs gate.evaluate.run events outcome) :
    outcome = .ok .satisfied ↔
      gate.JobSucceeded events ∧ ∃ envelope, gate.Presents events envelope ∧
        gate.Expects envelope := by
  rcases runs_evaluate runs with
    ⟨answer, rfl, unsatisfied, stopped⟩ | ⟨job, answer, rfl, passed, opens⟩
  · refine iff_of_false unsatisfied fun shown => ?_
    obtain ⟨⟨job, found, counters⟩, -⟩ := shown
    simp only [List.mem_singleton, Sigma.mk.injEq, true_and, heq_eq_eq] at found
    -- The Job that was found would have been let pass.
    exact stopped _ found.symm (classifyJobStatus_ok_iff.mpr ⟨job, rfl, counters⟩)
  · obtain ⟨found, rfl, counters⟩ := classifyJobStatus_ok_iff.mp passed
    have succeeded : gate.JobSucceeded [⟨.request (.getObject gate.ns "batch/v1" "Job"
        gate.jobName), .ok (some found)⟩,
        ⟨.request (.getObject gate.ns "v1" "ConfigMap" gate.cmName), answer⟩] :=
      ⟨found, by simp, counters⟩
    rw [opens]
    constructor
    · intro accepted
      obtain ⟨cm, root, rfl, accepted⟩ := accepted
      obtain ⟨configMap, payload, envelope, rfl, carried, read, expected⟩ :=
        receiptVerdict_ok_iff.mp ⟨root, accepted⟩
      exact ⟨succeeded, envelope, ⟨configMap, payload, by simp, carried, read⟩, expected⟩
    · intro shown
      obtain ⟨-, envelope, ⟨configMap, payload, present, carried, read⟩, expected⟩ := shown
      simp only [List.mem_cons, Sigma.mk.injEq, Call.request.injEq, Request.getObject.injEq,
        String.reduceEq, false_and, and_false, true_and, List.not_mem_nil, or_false, false_or,
        heq_eq_eq] at present
      obtain ⟨root, accepted⟩ := receiptVerdict_ok_iff.mpr
        ⟨configMap, payload, envelope, rfl, carried, read, expected⟩
      exact ⟨some configMap, root, present.symm, accepted⟩

/-- The calls show one receipt only. -/
theorem Presents.unique {outcome : Except String Satisfaction}
    (runs : Runs gate.evaluate.run events outcome) {envelope other : ReceiptEnvelope}
    (presents : gate.Presents events envelope) (presents' : gate.Presents events other) :
    envelope = other := by
  obtain ⟨configMap, payload, present, carried, read⟩ := presents
  obtain ⟨configMap', payload', present', carried', read'⟩ := presents'
  -- The gate asks for its receipt only once.
  have same : configMap = configMap' := by
    rcases runs_evaluate runs with ⟨answer, rfl, -⟩ | ⟨job, answer, rfl, -⟩
    · simp at present
    · simp only [List.mem_cons, Sigma.mk.injEq, Call.request.injEq, Request.getObject.injEq,
        String.reduceEq, false_and, and_false, true_and, List.not_mem_nil, or_false, false_or,
        heq_eq_eq] at present present'
      exact Option.some.inj (Except.ok.inj (present.trans present'.symm))
  subst same
  obtain rfl := Option.some.inj (carried.symm.trans carried')
  exact Except.ok.inj (read.symm.trans read')

/-- Whatever there is of a Job that is let pass and of its ConfigMap, the gate gives its verdict. -/
theorem runs_of_passed {job : Option Json} {status : JobStatusView}
    (passed : classifyJobStatus gate.label gate.ns gate.jobName (jobLookup job) = .ok status)
    (configMap : Option Json) :
    Runs gate.evaluate.run
      [⟨.request (.getObject gate.ns "batch/v1" "Job" gate.jobName), .ok job⟩,
        ⟨.request (.getObject gate.ns "v1" "ConfigMap" gate.cmName), .ok configMap⟩]
      (.ok (classifyReceiptVerdict gate.label gate.ns gate.jobName gate.cmName
        (receiptVerdict gate.expectedRoot configMap))) := by
  -- The Job is asked for first, and only then the receipt that it has left.
  have first : Runs (requireSucceededJob gate.ns gate.jobName gate.label).run
      [⟨.request (.getObject gate.ns "batch/v1" "Job" gate.jobName), .ok job⟩]
      (.ok (.ok status)) := by
    simp only [requireSucceededJob, fetchJobStatus, bind_assoc, pure_bind]
    exact runs_fetch_iff.mpr ⟨.ok job, rfl, congrArg Except.ok passed.symm⟩
  refine runs_try_iff.mpr (.inr ⟨_, .ok status, _, first, ?_, rfl⟩)
  simp only [verifyAndClassifyReceipt, verifyReceiptCm, bind_assoc, pure_bind]
  exact runs_fetch_iff.mpr ⟨.ok configMap, rfl, rfl⟩

end ReceiptGate

end

section

variable [Crates] [ParamsFormat]

/-- The condition is found satisfied only on a Job that has succeeded and on an authentic receipt:
one of the version in use, whose root is composed of its own pillars. -/
def OpensRightly (defaultNs : String) (process : Process) (c : Condition) (events : List Event)
    (outcome : Except String Satisfaction) : Prop :=
  outcome = .ok .satisfied →
    ∃ gate, receiptGate defaultNs process c = some gate ∧ gate.JobSucceeded events ∧
      ∃ envelope, gate.Presents events envelope ∧ envelope.version = receiptVersion ∧
        ∃ previous, envelope.verifyRoot previous = true

/-- A condition that waits for a receipt opens rightly exactly where the receipt happens to be
authentic, or is refused for another reason: nothing composes its root again. -/
theorem opensRightly_iff {defaultNs : String} {process : Process} {c : Condition}
    {events : List Event} {outcome : Except String Satisfaction} (expects : ExpectsReceipt c)
    (runs : Runs (evaluate defaultNs process c).run events outcome) :
    OpensRightly defaultNs process c events outcome ↔
      ∀ gate envelope, receiptGate defaultNs process c = some gate → gate.JobSucceeded events →
        gate.Presents events envelope → gate.Expects envelope →
          ∃ previous, envelope.verifyRoot previous = true := by
  have same := evaluate_of_expectsReceipt expects defaultNs process
  cases asked : receiptGate defaultNs process c with
  | none =>
    -- Without readable parameters the condition is unknown.
    rw [asked] at same
    obtain ⟨message, unreadable⟩ := same
    rw [unreadable] at runs
    obtain ⟨-, rfl⟩ := runs_pure_iff.mp runs
    simp [OpensRightly]
  | some gate =>
    rw [asked] at same
    rw [same] at runs
    constructor
    · intro opens other envelope chosen succeeded presents expected
      obtain rfl := Option.some.inj chosen
      have satisfied := (ReceiptGate.satisfied_iff runs).mpr
        ⟨succeeded, envelope, presents, expected⟩
      obtain ⟨other, chosen', -, found, presents', -, authentic⟩ := opens satisfied
      obtain rfl := Option.some.inj (asked.symm.trans chosen')
      rw [presents.unique runs presents']
      exact authentic
    · intro authentic satisfied
      obtain ⟨succeeded, envelope, presents, expected⟩ :=
        (ReceiptGate.satisfied_iff runs).mp satisfied
      have read := presents
      obtain ⟨_, _, -, -, read⟩ := read
      have shape := ReceiptEnvelope.verifyShape_of_parseEither read
      exact ⟨gate, asked, succeeded, envelope, presents,
        ReceiptEnvelope.version_of_verifyShape shape,
        authentic gate envelope rfl succeeded presents expected⟩

end

/-- A hash that only writes bars for the ends of lines, and the other way round. -/
@[reducible] def barCrates : Crates :=
  { plainCrates with
    hexBlake3 := fun text => String.ofList (text.toList.map (Equiv.swap '\n' '|')) }

/-- Different texts have different digests. -/
theorem hexBlake3_barCrates_injective : Function.Injective barCrates.hexBlake3 := by
  intro text text' same
  exact String.toList_inj.mp
    (List.map_injective_iff.mpr (Equiv.injective _) (String.ofList_injective same))

/-- The receipt of an export. -/
def exportReceipt : ReceiptEnvelope :=
  let _ := barCrates
  .build "tatara.export" "i0" "a0" "c0" none

/-- The same receipt with another artifact, under the root of before. -/
def swappedReceipt : ReceiptEnvelope := { exportReceipt with artifactHash := "a1" }

/-- A receipt in YAML. -/
def receiptYaml (e : ReceiptEnvelope) : String :=
  "version: " ++ e.version ++ "\nkind: " ++ e.kind ++ "\ncomposed_root: " ++ e.composedRoot ++
    "\nintent_hash: " ++ e.intentHash ++ "\nartifact_hash: " ++ e.artifactHash ++
    "\ncontrol_hash: " ++ e.controlHash ++ "\ngenerated_at: 1970-01-01T00:00:00Z\n"

/-- Deserializers that know the two receipts and the parameters of one condition. -/
@[reducible] def exportFormat : ParamsFormat where
  fromStr
    | .json, _ => .error "expected value at line 1 column 1"
    | .yaml, payload =>
      match [exportReceipt, swappedReceipt].find? fun e => receiptYaml e = payload with
      | some e => .ok e
      | none => .error "missing field: version"
  jobAttested _ :=
    .ok { name := "export", ns := none, expectReceipt := true, receiptConfigMap := none }
  closedLoopAuth _ := .error "unknown"

/-- A condition that waits for the receipt of an export. -/
def exportCondition : Condition :=
  { kind := .jobAttested
    params := .ofFields [("name", .string "export"), ("expectReceipt", .bool true)] }

/-- The gate of that condition. -/
def exportGate : ReceiptGate :=
  { ns := "default", jobName := "export", cmName := "export-receipt", label := "Job"
    expectedRoot := none }

/-- A Job that has succeeded. -/
def succeededJob : Json := .ofFields [("status", .ofFields [("succeeded", .ofU64 1)])]

/-- A ConfigMap with a receipt. -/
def receiptConfigMap (e : ReceiptEnvelope) : Json :=
  .ofFields [("data", .ofFields [("receipt.yaml", .string (receiptYaml e))])]

/-- The calls that find them. -/
def exportEvents (e : ReceiptEnvelope) : List Event :=
  [⟨.request (.getObject "default" "batch/v1" "Job" "export"), .ok (some succeededJob)⟩,
    ⟨.request (.getObject "default" "v1" "ConfigMap" "export-receipt"),
      .ok (some (receiptConfigMap e))⟩]

/-- The condition waits for a receipt. -/
theorem expectsReceipt_exportCondition :
    let _ := exportFormat
    ExpectsReceipt exportCondition := by
  intro _
  refine .inr ⟨rfl, fun parsed read => ?_⟩
  cases read
  rfl

/-- The events of the export hold the receipt, whichever of the two it is. -/
theorem presents_exportEvents {e : ReceiptEnvelope}
    (known : e = exportReceipt ∨ e = swappedReceipt) :
    let _ := exportFormat
    exportGate.Presents (exportEvents e) e := by
  intro _
  -- Either receipt is read back from its YAML.
  rcases known with rfl | rfl
  · exact ⟨_, receiptYaml exportReceipt, List.mem_cons_of_mem _ List.mem_cons_self,
      by decide +kernel, by decide +kernel⟩
  · exact ⟨_, receiptYaml swappedReceipt, List.mem_cons_of_mem _ List.mem_cons_self,
      by decide +kernel, by decide +kernel⟩

/-- The condition is evaluated as the gate of its receipt. -/
theorem evaluate_exportCondition (process : Process) :
    let _ := barCrates
    let _ := exportFormat
    evaluate "default" process exportCondition = exportGate.evaluate :=
  let _ := barCrates
  let _ := exportFormat
  evaluate_of_expectsReceipt expectsReceipt_exportCondition "default" process

/-- Both receipts open the gate. -/
theorem runs_exportEvents {e : ReceiptEnvelope} (known : e = exportReceipt ∨ e = swappedReceipt) :
    let _ := barCrates
    let _ := exportFormat
    Runs exportGate.evaluate.run (exportEvents e) (.ok .satisfied) := by
  intro _ _
  -- The receipt itself decides, as the Job has succeeded.
  have verdict : classifyReceiptVerdict "Job" "default" "export" "export-receipt"
      (receiptVerdict none (some (receiptConfigMap e))) = .satisfied := by
    obtain ⟨configMap, payload, present, carried, read⟩ := presents_exportEvents known
    simp [exportEvents, exportGate] at present
    subst present
    exact classifyReceiptVerdict_satisfied_iff.mpr
      (receiptVerdict_ok_iff.mpr ⟨_, payload, e, rfl, carried, read, by simp⟩)
  have passed : classifyJobStatus "Job" "default" "export" (jobLookup (some succeededJob)) =
      .ok { succeeded := 1, failed := 0, active := 0 } := rfl
  rw [← verdict]
  exact exportGate.runs_of_passed passed (some (receiptConfigMap e))

/-- A Process that is attested only with the receipt of its export. -/
def exporting : Process :=
  { metadata := { name := "demo", uid := some "1" }
    spec := { intent := {}, boundary := { postconditions := [exportCondition] }, rest := .null } }

/-- The receipt that was built opens the condition rightly. -/
theorem opensRightly_exportReceipt :
    let _ := barCrates
    let _ := exportFormat
    Runs (evaluate "default" exporting exportCondition).run (exportEvents exportReceipt)
        (.ok .satisfied) ∧
      OpensRightly "default" exporting exportCondition (exportEvents exportReceipt)
        (.ok .satisfied) := by
  intro _ _
  have opened := runs_exportEvents (.inl rfl : exportReceipt = _ ∨ _)
  have runs : Runs (evaluate "default" exporting exportCondition).run (exportEvents exportReceipt)
      (.ok .satisfied) := by
    rw [evaluate_exportCondition exporting]
    exact opened
  refine ⟨runs, (opensRightly_iff expectsReceipt_exportCondition runs).mpr ?_⟩
  intro gate envelope chosen succeeded presents expected
  -- The one receipt that is presented was built without a previous root.
  obtain rfl : exportGate = gate := Option.some.inj chosen
  rw [presents.unique opened (presents_exportEvents (.inl rfl))]
  exact ⟨none, ReceiptEnvelope.verifyRoot_build ..⟩

/-- With another artifact under the old root the condition is satisfied all the same, although no
previous root makes that root the right one. -/
theorem not_opensRightly :
    let _ := barCrates
    let _ := exportFormat
    Function.Injective barCrates.hexBlake3 ∧
    Runs (evaluate "default" exporting exportCondition).run (exportEvents swappedReceipt)
        (.ok .satisfied) ∧
      (∀ previous, swappedReceipt.verifyRoot previous = false) ∧
        ¬ OpensRightly "default" exporting exportCondition (exportEvents swappedReceipt)
          (.ok .satisfied) := by
  intro _ _
  have opened := runs_exportEvents (.inr rfl : swappedReceipt = _ ∨ _)
  have runs : Runs (evaluate "default" exporting exportCondition).run (exportEvents swappedReceipt)
      (.ok .satisfied) := by
    rw [evaluate_exportCondition exporting]
    exact opened
  have forged (previous : Option String) : swappedReceipt.verifyRoot previous = false := by
    rw [Bool.eq_false_iff]
    intro verified
    -- The root is the hash of a text with the other artifact.
    have texts : rootText "a0" (some "c0") "i0" none = rootText "a1" (some "c0") "i0" previous :=
      hexBlake3_barCrates_injective (ReceiptEnvelope.verifyRoot_iff.mp verified)
    have artifacts := (rootText_inj (by simp [OneLine]) (by simp [OneLine]) (by simp [OneLine])
      (by simp [OneLine]) (by simp [OneLine]) (by simp [OneLine]) texts).1
    exact absurd artifacts (by decide)
  refine ⟨hexBlake3_barCrates_injective, runs, forged, fun opens => ?_⟩
  obtain ⟨gate, chosen, -, envelope, presents, -, previous, verified⟩ := opens rfl
  obtain rfl : exportGate = gate := Option.some.inj chosen
  rw [presents.unique opened (presents_exportEvents (.inr rfl)), forged] at verified
  cases verified

end Tatara.Reconciler
