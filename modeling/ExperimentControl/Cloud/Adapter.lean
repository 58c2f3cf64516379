import ExperimentControl.Json.Value
import ExperimentControl.Library.Fallible
import ExperimentControl.Library.Programs
import ExperimentControl.RunState

/-!
# The cloud adapter

`Adapter` of `server/src/backends/cloud/adapter.rs`, bound to one provider profile.  Its methods are
programs: every HTTP request is an operation, answered by the provider in any way.  The client never
repeats a request, so one operation is one call.

* `Provider` — the profile: the request compilers and the checks of its answers.
* `create`, `observe`, `find`, `stop` — the methods, in terms of requests.
-/

namespace ExperimentControl

namespace Cloud

/-! ## Data -/

structure Error where
  code : String
  httpStatus : Option ℕ
  uncertain : Bool
  deriving DecidableEq, Repr

def Error.configuration : Error := ⟨"CLOUD_CONFIGURATION_INVALID", none, false⟩
def Error.evidence : Error := ⟨"CLOUD_EVIDENCE_INVALID", none, false⟩
def Error.transport (uncertain : Bool) : Error := ⟨"CLOUD_RESPONSE_UNAVAILABLE", none, uncertain⟩
def Error.effectBusy : Error := ⟨"CLOUD_EFFECT_BUSY", some 503, false⟩
def Error.createUnconfirmed : Error := ⟨"CLOUD_CREATE_UNCONFIRMED", none, true⟩
def Error.createIdentityConflict : Error := ⟨"CLOUD_CREATE_IDENTITY_CONFLICT", none, true⟩

structure Job where
  project : String
  runId : String
  attemptId : String
  submissionToken : String
  sourceId : String
  image : String
  command : List String
  gpus : ℕ
  cpus : ℕ
  memoryGb : ℕ
  maxTimeSeconds : ℕ
  priority : ℕ := 5
  readOnlyStorage : Bool := false
  deriving DecidableEq, Repr

inductive Allocation
  | guaranteed
  | allowIdle
  | idleOnly
  deriving DecidableEq, Repr

structure QueueDiagnostic where
  source : String
  code : Option String
  codeType : Option String
  reason : Option String
  position : Option UInt64
  priority : Option UInt64
  enqueuedAt : Option String
  blocker : Option Json
  deriving DecidableEq, Repr

structure JobObservation where
  jobId : String
  providerState : String
  state : RunState
  queue : Option QueueDiagnostic
  deriving DecidableEq, Repr

structure Handle where
  profileSha256 : String
  requestSha256 : String
  jobId : String
  providerUid : Option String
  deriving DecidableEq, Repr

/-- The requests an adapter sends.  `create` and `stop` change something at the provider. -/
inductive Request
  | create (job : Job) (allocation : Allocation)
  | get (id : String)
  | queue (id : String)
  | list (job : Job) (page : ℕ)
  | stop (id : String)
  deriving DecidableEq, Repr

def Request.mutates : Request → Bool
  | .create _ _ | .stop _ => true
  | _ => false

/-- One page of a listing.  The source carries the number of the next page as a text. -/
structure Page (Row : Type) where
  rows : List Row
  total : Option ℕ
  next : Option ℕ

/-- A provider profile: its digests, its request compilers and the checks of its answers. -/
structure Provider (Row : Type) where
  /-- `Outbox::slot`, from the digest of project, Run and Attempt. -/
  slot : Job → Except Error String
  jobDigest : Job → Except Error String
  profileDigest : Except Error String
  profileValidate : Except Error Unit
  component : String → Bool
  /-- Whether the profile compiles a request at all. -/
  compile : Request → Except Error Unit
  /-- `response["JobId"].as_str()`. -/
  createdId : Row → Option String
  validateJob : Row → Job → Option String → Except Error JobObservation
  validateQueue : Row → String → Except Error (Option QueueDiagnostic)
  page : Row → ℕ → Except Error (Page Row)

/-- `Handle::validate`: a handle belongs to one profile and one request. -/
def Provider.validateHandle {Row : Type} (P : Provider Row) (handle : Handle) (job : Job) :
    Except Error Unit := do
  let profile ← P.profileDigest
  reject (handle.profileSha256 ≠ profile) Error.evidence
  let request ← P.jobDigest job
  reject (handle.requestSha256 ≠ request) Error.evidence
  reject (¬P.component handle.jobId) Error.evidence
  reject (handle.providerUid.isSome) Error.evidence

/-- `Adapter::handle`: the handle a job row proves. -/
def Provider.handle {Row : Type} (P : Provider Row) (job : Job) (row : Row) :
    Except Error Handle := do
  let observation ← P.validateJob row job none
  let profile ← P.profileDigest
  let request ← P.jobDigest job
  let handle : Handle :=
    { profileSha256 := profile, requestSha256 := request, jobId := observation.jobId,
      providerUid := none }
  P.validateHandle handle job
  .ok handle

/-! ## The slot record and the operations -/

def format : String := "native-cloud-effects.v1"

/-- The record of one slot. -/
structure Entry where
  format : String
  profileSha256 : String
  requestSha256 : String
  job : Job
  allocation : Allocation
  started : Bool
  handle : Option Handle
  cancellationStarted : Bool
  terminationVerified : Bool
  observation : Option JobObservation
  diagnostic : Option Error
  deriving DecidableEq, Repr

/-- What the outbox and its adapter do outside themselves: ask the caller's guard and its
cancellation flag, use the slot files, and send a request for a job.  `answered` does nothing: it
marks the point at which a stop has its observation. -/
inductive Op
  | guard
  | cancelled
  | entryExists (slot : String)
  | read (slot : String)
  | publishNew (slot : String) (entry : Entry)
  | replaceRegular (slot : String) (entry : Entry)
  | request (job : Job) (request : Request)
  | answered (slot : String) (observation : JobObservation)

/-- What an operation answers.  `read` fails on a missing or unreadable file. -/
def Ans (Row : Type) : Op → Type
  | .guard => Except Error Unit
  | .cancelled => Bool
  | .entryExists _ => Except Error Bool
  | .read _ => Except Error Entry
  | .publishNew _ _ => Except Error Unit
  | .replaceRegular _ _ => Except Error Unit
  | .request _ _ => Except Error Row
  | .answered _ _ => Unit

/-- Programs of the outbox. -/
abbrev Eff (Row : Type) (α : Type) := Act Op (Ans Row) Error α

/-! ## Adapter methods -/

section Adapter

variable {Row : Type} (P : Provider Row)

def call (job : Job) (request : Request) : Eff Row Row := do
  Act.lift (P.compile request)
  Act.attempt (.request job request) id

def rawJob (job : Job) (id : String) : Eff Row Row := call P job (.get id)

/-- `error.uncertain = true` on the failures of a step. -/
def uncertainly {α : Type} (x : Eff Row α) : Eff Row α := do
  let result ← Act.outcome x
  Act.lift (result.mapError fun e => { e with uncertain := true })

/-- Create a job, then read the returned id back and compare its owner. -/
def create (job : Job) (allocation : Allocation) : Eff Row Handle := do
  let response ← call P job (.create job allocation)
  match (P.createdId response).filter P.component with
  | none => Act.lift (.error Error.createUnconfirmed)
  | some id => do
      let row ← uncertainly (rawJob P job id)
      let handle ← Act.lift ((P.handle job row).mapError fun e => { e with uncertain := true })
      Act.lift (reject (handle.jobId ≠ id) Error.createIdentityConflict)
      pure handle

/-- The queue diagnostic of a queued job.  Its failure cannot erase a known job. -/
def observeQueue (job : Job) (handle : Handle) (observation : JobObservation) :
    Eff Row JobObservation := do
  match ← Act.outcome (call P job (.queue handle.jobId)) with
  | .error _ => pure observation
  | .ok queue =>
      match P.validateQueue queue handle.jobId with
      | .error _ => pure observation
      | .ok diagnostic => pure { observation with queue := diagnostic }

def observe (job : Job) (handle : Handle) : Eff Row JobObservation := do
  Act.lift (P.validateHandle handle job)
  let row ← rawJob P job handle.jobId
  let observation ← Act.lift (P.validateJob row job (some handle.jobId))
  if observation.state = .queued then observeQueue P job handle observation else pure observation

/-- What `find` carries from page to page. -/
structure Finding where
  identities : List String := []
  result : Option Handle := none
  total : Option ℕ := none
  received : ℕ := 0

/-- The rows of one page: at most one job of this owner, and no job twice. -/
def Finding.rows (job : Job) : Finding → List Row → Except Error Finding
  | finding, [] => .ok finding
  | finding, row :: rows => do
      let handle ← P.handle job row
      reject (handle.jobId ∈ finding.identities ∨ finding.result.isSome) Error.evidence
      Finding.rows job
        { finding with identities := handle.jobId :: finding.identities, result := some handle } rows

/-- The pages of a listing, at most `fuel` of them. -/
def findPages (job : Job) : ℕ → ℕ → List ℕ → Finding → Eff Row (Option Handle)
  | 0, _, _, _ => Act.lift (.error Error.evidence)
  | fuel + 1, token, tokens, finding => do
      Act.lift (reject (token ∈ tokens) Error.evidence)
      let value ← call P job (.list job token)
      let page ← Act.lift ((P.page value token).mapError fun _ => Error.evidence)
      Act.lift (reject (finding.total.isSome ∧ page.total ≠ finding.total) Error.evidence)
      let finding := { finding with
        total := finding.total.orElse fun _ => page.total,
        received := finding.received + page.rows.length }
      let finding ← Act.lift (Finding.rows P job finding page.rows)
      match page.next with
      | some next => findPages job fuel next (token :: tokens) finding
      | none => do
          Act.lift (reject (finding.total.any (finding.received ≠ ·)) Error.evidence)
          pure finding.result

/-- Positive absence requires complete, stable and duplicate-free pages. -/
def find (job : Job) : Eff Row (Option Handle) := findPages P job 100 1 [] {}

/-- Stop a job that is not terminal yet.  A successful request is not proof of termination. -/
def stop (job : Job) (handle : Handle) : Eff Row JobObservation := do
  let observation ← observe P job handle
  if observation.state.isTerminal then
    pure observation
  else do
    let _ ← call P job (.stop handle.jobId)
    uncertainly (observe P job handle)

end Adapter

end Cloud

end ExperimentControl
