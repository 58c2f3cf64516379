import ExperimentControl.Native.Request
import ExperimentControl.Slurm.StatusDocuments

/-!
# Scheduler retries

The planned continuation of `core/src/first_submission/native/retry.rs`, with the checks that its
Attempt goes through later: its own one, and the checkpoint evidence that
`core/src/first_submission/native.rs` and `core/src/slurm/staging.rs` ask for.

* `Receipt`, `plan` — the evidence of a retry, and the Attempt planned from it.
* `validateAttempt` — an Attempt is the Run's document but for the fields of its retry.
* `definitionCheckpoint`, `admitCheckpoint` — the checkpoint evidence of an Attempt.
-/

namespace ExperimentControl

namespace Slurm

/-! ## Scheduler names and limits -/

/-- The name of an Attempt's job. Both parts are ASCII, so that bytes are characters. -/
def schedulerJobName (sha256 : Bytes → String) (runId attemptId : String) : Except Error String := do
  (validateId runId).mapError fun _ => .identity "run_id"
  (validateAttempt attemptId).mapError fun _ => .identity "attempt_id"
  reject (byteLen attemptId > 128) (.identity "attempt_id")
  let raw := runId ++ "--" ++ attemptId
  if byteLen raw ≤ 128 then .ok raw
  else
    .ok (String.ofList ((raw.toList.take 113 ++ "--".toList ++ (sha256 (utf8 raw)).toList).take 127))

/-- A number of sixty-four bits. -/
def number (value : String) : Option ℕ := (Json.digits value.toList).filter (· < 2 ^ 64)

def checkedMul (a b : ℕ) : Option ℕ := if a * b < 2 ^ 64 then some (a * b) else none

def checkedAdd (a b : ℕ) : Option ℕ := if a + b < 2 ^ 64 then some (a + b) else none

/-- The seconds of a time limit. Every refusal is the same error. -/
def walltimeSeconds (value : String) : Option ℕ := do
  let (days, rest) ←
    match splitOnce '-' value with
    | some (day, rest) => (number day).map fun days => (days, rest)
    | none => some (0, value)
  match split ':' rest with
  | [hours, minutes, seconds] =>
      if byteLen minutes ≠ 2 ∨ byteLen seconds ≠ 2 then none
      else do
        let hours ← number hours
        let minutes ← number minutes
        let seconds ← number seconds
        if minutes > 59 ∨ seconds > 59 ∨ '-' ∈ value.toList ∧ hours > 23 then none
        else do
          let whole ← checkedMul days 86400
          let part ← checkedMul hours 3600
          let sum ← checkedAdd whole part
          let result ← checkedAdd sum (minutes * 60 + seconds)
          if result = 0 then none else some result
  | _ => none

end Slurm

namespace Native

open Checkpoints (Reference)
open Slurm (StatusObservation)

/-- A text of a document. -/
def field (value : Json) (key : String) : Except Error String :=
  match (value.get key).bind Json.asStr with
  | some text => .ok text
  | none => .error ⟨"manifest field"⟩

/-- The GPU seconds of so many Attempts of the Run. -/
def reservation (run : Json) (count : ℕ) : Except Error ℕ :=
  match ((run.index "resources").index "gpus").asU64 with
  | none => .error ⟨"GPU reservation"⟩
  | some gpus => do
      let time ← field (run.index "backend") "time"
      match Slurm.walltimeSeconds time with
      | none => .error ⟨"walltime reservation"⟩
      | some seconds =>
          match (Slurm.checkedMul gpus seconds).bind (Slurm.checkedMul · count) with
          | none => .error ⟨"cumulative reservation"⟩
          | some total => .ok total

/-! ## Receipts -/

structure Receipt (F : Type) where
  contract : String
  parentAction : String
  parentBinding : Binding
  parentJobId : String
  backendId : String
  termination : StatusObservation
  request : Request F
  requestSha256 : String
  reservedGpuSeconds : ℕ
  createdAt : String

/-- Who continues what: the parent, and the evidence that its job has ended. -/
structure Authority where
  backendId : String
  parent : Binding
  action : String
  job : String
  termination : StatusObservation
  checkpoint : Json

section Retries

variable {F : Type} (format : FloatFormat F) (enc : Encoding) (rfc3339 : String → Option ℤ)

namespace Receipt

variable (receipt : Receipt F)

def document : Json :=
  .object [("contract", .string receipt.contract), ("parent_action", .string receipt.parentAction),
    ("parent_binding", receipt.parentBinding.document),
    ("parent_job_id", .string receipt.parentJobId), ("backend_id", .string receipt.backendId),
    ("termination", receipt.termination.document), ("request", receipt.request.document format),
    ("request_sha256", .string receipt.requestSha256),
    ("reserved_gpu_seconds", .ofNat receipt.reservedGpuSeconds),
    ("created_at", .string receipt.createdAt)]

def read (document : Json) : Option (Receipt F) := do
  let fields ← document.record ["contract", "parent_action", "parent_binding", "parent_job_id",
    "backend_id", "termination", "request", "request_sha256", "reserved_gpu_seconds", "created_at"]
  let contract ← fields.text "contract"
  let parentAction ← fields.text "parent_action"
  let parentBinding ← (fields.get "parent_binding").bind Binding.read
  let parentJobId ← fields.text "parent_job_id"
  let backendId ← fields.text "backend_id"
  let termination ← (fields.get "termination").bind StatusObservation.read
  let request ← (fields.get "request").bind (Request.read format)
  let requestSha256 ← fields.text "request_sha256"
  let reservedGpuSeconds ← (fields.get "reserved_gpu_seconds").bind Json.asU64
  let createdAt ← fields.text "created_at"
  return { contract, parentAction, parentBinding, parentJobId, backendId, termination, request,
           requestSha256, reservedGpuSeconds, createdAt }

def validate (run : Json) (attemptId : String) : Except Error Unit := do
  let parent := receipt.parentBinding
  let status := receipt.termination.status
  let count ← number attemptId
  status.validate.mapError fun _ => ⟨"retry terminal evidence"⟩
  reject (receipt.contract ≠ RETRY_CONTRACT) ⟨"retry receipt or cumulative budget"⟩
  let follower ← next parent.attemptId
  reject (follower ≠ attemptId) ⟨"retry receipt or cumulative budget"⟩
  let project ← field run "project"
  reject (parent.project ≠ project) ⟨"retry receipt or cumulative budget"⟩
  let runId ← field run "run_id"
  reject (parent.runId ≠ runId) ⟨"retry receipt or cumulative budget"⟩
  let source ← receipt.request.parent
  reject (source ≠ (parent.runId, parent.attemptId)) ⟨"retry receipt or cumulative budget"⟩
  let identity ← receipt.request.identity format enc receipt.parentAction
  reject (receipt.requestSha256 ≠ identity ∨ receipt.termination.retainedPrevious ∨
    ¬status.state.isTerminal ∨ status.jobId.value ≠ receipt.parentJobId)
    ⟨"retry receipt or cumulative budget"⟩
  let schedulerName ← (Slurm.schedulerJobName enc.sha256 parent.runId parent.attemptId).mapError
    fun _ => ⟨"parent scheduler name"⟩
  reject (status.schedulerName ≠ schedulerName ∨ status.sshAlias ≠ receipt.backendId ∨
    ¬component receipt.backendId) ⟨"retry receipt or cumulative budget"⟩
  let partition ← field (run.index "backend") "partition"
  reject (status.partition ≠ partition) ⟨"retry receipt or cumulative budget"⟩
  let single ← reservation run 1
  let total ← reservation run count
  reject (receipt.reservedGpuSeconds ∉ [single, total] ∨ (rfc3339 receipt.createdAt).isNone ∨
    parent.hashes.any fun hash => ¬validDigest hash) ⟨"retry receipt or cumulative budget"⟩

end Receipt

/-! ## Planning -/

/-- The checkpoint belongs to the retry: the one asked for, of this Run's source and image, or
none. -/
def checkCheckpoint (run : Json) (request : Request F) (checkpoint : Json) : Except Error Unit :=
  match request.resumeFrom with
  | some reference => do
      let (context, _) ← (Checkpoints.validateDocument enc checkpoint none
        (some reference.checkpointId)).mapError fun _ => Error.mk "retry checkpoint receipt"
      let project ← field run "project"
      reject (context.project ≠ project ∨ context.runId ≠ reference.runId ∨
        context.attemptId ≠ reference.attemptId) ⟨"retry checkpoint provenance"⟩
      let sourceId ← field run "source_id"
      reject (context.sourceId ≠ sourceId) ⟨"retry checkpoint provenance"⟩
      let imageId ← field run "image_id"
      reject (context.imageId ≠ imageId) ⟨"retry checkpoint provenance"⟩
  | none => reject (¬checkpoint.isNull) ⟨"restart checkpoint"⟩

/-- The Run's document with the fields of the retry set. -/
def attemptDocument (run : Json) (receipt : Receipt F) (checkpoint : Json) (attemptId : String) :
    Json :=
  ((((run.set "attempt_id" (.string attemptId)).set "attempt_created_at"
    (.string receipt.createdAt)).set "resume_from"
      (.ofOption Reference.document receipt.request.resumeFrom)).set "native_checkpoint"
        checkpoint).set "native_retry" (receipt.document format)

def plan (run : Json) (request : Request F) (authority : Authority) (now : String) :
    Except Error Json := do
  let attemptId ← next authority.parent.attemptId
  let requestSha256 ← request.identity format enc authority.action
  let reservedGpuSeconds ← reservation run 1
  let receipt : Receipt F :=
    { contract := RETRY_CONTRACT
      parentAction := authority.action
      parentBinding := authority.parent
      parentJobId := authority.job
      backendId := authority.backendId
      termination := authority.termination
      request := request
      requestSha256 := requestSha256
      reservedGpuSeconds := reservedGpuSeconds
      createdAt := now }
  receipt.validate format enc rfc3339 run attemptId
  checkCheckpoint enc run request authority.checkpoint
  .ok (attemptDocument format run receipt authority.checkpoint attemptId)

/-! ## Later checks -/

/-- The fields a retry sets. -/
def retryKeys : List String :=
  ["attempt_id", "attempt_created_at", "native_retry", "resume_from", "native_checkpoint"]

/-- A document without the fields of a retry. -/
def strip (value : Json) : Except Error Json :=
  match value.asObject with
  | some fields => .ok (.object (fields.filter fun field => field.1 ∉ retryKeys))
  | none => .error ⟨"retry manifest"⟩

def validateAttempt (run attempt : Json) (binding : Binding) : Except Error (Receipt F) :=
  match Receipt.read format (attempt.index "native_retry") with
  | none => .error ⟨"retry receipt"⟩
  | some receipt => do
      receipt.validate format enc rfc3339 run binding.attemptId
      reject (receipt.parentBinding.runSha256 ≠ binding.runSha256 ∨
        receipt.parentBinding.projectSha256 ≠ binding.projectSha256 ∨
        receipt.parentBinding.sourceReceiptSha256 ≠ binding.sourceReceiptSha256 ∨
        receipt.parentBinding.backendConfigSha256 ≠ binding.backendConfigSha256 ∨
        ¬Json.equal (attempt.index "resume_from")
          (.ofOption Reference.document receipt.request.resumeFrom) ∨
        attempt.index "attempt_created_at" ≠ .string receipt.createdAt)
        ⟨"retry authority binding"⟩
      let ofRun ← strip run
      let ofAttempt ← strip attempt
      reject (¬Json.equal ofRun ofAttempt) ⟨"retry changed scientific manifest"⟩
      .ok receipt

/-- The checkpoint evidence of `native::definition`: a resume point with its checkpoint, or neither
field. -/
def definitionCheckpoint (attempt : Json) (binding : Binding) (storageScope runRoot : String) :
    Except Error Unit :=
  match (attempt.get "resume_from").filter fun value => !value.isNull,
    attempt.get "native_checkpoint" with
  | some reference, some value =>
      match Reference.read reference with
      | none => .error ⟨"manifest schema"⟩
      | some reference => do
          let _ ← (Checkpoints.selected enc rfc3339 reference value binding.project storageScope
            runRoot).mapError fun _ => Error.mk "checkpoint scope or identity"
          reject (reference.runId = binding.runId ∧ binding.attemptId = "attempt-001")
            ⟨"checkpoint restore"⟩
  | none, none => .ok ()
  | _, _ => .error ⟨"checkpoint evidence"⟩

/-- The checkpoint evidence of `staging::admit`. -/
def admitCheckpoint (doc : Json) (scope : Slurm.Scope) (storageScope runsRoot : String) :
    Except Slurm.HelperError Unit :=
  match (doc.get "resume_from").filter fun value => !value.isNull,
    doc.get "native_checkpoint" with
  | some reference, some value =>
      match Reference.read reference with
      | none => .error .metadata
      | some reference => do
          let _ ← (Checkpoints.selected enc rfc3339 reference value scope.project storageScope
            runsRoot).mapError fun _ => Slurm.HelperError.identity
          if reference.runId = scope.runId then
            match Receipt.read format (doc.index "native_retry") with
            | none => .error .metadata
            | some receipt => do
                (receipt.validate format enc rfc3339 doc scope.attemptId).mapError
                  fun _ => .identity
                reject (receipt.request.resumeFrom ≠ some reference) .identity
          else .ok ()
  | none, none => .ok ()
  | _, _ => .error .identity

end Retries

end Native

end ExperimentControl
