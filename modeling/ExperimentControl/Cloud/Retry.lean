import ExperimentControl.Cloud.Adapter
import ExperimentControl.Native.Request
import ExperimentControl.Slurm.StatusDocuments

/-!
# Cloud retries

Cloud continuation of `core/src/cloud/retry.rs`: a retry is a new immutable Attempt, the Run's own
document with the identity, the time, the checkpoint and the receipt of the retry set in it. An
Attempt is checked by planning it again from the receipt it carries.

* `Receipt` — the evidence of a retry, with its check and its document.
* `plan`, `validateAttempt` — the Attempt of a receipt, and its check.
* `Retried` — Attempts behind one another, each planned from the one before.
-/

namespace ExperimentControl

namespace Cloud

open Native (Binding)
open Checkpoints (Reference)

/-- `cloud::Error`: what was wrong. -/
structure CoreError where
  what : String
  deriving DecidableEq, Repr

def RETRY_CONTRACT : String := "native-cloud-retry.v1"

/-! ## Observed jobs in documents -/

def numberDocument (n : UInt64) : Json := .ofNat n.toNat

def readU64 (value : Json) : Option UInt64 := value.asU64.map UInt64.ofNat

namespace QueueDiagnostic

def document (queue : QueueDiagnostic) : Json :=
  .object [("source", .string queue.source), ("code", .ofOption .string queue.code),
    ("code_type", .ofOption .string queue.codeType), ("reason", .ofOption .string queue.reason),
    ("position", .ofOption numberDocument queue.position),
    ("priority", .ofOption numberDocument queue.priority),
    ("enqueued_at", .ofOption .string queue.enqueuedAt), ("blocker", .ofOption id queue.blocker)]

def read (document : Json) : Option QueueDiagnostic := do
  let fields ← document.record ["source", "code", "code_type", "reason", "position", "priority",
    "enqueued_at", "blocker"]
  let source ← fields.text "source"
  let code ← fields.optional Json.asStr "code"
  let codeType ← fields.optional Json.asStr "code_type"
  let reason ← fields.optional Json.asStr "reason"
  let position ← fields.optional readU64 "position"
  let priority ← fields.optional readU64 "priority"
  let enqueuedAt ← fields.optional Json.asStr "enqueued_at"
  let blocker ← fields.optional some "blocker"
  return { source, code, codeType, reason, position, priority, enqueuedAt, blocker }

/-- What is kept of a diagnostic in a document: a blocker that is null is none. -/
def stored (queue : QueueDiagnostic) : QueueDiagnostic :=
  { queue with blocker := queue.blocker.filter (· ≠ .null) }

lemma document_ne_null (queue : QueueDiagnostic) : queue.document ≠ .null := by
  rintro ⟨⟩

lemma nullable_text (text : Option String) :
    Fields.nullable Json.asStr (.ofOption .string text) = some text := by
  refine @Json.nullable_ofOption _ Json.asStr Json.string (fun _ => rfl) ?_ text
  rintro _ ⟨⟩

lemma nullable_number (n : Option UInt64) :
    Fields.nullable readU64 (.ofOption numberDocument n) = some n := by
  refine Json.nullable_ofOption (fun n => ?_) ?_ n
  · rw [readU64, numberDocument, Json.asU64_ofNat n.toNat_lt, Option.map_some, UInt64.ofNat_toNat]
  · rintro _ ⟨⟩

lemma nullable_blocker (blocker : Option Json) :
    Fields.nullable some (.ofOption id blocker) = some (blocker.filter (· ≠ .null)) := by
  rcases blocker with _ | value
  · rfl
  · cases value <;> rfl

lemma document_stored (queue : QueueDiagnostic) : queue.stored.document = queue.document := by
  obtain ⟨source, code, codeType, reason, position, priority, enqueuedAt, blocker⟩ := queue
  rcases blocker with _ | value
  · rfl
  · cases value <;> rfl

lemma read_document (queue : QueueDiagnostic) : read queue.document = some queue.stored := by
  simp [read, document, stored, Json.record, Json.asObject, Option.filter_some, Fields.text,
    Fields.optional, Fields.get_cons, nullable_text, nullable_number, nullable_blocker]
  rfl

end QueueDiagnostic

namespace JobObservation

def document (observation : JobObservation) : Json :=
  .object [("job_id", .string observation.jobId),
    ("provider_state", .string observation.providerState),
    ("state", .string (Slurm.stateText observation.state)),
    ("queue", .ofOption QueueDiagnostic.document observation.queue)]

def read (document : Json) : Option JobObservation := do
  let fields ← document.record ["job_id", "provider_state", "state", "queue"]
  let jobId ← fields.text "job_id"
  let providerState ← fields.text "provider_state"
  let state ← (fields.text "state").bind Slurm.readState
  let queue ← fields.optional QueueDiagnostic.read "queue"
  return { jobId, providerState, state, queue }

def stored (observation : JobObservation) : JobObservation :=
  { observation with queue := observation.queue.map QueueDiagnostic.stored }

lemma document_stored (observation : JobObservation) :
    observation.stored.document = observation.document := by
  obtain ⟨jobId, providerState, state, queue⟩ := observation
  rcases queue with _ | queue
  · rfl
  · simp [document, stored, Json.ofOption, QueueDiagnostic.document_stored]

lemma read_document (observation : JobObservation) :
    read observation.document = some observation.stored := by
  obtain ⟨jobId, providerState, state, queue⟩ := observation
  have hqueue : Fields.nullable QueueDiagnostic.read (.ofOption QueueDiagnostic.document queue) =
      some (queue.map QueueDiagnostic.stored) := by
    rcases queue with _ | queue
    · rfl
    · rw [Json.ofOption, Json.nullable_of_ne queue.document_ne_null,
        QueueDiagnostic.read_document]
      rfl
  simp [read, document, stored, Json.record, Json.asObject, Json.asStr, Option.filter_some,
    Fields.text, Fields.optional, Fields.get_cons, Slurm.readState_stateText, hqueue]

end JobObservation

/-! ## Receipts -/

structure Receipt (F : Type) where
  contract : String
  parentAction : String
  parentBinding : Binding
  parentJobSha256 : String
  termination : JobObservation
  request : Native.Request F
  requestSha256 : String
  reservedGpuSeconds : UInt64
  createdAt : String

/-- `u64::checked_mul`. -/
def checkedMul (a b : ℕ) : Option ℕ := if a * b < 2 ^ 64 then some (a * b) else none

section Receipts

variable {F : Type} (format : FloatFormat F) (enc : Encoding) (rfc3339 : String → Option ℤ)

namespace Receipt

variable (receipt : Receipt F)

def document : Json :=
  .object [("contract", .string receipt.contract), ("parent_action", .string receipt.parentAction),
    ("parent_binding", receipt.parentBinding.document),
    ("parent_job_sha256", .string receipt.parentJobSha256),
    ("termination", receipt.termination.document), ("request", receipt.request.document format),
    ("request_sha256", .string receipt.requestSha256),
    ("reserved_gpu_seconds", numberDocument receipt.reservedGpuSeconds),
    ("created_at", .string receipt.createdAt)]

def read (document : Json) : Option (Receipt F) := do
  let fields ← document.record ["contract", "parent_action", "parent_binding", "parent_job_sha256",
    "termination", "request", "request_sha256", "reserved_gpu_seconds", "created_at"]
  let contract ← fields.text "contract"
  let parentAction ← fields.text "parent_action"
  let parentBinding ← (fields.get "parent_binding").bind Binding.read
  let parentJobSha256 ← fields.text "parent_job_sha256"
  let termination ← (fields.get "termination").bind JobObservation.read
  let request ← (fields.get "request").bind (Native.Request.read format)
  let requestSha256 ← fields.text "request_sha256"
  let reservedGpuSeconds ← fields.u64 "reserved_gpu_seconds"
  let createdAt ← fields.text "created_at"
  return { contract, parentAction, parentBinding, parentJobSha256, termination, request,
           requestSha256, reservedGpuSeconds, createdAt }

/-- The GPU seconds of one Attempt of the Run. -/
def perAttempt (run : Json) : Option ℕ := do
  let gpus ← ((run.index "resources").index "gpus").asU64
  let seconds ← ((run.index "native_cloud").index "walltime_seconds").asU64
  checkedMul gpus seconds

def validate (run : Json) (attempt : String) : Except CoreError Unit := do
  let b := receipt.parentBinding
  (receipt.request.validate receipt.parentAction).mapError fun _ => ⟨"retry request"⟩
  let count ← (Native.number attempt).mapError fun _ => ⟨"retry count"⟩
  match perAttempt run with
  | none => .error ⟨"retry budget"⟩
  | some perAttempt => do
      reject (receipt.contract ≠ RETRY_CONTRACT) ⟨"cloud retry authority"⟩
      let next ← (Native.next b.attemptId).mapError fun _ => ⟨"retry sequence"⟩
      reject (next ≠ attempt ∨ run.index "project" ≠ .string b.project ∨
        run.index "run_id" ≠ .string b.runId ∨ ¬validDigest receipt.parentJobSha256)
        ⟨"cloud retry authority"⟩
      let parent ← receipt.request.parent.mapError fun _ => ⟨"retry parent"⟩
      reject (parent ≠ (b.runId, b.attemptId) ∨ ¬receipt.termination.state.isTerminal ∨
        receipt.termination.jobId = "") ⟨"cloud retry authority"⟩
      let identity ← (receipt.request.identity format enc receipt.parentAction).mapError
        fun _ => ⟨"retry identity"⟩
      reject (receipt.requestSha256 ≠ identity ∨
        ¬(receipt.reservedGpuSeconds.toNat = perAttempt ∨
          checkedMul perAttempt count = some receipt.reservedGpuSeconds.toNat) ∨
        (rfc3339 receipt.createdAt).isNone ∨ b.hashes.any fun hash => ¬validDigest hash)
        ⟨"cloud retry authority"⟩

end Receipt

/-! ## Planning -/

/-- The checkpoint belongs to the retry: the one asked for, of this Run's source and image, or for
a restart none but the one the Run was frozen with. -/
def checkCheckpoint (run : Json) (receipt : Receipt F) (checkpoint : Json) :
    Except CoreError Unit :=
  match receipt.request.resumeFrom with
  | some reference => do
      let (context, _) ← (Checkpoints.validateDocument enc checkpoint none
        (some reference.checkpointId)).mapError fun _ => CoreError.mk "retry checkpoint"
      reject (context.project ≠ receipt.parentBinding.project ∨ context.runId ≠ reference.runId ∨
        context.attemptId ≠ reference.attemptId ∨
        run.index "source_id" ≠ .string context.sourceId ∨
        run.index "image_id" ≠ .string context.imageId) ⟨"retry checkpoint provenance"⟩
  | none =>
      reject (¬checkpoint.isNull ∧ ¬Json.equal checkpoint (run.index "native_checkpoint"))
        ⟨"startup retry cannot restore another checkpoint"⟩

/-- The resume point and the checkpoint of the Attempt. A Run frozen with a checkpoint keeps it. -/
def restore (run : Json) (receipt : Receipt F) (checkpoint attempt : Json) :
    Except CoreError Json :=
  if receipt.request.resumeFrom.isSome then
    .ok ((attempt.set "resume_from" (.ofOption Reference.document receipt.request.resumeFrom)).set
      "native_checkpoint" checkpoint)
  else if (run.index "native_checkpoint").isNull then do
    -- The Run's science says it continues from something this cannot restore.
    reject (¬(run.index "resume_from").isNull) ⟨"retry cannot restore the Run's frozen checkpoint"⟩
    .ok ((attempt.set "resume_from" .null).set "native_checkpoint" .null)
  else .ok attempt

def plan (run : Json) (receipt : Receipt F) (checkpoint : Json) : Except CoreError Json := do
  let next ← (Native.next receipt.parentBinding.attemptId).mapError fun _ => ⟨"retry sequence"⟩
  receipt.validate format enc rfc3339 run next
  checkCheckpoint enc run receipt checkpoint
  let attempt ← restore run receipt checkpoint
    ((run.set "attempt_id" (.string next)).set "attempt_created_at" (.string receipt.createdAt))
  .ok (attempt.set "native_cloud_retry" (receipt.document format))

def validateAttempt (run attempt : Json) (binding : Binding) : Except CoreError Unit :=
  match Receipt.read format (attempt.index "native_cloud_retry") with
  | none => .error ⟨"retry receipt"⟩
  | some receipt => do
      receipt.validate format enc rfc3339 run binding.attemptId
      let b := receipt.parentBinding
      reject (b.project ≠ binding.project ∨ b.runId ≠ binding.runId ∨
        b.projectSha256 ≠ binding.projectSha256 ∨ b.runSha256 ≠ binding.runSha256 ∨
        b.sourceReceiptSha256 ≠ binding.sourceReceiptSha256 ∨
        b.backendConfigSha256 ≠ binding.backendConfigSha256) ⟨"retry frozen manifest"⟩
      let planned ← plan format enc rfc3339 run receipt (attempt.index "native_checkpoint")
      reject (¬Json.equal planned attempt) ⟨"retry frozen manifest"⟩

end Receipts

end Cloud

end ExperimentControl
