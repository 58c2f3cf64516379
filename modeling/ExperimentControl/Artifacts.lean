import ExperimentControl.Json.Text
import Std.Data.ExtTreeMap

/-!
# Artifacts

Receipts, download proofs and retention decisions of `core/src/artifacts.rs`. Every function
validates frozen identities and returns the next durable value; the caller saves it before it
touches an archive.

* `validateReceipt`, `proofMatches` — an archive and the proof that it was downloaded.
* `acknowledge`, `beginRelease`, `finishRelease` — the retention of an archive, decided one step
  at a time.
-/

namespace ExperimentControl

namespace Artifacts

def MAX_FILES : ℕ := 20000
def MAX_PATH : ℕ := 4096
def MAX_RECEIPT_BYTES : ℕ := 8 * 1024 * 1024

/-- The budget of `listedCost`. -/
def MAX_LISTED_BYTES : ℕ := 6 * 1024 * 1024

/-! ## Data -/

structure FileReceipt where
  path : String
  bytes : UInt64
  sha256 : String
  deriving DecidableEq

structure ArchiveReceipt where
  project : String
  runId : String
  attemptId : String
  sha256 : String
  bytes : UInt64
  files : List FileReceipt
  objectKey : String
  deriving DecidableEq

inductive RetentionStatus
  | keep
  | scheduled
  | releasing
  | released
  deriving DecidableEq, Repr

structure Retention where
  status : RetentionStatus
  sha256 : String
  releaseAfter : Option String
  releasedAt : Option String
  deriving DecidableEq, Repr

structure DownloadProof where
  archiveSha256 : String
  archiveBytes : UInt64
  files : Std.ExtTreeMap String FileReceipt
  deriving DecidableEq

structure Acknowledgement where
  proof : DownloadProof
  verifiedAt : String
  deriving DecidableEq

inductive Error
  | identity
  | receipt
  | proofConflict
  | unavailable
  | transition
  deriving DecidableEq, Repr

/-! ## Documents -/

def optionalText : Option String → Json
  | some text => .string text
  | none => .null

def FileReceipt.document (file : FileReceipt) : Json :=
  .object [("path", .string file.path), ("bytes", .ofNat file.bytes.toNat),
    ("sha256", .string file.sha256)]

def ArchiveReceipt.document (receipt : ArchiveReceipt) : Json :=
  .object [("project", .string receipt.project), ("run_id", .string receipt.runId),
    ("attempt_id", .string receipt.attemptId), ("sha256", .string receipt.sha256),
    ("bytes", .ofNat receipt.bytes.toNat), ("files", .array (receipt.files.map (·.document))),
    ("object_key", .string receipt.objectKey)]

def RetentionStatus.name : RetentionStatus → String
  | .keep => "KEEP"
  | .scheduled => "SCHEDULED"
  | .releasing => "RELEASING"
  | .released => "RELEASED"

def Retention.document (retention : Retention) : Json :=
  .object [("status", .string retention.status.name), ("sha256", .string retention.sha256),
    ("release_after", optionalText retention.releaseAfter),
    ("released_at", optionalText retention.releasedAt)]

def DownloadProof.document (proof : DownloadProof) : Json :=
  .object [("archive_sha256", .string proof.archiveSha256),
    ("archive_bytes", .ofNat proof.archiveBytes.toNat),
    ("files", .object (proof.files.toList.map fun row => (row.1, row.2.document)))]

def Acknowledgement.document (ack : Acknowledgement) : Json :=
  .object [("proof", ack.proof.document), ("verified_at", .string ack.verifiedAt)]

/-! ## Validation -/

/-- A relative path inside the output directory. -/
def receiptPath (value : String) : Bool :=
  byteLen value ≤ MAX_PATH ∧ value ≠ "" ∧
    ¬value.toList.any (fun c => c = '\\' ∨ c = Char.ofNat 0) ∧
    (pathParts value).all fun part => part ≠ [] ∧ part ≠ ['.'] ∧ part ≠ ['.', '.']

/-- What an archived file adds to its saved state: a receipt row, and a proof row later on. -/
def listedCost (path : String) : ℕ := 240 + 3 * (byteLen path + path.toList.count '"')

def bounded (value : Json) : Except Error Unit := reject (value.size > MAX_RECEIPT_BYTES) .receipt

section Timestamps

-- The instant of an RFC 3339 text, as the `time` crate reads it.
variable (rfc3339 : String → Option ℤ)

def timestamp (value : String) : Except Error ℤ := do
  reject (value = "" ∨ byteLen value > 128) .transition
  match rfc3339 value with
  | some instant => .ok instant
  | none => .error .transition

/-- The instant of a field that has to be there. -/
def presentTimestamp (value : Option String) : Except Error ℤ :=
  match value with
  | some value => timestamp rfc3339 value
  | none => .error .transition

def validateRetention (retention : Retention) (expectedSha : String) : Except Error Unit := do
  reject (retention.sha256 ≠ expectedSha ∨ ¬isSha256 retention.sha256) .transition
  match retention.status with
  | .keep => reject (retention.releaseAfter.isSome ∨ retention.releasedAt.isSome) .transition
  | .scheduled | .releasing => do
      let _ ← presentTimestamp rfc3339 retention.releaseAfter
      reject retention.releasedAt.isSome .transition
  | .released => do
      reject (retention.releaseAfter.isNone ∨ retention.releasedAt.isNone) .transition
      let _ ← presentTimestamp rfc3339 retention.releaseAfter
      let _ ← presentTimestamp rfc3339 retention.releasedAt
      .ok ()

end Timestamps

/-- The object an archive is stored under. -/
def ArchiveReceipt.key (receipt : ArchiveReceipt) : String :=
  receipt.project ++ "/" ++ receipt.runId ++ "/" ++ receipt.attemptId ++ "/" ++
    receipt.sha256 ++ ".tar"

def validateReceipt (value : ArchiveReceipt) : Except Error Unit := do
  (validateId value.project).mapError fun _ => .identity
  (validateId value.runId).mapError fun _ => .identity
  (validateAttempt value.attemptId).mapError fun _ => .identity
  reject (value.bytes = 0 ∨ ¬isSha256 value.sha256 ∨ value.files.length > MAX_FILES) .receipt
  -- Every file is checked in turn, its path against the ones before it; all the errors are one.
  reject ((value.files.any fun file => ¬receiptPath file.path ∨ ¬isSha256 file.sha256) ∨
    ¬(value.files.map (·.path)).Nodup) .receipt
  reject (value.objectKey ≠ value.key) .receipt
  bounded value.document

/-- The key of a file in a download proof. -/
def proofPath (path : String) : String := "outputs/" ++ path

def proofMatches (receipt : ArchiveReceipt) (proof : DownloadProof) : Except Error Unit := do
  validateReceipt receipt
  reject (proof.archiveSha256 ≠ receipt.sha256 ∨ proof.archiveBytes ≠ receipt.bytes ∨
    proof.files.size ≠ receipt.files.length) .proofConflict
  -- The observed row has the path, the bytes and the digest of the receipt's row.
  reject (receipt.files.any fun file => proof.files[proofPath file.path]? ≠ some file)
    .proofConflict
  bounded proof.document

/-! ## Decisions -/

section Decisions

variable (rfc3339 : String → Option ℤ)

def acknowledge (receipt : ArchiveReceipt) (proof : DownloadProof) (verifiedAt : String)
    (release : Bool) : Except Error (Acknowledgement × Retention) := do
  proofMatches receipt proof
  let _ ← (timestamp rfc3339 verifiedAt).mapError fun _ => .proofConflict
  .ok (⟨proof, verifiedAt⟩,
    { status := if release then .scheduled else .keep
      sha256 := receipt.sha256
      releaseAfter := if release then some verifiedAt else none
      releasedAt := none })

def beginRelease (receipt : ArchiveReceipt) (retention : Retention) : Except Error Retention := do
  validateReceipt receipt
  validateRetention rfc3339 retention receipt.sha256
  match retention.status with
  | .scheduled | .releasing => .ok { retention with status := .releasing }
  | .released => .ok retention
  | .keep => .error .unavailable

def finishRelease (receipt : ArchiveReceipt) (retention : Retention) (releasedAt : String) :
    Except Error Retention := do
  validateReceipt receipt
  validateRetention rfc3339 retention receipt.sha256
  reject (retention.status ≠ .releasing) .transition
  let released ← timestamp rfc3339 releasedAt
  let releaseAfter ← presentTimestamp rfc3339 retention.releaseAfter
  reject (released < releaseAfter) .transition
  .ok { retention with status := .released, releasedAt := some releasedAt }

end Decisions

end Artifacts

end ExperimentControl
