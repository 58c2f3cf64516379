import ExperimentControl.Identity
import ExperimentControl.Json.Records
import ExperimentControl.Sources.Digest

/-!
# Checkpoints

Persistent checkpoints of `core/src/checkpoints.rs`: a worker's ready manifest names the files of one
generation, the document over it has the digest of its own content for an identity, and a registered
document may be restored by whoever names it.

* `manifest`, `context` — what a worker reports and whose state it is, with their checks.
* `document`, `validateDocument` — the immutable document and its check.
* `register`, `restorePlan`, `selectedAt` — a document is registered and chosen.
-/

namespace ExperimentControl

namespace Checkpoints

def MANIFEST_LIMIT : ℕ := 256 * 1024
def MAX_FILES : ℕ := 20000
def MAX_PATH_BYTES : ℕ := 4096
def MAX_GENERATION_BYTES : ℕ := 128

inductive Error
  | manifest
  | identity
  | generationConflict
  | document
  | timestamp
  | storageScope
  deriving DecidableEq, Repr

structure FileRecord where
  path : String
  bytes : ℕ
  sha256 : String
  deriving DecidableEq, Repr

structure Manifest where
  step : ℕ
  files : List FileRecord
  generation : String
  deriving DecidableEq, Repr

structure Context where
  project : String
  runId : String
  attemptId : String
  sourceId : String
  imageId : String
  storageScope : String
  stateRoot : String
  deriving DecidableEq, Repr

structure RestorePlan where
  checkpointId : String
  step : ℕ
  generation : String
  stateRoot : String
  files : List FileRecord
  deriving DecidableEq, Repr

/-! ## References -/

/-- An explicit choice in the same project. -/
structure Reference where
  runId : String
  attemptId : String
  checkpointId : String
  deriving DecidableEq, Repr

/-- The identity of a checkpoint: the digest of its document behind a name. -/
def isCheckpointId (value : String) : Bool :=
  (Sources.stripPrefix value "checkpoint.").any isSha256

def validateCheckpointId (value : String) : Except Error Unit :=
  reject (¬isCheckpointId value) .identity

namespace Reference

def validate (reference : Reference) : Except Error Unit := do
  (validateId reference.runId).mapError fun _ => .identity
  (validateAttempt reference.attemptId).mapError fun _ => .identity
  validateCheckpointId reference.checkpointId

def document (reference : Reference) : Json :=
  .object [("run_id", .string reference.runId), ("attempt_id", .string reference.attemptId),
    ("checkpoint_id", .string reference.checkpointId)]

def read (document : Json) : Option Reference := do
  let fields ← document.record ["run_id", "attempt_id", "checkpoint_id"]
  let runId ← fields.text "run_id"
  let attemptId ← fields.text "attempt_id"
  let checkpointId ← fields.text "checkpoint_id"
  return { runId, attemptId, checkpointId }

lemma read_document (reference : Reference) : read reference.document = some reference := by
  simp [read, document, Json.record, Json.asObject, Option.filter_some, Fields.text,
    Fields.get_cons, Json.asStr]

lemma document_ne_null (reference : Reference) : reference.document ≠ .null := by
  rintro ⟨⟩

end Reference

/-! ## Fields -/

def object (value : Json) : Except Error Fields :=
  match value.asObject with
  | some fields => .ok fields
  | none => .error .manifest

lemma object_eq_ok {value : Json} {fields : Fields} :
    object value = .ok fields ↔ value = .object fields := by
  cases value with
  | object found => simp [object, Json.asObject]
  | _ => simp [object, Json.asObject]

def exactKeys (value : Json) (keys : List String) : Except Error Fields := do
  let fields ← object value
  reject (fields.length ≠ keys.length ∨ keys.any fun key => (fields.get key).isNone) .manifest
  .ok fields

/-- A text that is not empty, not too long and free of the separators of other systems. -/
def isText (maximum : ℕ) (value : String) : Bool :=
  value ≠ "" ∧ byteLen value ≤ maximum ∧
    ¬value.toList.any fun c => c = '\\' ∨ c = Char.ofNat 0

def string (fields : Fields) (key : String) (maximum : ℕ) : Except Error String :=
  match fields.text key with
  | none => .error .manifest
  | some value => do
      reject (¬isText maximum value) .manifest
      .ok value

def integer (fields : Fields) (key : String) : Except Error ℕ :=
  match (fields.get key).bind Json.asU64 with
  | none => .error .manifest
  | some value => .ok value

/-! ## Manifests -/

/-- A character of a generation behind the first one. -/
def isGenerationChar (c : Char) : Bool := c.isAlphanum ∨ c = '_' ∨ c = '.' ∨ c = '-'

def isGeneration (value : String) : Bool :=
  byteLen value ≤ MAX_GENERATION_BYTES ∧ value.toList.head?.any Char.isAlphanum ∧
    value.toList.all isGenerationChar

/-- The generation of a checkpoint file: the directory it lies in below `checkpoints`. -/
def checkpointPath (value : String) : Except Error String := do
  reject (¬isText MAX_PATH_BYTES value) .manifest
  let parts := pathParts value
  reject (parts.length < 3 ∨ (parts.any fun part => part = [] ∨ part.head? = some '.') ∨
    parts.head? ≠ some "checkpoints".toList) .manifest
  let generation := String.ofList (parts.getD 1 [])
  reject (¬isGeneration generation) .manifest
  .ok generation

/-- A row of the ready marker, as a file and its generation. -/
def readRow (row : Json) : Except Error (FileRecord × String) := do
  let fields ← exactKeys row ["path", "bytes", "sha256"]
  let path ← string fields "path" MAX_PATH_BYTES
  let generation ← checkpointPath path
  let bytes ← integer fields "bytes"
  reject (bytes ≥ 2 ^ 63) .manifest
  let sha256 ← string fields "sha256" 64
  reject (¬isSha256 sha256) .manifest
  .ok ({ path, bytes, sha256 }, generation)

def sortFiles (files : List FileRecord) : List FileRecord :=
  files.insertionSort fun left right => left.path ≤ right.path

/-- The worker's ready marker. Every refusal is the same error, so that the files may be compared
after they are read. -/
def manifest (value : Json) : Except Error Manifest := do
  let fields ← exactKeys value ["step", "files"]
  reject (value.size > MANIFEST_LIMIT) .manifest
  let step ← integer fields "step"
  match (fields.get "files").bind Json.asArray with
  | none => .error .manifest
  | some rows => do
      reject (rows = [] ∨ rows.length > MAX_FILES) .manifest
      let read ← rows.mapM readRow
      reject (¬(read.map fun row => row.1.path).Nodup) .manifest
      match (read.map Prod.snd).dedup with
      | [generation] =>
          .ok { step, files := sortFiles (read.map Prod.fst), generation }
      | _ => .error .manifest

/-! ## Contexts -/

def contextKeys : List String :=
  ["project", "run_id", "attempt_id", "source_id", "image_id", "storage_scope", "state_root"]

def validateSourceId (value : String) : Except Error Unit :=
  match Sources.stripPrefix value "source." with
  | none => .error .identity
  | some suffix => (Sources.validateArchiveDigest suffix).mapError fun _ => .identity

def context (value : Json) : Except Error Context := do
  let fields ← object value
  reject (fields.length ≠ 7) .identity
  let project ← string fields "project" 128
  let runId ← string fields "run_id" 128
  let attemptId ← string fields "attempt_id" 128
  (validateId project).mapError fun _ => .identity
  (validateId runId).mapError fun _ => .identity
  (validateAttempt attemptId).mapError fun _ => .identity
  let sourceId ← string fields "source_id" 128
  validateSourceId sourceId
  let imageId ← string fields "image_id" 512
  let storageScope ← string fields "storage_scope" 256
  let stateRoot ← string fields "state_root" 4096
  reject (stateRoot.toList.head? ≠ some '/' ∨ (pathParts stateRoot).any (· = ['.', '.'])) .identity
  .ok { project, runId, attemptId, sourceId, imageId, storageScope, stateRoot }

/-! ## Documents -/

def FileRecord.document (file : FileRecord) : Json :=
  .object [("path", .string file.path), ("bytes", .ofNat file.bytes), ("sha256", .string file.sha256)]

def Context.fields (context : Context) : Fields :=
  [("project", .string context.project), ("run_id", .string context.runId),
    ("attempt_id", .string context.attemptId), ("source_id", .string context.sourceId),
    ("image_id", .string context.imageId), ("storage_scope", .string context.storageScope),
    ("state_root", .string context.stateRoot)]

/-- The value under a key, which must be there. -/
def required (fields : Fields) (key : String) : Except Error Json :=
  match fields.get key with
  | none => .error .document
  | some value => .ok value

section Documents

variable (enc : Encoding)

def identityDigest (value : Json) : Except Error String :=
  match enc.digest value with
  | .ok digest => .ok ("checkpoint." ++ digest)
  | .error _ => .error .document

/-- The document of a manifest, without its identity. -/
def base (context : Context) (manifest : Manifest) : Fields :=
  context.fields ++ [("schema_version", .ofNat 1), ("step", .ofNat manifest.step),
    ("files", .array (manifest.files.map FileRecord.document))]

/-- The immutable document, under the identity that its content has. -/
def document (owner : Context) (ready : Json) : Except Error Json := do
  let _ ← context (.object owner.fields)
  let manifest ← manifest ready
  let base := base owner manifest
  let checkpointId ← identityDigest enc (.object base)
  .ok (.object (Fields.insert base "checkpoint_id" (.string checkpointId)))

def validateDocument (value : Json) (expectedContext : Option Context)
    (expectedId : Option String) : Except Error (Context × Manifest) := do
  let fields ← object value
  let checkpointId := (fields.text "checkpoint_id").getD ""
  reject ((fields.get "schema_version").bind Json.asU64 ≠ some 1 ∨ ¬isCheckpointId checkpointId)
    .document
  let values ← contextKeys.mapM (required fields)
  let actual ← context (.object (contextKeys.zip values))
  reject (expectedContext.any fun expected => expected ≠ actual) .document
  reject (expectedId.any fun expected => expected ≠ checkpointId) .document
  let step ← required fields "step"
  let files ← required fields "files"
  let ready := Json.object [("step", step), ("files", files)]
  let manifest ← manifest ready
  let expected ← document enc actual ready
  reject (expected.index "checkpoint_id" ≠ .string checkpointId) .document
  .ok (actual, manifest)

section Registration

-- The instant of an RFC 3339 text, as the `time` crate reads it.
variable (rfc3339 : String → Option ℤ)

def register (value : Json) (registeredAt : String) : Except Error Json := do
  let _ ← validateDocument enc value none none
  reject (rfc3339 registeredAt).isNone .timestamp
  .ok (((value.set "status" (.string "REGISTERED")).set "verification"
    (.string "worker-sha256")).set "registered_at" (.string registeredAt))

def restorePlan (value : Json) (expectedScope : Option String) : Except Error RestorePlan := do
  let (context, manifest) ← validateDocument enc value none none
  reject (expectedScope.any fun scope => scope ≠ context.storageScope) .storageScope
  match (value.index "checkpoint_id").asStr with
  | none => .error .document
  | some checkpointId =>
      .ok
        { checkpointId
          step := manifest.step
          generation := manifest.generation
          stateRoot := context.stateRoot
          files := manifest.files }

/-- A registered choice, bound to approved storage and to the state root the operator's side
gives. -/
def selectedAt (reference : Reference) (value : Json) (project storageScope stateRoot : String) :
    Except Error RestorePlan := do
  reference.validate
  let (context, _) ← validateDocument enc value none (some reference.checkpointId)
  reject (context.project ≠ project ∨ context.runId ≠ reference.runId ∨
    context.attemptId ≠ reference.attemptId ∨ context.stateRoot ≠ stateRoot ∨
    value.index "status" ≠ .string "REGISTERED" ∨
    value.index "verification" ≠ .string "worker-sha256" ∨
    (value.index "registered_at").asStr.all fun text => (rfc3339 text).isNone) .identity
  restorePlan enc value (some storageScope)

def selected (reference : Reference) (value : Json) (project storageScope runsRoot : String) :
    Except Error RestorePlan :=
  selectedAt enc rfc3339 reference value project storageScope
    (runsRoot ++ "/" ++ project ++ "/" ++ reference.runId ++ "/attempts/" ++ reference.attemptId ++
      "/state")

end Registration

end Documents

end Checkpoints

end ExperimentControl
