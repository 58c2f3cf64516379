import ExperimentControl.Artifacts
import ExperimentControl.Slurm.Helper

/-!
# Datasets

Immutable dataset identities and their resumable delivery, of `core/src/datasets.rs` and
`core/src/multipart.rs`: a definition lists the files of an archive, its upload records one part
after another, and a receipt publishes the extracted tree.

* `Definition.validate`, `Receipt.validate`, `State.validate` — the checks.
* `State.recordPart`, `State.publish`, `State.validateSuccessor` — the upload.
* `Definition.manifestBudget`, `manifestBudget` — what a Run can mount.
-/

namespace ExperimentControl

namespace Datasets

open Artifacts (FileReceipt)
open Slurm (Target)

/-- The one error of this module. -/
inductive Error
  | invalid
  deriving DecidableEq, Repr

/-! ## Parts -/

def PART_BYTES : ℕ := 16 * 1024 * 1024
def MAX_PARTS : ℕ := 65536

/-- The number of parts of an archive. -/
def partCount (size : ℕ) : Except Error ℕ := do
  reject (size = 0) .invalid
  let count := (size + PART_BYTES - 1) / PART_BYTES
  reject (count > MAX_PARTS) .invalid
  .ok count

/-- The bytes of a part, by its number. -/
def partSize (size number : ℕ) : Except Error ℕ := do
  let count ← partCount size
  reject (number ≥ count) .invalid
  .ok (min PART_BYTES (size - number * PART_BYTES))

structure PartRecord where
  sha256 : String
  bytes : UInt64
  deriving DecidableEq

/-! ## Texts -/

def DATASET_CONTRACT : String := "native-dataset.v1"
def MAX_METADATA : ℕ := 8 * 1024 * 1024

/-- What the dataset mounts of one Run may serialize to, together. -/
def MAX_MANIFEST_BYTES : ℕ := 256 * 1024

/-- What a mount takes around its definition, as the source estimates it. -/
def MOUNT_ENVELOPE_BYTES : ℕ := 8 * 1024
def MAX_DEFINITION_BYTES : ℕ := MAX_MANIFEST_BYTES - MOUNT_ENVELOPE_BYTES

def isAssetId (value : String) : Bool :=
  "asset.".toList <+: value.toList ∧ isSha256 (String.ofList (value.toList.drop 6))

def path (value : String) : Bool :=
  value ≠ "" ∧ byteLen value ≤ 4096 ∧
    ¬value.toList.any (fun c => c = '\\' ∨ c = Char.ofNat 0) ∧
    ((pathParts value).all fun part => part ≠ [] ∧ part ≠ ['.'] ∧ part ≠ ['.', '.']) ∧
    (pathParts value).length ≤ 128 ∧ ¬value.toList.any isControl

def rootPath (value : String) : Bool :=
  absolutePath value ∧ value ≠ "/" ∧ value.toList.getLast? ≠ some '/' ∧
    ¬value.toList.any fun c => c = ':' ∨ c = ','

/-! ## Definitions -/

structure Definition where
  sha256 : String
  archiveBytes : UInt64
  files : List FileReceipt
  deriving DecidableEq

namespace Definition

def document (definition : Definition) : Json :=
  .object [("sha256", .string definition.sha256),
    ("archive_bytes", .ofNat definition.archiveBytes.toNat),
    ("files", .array (definition.files.map (·.document)))]

/-- The directories above a path, as `rsplit_once('/')` finds them. -/
def parents (chars : List Char) : List String :=
  ((List.range chars.length).filter fun i => chars[i]? = some '/').map fun i =>
    String.ofList (chars.take i)

/-- The files in strictly increasing order of their paths. -/
def Ordered (files : List FileReceipt) : Prop :=
  files.IsChain fun file next => file.path < next.path

instance (files : List FileReceipt) : Decidable (Ordered files) :=
  inferInstanceAs (Decidable (List.IsChain _ _))

/-- What the files of an archive expand to. -/
def expandedBytes (definition : Definition) : ℕ :=
  (definition.files.map fun file => file.bytes.toNat).sum

def validate (definition : Definition) : Except Error Unit := do
  reject (¬isSha256 definition.sha256) .invalid
  let _ ← partCount definition.archiveBytes.toNat
  reject (definition.files = [] ∨ definition.files.length > Artifacts.MAX_FILES) .invalid
  -- One loop over the files: each path behind the one before it, so that no name occurs twice.
  reject ((definition.files.any fun file => ¬path file.path ∨ ¬isSha256 file.sha256) ∨
    ¬Ordered definition.files ∨ 2 ^ 64 ≤ definition.expandedBytes) .invalid
  let names := definition.files.map (·.path)
  reject (definition.files.any fun file => (parents file.path.toList).any (· ∈ names)) .invalid
  reject (definition.expandedBytes > definition.archiveBytes.toNat ∨
    definition.document.size > MAX_METADATA / 2) .invalid

/-- What an upload asks before it begins. -/
def manifestBudget (definition : Definition) : Bool :=
  definition.document.size ≤ MAX_DEFINITION_BYTES

def assetId (definition : Definition) : String := "asset." ++ definition.sha256

def partCount (definition : Definition) : Except Error ℕ := do
  definition.validate
  Datasets.partCount definition.archiveBytes.toNat

def partSize (definition : Definition) (number : ℕ) : Except Error ℕ :=
  Datasets.partSize definition.archiveBytes.toNat number

end Definition

/-! ## Receipts -/

structure Receipt where
  contract : String
  project : String
  target : Target
  assetId : String
  definition : Definition
  root : String
  deriving DecidableEq

def targetDocument (target : Target) : Json :=
  .object [("backend_id", .string target.backendId),
    ("profile_sha256", .string target.profileSha256),
    ("storage_scope", .string target.storageScope)]

def Receipt.document (receipt : Receipt) : Json :=
  .object [("contract", .string receipt.contract), ("project", .string receipt.project),
    ("target", targetDocument receipt.target), ("asset_id", .string receipt.assetId),
    ("definition", receipt.definition.document), ("root", .string receipt.root)]

def Receipt.validate (receipt : Receipt) : Except Error Unit := do
  (validateId receipt.project).mapError fun _ => .invalid
  receipt.target.validate.mapError fun _ => .invalid
  receipt.definition.validate
  reject (receipt.contract ≠ DATASET_CONTRACT ∨ receipt.assetId ≠ receipt.definition.assetId ∨
    ¬rootPath receipt.root ∨
    ¬("/" ++ receipt.project ++ "/" ++ receipt.assetId ++ "/tree").toList <:+
      receipt.root.toList) .invalid

/-! ## Uploads -/

structure State where
  contract : String
  project : String
  target : Target
  assetId : String
  definition : Definition
  parts : Std.ExtTreeMap ℕ PartRecord
  ready : Option Receipt
  deriving DecidableEq

namespace State

def partDocument (part : PartRecord) : Json :=
  .object [("sha256", .string part.sha256), ("bytes", .ofNat part.bytes.toNat)]

def document (state : State) : Json :=
  .object [("contract", .string state.contract), ("project", .string state.project),
    ("target", targetDocument state.target), ("asset_id", .string state.assetId),
    ("definition", state.definition.document),
    ("parts", .object (state.parts.toList.map fun row => (toString row.1, partDocument row.2))),
    ("ready", match state.ready with
      | some receipt => receipt.document
      | none => .null)]

/-- A recorded part has the size its number says, and a digest. -/
def checkPart (definition : Definition) (number : ℕ) (part : PartRecord) : Except Error Unit := do
  let size ← definition.partSize number
  reject (size ≠ part.bytes.toNat ∨ ¬isSha256 part.sha256) .invalid

/-- A published receipt is the state's own, and every part is recorded. -/
def checkReady (state : State) (ready : Receipt) : Except Error Unit := do
  ready.validate
  let count ← state.definition.partCount
  reject (ready.project ≠ state.project ∨ ready.target ≠ state.target ∨
    ready.definition ≠ state.definition ∨ ready.assetId ≠ state.assetId ∨
    state.parts.size ≠ count) .invalid

def validate (state : State) : Except Error Unit := do
  state.definition.validate
  state.target.validate.mapError fun _ => .invalid
  (validateId state.project).mapError fun _ => .invalid
  reject (state.contract ≠ DATASET_CONTRACT ∨ state.assetId ≠ state.definition.assetId) .invalid
  state.parts.toList.forM fun row => checkPart state.definition row.1 row.2
  state.ready.forM state.checkReady
  reject (state.document.size > MAX_METADATA - 4096) .invalid

def new (project : String) (target : Target) (definition : Definition) : Except Error State := do
  let value : State :=
    { contract := DATASET_CONTRACT
      project := project
      target := target
      assetId := definition.assetId
      definition := definition
      parts := ∅
      ready := none }
  value.validate
  .ok value

def recordPart (state : State) (number : ℕ) (part : PartRecord) : Except Error State := do
  state.validate
  checkPart state.definition number part
  match state.parts[number]? with
  | some old => if old = part then .ok state else .error .invalid
  | none => do
      reject state.ready.isSome .invalid
      let next := { state with parts := state.parts.insert number part }
      next.validate
      .ok next

def publish (state : State) (receipt : Receipt) : Except Error State := do
  state.validate
  reject (state.ready.any fun old => old ≠ receipt) .invalid
  let next := { state with ready := some receipt }
  next.validate
  .ok next

def validateSuccessor (state next : State) : Except Error Unit := do
  state.validate
  next.validate
  reject (state.project ≠ next.project ∨ state.target ≠ next.target ∨
    state.definition ≠ next.definition ∨
    (state.parts.toList.any fun row => next.parts[row.1]? ≠ some row.2) ∨
    state.ready.any fun receipt => next.ready ≠ some receipt) .invalid

end State

/-! ## Mounts -/

structure Mount where
  name : String
  receipt : Receipt
  deriving DecidableEq

def Mount.document (mount : Mount) : Json :=
  .object [("name", .string mount.name), ("receipt", mount.receipt.document)]

/-- The mounts of one Run fit together. -/
def manifestBudget (values : List Mount) : Bool :=
  (Json.array (values.map (·.document))).size ≤ MAX_MANIFEST_BYTES

end Datasets

end ExperimentControl
