import ExperimentControl.Datasets
import ExperimentControl.Json.Records

/-!
# Dataset documents

Requests and replies of a dataset upload and how they cross the wire, of the second half of
`core/src/datasets.rs`: a record is written as one object behind its length, and read back with the
strict reader and the derived readers of its fields.

* `Request`, `Reply` — the two sides of an exchange, with their checks.
* `encode`, `decode`, `encodeReply`, `decodeReply` — the frames.
* `State.read_document`, `Reply.read_document` — a document is read back as the record.
-/

namespace ExperimentControl

namespace Datasets

open Artifacts (FileReceipt)
open Slurm (Target)

/-! ## Reading records -/

def readFile (document : Json) : Option FileReceipt := do
  let fields ← document.record ["path", "bytes", "sha256"]
  let path ← fields.text "path"
  let bytes ← fields.u64 "bytes"
  let sha256 ← fields.text "sha256"
  return { path, bytes, sha256 }

def readTarget (document : Json) : Option Target := do
  let fields ← document.record ["backend_id", "profile_sha256", "storage_scope"]
  let backendId ← fields.text "backend_id"
  let profileSha256 ← fields.text "profile_sha256"
  let storageScope ← fields.text "storage_scope"
  return { backendId, profileSha256, storageScope }

def Definition.read (document : Json) : Option Definition := do
  let fields ← document.record ["sha256", "archive_bytes", "files"]
  let sha256 ← fields.text "sha256"
  let archiveBytes ← fields.u64 "archive_bytes"
  let items ← (fields.get "files").bind Json.asArray
  let files ← items.mapM readFile
  return { sha256, archiveBytes, files }

def Receipt.read (document : Json) : Option Receipt := do
  let fields ← document.record
    ["contract", "project", "target", "asset_id", "definition", "root"]
  let contract ← fields.text "contract"
  let project ← fields.text "project"
  let target ← (fields.get "target").bind readTarget
  let assetId ← fields.text "asset_id"
  let definition ← (fields.get "definition").bind Definition.read
  let root ← fields.text "root"
  return { contract, project, target, assetId, definition, root }

/-- A part record may have other fields, which are passed over. -/
def readPart (document : Json) : Option PartRecord := do
  let fields ← document.asObject
  let sha256 ← Fields.text fields "sha256"
  let bytes ← Fields.u64 fields "bytes"
  return { sha256, bytes }

/-- A key of a map with numbers for keys: the text of a number. -/
def readNumber (key : String) : Option ℕ :=
  if Syntax.isNumber key then (Json.number key).asU64 else none

def readPartRow (field : String × Json) : Option (ℕ × PartRecord) := do
  let number ← readNumber field.1
  let part ← readPart field.2
  return (number, part)

def readParts (document : Json) : Option (Std.ExtTreeMap ℕ PartRecord) := do
  let fields ← document.asObject
  let rows ← fields.mapM readPartRow
  return Std.ExtTreeMap.ofList rows

/-- The published receipt, which may be null or left out. -/
def readReady : Option Json → Option (Option Receipt)
  | none => some none
  | some .null => some none
  | some document => (Receipt.read document).map some

def State.read (document : Json) : Option State := do
  let fields ← document.record
    ["contract", "project", "target", "asset_id", "definition", "parts", "ready"]
  let contract ← fields.text "contract"
  let project ← fields.text "project"
  let target ← (fields.get "target").bind readTarget
  let assetId ← fields.text "asset_id"
  let definition ← (fields.get "definition").bind Definition.read
  let parts ← (fields.get "parts").bind readParts
  let ready ← readReady (fields.get "ready")
  return { contract, project, target, assetId, definition, parts, ready }

/-! ## Requests and replies -/

inductive Command
  | begin (definition : Definition)
  | status (assetId : String)
  | part (assetId : String) (number : UInt64) (sha256 : String) (bytes : UInt64)
  | complete (assetId : String)

structure Request where
  version : UInt16
  project : String
  target : Target
  command : Command

structure Reply where
  version : UInt16
  requestSha256 : String
  state : State
  deriving DecidableEq

def Command.document : Command → Json
  | .begin definition => .object [("operation", .string "begin"),
      ("definition", definition.document)]
  | .status assetId => .object [("operation", .string "status"), ("asset_id", .string assetId)]
  | .part assetId number sha256 bytes => .object [("operation", .string "part"),
      ("asset_id", .string assetId), ("number", .ofNat number.toNat), ("sha256", .string sha256),
      ("bytes", .ofNat bytes.toNat)]
  | .complete assetId => .object [("operation", .string "complete"), ("asset_id", .string assetId)]

def Command.validate : Command → Except Error Unit
  | .begin definition => definition.validate
  | .status assetId => reject (¬isAssetId assetId) .invalid
  | .complete assetId => reject (¬isAssetId assetId) .invalid
  | .part assetId number sha256 bytes =>
      reject (¬isAssetId assetId ∨ number.toNat ≥ MAX_PARTS ∨ bytes = 0 ∨
        bytes.toNat > PART_BYTES ∨ ¬isSha256 sha256) .invalid

def Command.assetId : Command → String
  | .begin definition => definition.assetId
  | .status assetId => assetId
  | .part assetId _ _ _ => assetId
  | .complete assetId => assetId

namespace Request

def document (request : Request) : Json :=
  .object [("version", .ofNat request.version.toNat), ("project", .string request.project),
    ("target", targetDocument request.target), ("command", request.command.document)]

def validate (request : Request) : Except Error Unit := do
  reject (request.version ≠ 1) .invalid
  (validateId request.project).mapError fun _ => .invalid
  request.target.validate.mapError fun _ => .invalid
  request.command.validate

def assetId (request : Request) : String := request.command.assetId

/-- The identity of a request: the digest of its canonical bytes, behind the name of the hash. -/
def digest (enc : Encoding) (request : Request) : Except Error String := do
  request.validate
  match enc.digest request.document with
  | .ok digest => .ok ("sha256:" ++ digest)
  | .error _ => .error .invalid

end Request

namespace Reply

def document (reply : Reply) : Json :=
  .object [("version", .ofNat reply.version.toNat),
    ("request_sha256", .string reply.requestSha256), ("state", reply.state.document)]

def read (document : Json) : Option Reply := do
  let fields ← document.record ["version", "request_sha256", "state"]
  let version ← fields.u16 "version"
  let requestSha256 ← fields.text "request_sha256"
  let state ← (fields.get "state").bind State.read
  return { version, requestSha256, state }

/-- What the command asks of the state beside its identity. -/
def answers (state : State) : Command → Except Error Unit
  | .begin definition => reject (state.definition ≠ definition) .invalid
  | .part _ number sha256 bytes =>
      reject (state.parts[number.toNat]? ≠ some ⟨sha256, bytes⟩) .invalid
  | .complete _ => reject state.ready.isNone .invalid
  | .status _ => .ok ()

def validate (enc : Encoding) (request : Request) (reply : Reply) : Except Error Unit := do
  request.validate
  reply.state.validate
  reject (reply.version ≠ 1) .invalid
  let digest ← request.digest enc
  reject (reply.requestSha256 ≠ digest ∨ reply.state.project ≠ request.project ∨
    reply.state.target ≠ request.target ∨ reply.state.assetId ≠ request.assetId) .invalid
  answers reply.state request.command

end Reply

/-! ## Frames -/

/-- A document behind its length. -/
def encode (document : Json) : Except Error Bytes := do
  let body := document.write
  reject (body = [] ∨ body.length > MAX_METADATA) .invalid
  .ok (framed 4 body)

/-- The document of a frame, as the strict reader takes it. -/
def decode (finite : String → Bool) (frame : Bytes) : Except Error Json := do
  reject (frame.length < 5 ∨ frame.length > MAX_METADATA + 4) .invalid
  reject (ofBeBytes (frame.take 4) + 4 ≠ frame.length) .invalid
  match Reader.mapping finite (frame.drop 4) with
  | .ok fields => .ok (.object fields)
  | .error _ => .error .invalid

def encodeReply (reply : Reply) : Except Error Bytes := do
  reply.state.validate
  encode reply.document

def decodeReply (finite : String → Bool) (enc : Encoding) (frame : Bytes) (request : Request) :
    Except Error Reply := do
  let document ← decode finite frame
  match Reply.read document with
  | some reply => do
      reply.validate enc request
      .ok reply
  | none => .error .invalid

/-! ## A document is read back -/

lemma asU64_ofNat (n : UInt64) : (Json.ofNat n.toNat).asU64 = some n.toNat :=
  Json.asU64_ofNat n.toNat_lt

lemma read_file (file : FileReceipt) : readFile file.document = some file := by
  simp [readFile, FileReceipt.document, Json.record, Json.asObject, Option.filter_some, Fields.text, Fields.u64,
    Fields.get_cons, Json.asStr, asU64_ofNat]

lemma read_target (target : Target) : readTarget (targetDocument target) = some target := by
  simp [readTarget, targetDocument, Json.record, Json.asObject, Option.filter_some, Fields.text, Fields.get_cons,
    Json.asStr]

lemma read_part (part : PartRecord) : readPart (State.partDocument part) = some part := by
  simp [readPart, State.partDocument, Json.asObject, Fields.text, Fields.u64, Fields.get_cons,
    Json.asStr, asU64_ofNat]

/-- Items that are each read back are read back together. -/
lemma mapM_read {α : Type} {read : Json → Option α} {document : α → Json}
    (h : ∀ a, read (document a) = some a) (items : List α) :
    (items.map document).mapM read = some items := by
  induction items with
  | nil => rfl
  | cons item items ih => simp [h, ih]

namespace Definition

lemma read_document (definition : Definition) : read definition.document = some definition := by
  simp [read, document, Json.record, Json.asObject, Json.asArray, Option.filter_some, Fields.text, Fields.u64,
    Fields.get_cons, Json.asStr, asU64_ofNat, mapM_read read_file]

end Definition

lemma Receipt.read_document (receipt : Receipt) : read receipt.document = some receipt := by
  simp [read, document, Json.record, Json.asObject, Option.filter_some, Fields.text, Fields.get_cons, Json.asStr,
    read_target, Definition.read_document]

lemma readNumber_toString {n : ℕ} (h : n < 2 ^ 64) : readNumber (toString n) = some n := by
  rw [readNumber, if_pos (Syntax.isNumber_toString n)]
  exact Json.asU64_ofNat h

/-- The rows of the parts' document. -/
def partRows (parts : Std.ExtTreeMap ℕ PartRecord) : Fields :=
  parts.toList.map fun row => (toString row.1, State.partDocument row.2)

lemma readPartRow_document {row : ℕ × PartRecord} (h : row.1 < 2 ^ 64) :
    readPartRow (toString row.1, State.partDocument row.2) = some row := by
  simp only [readPartRow, readNumber_toString h, read_part, Option.bind_eq_bind, Option.bind_some]
  rfl

lemma read_parts {parts : Std.ExtTreeMap ℕ PartRecord} (h : ∀ row ∈ parts.toList, row.1 < 2 ^ 64) :
    readParts (.object (partRows parts)) = some parts := by
  have hrows : ∀ rows : List (ℕ × PartRecord), (∀ row ∈ rows, row.1 < 2 ^ 64) →
      (rows.map fun row => (toString row.1, State.partDocument row.2)).mapM readPartRow =
        some rows := by
    intro rows hrows
    induction rows with
    | nil => rfl
    | cons row rows ih =>
      have hfirst := readPartRow_document (hrows row (by simp))
      have hrest := ih fun row hrow => hrows row (by simp [hrow])
      rw [List.map_cons, List.mapM_cons, hfirst, hrest]
      rfl
  rw [readParts]
  simp only [Json.asObject, Option.bind_eq_bind, Option.bind_some, partRows, hrows parts.toList h,
    ofList_toList]
  rfl

lemma readReady_document (receipt : Receipt) :
    readReady (some receipt.document) = some (some receipt) := by
  change (Receipt.read receipt.document).map some = _
  rw [Receipt.read_document]
  rfl

namespace State

lemma read_document {state : State} (h : ∀ row ∈ state.parts.toList, row.1 < 2 ^ 64) :
    read state.document = some state := by
  obtain ⟨contract, project, target, assetId, definition, parts, ready⟩ := state
  have hparts := read_parts h
  cases ready with
  | none =>
    change read (.object [("contract", .string contract), ("project", .string project),
      ("target", targetDocument target), ("asset_id", .string assetId),
      ("definition", definition.document), ("parts", .object (partRows parts)),
      ("ready", .null)]) = _
    simp [read, Json.record, Json.asObject, Option.filter_some, Fields.text, Fields.get_cons,
      Json.asStr, read_target, Definition.read_document, hparts, readReady]
  | some receipt =>
    change read (.object [("contract", .string contract), ("project", .string project),
      ("target", targetDocument target), ("asset_id", .string assetId),
      ("definition", definition.document), ("parts", .object (partRows parts)),
      ("ready", receipt.document)]) = _
    simp [read, Json.record, Json.asObject, Option.filter_some, Fields.text, Fields.get_cons,
      Json.asStr, read_target, Definition.read_document, hparts, readReady_document]

end State

lemma Reply.read_document {reply : Reply} (h : ∀ row ∈ reply.state.parts.toList, row.1 < 2 ^ 64) :
    read reply.document = some reply := by
  have hversion : (Json.ofNat reply.version.toNat).asU64 = some reply.version.toNat :=
    Json.asU64_ofNat (lt_trans reply.version.toNat_lt (by decide))
  have hshort : reply.version.toNat < 65536 := reply.version.toNat_lt
  simp [read, document, Json.record, Json.asObject, Option.filter_some, Fields.text, Fields.u16, Fields.get_cons,
    Json.asStr, State.read_document h, hversion, hshort]

end Datasets

end ExperimentControl
