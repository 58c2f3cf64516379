import ExperimentControl.Artifacts
import ExperimentControl.Slurm.Helper

/-!
# Publications

The result bundle of an Attempt and its saved state, of `core/src/artifacts/publication.rs`: what
was archived, what the archive leaves out, and how far the archive's release has come.

* `Skipped.add` — the list of what is left out, bounded row by row.
* `State.new`, `State.acknowledge`, `State.beginRelease`, `State.finishRelease` — the operations.
* `State.validateSuccessor` — whether an observed state may replace a saved one.
-/

namespace ExperimentControl

namespace Artifacts

def PUBLICATION_CONTRACT : String := "backend-artifacts.v1"
def MAX_SKIPPED_ROWS : ℕ := 1024
def MAX_SKIPPED_PATH : ℕ := 512

def exportPath (path : String) : Bool := receiptPath path ∧ ¬path.toList.any isControl

/-! ## What the archive leaves out -/

inductive SkipReason
  | symbolicLink
  | specialFile
  | unsupportedPath
  | fileLimit
  deriving DecidableEq, Repr

def SkipReason.name : SkipReason → String
  | .symbolicLink => "symbolic_link"
  | .specialFile => "special_file"
  | .unsupportedPath => "unsupported_path"
  | .fileLimit => "file_limit"

structure SkippedPath where
  path : String
  reason : SkipReason
  deriving DecidableEq, Repr

structure Skipped where
  paths : List SkippedPath := []
  unlisted : UInt64 := 0
  deriving DecidableEq, Repr

/-- A number in lower-case hexadecimal, without leading zeros. -/
def hexText (n : ℕ) : List Char := Nat.toDigits 16 n

/-- `char::escape_default` of a control character. -/
def escapeDefault (c : Char) : List Char :=
  match c with
  | '\t' => ['\\', 't']
  | '\r' => ['\\', 'r']
  | '\n' => ['\\', 'n']
  | c => "\\u\x7b".toList ++ hexText c.toNat ++ "\x7d".toList

/-- The text a path is shown as: control characters escaped, cut off behind a bound. -/
def shownFrom : List Char → List Char → List Char
  | shown, [] => shown
  | shown, c :: rest =>
      if byteLen (String.ofList shown) ≥ MAX_SKIPPED_PATH then shown ++ ['.', '.', '.']
      else shownFrom (shown ++ if isControl c then escapeDefault c else [c]) rest

def shownPath (path : String) : String := String.ofList (shownFrom [] path.toList)

/-- `saturating_add` of 64-bit numbers. -/
def saturatingAdd (a b : UInt64) : UInt64 := UInt64.ofNat (min (a.toNat + b.toNat) (2 ^ 64 - 1))

namespace Skipped

def add (skipped : Skipped) (path : String) (reason : SkipReason) : Skipped :=
  if skipped.paths.length ≥ MAX_SKIPPED_ROWS then
    { skipped with unlisted := saturatingAdd skipped.unlisted 1 }
  else { skipped with paths := skipped.paths ++ [⟨shownPath path, reason⟩] }

def validate (skipped : Skipped) : Except Error Unit :=
  reject (skipped.paths.length > MAX_SKIPPED_ROWS ∨ skipped.paths.any fun row =>
    row.path = "" ∨ byteLen row.path > MAX_SKIPPED_PATH + 16 ∨ row.path.toList.any isControl)
    .receipt

def document (skipped : Skipped) : Json :=
  .object [
    ("paths", .array (skipped.paths.map fun row =>
      .object [("path", .string row.path), ("reason", .string row.reason.name)])),
    ("unlisted", .ofNat skipped.unlisted.toNat)]

end Skipped

/-! ## Bundles and states -/

structure Bundle where
  contract : String
  intentSha256 : String
  configSha256 : String
  archive : ArchiveReceipt
  skipped : Skipped
  deriving DecidableEq

def Bundle.validate (bundle : Bundle) : Except Error Unit := do
  validateReceipt bundle.archive
  bundle.skipped.validate
  reject (bundle.contract ≠ PUBLICATION_CONTRACT ∨ ¬validDigest bundle.intentSha256 ∨
    ¬validDigest bundle.configSha256 ∨
    bundle.archive.files.any fun file => ¬exportPath file.path) .receipt

def Bundle.document (bundle : Bundle) : Json :=
  .object [("contract", .string bundle.contract), ("intent_sha256", .string bundle.intentSha256),
    ("config_sha256", .string bundle.configSha256), ("archive", bundle.archive.document),
    ("skipped", bundle.skipped.document)]

structure State where
  bundle : Bundle
  retention : Retention
  acknowledgement : Option Acknowledgement
  deriving DecidableEq

namespace State

def document (state : State) : Json :=
  .object [("bundle", state.bundle.document), ("retention", state.retention.document),
    ("acknowledgement", match state.acknowledgement with
      | some ack => ack.document
      | none => .null)]

def new (bundle : Bundle) : Except Error State := do
  bundle.validate
  .ok ⟨bundle, ⟨.keep, bundle.archive.sha256, none, none⟩, none⟩

/-- The order in which an archive is released. -/
def rank : RetentionStatus → ℕ
  | .keep => 0
  | .scheduled => 1
  | .releasing => 2
  | .released => 3

section Operations

variable (rfc3339 : String → Option ℤ) (state : State)

def validate : Except Error Unit := do
  state.bundle.validate
  validateRetention rfc3339 state.retention state.bundle.archive.sha256
  match state.acknowledgement with
  | some ack => do
      proofMatches state.bundle.archive ack.proof
      let _ ← timestamp rfc3339 ack.verifiedAt
      reject (state.retention.status ≠ .keep ∧ state.retention.releaseAfter ≠ some ack.verifiedAt)
        .transition
  | none => reject (state.retention.status ≠ .keep) .transition

/-- A remote observation may complete an acknowledgement, but not undo a durable release. -/
def validateSuccessor (next : State) : Except Error Unit := do
  state.validate rfc3339
  next.validate rfc3339
  reject (state.bundle ≠ next.bundle ∨ rank next.retention.status < rank state.retention.status ∨
    state.retention.status = .released ∧ state ≠ next) .transition
  match state.acknowledgement with
  | some old =>
      reject (next.acknowledgement.map (·.proof) ≠ some old.proof) .proofConflict
  | none => .ok ()

def acknowledge (proof : DownloadProof) (verifiedAt : String) (release : Bool) :
    Except Error State := do
  state.validate rfc3339
  let (ack, retention) ←
    Artifacts.acknowledge rfc3339 state.bundle.archive proof verifiedAt release
  match state.acknowledgement with
  | some old => do
      reject (old.proof ≠ ack.proof) .proofConflict
      if state.retention.status ≠ .keep ∨ release = false then .ok state
      else .ok ⟨state.bundle, retention, some ack⟩
  | none => .ok ⟨state.bundle, retention, some ack⟩

/-- The release of a state's archive is begun. -/
def beginRelease : Except Error State := do
  let retention ← Artifacts.beginRelease rfc3339 state.bundle.archive state.retention
  .ok { state with retention }

/-- The release of a state's archive is finished. -/
def finishRelease (releasedAt : String) : Except Error State := do
  let retention ← Artifacts.finishRelease rfc3339 state.bundle.archive state.retention releasedAt
  .ok { state with retention }

end Operations

end State

end Artifacts

end ExperimentControl
