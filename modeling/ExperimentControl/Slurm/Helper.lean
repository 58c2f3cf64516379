import ExperimentControl.Identity

/-!
# Targets and scopes

The frozen identities of `core/src/slurm/helper.rs` that requests, receipts and datasets are bound
to, with the errors of the helper protocol.

* `Target`, `Scope` — a backend with its profile and storage, and one Attempt of a Run.
* `sha256Bytes` — the digest of some bytes under a hash.
-/

namespace ExperimentControl

namespace Slurm

/-- The errors of the helper protocol. -/
inductive HelperError
  | identity
  | version
  | frame
  | metadata
  | tooLarge
  | content
  deriving DecidableEq, Repr

/-- The digest of some bytes under a hash that gives its lower-case hexadecimal text. -/
def sha256Bytes (sha256 : Bytes → String) (bytes : Bytes) : String := "sha256:" ++ sha256 bytes

structure Target where
  backendId : String
  profileSha256 : String
  storageScope : String
  deriving DecidableEq, Repr

def Target.validate (target : Target) : Except HelperError Unit :=
  reject (¬component target.backendId ∨ ¬validDigest target.profileSha256 ∨
    ¬validDigest target.storageScope) .identity

structure Scope where
  project : String
  runId : String
  attemptId : String
  deriving DecidableEq, Repr

def Scope.validate (scope : Scope) : Except HelperError Unit := do
  (validateId scope.project).mapError fun _ => .identity
  (validateId scope.runId).mapError fun _ => .identity
  (validateAttempt scope.attemptId).mapError fun _ => .identity

end Slurm

end ExperimentControl
