import ExperimentControl.Library.Fallible
import ExperimentControl.Library.Text

/-!
# Identity texts

The texts that name things across the control plane: identifiers of resources and Attempts
(`core/src/identity.rs`), digests and submission markers (`core/src/slurm/helper.rs`), and the
printable texts and absolute paths of `core/src/slurm.rs` and `core/src/slurm/config.rs`.

* `validateId`, `validateAttempt`, `submissionMarker` — identifiers.
* `validDigest`, `isSha256` — digests, with and without their prefix.
* `tokenValid` — submission tokens (`core/src/submission.rs`).
* `component`, `printable`, `absolutePath` — scheduler names, free texts and paths.
-/

namespace ExperimentControl

/-! ## Characters -/

/-- `char::is_control`: the Unicode category Cc. -/
def isControl (c : Char) : Bool :=
  c.toNat < 32 ∨ 127 ≤ c.toNat ∧ c.toNat < 160

/-- A digit of a lower-case hexadecimal text. -/
def isLowerHex (c : Char) : Bool :=
  '0' ≤ c ∧ c ≤ '9' ∨ 'a' ≤ c ∧ c ≤ 'f'

/-- `str::len`: the length in bytes. -/
def byteLen (text : String) : ℕ := (utf8 text).length

/-! ## Identifiers -/

structure IdentityError where
  what : String
  deriving DecidableEq, Repr

/-- A character of an identifier behind the first one. -/
def isIdChar (c : Char) : Bool := c.isAlphanum ∨ c = '.' ∨ c = '_' ∨ c = '-'

def validateId (value : String) : Except IdentityError Unit :=
  reject (byteLen value > 128 ∨ ¬value.toList.head?.any Char.isAlphanum ∨
    ¬value.toList.all isIdChar) ⟨"resource"⟩

def validateAttempt (value : String) : Except IdentityError Unit := do
  reject (¬"attempt-".toList <+: value.toList) ⟨"attempt"⟩
  let suffix := value.toList.drop 8
  reject (suffix.length < 3 ∨ ¬suffix.all Char.isDigit) ⟨"attempt"⟩

def submissionMarker (token : String) : Except IdentityError String := do
  reject (token.toList.length ≠ 32 ∨ ¬token.toList.all isLowerHex) ⟨"submission token"⟩
  return "ml-exp-" ++ token

/-! ## Digests -/

/-- The bare hexadecimal digest: 64 lower-case digits, each of them one byte. -/
def isSha256 (value : String) : Bool :=
  value.toList.length = 64 ∧ value.toList.all isLowerHex

/-- A digest behind the name of its hash. -/
def validDigest (value : String) : Bool :=
  "sha256:".toList <+: value.toList ∧ isSha256 (String.ofList (value.toList.drop 7))

lemma isSha256_ofList {chars : List Char} (hlength : chars.length = 64)
    (hall : chars.all isLowerHex = true) : isSha256 (String.ofList chars) = true := by
  rw [isSha256, String.toList_ofList, hlength, hall]
  rfl

/-- A digest of SHA-256 under its name. -/
lemma validDigest_append {digest : String} (h : isSha256 digest = true) :
    validDigest ("sha256:" ++ digest) = true := by
  have hname : "sha256:".toList = ['s', 'h', 'a', '2', '5', '6', ':'] := String.toList_ofList
  have hdrop : ("sha256:" ++ digest).toList.drop 7 = digest.toList := by
    rw [String.toList_append, hname]
    rfl
  rw [validDigest, hdrop, String.ofList_toList, h, String.toList_append]
  simp

lemma validDigest_ofList {chars : List Char}
    (hname : chars.take 7 = ['s', 'h', 'a', '2', '5', '6', ':']) (hlength : chars.length = 71)
    (hall : (chars.drop 7).all isLowerHex = true) : validDigest (String.ofList chars) = true := by
  have hsplit : chars = ['s', 'h', 'a', '2', '5', '6', ':'] ++ chars.drop 7 := by
    rw [← hname, List.take_append_drop]
  have hrest : (chars.drop 7).length = 64 := by rw [List.length_drop, hlength]
  rw [hsplit, String.ofList_append]
  exact validDigest_append (isSha256_ofList hrest hall)

/-- The front of a digest. -/
def digestFront (length : ℕ) (digest : String) : String := String.ofList (digest.toList.take length)

/-! ## Submission tokens -/

/-- `token_valid`: a token of 128 bits. -/
def tokenValid (value : String) : Bool := byteLen value = 32 ∧ value.toList.all isLowerHex

/-! ## Free texts and paths -/

/-- A text that is not empty, not too long and free of control characters. -/
def printable (value : String) (limit : ℕ) : Bool :=
  value ≠ "" ∧ byteLen value ≤ limit ∧ ¬value.toList.any isControl

/-- A name of the scheduler's. -/
def component (value : String) : Bool :=
  byteLen value ≤ 128 ∧ value.toList.head?.any Char.isAlphanum ∧
    value.toList.all fun c => c.isAlphanum ∨ c = '_' ∨ c = '.' ∨ c = '-'

/-- The components of a path, as `split('/')` gives them. -/
def pathParts (value : String) : List (List Char) := value.toList.splitOn '/'

def absolutePath (value : String) : Bool :=
  value.toList.head? = some '/' ∧ printable value 4096 ∧
    ¬value.toList.any (fun c => c = ':' ∨ c = '\\') ∧
    ¬(pathParts value).any fun part => part = ['.'] ∨ part = ['.', '.']

end ExperimentControl
