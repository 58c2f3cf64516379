import ExperimentControl.Json.Value
import ExperimentControl.Library.Text

/-!
# The canonical form of a document

One deterministic encoding for digests, identities and delivered payloads: sorted keys, compact
separators, raw UTF-8 and exact integer text. A float is written as its shortest round-trip text,
so a float that is not finite leaves the whole document without a canonical form.

* `Encoding` — what the encoding takes from outside: the float printer and the hash.
* `Encoding.bytes`, `Encoding.digest` — the canonical bytes and their digest.
* `Encoding.equal` — equality of own records, a partial equivalence (`equal_symm`, `equal_trans`)
  that is reflexive exactly where there is a canonical form (`equal_self`).
-/

namespace ExperimentControl

/-- The float printer and the hash under the canonical encoding. -/
structure Encoding where
  /-- The shortest round-trip text of a float, none when it is not finite. -/
  floatText : String → Option String
  /-- The lower-case hexadecimal SHA-256 of some bytes. -/
  sha256 : Bytes → String

/-- Why a document has no canonical form. -/
inductive CanonicalError where
  | nonfinite
  deriving DecidableEq, Repr

/-! ## Strings -/

/-- A byte of a string literal: the two-character escapes, a control character by its code, any
other byte as it is. -/
def escapeByte (b : UInt8) : Bytes :=
  match b.toNat with
  | 34 => [92, 34]
  | 92 => [92, 92]
  | 8 => [92, 98]
  | 9 => [92, 116]
  | 10 => [92, 110]
  | 12 => [92, 102]
  | 13 => [92, 114]
  | n =>
      if n < 32 then
        [92, 117, 48, 48] ++ utf8 (String.ofList [hexDigit (n / 16), hexDigit (n % 16)])
      else [b]

/-- The string literal of a text. -/
def writeString (text : String) : Bytes :=
  34 :: (utf8 text).flatMap escapeByte ++ [34]

/-! ## Values -/

namespace Encoding

variable (enc : Encoding)

/-- An integer keeps its exact text; a float is printed anew. -/
def numberText (raw : String) : Except CanonicalError String :=
  if raw.toList.any (fun c => c = '.' ∨ c = 'e' ∨ c = 'E') then
    match enc.floatText raw with
    | some text => .ok text
    | none => .error .nonfinite
  else if raw = "-0" then .ok "0"
  else .ok raw

/-- Written items between separators. -/
def joined : List Bytes → Bytes
  | [] => []
  | [item] => item
  | item :: rest => item ++ 44 :: joined rest

/-- The written members of an object, in the order of their keys. -/
def sorted (members : List (String × Bytes)) : List (String × Bytes) :=
  members.insertionSort fun left right => left.1 ≤ right.1

mutual

/-- The canonical bytes of a document. -/
def bytes : Json → Except CanonicalError Bytes
  | .null => .ok (utf8 "null")
  | .bool true => .ok (utf8 "true")
  | .bool false => .ok (utf8 "false")
  | .number raw => (numberText enc raw).map utf8
  | .string text => .ok (writeString text)
  | .array items => do
      let written ← bytesItems items
      return 91 :: joined written ++ [93]
  | .object fields => do
      -- Only a number fails, always with the one error, so sorting after writing is the same.
      let members ← bytesFields fields
      return 123 :: joined ((sorted members).map fun m => writeString m.1 ++ 58 :: m.2) ++ [125]

/-- The canonical bytes of the items of an array. -/
def bytesItems : List Json → Except CanonicalError (List Bytes)
  | [] => .ok []
  | item :: items => do
      let written ← bytes item
      let rest ← bytesItems items
      return written :: rest

/-- The canonical bytes under each key of an object. -/
def bytesFields : List (String × Json) → Except CanonicalError (List (String × Bytes))
  | [] => .ok []
  | (key, value) :: fields => do
      let written ← bytes value
      let rest ← bytesFields fields
      return (key, written) :: rest

end

/-- The digest of a document: the hash of its canonical bytes. -/
def digest (value : Json) : Except CanonicalError String :=
  (enc.bytes value).map enc.sha256

/-- Own records compare by canonical bytes; a value without a canonical form equals nothing. -/
def equal (left right : Json) : Bool :=
  match enc.bytes left, enc.bytes right with
  | .ok left, .ok right => left == right
  | _, _ => false

/-- A document that has a canonical form. -/
def Canonical (value : Json) : Prop :=
  ∃ written, enc.bytes value = .ok written

variable {enc}

lemma equal_iff {left right : Json} :
    enc.equal left right = true ↔ ∃ b, enc.bytes left = .ok b ∧ enc.bytes right = .ok b := by
  unfold equal
  rcases enc.bytes left with e | a
  · simp
  · rcases enc.bytes right with e | b
    · simp
    · simp only [beq_iff_eq, Except.ok.injEq]
      constructor
      · rintro rfl
        exact ⟨a, rfl, rfl⟩
      · rintro ⟨c, rfl, rfl⟩
        rfl

/-- **Equality is reflexive exactly on documents with a canonical form.** -/
theorem equal_self {value : Json} : enc.equal value value = true ↔ enc.Canonical value := by
  rw [equal_iff]
  simp [Canonical]

theorem equal_symm {left right : Json} (h : enc.equal left right = true) :
    enc.equal right left = true := by
  obtain ⟨b, hl, hr⟩ := equal_iff.mp h
  exact equal_iff.mpr ⟨b, hr, hl⟩

theorem equal_trans {first second third : Json} (h₁ : enc.equal first second = true)
    (h₂ : enc.equal second third = true) : enc.equal first third = true := by
  obtain ⟨b, hfirst, hsecond⟩ := equal_iff.mp h₁
  obtain ⟨c, hsecond', hthird⟩ := equal_iff.mp h₂
  obtain rfl : b = c := Except.ok.inj (hsecond.symm.trans hsecond')
  exact equal_iff.mpr ⟨b, hfirst, hthird⟩

end Encoding

end ExperimentControl
