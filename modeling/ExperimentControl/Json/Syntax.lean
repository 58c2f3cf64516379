import ExperimentControl.Json.Text

/-!
# The syntax of JSON text

How a value's text is found without reading it, as `serde_json` finds a `RawValue`: strings,
numbers and containers are scanned to their end, and what is left is what follows.

* `skipSpace`, `ignoreString`, `ignoreNumber`, `ignoreValue` — scanning to the end of a token.
* `readString` — the text a literal stands for.
* `Ends` — what a number ends at.
* **`isNumber_toString`** — a decimal text is a number.
-/

namespace ExperimentControl

namespace Syntax

/-! ## Tokens -/

def isSpace (b : UInt8) : Bool := b = 32 ∨ b = 9 ∨ b = 10 ∨ b = 13

def isDigit (b : UInt8) : Bool := 48 ≤ b ∧ b ≤ 57

def skipSpace (bytes : Bytes) : Bytes := bytes.dropWhile isSpace

/-- The value of a hexadecimal digit, in either case. -/
def hexValue (b : UInt8) : Option ℕ :=
  if 48 ≤ b ∧ b ≤ 57 then some (b.toNat - 48)
  else if 97 ≤ b ∧ b ≤ 102 then some (b.toNat - 87)
  else if 65 ≤ b ∧ b ≤ 70 then some (b.toNat - 55)
  else none

/-- The byte an escape of two characters stands for. -/
def simpleEscape (b : UInt8) : Option UInt8 :=
  if b = 34 ∨ b = 92 ∨ b = 47 then some b
  else if b = 98 then some 8
  else if b = 102 then some 12
  else if b = 110 then some 10
  else if b = 114 then some 13
  else if b = 116 then some 9
  else none

/-- The code unit four digits stand for. -/
def codeUnit (a b c d : UInt8) : Option ℕ := do
  let a ← hexValue a
  let b ← hexValue b
  let c ← hexValue c
  let d ← hexValue d
  return ((a * 16 + b) * 16 + c) * 16 + d

/-- What stands behind a string, from behind its opening quote. Escapes are looked at, but the
pairing of surrogates is not. -/
def ignoreString : Bytes → Option Bytes
  | [] => none
  | b :: rest =>
      if b = 34 then some rest
      else if b = 92 then
        match rest with
        | 117 :: x :: y :: z :: w :: rest =>
            if (codeUnit x y z w).isSome then ignoreString rest else none
        | c :: rest => if (simpleEscape c).isSome then ignoreString rest else none
        | [] => none
      else if b < 32 then none
      else ignoreString rest

/-- The bytes a string stands for, and what stands behind it. A surrogate has to be in a pair. -/
def readString : Bytes → Option (Bytes × Bytes)
  | [] => none
  | b :: rest =>
      if b = 34 then some ([], rest)
      else if b = 92 then
        match rest with
        | 117 :: x :: y :: z :: w :: rest =>
            match codeUnit x y z w with
            | none => none
            | some unit =>
                if 0xDC00 ≤ unit ∧ unit < 0xE000 then none
                else if 0xD800 ≤ unit ∧ unit < 0xDC00 then
                  match rest with
                  | 92 :: 117 :: x :: y :: z :: w :: rest =>
                      match codeUnit x y z w with
                      | none => none
                      | some low =>
                          if 0xDC00 ≤ low ∧ low < 0xE000 then
                            (readString rest).map fun (bytes, rest) =>
                              (String.utf8EncodeChar (Char.ofNat
                                (0x10000 + (unit - 0xD800) * 0x400 + (low - 0xDC00))) ++ bytes,
                                rest)
                          else none
                  | _ => none
                else (readString rest).map fun (bytes, rest) =>
                  (String.utf8EncodeChar (Char.ofNat unit) ++ bytes, rest)
        | c :: rest =>
            match simpleEscape c with
            | none => none
            | some c => (readString rest).map fun (bytes, rest) => (c :: bytes, rest)
        | [] => none
      else if b < 32 then none
      else (readString rest).map fun (bytes, rest) => (b :: bytes, rest)

/-! ## Numbers -/

/-- What stands behind at least one digit. -/
def ignoreDigits : Bytes → Option Bytes
  | [] => none
  | b :: rest => if isDigit b then some (rest.dropWhile isDigit) else none

/-- What stands behind an integer without superfluous zeros. -/
def ignoreInteger : Bytes → Option Bytes
  | [] => none
  | b :: rest =>
      if b = 48 then if rest.head?.any isDigit then none else some rest
      else if isDigit b then some (rest.dropWhile isDigit)
      else none

def ignoreFraction : Bytes → Option Bytes
  | [] => some []
  | b :: rest => if b = 46 then ignoreDigits rest else some (b :: rest)

def ignoreSign : Bytes → Bytes
  | [] => []
  | b :: rest => if b = 43 ∨ b = 45 then rest else b :: rest

def ignoreExponent : Bytes → Option Bytes
  | [] => some []
  | b :: rest => if b = 69 ∨ b = 101 then ignoreDigits (ignoreSign rest) else some (b :: rest)

def ignoreMinus : Bytes → Bytes
  | [] => []
  | b :: rest => if b = 45 then rest else b :: rest

def ignoreNumber (bytes : Bytes) : Option Bytes := do
  let rest ← ignoreInteger (ignoreMinus bytes)
  let rest ← ignoreFraction rest
  ignoreExponent rest

/-- A text that is one number. -/
def isNumber (text : String) : Bool := ignoreNumber (utf8 text) = some []

/-! ## Values -/

/-- What stands behind a word. -/
def ignoreWord (word bytes : Bytes) : Option Bytes :=
  if word <+: bytes then some (bytes.drop word.length) else none

/-- What stands behind a mark and the whitespace before it. -/
def expect (mark : UInt8) (bytes : Bytes) : Option Bytes :=
  match skipSpace bytes with
  | [] => none
  | b :: rest => if b = mark then some rest else none

mutual

/-- What stands behind a value. Each call is one byte further on, so that the length of the text is
fuel enough. -/
def ignoreValue : ℕ → Bytes → Option Bytes
  | 0, _ => none
  | fuel + 1, bytes =>
      match skipSpace bytes with
      | [] => none
      | b :: rest =>
          if b = 34 then ignoreString rest
          else if b = 91 then
            if (expect 93 rest).isSome then expect 93 rest else ignoreItems fuel rest
          else if b = 123 then
            if (expect 125 rest).isSome then expect 125 rest else ignoreMembers fuel rest
          else if b = 45 ∨ isDigit b then ignoreNumber (b :: rest)
          else if b = 116 then ignoreWord (utf8 "true") (b :: rest)
          else if b = 102 then ignoreWord (utf8 "false") (b :: rest)
          else ignoreWord (utf8 "null") (b :: rest)

/-- What stands behind the items of an array, from before one of them. -/
def ignoreItems : ℕ → Bytes → Option Bytes
  | 0, _ => none
  | fuel + 1, bytes => do
      let rest ← ignoreValue fuel bytes
      match skipSpace rest with
      | [] => none
      | b :: rest =>
          if b = 44 then ignoreItems fuel rest
          else if b = 93 then some rest
          else none

/-- What stands behind the members of an object, from before one of them. -/
def ignoreMembers : ℕ → Bytes → Option Bytes
  | 0, _ => none
  | fuel + 1, bytes => do
      let key ← expect 34 bytes
      let rest ← ignoreString key
      let value ← expect 58 rest
      let rest ← ignoreValue fuel value
      match skipSpace rest with
      | [] => none
      | b :: rest =>
          if b = 44 then ignoreMembers fuel rest
          else if b = 125 then some rest
          else none

end

/-! ## Written bytes -/

/-- The byte of a hexadecimal digit. -/
def hexByte (n : ℕ) : UInt8 := UInt8.ofNat (hexDigit n).toNat

/-- How a byte is escaped: by two characters, by its code, or not at all. -/
lemma escapeByte_cases (b : UInt8) :
    (∃ c, escapeByte b = [92, c] ∧ c ≠ 117 ∧ simpleEscape c = some b) ∨
      (∃ x y, escapeByte b = [92, 117, 48, 48, x, y] ∧ codeUnit 48 48 x y = some b.toNat ∧
        b.toNat < 32) ∨
      (escapeByte b = [b] ∧ b ≠ 34 ∧ b ≠ 92 ∧ ¬b < 32) := by
  have hcode : ∀ n < 32, utf8 (String.ofList [hexDigit (n / 16), hexDigit (n % 16)]) =
      [hexByte (n / 16), hexByte (n % 16)] ∧
        codeUnit 48 48 (hexByte (n / 16)) (hexByte (n % 16)) = some n := by
    decide
  have hsimple : ∀ c : UInt8, ∀ n : ℕ, b.toNat = n → UInt8.ofNat n = b := by
    rintro c n rfl
    exact UInt8.ofNat_toNat
  unfold escapeByte
  split
  next h => exact Or.inl ⟨34, rfl, by decide, by rw [← hsimple b _ h]; rfl⟩
  next h => exact Or.inl ⟨92, rfl, by decide, by rw [← hsimple b _ h]; rfl⟩
  next h => exact Or.inl ⟨98, rfl, by decide, by rw [← hsimple b _ h]; rfl⟩
  next h => exact Or.inl ⟨116, rfl, by decide, by rw [← hsimple b _ h]; rfl⟩
  next h => exact Or.inl ⟨110, rfl, by decide, by rw [← hsimple b _ h]; rfl⟩
  next h => exact Or.inl ⟨102, rfl, by decide, by rw [← hsimple b _ h]; rfl⟩
  next h => exact Or.inl ⟨114, rfl, by decide, by rw [← hsimple b _ h]; rfl⟩
  next hquote hslash _ _ _ _ _ =>
    split_ifs with hlow
    · obtain ⟨htext, hunit⟩ := hcode _ hlow
      exact Or.inr (Or.inl ⟨_, _, by rw [htext]; rfl, hunit, hlow⟩)
    · refine Or.inr (Or.inr ⟨rfl, ?_, ?_, fun h => hlow (UInt8.lt_iff_toNat_lt.mp h)⟩)
      · rintro rfl
        exact hquote rfl
      · rintro rfl
        exact hslash rfl

/-! ## The end of a number -/

/-- What a number ends at: nothing that continues it. -/
def Ends (rest : Bytes) : Prop :=
  rest.head?.all fun b => ¬isDigit b ∧ b ≠ 46 ∧ b ≠ 69 ∧ b ≠ 101

variable {rest : Bytes}

/-- What a number is not continued by. -/
lemma Ends.head_ne {m : UInt8} (h : Ends rest) (hmark : m = 46 ∨ m = 69 ∨ m = 101) :
    rest.head? ≠ some m := by
  cases rest with
  | nil => simp
  | cons c rest =>
    have hc : decide (¬isDigit c = true ∧ c ≠ 46 ∧ c ≠ 69 ∧ c ≠ 101) = true := h
    obtain ⟨-, h₁, h₂, h₃⟩ := of_decide_eq_true hc
    rintro hhead
    obtain rfl := Option.some.inj hhead
    rcases hmark with h | h | h
    · exact h₁ h
    · exact h₂ h
    · exact h₃ h

/-- The bytes of a decimal text: digits, of which the first is zero in the text of zero only. -/
lemma utf8_toDigits (n : ℕ) : ∃ b rest, (Nat.toDigits 10 n).flatMap String.utf8EncodeChar = b :: rest ∧
    isDigit b = true ∧ rest.all isDigit = true ∧ (b = 48 → n = 0) := by
  induction n using Nat.strongRecOn with
  | _ n ih =>
    rcases Nat.lt_or_ge n 10 with hlow | hhigh
    · have hall : ∀ n < 10, (Nat.toDigits 10 n).flatMap String.utf8EncodeChar =
          [UInt8.ofNat (48 + n)] ∧ isDigit (UInt8.ofNat (48 + n)) = true ∧
            (UInt8.ofNat (48 + n) = 48 → n = 0) := by decide
      obtain ⟨hbytes, hdigit, hzero⟩ := hall n hlow
      exact ⟨_, [], hbytes, hdigit, rfl, hzero⟩
    · obtain ⟨b, rest, hbytes, hdigit, hrest, hzero⟩ := ih (n / 10) (by omega)
      obtain ⟨c, more, hlast, hdigit', hmore, -⟩ := ih (n % 10) (by omega)
      have hsplit : Nat.toDigits 10 n = Nat.toDigits 10 (n / 10) ++ Nat.toDigits 10 (n % 10) := by
        rw [Nat.toDigits_of_base_le (by decide) hhigh,
          Nat.toDigits_of_lt_base (Nat.mod_lt n (by decide))]
      refine ⟨b, rest ++ c :: more, ?_, hdigit, ?_, fun hb => ?_⟩
      · rw [hsplit, List.flatMap_append, hbytes, hlast, List.cons_append]
      · rw [List.all_append, List.all_cons, hrest, hdigit', hmore]
        rfl
      · have hnone := hzero hb
        omega

lemma dropWhile_of_all {bytes : Bytes} (h : bytes.all isDigit = true) :
    bytes.dropWhile isDigit = [] := by
  induction bytes with
  | nil => rfl
  | cons b bytes ih =>
    rw [List.all_cons, Bool.and_eq_true] at h
    rw [List.dropWhile_cons_of_pos h.1, ih h.2]

/-- A decimal text is a number. -/
lemma isNumber_toString (n : ℕ) : isNumber (toString n) = true := by
  obtain ⟨b, rest, hbytes, hdigit, hrest, hzero⟩ := utf8_toDigits n
  have htext : utf8 (toString n) = b :: rest := by
    rw [utf8_eq, Nat.toString_eq_repr, Nat.toList_repr, hbytes]
  have hminus : b ≠ 45 := by
    rintro rfl
    cases hdigit
  rw [isNumber, htext, ignoreNumber, ignoreMinus, if_neg hminus, ignoreInteger]
  by_cases hb : b = 48
  · obtain rfl := hzero hb
    have hnil : rest = [] := by
      have hlist : utf8 (toString 0) = [48] := by decide
      rw [hlist] at htext
      exact (List.cons.inj htext).2.symm
    rw [if_pos hb, hnil]
    rfl
  · rw [if_neg hb, if_pos hdigit, dropWhile_of_all hrest]
    rfl

end Syntax

/-! ## Exact values -/

namespace Json

mutual

/-- A value whose numbers are numbers. -/
def exact : Json → Bool
  | .null => true
  | .bool _ => true
  | .number text => Syntax.isNumber text
  | .string _ => true
  | .array items => exactItems items
  | .object fields => exactFields fields

def exactItems : List Json → Bool
  | [] => true
  | item :: items => exact item && exactItems items

def exactFields : List (String × Json) → Bool
  | [] => true
  | (_, value) :: fields => exact value && exactFields fields

end

end Json

/-! ## Marks and words -/

namespace Syntax

variable {rest : Bytes}

lemma ends_of_mark {mark : UInt8} (rest : Bytes) (h : mark = 44 ∨ mark = 93 ∨ mark = 125) :
    Ends (mark :: rest) := by
  rcases h with rfl | rfl | rfl <;> rfl

lemma isSpace_false_of_number {b : UInt8} (h : b = 45 ∨ isDigit b = true) : isSpace b = false := by
  have hall : ∀ n < 256, (UInt8.ofNat n = 45 ∨ isDigit (UInt8.ofNat n) = true) →
      isSpace (UInt8.ofNat n) = false := by decide +kernel
  have hb := hall b.toNat b.toNat_lt
  rw [UInt8.ofNat_toNat] at hb
  exact hb h

lemma skipSpace_cons {b : UInt8} (h : isSpace b = false) : skipSpace (b :: rest) = b :: rest := by
  rw [skipSpace, List.dropWhile_cons_of_neg (by simp [h])]

lemma expect_cons {m : UInt8} (h : isSpace m = false) (rest : Bytes) :
    expect m (m :: rest) = some rest := by
  rw [expect, skipSpace_cons h]
  exact if_pos rfl

lemma expect_ne {mark b : UInt8} (h : isSpace b = false) (hne : b ≠ mark) :
    expect mark (b :: rest) = none := by
  rw [expect, skipSpace_cons h]
  exact if_neg hne

lemma ignoreWord_append (word rest : Bytes) : ignoreWord word (word ++ rest) = some rest := by
  rw [ignoreWord, if_pos (List.prefix_append word rest), List.drop_left]

end Syntax

end ExperimentControl
