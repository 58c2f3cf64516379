import ExperimentControl.Identity
import ExperimentControl.Json.Canonical

/-!
# JSON text

The compact text a record is written as: fields in their order, numbers by their own text, and no
whitespace. Every frame bound of the control plane is a bound on the length of this text.

* `Json.write` — the text of a value.
* `Json.size`, **`Json.length_write`** — its length, computed from the value.
* `textSize_eq` — the length of a string literal: one byte more for each quote, when there is
  neither a control character nor a backslash in it.
-/

namespace ExperimentControl

/-! ## String literals -/

/-- The length of a string literal. -/
def textSize (text : String) : ℕ := (writeString text).length

/-- A character that a string literal holds as it is, or behind one backslash if it is a quote. -/
def isPlain (c : Char) : Bool := ¬isControl c ∧ c ≠ '\\'

lemma length_escapeByte_of_ge {b : UInt8} (h : 128 ≤ b.toNat) : (escapeByte b).length = 1 := by
  unfold escapeByte
  split <;> first | omega | skip
  rw [if_neg (by omega)]
  rfl

lemma length_escapeByte_le (b : UInt8) : (escapeByte b).length ≤ 6 := by
  have hall : ∀ n < 256, (escapeByte (UInt8.ofNat n)).length ≤ 6 := by decide +kernel
  simpa using hall b.toNat b.toNat_lt

/-- The bytes of a character outside ASCII have their high bit set. -/
lemma utf8EncodeChar_ge {c : Char} (h : 128 ≤ c.toNat) :
    ∀ b ∈ String.utf8EncodeChar c, 128 ≤ b.toNat := by
  have hval : c.val.toNat = c.toNat := rfl
  unfold String.utf8EncodeChar
  dsimp only
  split_ifs with h₁ h₂ h₃
  · omega
  all_goals
    intro b hb
    simp only [List.mem_cons, List.not_mem_nil, or_false] at hb
    rcases hb with rfl | rfl | rfl | rfl <;> rw [UInt8.toNat_ofNat'] <;> omega

/-- A plain character takes its bytes, and one more if it is a quote. -/
lemma length_escape_char {c : Char} (h : isPlain c = true) :
    ((String.utf8EncodeChar c).flatMap escapeByte).length =
      (String.utf8EncodeChar c).length + if c = '"' then 1 else 0 := by
  simp only [isPlain, isControl, decide_eq_true_eq, not_or, not_and, not_lt, ne_eq] at h
  obtain ⟨⟨hlow, hhigh⟩, hslash⟩ := h
  have hval : c.val.toNat = c.toNat := rfl
  rcases Nat.lt_or_ge c.toNat 128 with hascii | hwide
  · have hencode : String.utf8EncodeChar c = [UInt8.ofNat c.toNat] := by
      unfold String.utf8EncodeChar
      dsimp only
      rw [if_pos (by omega), hval]
    have hall : ∀ n < 128, 32 ≤ n → n ≠ 92 →
        (escapeByte (UInt8.ofNat n)).length = 1 + if n = 34 then 1 else 0 := by decide
    have hne : c.toNat ≠ 92 := fun heq => hslash (Char.toNat_inj.mp (by rw [heq]; rfl))
    have hquote : c = '"' ↔ c.toNat = 34 :=
      ⟨fun heq => by rw [heq]; rfl, fun heq => Char.toNat_inj.mp (by rw [heq]; rfl)⟩
    rw [hencode]
    simp only [List.flatMap_cons, List.flatMap_nil, List.append_nil, List.length_cons,
      List.length_nil, hquote]
    rw [hall _ hascii hlow hne]
  · have hquote : c ≠ '"' := by
      rintro rfl
      exact absurd hwide (by decide)
    rw [if_neg hquote, List.length_flatMap]
    have hones : (String.utf8EncodeChar c).map (fun b => (escapeByte b).length) =
        (String.utf8EncodeChar c).map fun _ => 1 :=
      List.map_congr_left fun b hb => length_escapeByte_of_ge (utf8EncodeChar_ge hwide b hb)
    rw [hones]
    simp

/-- **The literal of a plain text**: the text, its two quotes, and a backslash for each quote. -/
theorem textSize_eq {text : String} (h : text.toList.all isPlain = true) :
    textSize text = byteLen text + text.toList.count '"' + 2 := by
  unfold textSize writeString byteLen
  rw [utf8_eq]
  generalize text.toList = chars at h ⊢
  have hbody : ((chars.flatMap String.utf8EncodeChar).flatMap escapeByte).length =
      (chars.flatMap String.utf8EncodeChar).length + chars.count '"' := by
    induction chars with
    | nil => rfl
    | cons c chars ih =>
      simp only [List.all_cons, Bool.and_eq_true] at h
      rw [List.flatMap_cons, List.flatMap_append, List.length_append, List.length_append,
        length_escape_char h.1, ih h.2, List.count_cons]
      simp only [beq_iff_eq]
      omega
  simp only [List.length_cons, List.length_append, hbody, List.length_nil]

/-- A byte that is no control character is written with one more at most. -/
lemma length_escapeByte_le_two {b : UInt8} (h : 32 ≤ b.toNat) : (escapeByte b).length ≤ 2 := by
  have hall : ∀ n < 256, 32 ≤ n → (escapeByte (UInt8.ofNat n)).length ≤ 2 := by decide +kernel
  simpa using hall b.toNat b.toNat_lt h

/-- The bytes of a character that is no control character. -/
lemma utf8EncodeChar_ge_of_not_isControl {c : Char} (h : isControl c = false) :
    ∀ b ∈ String.utf8EncodeChar c, 32 ≤ b.toNat := by
  simp only [isControl, decide_eq_false_iff_not, not_or] at h
  have hval : c.val.toNat = c.toNat := rfl
  intro b hb
  rcases Nat.lt_or_ge c.toNat 128 with hascii | hwide
  · have hencode : String.utf8EncodeChar c = [UInt8.ofNat c.toNat] := by
      unfold String.utf8EncodeChar
      dsimp only
      rw [if_pos (by omega), hval]
    rw [hencode, List.mem_singleton] at hb
    rw [hb, UInt8.toNat_ofNat']
    omega
  · exact le_trans (by decide) (utf8EncodeChar_ge hwide b hb)

/-- A text without control characters: two bytes for each byte at most. -/
lemma textSize_le_two {text : String} (h : text.toList.any isControl = false) :
    textSize text ≤ 2 * byteLen text + 2 := by
  have hbytes : ∀ b ∈ utf8 text, 32 ≤ b.toNat := by
    intro b hb
    rw [utf8_eq, List.mem_flatMap] at hb
    obtain ⟨c, hc, hb⟩ := hb
    rw [List.any_eq_false] at h
    exact utf8EncodeChar_ge_of_not_isControl (Bool.not_eq_true _ ▸ h c hc) b hb
  unfold textSize writeString byteLen
  generalize utf8 text = bytes at hbytes ⊢
  have hbody : (bytes.flatMap escapeByte).length ≤ 2 * bytes.length := by
    induction bytes with
    | nil => simp
    | cons b bytes ih =>
      have hfirst := length_escapeByte_le_two (hbytes b (by simp))
      have hrest := ih fun b hb => hbytes b (by simp [hb])
      simp only [List.flatMap_cons, List.length_append, List.length_cons]
      omega
  simp only [List.length_cons, List.length_append, List.length_nil]
  omega

/-- Any text at all: six bytes for each byte at most. -/
lemma textSize_le (text : String) : textSize text ≤ 6 * byteLen text + 2 := by
  unfold textSize writeString byteLen
  generalize utf8 text = bytes
  have hbody : (bytes.flatMap escapeByte).length ≤ 6 * bytes.length := by
    induction bytes with
    | nil => simp
    | cons b bytes ih =>
      have := length_escapeByte_le b
      simp only [List.flatMap_cons, List.length_append, List.length_cons]
      omega
  simp only [List.length_cons, List.length_append, List.length_nil]
  omega

/-! ## Values -/

namespace Json

open Encoding (joined)

mutual

/-- The compact text of a value. -/
def write : Json → Bytes
  | .null => utf8 "null"
  | .bool true => utf8 "true"
  | .bool false => utf8 "false"
  | .number text => utf8 text
  | .string text => writeString text
  | .array items => 91 :: joined (writeItems items) ++ [93]
  | .object fields => 123 :: joined (writeFields fields) ++ [125]

def writeItems : List Json → List Bytes
  | [] => []
  | item :: items => write item :: writeItems items

def writeFields : List (String × Json) → List Bytes
  | [] => []
  | (key, value) :: fields => (writeString key ++ 58 :: write value) :: writeFields fields

end

/-- The length of written items with a comma between them. -/
def joinedSize : List ℕ → ℕ
  | [] => 0
  | [size] => size
  | size :: rest => size + 1 + joinedSize rest

mutual

/-- The length of a value's text. -/
def size : Json → ℕ
  | .null => 4
  | .bool true => 4
  | .bool false => 5
  | .number text => byteLen text
  | .string text => textSize text
  | .array items => joinedSize (sizeItems items) + 2
  | .object fields => joinedSize (sizeFields fields) + 2

def sizeItems : List Json → List ℕ
  | [] => []
  | item :: items => size item :: sizeItems items

def sizeFields : List (String × Json) → List ℕ
  | [] => []
  | (key, value) :: fields => (textSize key + 1 + size value) :: sizeFields fields

end

lemma length_joined (items : List Bytes) :
    (joined items).length = joinedSize (items.map List.length) := by
  induction items with
  | nil => rfl
  | cons item items ih =>
    cases items with
    | nil => rfl
    | cons next items =>
      simp only [joined, List.length_append, List.length_cons, ih, List.map_cons, joinedSize]
      omega

mutual

/-- **The size of a value is the length of its text.** -/
theorem length_write : ∀ value : Json, (write value).length = size value
  | .null => rfl
  | .bool true => rfl
  | .bool false => rfl
  | .number text => rfl
  | .string text => rfl
  | .array items => by
      simp only [write, size, List.length_append, List.length_cons, List.length_nil,
        length_joined, map_length_writeItems items]
  | .object fields => by
      simp only [write, size, List.length_append, List.length_cons, List.length_nil,
        length_joined, map_length_writeFields fields]

lemma map_length_writeItems : ∀ items : List Json,
    (writeItems items).map List.length = sizeItems items
  | [] => rfl
  | item :: items => by
      simp only [writeItems, sizeItems, List.map_cons, length_write item,
        map_length_writeItems items]

lemma map_length_writeFields : ∀ fields : List (String × Json),
    (writeFields fields).map List.length = sizeFields fields
  | [] => rfl
  | (key, value) :: fields => by
      simp only [writeFields, sizeFields, List.map_cons, List.length_append, List.length_cons,
        length_write value, map_length_writeFields fields, textSize]
      congr 1
      omega

end

lemma sizeItems_eq (items : List Json) : sizeItems items = items.map size := by
  induction items with
  | nil => rfl
  | cons item items ih => rw [sizeItems, ih, List.map_cons]

lemma sizeFields_eq (fields : List (String × Json)) :
    sizeFields fields = fields.map fun field => textSize field.1 + 1 + size field.2 := by
  induction fields with
  | nil => rfl
  | cons field fields ih => rw [sizeFields, ih, List.map_cons]

/-- Items and commas: at most one comma each. -/
lemma joinedSize_le (sizes : List ℕ) : joinedSize sizes ≤ (sizes.map (· + 1)).sum := by
  induction sizes with
  | nil => simp [joinedSize]
  | cons size sizes ih =>
    cases sizes with
    | nil => simp [joinedSize]
    | cons next sizes =>
      change size + 1 + joinedSize (next :: sizes) ≤ _
      rw [List.map_cons, List.sum_cons]
      omega

lemma joinedSize_map_le {α : Type*} (f : α → ℕ) (xs : List α) :
    joinedSize (xs.map f) ≤ (xs.map fun x => f x + 1).sum := by
  have hle := joinedSize_le (xs.map f)
  rwa [List.map_map] at hle

end Json

end ExperimentControl
