import ExperimentControl.Json.Reader
import ExperimentControl.Library.Assoc
import ExperimentControl.Library.Decimal
import Mathlib

/-!
# What canonical bytes decide

Two values have the same canonical bytes exactly when they are the same up to the order of members
and the spelling of numbers. The bytes are the text of one value of the class, its normal form, and
a written value is read back, so that nothing but the normal form has to be compared.

* `FloatFormat` — reading and printing floats.
* `normal` — numbers in their one spelling, members in the order of their keys.
* `same` — equality up to order and spelling, with **`normal_eq_iff`**.
* **`canonical_decides`** — what the bytes decide, and what reading them gives.
-/

namespace ExperimentControl

/-! ## Integers -/

namespace Syntax

lemma utf8_ofAscii {bytes : Bytes} (h : ∀ b ∈ bytes, b.toNat < 128) :
    utf8 (String.ofList (bytes.map fun b => Char.ofNat b.toNat)) = bytes := by
  rw [utf8_eq, String.toList_ofList]
  induction bytes with
  | nil => rfl
  | cons b bytes ih =>
    have hone : ∀ n < 128, String.utf8EncodeChar (Char.ofNat n) = [UInt8.ofNat n] := by
      decide
    have hb := h b (by simp)
    rw [List.map_cons, List.flatMap_cons, hone b.toNat hb, UInt8.ofNat_toNat, ih]
    · rfl
    · exact fun b hb => h b (by simp [hb])

/-- The characters of an ASCII text are its bytes. -/
lemma toList_of_ascii {text : String} (h : ∀ b ∈ utf8 text, b.toNat < 128) :
    text.toList = (utf8 text).map fun b => Char.ofNat b.toNat := by
  have htext := utf8_injective (utf8_ofAscii h)
  rw [← htext, String.toList_ofList, utf8_ofAscii h]

/-- An ASCII byte of a text is one of its characters. -/
lemma mem_toList_of_ascii {text : String} {b : UInt8} (hmem : b ∈ utf8 text)
    (hascii : b.toNat < 128) : Char.ofNat b.toNat ∈ text.toList := by
  rw [utf8_eq] at hmem
  obtain ⟨c, hc, hb⟩ := List.mem_flatMap.mp hmem
  rcases Nat.lt_or_ge c.toNat 128 with hlow | hwide
  · have hone : ∀ n < 128, String.utf8EncodeChar (Char.ofNat n) = [UInt8.ofNat n] := by
      decide
    have hencode := hone c.toNat hlow
    rw [Char.ofNat_toNat] at hencode
    rw [hencode, List.mem_singleton] at hb
    have hsame : b.toNat = c.toNat := by
      rw [hb, UInt8.toNat_ofNat_of_lt' (lt_trans hlow (by decide))]
    rwa [hsame, Char.ofNat_toNat]
  · have := utf8EncodeChar_ge hwide b hb
    omega

lemma ignoreMinus_suffix (bytes : Bytes) : ignoreMinus bytes <:+ bytes := by
  cases bytes with
  | nil => exact List.suffix_refl _
  | cons b rest =>
    rw [ignoreMinus]
    split_ifs
    · exact List.suffix_cons b rest
    · exact List.suffix_refl _

lemma ignoreInteger_suffix {bytes rest : Bytes} (h : ignoreInteger bytes = some rest) :
    rest <:+ bytes := by
  cases bytes with
  | nil => cases h
  | cons b tail =>
    rw [ignoreInteger] at h
    split_ifs at h
    · rw [← Option.some.inj h]
      exact List.suffix_cons b tail
    · rw [← Option.some.inj h]
      exact (List.dropWhile_suffix _).trans (List.suffix_cons b tail)

/-- An integer to the end is a decimal text. -/
lemma isDecimal_of_ignoreInteger {bytes : Bytes} (h : ignoreInteger bytes = some []) :
    (∀ b ∈ bytes, b.toNat < 128) ∧ IsDecimal (bytes.map fun b => Char.ofNat b.toNat) := by
  have hdigit : ∀ n < 256, isDigit (UInt8.ofNat n) = true →
      n < 128 ∧ (Char.ofNat n).isDigit = true ∧ (Char.ofNat n = '0' → n = 48) := by
    decide +kernel
  cases bytes with
  | nil => cases h
  | cons b rest =>
    rw [ignoreInteger] at h
    split_ifs at h with hzero hmore hfirst
    · obtain rfl := Option.some.inj h
      obtain rfl := hzero
      refine ⟨by simp, ?_⟩
      exact ⟨by simp, by simp, fun _ => by simp⟩
    · have hrest : rest.dropWhile isDigit = [] := Option.some.inj h
      rw [List.dropWhile_eq_nil_iff] at hrest
      have hall : ∀ c ∈ b :: rest, isDigit c = true := by
        intro c hc
        rcases List.mem_cons.mp hc with rfl | hc
        · exact hfirst
        · exact hrest c hc
      have hbyte (c : UInt8) (hc : c ∈ b :: rest) := by
        have hfact := hdigit c.toNat c.toNat_lt
        rw [UInt8.ofNat_toNat] at hfact
        exact hfact (hall c hc)
      refine ⟨fun c hc => (hbyte c hc).1, by simp, ?_, ?_⟩
      · intro c hc
        obtain ⟨byte, hbytes, rfl⟩ := List.mem_map.mp hc
        exact (hbyte byte hbytes).2.1
      · intro hhead
        rw [List.map_cons, List.head?_cons, Option.some.injEq] at hhead
        have hnat := (hbyte b (by simp)).2.2 hhead
        exact absurd (UInt8.toNat_inj.mp hnat) hzero

/-- **The text of an integer**: a decimal text, with a minus before it or not. -/
theorem integer_cases {text : String} (hnumber : isNumber text = true)
    (hfloat : Reader.isFloat text = false) :
    ∃ digits, IsDecimal digits ∧ (text.toList = digits ∨ text.toList = '-' :: digits) := by
  have hscan : ignoreNumber (utf8 text) = some [] := of_decide_eq_true hnumber
  rw [ignoreNumber] at hscan
  simp only [Option.bind_eq_bind, Option.bind_eq_some_iff] at hscan
  obtain ⟨integer, hinteger, fraction, hfraction, hexponent⟩ := hscan
  -- A byte behind the integer would be the mark of a fraction or of an exponent.
  have hend : integer = [] := by
    cases integer with
    | nil => rfl
    | cons b rest =>
      have hmem : b ∈ utf8 text :=
        ((ignoreInteger_suffix hinteger).trans (ignoreMinus_suffix _)).subset (by simp)
      have hmark : b ≠ 46 ∧ b ≠ 69 ∧ b ≠ 101 := by
        rw [Reader.isFloat, List.any_eq_false] at hfloat
        refine ⟨?_, ?_, ?_⟩ <;> rintro rfl <;>
          exact hfloat _ (mem_toList_of_ascii hmem (by decide)) (by decide)
      rw [ignoreFraction, if_neg hmark.1] at hfraction
      obtain rfl := Option.some.inj hfraction
      rw [ignoreExponent, if_neg (not_or.mpr hmark.2)] at hexponent
      cases hexponent
  rw [hend] at hinteger
  obtain ⟨hascii, hdecimal⟩ := isDecimal_of_ignoreInteger hinteger
  refine ⟨_, hdecimal, ?_⟩
  cases hbytes : utf8 text with
  | nil =>
    rw [hbytes] at hinteger
    cases hinteger
  | cons b rest =>
    rw [hbytes, ignoreMinus] at hascii
    rw [ignoreMinus]
    split_ifs at hascii ⊢ with hminus
    · right
      have hall : ∀ c ∈ utf8 text, c.toNat < 128 := by
        rw [hbytes]
        intro c hc
        rcases List.mem_cons.mp hc with rfl | hc
        · rw [hminus]
          decide
        · exact hascii c hc
      rw [toList_of_ascii hall, hbytes, List.map_cons, hminus]
      rfl
    · left
      rw [toList_of_ascii (by rwa [hbytes]), hbytes]

end Syntax

/-! ## Floats -/

/-- Reading and printing floats. A float is printed as the shortest text that is read as itself,
and not at all where it is not finite. -/
structure FloatFormat (F : Type) where
  /-- The float of a number text, an infinity where it is out of range. -/
  read : String → F
  /-- The shortest text of a float, none when it is not finite. -/
  print : F → Option String
  /-- The float itself, and one of the two zeros for both. -/
  unsigned : F → F
  read_print {x : F} {text : String} : print x = some text → read text = x
  isNumber_print {x : F} {text : String} : print x = some text → Syntax.isNumber text = true
  isFloat_print {x : F} {text : String} : print x = some text → Reader.isFloat text = true
  unsigned_unsigned (x : F) : unsigned (unsigned x) = unsigned x
  print_unsigned (x : F) : (print (unsigned x)).isSome = (print x).isSome

namespace FloatFormat

variable {F : Type} (format : FloatFormat F)

/-- Whether the float of a number text is finite. -/
def finite (text : String) : Bool := (format.print (format.read text)).isSome

/-- The canonical encoding under a format and a hash: both zeros have one text. -/
def encoding (sha256 : Bytes → String) : Encoding where
  floatText text := format.print (format.unsigned (format.read text))
  sha256 := sha256

lemma unsigned_eq_of_print {x y : F} {text : String}
    (hx : format.print (format.unsigned x) = some text)
    (hy : format.print (format.unsigned y) = some text) :
    format.unsigned x = format.unsigned y :=
  (format.read_print hx).symm.trans (format.read_print hy)

end FloatFormat

/-! ## Normal forms -/

namespace Json

/-- The value of an integer's text. -/
def integer (text : String) : ℤ :=
  match text.toList with
  | '-' :: digits => -(Nat.ofDigitChars 10 digits 0 : ℤ)
  | digits => (Nat.ofDigitChars 10 digits 0 : ℤ)

section Normal

variable {F : Type} (format : FloatFormat F)

/-- A number in its one spelling: a float as it is printed, and zero without a sign. -/
def normalNumber (text : String) : String :=
  if Reader.isFloat text = true then
    (format.print (format.unsigned (format.read text))).getD text
  else if text = "-0" then "0"
  else text

mutual

/-- The normal form of a value. -/
def normal : Json → Json
  | .null => .null
  | .bool value => .bool value
  | .number text => .number (normalNumber format text)
  | .string text => .string text
  | .array items => .array (normalItems items)
  | .object fields => .object (sortKeys (normalFields fields))

def normalItems : List Json → List Json
  | [] => []
  | item :: items => normal item :: normalItems items

def normalFields : List (String × Json) → List (String × Json)
  | [] => []
  | (key, value) :: fields => (key, normal value) :: normalFields fields

end

/-- Equality of two numbers up to spelling: of two integers by value, of two floats as floats. -/
def sameNumber (first second : String) : Prop :=
  if Reader.isFloat first = true then
    Reader.isFloat second = true ∧
      format.unsigned (format.read first) = format.unsigned (format.read second)
  else Reader.isFloat second = false ∧ integer first = integer second

mutual

/-- Equality of two values up to the order of members and the spelling of numbers. -/
def same : Json → Json → Prop
  | .null, .null => True
  | .bool a, .bool b => a = b
  | .number a, .number b => sameNumber format a b
  | .string a, .string b => a = b
  | .array xs, .array ys => sameItems xs ys
  | .object fs, .object gs => sameFields fs gs
  | _, _ => False

def sameItems : List Json → List Json → Prop
  | [], [] => True
  | x :: xs, y :: ys => same x y ∧ sameItems xs ys
  | _, _ => False

/-- Each member has its counterpart under the same key, and no other is left over. -/
def sameFields : List (String × Json) → List (String × Json) → Prop
  | [], gs => gs = []
  | (key, value) :: fs, gs =>
      ∃ other, Fields.get gs key = some other ∧ same value other ∧
        sameFields fs (Fields.remove gs key)

end

end Normal

/-! ## Numbers in normal form -/

variable {F : Type} {format : FloatFormat F}

/-- A number that can be read is one where it is a finite float or an integer. -/
def ReadableNumber (format : FloatFormat F) (text : String) : Prop :=
  Syntax.isNumber text = true ∧ (Reader.isFloat text = true → format.finite text = true)

lemma readable_number {text : String} :
    (Json.number text).readable format.finite = true ↔ ReadableNumber format text := by
  rw [readable, ReadableNumber, Bool.and_eq_true, Bool.or_eq_true, Bool.not_eq_true']
  cases Reader.isFloat text <;> simp

/-- A finite float has a text, which is its normal form. -/
lemma print_of_finite {text : String} (hfloat : Reader.isFloat text = true)
    (hfinite : format.finite text = true) :
    format.print (format.unsigned (format.read text)) = some (normalNumber format text) := by
  have hsome : (format.print (format.unsigned (format.read text))).isSome = true := by
    rw [format.print_unsigned]
    exact hfinite
  obtain ⟨written, hwritten⟩ := Option.isSome_iff_exists.mp hsome
  rw [normalNumber, if_pos hfloat, hwritten, Option.getD_some]

lemma numberText_normal {text : String} (h : ReadableNumber format text) (sha256 : Bytes → String) :
    Encoding.numberText (format.encoding sha256) text = .ok (normalNumber format text) := by
  by_cases hfloat : Reader.isFloat text = true
  · have hprint := print_of_finite hfloat (h.2 hfloat)
    have hmark := hfloat
    rw [Reader.isFloat] at hmark
    have hshown : (format.encoding sha256).floatText text = some (normalNumber format text) := hprint
    rw [Encoding.numberText, if_pos hmark, hshown]
  · have hmark := hfloat
    rw [Reader.isFloat] at hmark
    rw [Encoding.numberText, if_neg hmark, normalNumber, if_neg hfloat]
    split_ifs <;> rfl

/-- The normal form of an integer is one. -/
lemma isFloat_normalNumber {text : String} (h : ReadableNumber format text) :
    Reader.isFloat (normalNumber format text) = Reader.isFloat text := by
  by_cases hfloat : Reader.isFloat text = true
  · rw [format.isFloat_print (print_of_finite hfloat (h.2 hfloat)), hfloat]
  · rw [normalNumber, if_neg hfloat]
    split_ifs with hzero
    · rw [hzero]
      rfl
    · rfl

lemma readable_normalNumber {text : String} (h : ReadableNumber format text) :
    ReadableNumber format (normalNumber format text) := by
  by_cases hfloat : Reader.isFloat text = true
  · have hprint := print_of_finite hfloat (h.2 hfloat)
    refine ⟨format.isNumber_print hprint, fun _ => ?_⟩
    rw [FloatFormat.finite, format.read_print hprint, hprint]
    rfl
  · rw [normalNumber, if_neg hfloat]
    split_ifs with hzero
    · exact ⟨by decide, fun hzero => absurd hzero (by decide)⟩
    · exact h

lemma normalNumber_normalNumber {text : String} (h : ReadableNumber format text) :
    normalNumber format (normalNumber format text) = normalNumber format text := by
  by_cases hfloat : Reader.isFloat text = true
  · have hprint := print_of_finite hfloat (h.2 hfloat)
    have hfloat' := format.isFloat_print hprint
    rw [normalNumber, if_pos hfloat', format.read_print hprint, format.unsigned_unsigned, hprint]
    rfl
  · have hnot : Reader.isFloat (normalNumber format text) ≠ true := by
      rwa [isFloat_normalNumber h]
    rw [normalNumber, if_neg hnot]
    rw [normalNumber, if_neg hfloat]
    split_ifs with hzero <;> simp_all

/-- An integer in normal form is a decimal text, or a minus and one of a positive number. -/
lemma integer_normal {text : String} (hnumber : Syntax.isNumber text = true)
    (hfloat : Reader.isFloat text = false) :
    ∃ digits, IsDecimal digits ∧
      ((if text = "-0" then "0" else text).toList = digits ∧
          integer text = Nat.ofDigitChars 10 digits 0 ∨
        (if text = "-0" then "0" else text).toList = '-' :: digits ∧
          0 < Nat.ofDigitChars 10 digits 0 ∧
          integer text = -(Nat.ofDigitChars 10 digits 0 : ℤ)) := by
  obtain ⟨digits, hdecimal, hunsigned | hsigned⟩ := Syntax.integer_cases hnumber hfloat
  · refine ⟨digits, hdecimal, Or.inl ?_⟩
    have hne : text ≠ "-0" := by
      rintro rfl
      have hdigit := hdecimal.digit '-' (by rw [← hunsigned]; decide)
      exact absurd hdigit (by decide)
    rw [if_neg hne, integer]
    refine ⟨hunsigned, ?_⟩
    split
    · next rest hminus =>
      have hdigit := hdecimal.digit '-' (by rw [← hunsigned, hminus]; simp)
      exact absurd hdigit (by decide)
    · rw [hunsigned]
  · have hvalue : integer text = -(Nat.ofDigitChars 10 digits 0 : ℤ) := by
      rw [integer, hsigned]
      rfl
    rcases Nat.eq_zero_or_pos (Nat.ofDigitChars 10 digits 0) with hzero | hpos
    · have hdigits : digits = ['0'] := by
        rw [← toDigits_ofDigitChars hdecimal, hzero, Nat.toDigits_zero]
      have htext : text = "-0" := by
        rw [← String.ofList_toList (s := text), hsigned, hdigits]
      refine ⟨digits, hdecimal, Or.inl ⟨?_, ?_⟩⟩
      · rw [if_pos htext, hdigits]
        exact String.toList_ofList
      · rw [hvalue, hzero]
        rfl
    · have hne : text ≠ "-0" := by
        rintro rfl
        have hdigits : digits = ['0'] := by
          have hlist : "-0".toList = ['-', '0'] := String.toList_ofList
          rw [hlist] at hsigned
          exact (List.cons.inj hsigned).2.symm
        rw [hdigits] at hpos
        exact absurd hpos (by decide)
      rw [if_neg hne]
      exact ⟨digits, hdecimal, Or.inr ⟨hsigned, hpos, hvalue⟩⟩

/-- The value of an integer decides its normal form. -/
lemma integer_eq_iff {first second : String} (hfirst : Syntax.isNumber first = true)
    (hsecond : Syntax.isNumber second = true) (hinteger : Reader.isFloat first = false)
    (hinteger' : Reader.isFloat second = false) :
    (if first = "-0" then "0" else first) = (if second = "-0" then "0" else second) ↔
      integer first = integer second := by
  obtain ⟨xs, hxs, hx⟩ := integer_normal hfirst hinteger
  obtain ⟨ys, hys, hy⟩ := integer_normal hsecond hinteger'
  rw [← String.toList_inj]
  have hnone : ∀ {digits rest : List Char}, IsDecimal digits → digits ≠ '-' :: rest := by
    rintro digits rest hdigits rfl
    exact absurd (hdigits.digit '-' (by simp)) (by decide)
  rcases hx with ⟨hx, hvalue⟩ | ⟨hx, hpos, hvalue⟩ <;>
    rcases hy with ⟨hy, hvalue'⟩ | ⟨hy, hpos', hvalue'⟩ <;> rw [hx, hy, hvalue, hvalue']
  · constructor
    · rintro rfl
      rfl
    · intro heq
      exact hxs.ext hys (by exact_mod_cast heq)
  · constructor
    · intro heq
      exact absurd heq (hnone hxs)
    · intro heq
      omega
  · constructor
    · intro heq
      exact absurd heq.symm (hnone hys)
    · intro heq
      omega
  · constructor
    · intro heq
      rw [(List.cons.inj heq).2]
    · intro heq
      rw [hxs.ext hys (by omega)]

/-- **Numbers have one normal form** exactly when they are the same up to spelling. -/
theorem normalNumber_eq_iff {first second : String} (hfirst : ReadableNumber format first)
    (hsecond : ReadableNumber format second) :
    normalNumber format first = normalNumber format second ↔ sameNumber format first second := by
  rw [sameNumber]
  by_cases hfloat : Reader.isFloat first = true
  · rw [if_pos hfloat]
    have hprint := print_of_finite hfloat (hfirst.2 hfloat)
    constructor
    · intro heq
      have hfloat' : Reader.isFloat second = true := by
        rw [← isFloat_normalNumber hsecond, ← heq, isFloat_normalNumber hfirst, hfloat]
      have hprint' := print_of_finite hfloat' (hsecond.2 hfloat')
      rw [← heq] at hprint'
      exact ⟨hfloat', format.unsigned_eq_of_print hprint hprint'⟩
    · rintro ⟨hfloat', heq⟩
      have hprint' := print_of_finite hfloat' (hsecond.2 hfloat')
      rw [← heq, hprint] at hprint'
      exact Option.some.inj hprint'
  · rw [if_neg hfloat]
    rw [Bool.not_eq_true] at hfloat
    by_cases hfloat' : Reader.isFloat second = true
    · constructor
      · intro heq
        have hsame := isFloat_normalNumber hfirst
        rw [heq, isFloat_normalNumber hsecond, hfloat, hfloat'] at hsame
        cases hsame
      · rintro ⟨hnot, -⟩
        rw [hfloat'] at hnot
        cases hnot
    · rw [Bool.not_eq_true] at hfloat'
      have hvalue := integer_eq_iff hfirst.1 hsecond.1 hfloat hfloat'
      simp only [normalNumber, hfloat, hfloat', Bool.false_eq_true, if_false, true_and]
      exact hvalue

/-! ## Values in normal form -/

lemma normalItems_eq (items : List Json) : normalItems format items = items.map (normal format) := by
  induction items with
  | nil => rfl
  | cons item items ih => rw [normalItems, ih, List.map_cons]

lemma normalFields_eq (fields : List (String × Json)) :
    normalFields format fields = fields.map fun field => (field.1, normal format field.2) := by
  induction fields with
  | nil => rfl
  | cons field fields ih => rw [normalFields, ih, List.map_cons]

lemma keys_normalFields (fields : List (String × Json)) :
    (normalFields format fields).map Prod.fst = fields.map Prod.fst := by
  rw [normalFields_eq, List.map_map]
  rfl

lemma writeFields_eq (fields : List (String × Json)) :
    writeFields fields = fields.map fun field => writeString field.1 ++ 58 :: write field.2 := by
  induction fields with
  | nil => rfl
  | cons field fields ih => rw [writeFields, ih, List.map_cons]

lemma readableFields_iff {finite : String → Bool} (fields : List (String × Json)) :
    readableFields finite fields = true ↔ ∀ field ∈ fields, field.2.readable finite = true := by
  induction fields with
  | nil => simp [readableFields]
  | cons field fields ih => simp [readableFields, ih]

lemma readable_object {finite : String → Bool} {fields : List (String × Json)} :
    (Json.object fields).readable finite = true ↔
      (fields.map Prod.fst).Nodup ∧ readableFields finite fields = true := by
  simp [readable]

/-- Members are readable in any order. -/
lemma readableFields_sortKeys {finite : String → Bool} {fields : List (String × Json)}
    (h : readableFields finite fields = true) :
    readableFields finite (sortKeys fields) = true := by
  rw [readableFields_iff] at h ⊢
  intro field hfield
  exact h field ((perm_sortKeys fields).mem_iff.mp hfield)

lemma nodup_sortKeys {fields : List (String × Json)} (h : (fields.map Prod.fst).Nodup) :
    ((sortKeys fields).map Prod.fst).Nodup :=
  ((perm_sortKeys fields).map Prod.fst).nodup_iff.mpr h

/-- Written members are in order where the members are. -/
lemma sorted_written (fields : List (String × Json)) :
    Encoding.sorted (fields.map fun field => (field.1, write field.2)) =
      (sortKeys fields).map fun field => (field.1, write field.2) :=
  (map_sortKeys write fields).symm

section Bytes

variable (sha256 : Bytes → String)

mutual

/-- **The canonical bytes of a value are the text of its normal form.** -/
theorem bytes_normal : ∀ value : Json, value.readable format.finite = true →
    (format.encoding sha256).bytes value = .ok (write (normal format value))
  | .null, _ => rfl
  | .bool true, _ => rfl
  | .bool false, _ => rfl
  | .number text, h => by
      rw [Encoding.bytes, numberText_normal (readable_number.mp h) sha256]
      rfl
  | .string _, _ => rfl
  | .array items, h => by
      rw [Encoding.bytes, bytesItems_normal items h, ok_bind]
      rfl
  | .object fields, h => by
      rw [Encoding.bytes, bytesFields_normal fields (readable_object.mp h).2, ok_bind,
        sorted_written, List.map_map, normal, write, writeFields_eq]
      rfl

lemma bytesItems_normal : ∀ items : List Json, readableItems format.finite items = true →
    (format.encoding sha256).bytesItems items = .ok (writeItems (normalItems format items))
  | [], _ => rfl
  | item :: items, h => by
      obtain ⟨hitem, hitems⟩ := Bool.and_eq_true_iff.mp h
      rw [Encoding.bytesItems, bytes_normal item hitem, ok_bind, bytesItems_normal items hitems,
        ok_bind]
      rfl

lemma bytesFields_normal : ∀ fields : List (String × Json),
    readableFields format.finite fields = true →
      (format.encoding sha256).bytesFields fields =
        .ok ((normalFields format fields).map fun field => (field.1, write field.2))
  | [], _ => rfl
  | (key, value) :: fields, h => by
      obtain ⟨hvalue, hfields⟩ := Bool.and_eq_true_iff.mp h
      rw [Encoding.bytesFields, bytes_normal value hvalue, ok_bind,
        bytesFields_normal fields hfields, ok_bind]
      rfl

end

end Bytes

mutual

/-- The normal form of a readable value can be read. -/
lemma readable_normal : ∀ value : Json, value.readable format.finite = true →
    (normal format value).readable format.finite = true
  | .null, _ => rfl
  | .bool _, _ => rfl
  | .number _, h => readable_number.mpr (readable_normalNumber (readable_number.mp h))
  | .string _, _ => rfl
  | .array items, h => readableItems_normal items h
  | .object fields, h => by
      obtain ⟨hkeys, hfields⟩ := readable_object.mp h
      rw [← @keys_normalFields _ format] at hkeys
      exact readable_object.mpr ⟨nodup_sortKeys hkeys,
        readableFields_sortKeys (readableFields_normal fields hfields)⟩

lemma readableItems_normal : ∀ items : List Json, readableItems format.finite items = true →
    readableItems format.finite (normalItems format items) = true
  | [], _ => rfl
  | item :: items, h => by
      obtain ⟨hitem, hitems⟩ := Bool.and_eq_true_iff.mp h
      rw [normalItems, readableItems, readable_normal item hitem, readableItems_normal items hitems]
      rfl

lemma readableFields_normal : ∀ fields : List (String × Json),
    readableFields format.finite fields = true →
      readableFields format.finite (normalFields format fields) = true
  | [], _ => rfl
  | (key, value) :: fields, h => by
      obtain ⟨hvalue, hfields⟩ := Bool.and_eq_true_iff.mp h
      rw [normalFields, readableFields, readable_normal value hvalue,
        readableFields_normal fields hfields]
      rfl

end

mutual

/-- The normal form is its own. -/
lemma normal_normal : ∀ value : Json, value.readable format.finite = true →
    normal format (normal format value) = normal format value
  | .null, _ => rfl
  | .bool _, _ => rfl
  | .number text, h => by
      rw [normal, normal, normalNumber_normalNumber (readable_number.mp h)]
  | .string _, _ => rfl
  | .array items, h => by
      rw [normal, normal, normalItems_normalItems items h]
  | .object fields, h => by
      rw [normal, normal, normalFields_eq (sortKeys _), map_sortKeys, ← normalFields_eq,
        normalFields_normalFields fields (readable_object.mp h).2, sortKeys_sortKeys]

lemma normalItems_normalItems : ∀ items : List Json, readableItems format.finite items = true →
    normalItems format (normalItems format items) = normalItems format items
  | [], _ => rfl
  | item :: items, h => by
      obtain ⟨hitem, hitems⟩ := Bool.and_eq_true_iff.mp h
      rw [normalItems, normalItems, normal_normal item hitem, normalItems_normalItems items hitems]

lemma normalFields_normalFields : ∀ fields : List (String × Json),
    readableFields format.finite fields = true →
      normalFields format (normalFields format fields) = normalFields format fields
  | [], _ => rfl
  | (key, value) :: fields, h => by
      obtain ⟨hvalue, hfields⟩ := Bool.and_eq_true_iff.mp h
      rw [normalFields, normalFields, normal_normal value hvalue,
        normalFields_normalFields fields hfields]

end

/-! ## Equality up to order and spelling -/

/-- The members of an object are the one under a key and the others. -/
lemma perm_remove {key : String} {value : Json} {fields : List (String × Json)}
    (hkeys : (fields.map Prod.fst).Nodup) (h : Fields.get fields key = some value) :
    fields.Perm ((key, value) :: Fields.remove fields key) := by
  induction fields with
  | nil => cases h
  | cons field fields ih =>
    obtain ⟨k, v⟩ := field
    rw [List.map_cons, List.nodup_cons] at hkeys
    rw [Fields.get_cons] at h
    split_ifs at h with hk
    · obtain rfl := Option.some.inj h
      obtain rfl := hk
      -- No other member has this key, so removing it keeps the rest.
      have hrest : Fields.remove ((key, v) :: fields) key = fields := by
        rw [Fields.remove, List.filter_cons_of_neg (by simp), List.filter_eq_self]
        intro field hfield
        refine decide_eq_true ?_
        rintro rfl
        exact hkeys.1 (List.mem_map.mpr ⟨field, hfield, rfl⟩)
      rw [hrest]
    · have hrest : Fields.remove ((k, v) :: fields) key = (k, v) :: Fields.remove fields key := by
        rw [Fields.remove, List.filter_cons_of_pos (by simpa using Ne.symm hk)]
        rfl
      rw [hrest]
      exact ((ih hkeys.2 h).cons (k, v)).trans (List.Perm.swap _ _ _)

lemma nodup_remove {fields : List (String × Json)} (h : (fields.map Prod.fst).Nodup)
    (key : String) : ((Fields.remove fields key).map Prod.fst).Nodup :=
  h.sublist (List.filter_sublist.map _)

lemma readableFields_remove {finite : String → Bool} {fields : List (String × Json)}
    (h : readableFields finite fields = true) (key : String) :
    readableFields finite (Fields.remove fields key) = true := by
  rw [readableFields_iff] at h ⊢
  intro field hfield
  exact h field (List.mem_of_mem_filter hfield)

mutual

/-- **Two values have one normal form** exactly when they are the same up to the order of members
and the spelling of numbers. -/
theorem normal_eq_iff : ∀ first second : Json, first.readable format.finite = true →
    second.readable format.finite = true →
      (normal format first = normal format second ↔ same format first second)
  | .null, second, _, _ => by cases second <;> simp [normal, same]
  | .bool _, second, _, _ => by cases second <;> simp [normal, same]
  | .number first, second, hfirst, hsecond => by
      cases second with
      | number second =>
        rw [normal, normal, same, Json.number.injEq]
        exact normalNumber_eq_iff (readable_number.mp hfirst) (readable_number.mp hsecond)
      | _ => simp [normal, same]
  | .string _, second, _, _ => by cases second <;> simp [normal, same]
  | .array items, second, hfirst, hsecond => by
      cases second with
      | array others =>
        rw [normal, normal, same, Json.array.injEq]
        exact normalItems_eq_iff items others hfirst hsecond
      | _ => simp [normal, same]
  | .object fields, second, hfirst, hsecond => by
      cases second with
      | object others =>
        obtain ⟨hkeys, hfields⟩ := readable_object.mp hfirst
        obtain ⟨hkeys', hothers⟩ := readable_object.mp hsecond
        have hnormal := hkeys
        rw [← @keys_normalFields _ format] at hnormal
        rw [normal, normal, same, Json.object.injEq, sortKeys_eq_iff hnormal]
        exact normalFields_perm_iff fields others hkeys hkeys' hfields hothers
      | _ => simp [normal, same]

lemma normalItems_eq_iff : ∀ items others : List Json,
    readableItems format.finite items = true → readableItems format.finite others = true →
      (normalItems format items = normalItems format others ↔ sameItems format items others)
  | [], others, _, _ => by cases others <;> simp [normalItems, sameItems]
  | item :: items, [], _, _ => by simp [normalItems, sameItems]
  | item :: items, other :: others, hfirst, hsecond => by
      obtain ⟨hitem, hitems⟩ := Bool.and_eq_true_iff.mp hfirst
      obtain ⟨hother, hothers⟩ := Bool.and_eq_true_iff.mp hsecond
      rw [normalItems, normalItems, sameItems, List.cons.injEq,
        normal_eq_iff item other hitem hother, normalItems_eq_iff items others hitems hothers]

lemma normalFields_perm_iff : ∀ fields others : List (String × Json),
    (fields.map Prod.fst).Nodup → (others.map Prod.fst).Nodup →
      readableFields format.finite fields = true → readableFields format.finite others = true →
        ((normalFields format fields).Perm (normalFields format others) ↔
          sameFields format fields others)
  | [], others, _, _, _, _ => by
      rw [normalFields, sameFields, List.nil_perm, normalFields_eq, List.map_eq_nil_iff]
  | (key, value) :: fields, others, hkeys, hkeys', hfields, hothers => by
      obtain ⟨hvalue, hfields⟩ := Bool.and_eq_true_iff.mp hfields
      rw [List.map_cons, List.nodup_cons] at hkeys
      have hrest (other : Json) (hget : Fields.get others key = some other) :
          (normalFields format others).Perm
            ((key, normal format other) :: normalFields format (Fields.remove others key)) := by
        have hperm := (perm_remove hkeys' hget).map fun field => (field.1, normal format field.2)
        rwa [← normalFields_eq, List.map_cons, ← normalFields_eq] at hperm
      have hstep (other : Json) (hget : Fields.get others key = some other) :=
        And.intro
          (normal_eq_iff value other hvalue ((readableFields_iff others).mp hothers (key, other)
            ((lookup_eq_some_iff hkeys').mp hget)))
          (normalFields_perm_iff fields (Fields.remove others key) hkeys.2
            (nodup_remove hkeys' key) hfields (readableFields_remove hothers key))
      rw [normalFields, sameFields]
      constructor
      · intro hperm
        have hmem : (key, normal format value) ∈ normalFields format others :=
          hperm.mem_iff.mp (by simp)
        rw [normalFields_eq, List.mem_map] at hmem
        obtain ⟨⟨k, other⟩, hmem, heq⟩ := hmem
        obtain ⟨rfl, hnormal⟩ := Prod.mk.inj heq
        have hget : Fields.get others k = some other := (lookup_eq_some_iff hkeys').mpr hmem
        obtain ⟨hvalues, hperms⟩ := hstep other hget
        refine ⟨other, hget, hvalues.mp hnormal.symm, hperms.mp ?_⟩
        have hboth := hperm.trans (hrest other hget)
        rw [hnormal] at hboth
        exact hboth.cons_inv
      · rintro ⟨other, hget, hsame, hsameFields⟩
        obtain ⟨hvalues, hperms⟩ := hstep other hget
        rw [hvalues.mpr hsame]
        exact ((hperms.mpr hsameFields).cons _).trans (hrest other hget).symm

end

/-! ## Depth and nodes -/

lemma depthFields_perm {first second : List (String × Json)} (h : first.Perm second) :
    depthFields first = depthFields second := by
  induction h with
  | nil => rfl
  | cons field _ ih => rw [depthFields, depthFields, ih]
  | swap first second rest =>
    rw [depthFields, depthFields, depthFields, depthFields, Nat.max_left_comm]
  | trans _ _ hfirst hsecond => rw [hfirst, hsecond]

lemma nodesFields_perm {first second : List (String × Json)} (h : first.Perm second) :
    nodesFields first = nodesFields second := by
  induction h with
  | nil => rfl
  | cons field _ ih => rw [nodesFields, nodesFields, ih]
  | swap first second rest =>
    rw [nodesFields, nodesFields, nodesFields, nodesFields]
    omega
  | trans _ _ hfirst hsecond => rw [hfirst, hsecond]

mutual

/-- The normal form is as deep as the value, and has as many nodes. -/
lemma size_normal : ∀ value : Json,
    (normal format value).depth = value.depth ∧ (normal format value).nodes = value.nodes
  | .null => ⟨rfl, rfl⟩
  | .bool _ => ⟨rfl, rfl⟩
  | .number _ => ⟨rfl, rfl⟩
  | .string _ => ⟨rfl, rfl⟩
  | .array items => by
      obtain ⟨hdepth, hnodes⟩ := size_normalItems items
      rw [normal, depth, depth, nodes, nodes, hdepth, hnodes]
      exact ⟨rfl, rfl⟩
  | .object fields => by
      obtain ⟨hdepth, hnodes⟩ := size_normalFields fields
      have hperm := perm_sortKeys (normalFields format fields)
      rw [normal, depth, depth, nodes, nodes, depthFields_perm hperm, nodesFields_perm hperm,
        hdepth, hnodes]
      exact ⟨rfl, rfl⟩

lemma size_normalItems : ∀ items : List Json,
    depthItems (normalItems format items) = depthItems items ∧
      nodesItems (normalItems format items) = nodesItems items
  | [] => ⟨rfl, rfl⟩
  | item :: items => by
      obtain ⟨hdepth, hnodes⟩ := size_normal item
      obtain ⟨hdepths, hnodess⟩ := size_normalItems items
      rw [normalItems, depthItems, depthItems, nodesItems, nodesItems, hdepth, hnodes, hdepths,
        hnodess]
      exact ⟨rfl, rfl⟩

lemma size_normalFields : ∀ fields : List (String × Json),
    depthFields (normalFields format fields) = depthFields fields ∧
      nodesFields (normalFields format fields) = nodesFields fields
  | [] => ⟨rfl, rfl⟩
  | (key, value) :: fields => by
      obtain ⟨hdepth, hnodes⟩ := size_normal value
      obtain ⟨hdepths, hnodess⟩ := size_normalFields fields
      rw [normalFields, depthFields, depthFields, nodesFields, nodesFields, hdepth, hnodes, hdepths,
        hnodess]
      exact ⟨rfl, rfl⟩

end

end Json

/-! ## What the bytes decide -/

/-- Two readable values with one text are one value. -/
lemma Reader.write_injective {finite : String → Bool} {first second : Json}
    (hfirst : first.readable finite = true) (hsecond : second.readable finite = true)
    (h : first.write = second.write) : first = second := by
  have hread := Reader.value_write first (max first.depth second.depth)
    (max first.nodes second.nodes) hfirst (le_max_left _ _) (le_max_left _ _)
  have hread' := Reader.value_write second (max first.depth second.depth)
    (max first.nodes second.nodes) hsecond (le_max_right _ _) (le_max_right _ _)
  rw [h, hread'] at hread
  exact (Prod.mk.inj (Except.ok.inj hread)).1.symm

namespace Encoding

variable {F : Type} {format : FloatFormat F} (sha256 : Bytes → String)

/-- Two values have the same bytes exactly when they have one normal form. -/
lemma bytes_eq_iff {first second : Json} (hfirst : first.readable format.finite = true)
    (hsecond : second.readable format.finite = true) :
    (format.encoding sha256).bytes first = (format.encoding sha256).bytes second ↔
      Json.same format first second := by
  rw [Json.bytes_normal sha256 first hfirst, Json.bytes_normal sha256 second hsecond,
    Except.ok.injEq, ← Json.normal_eq_iff first second hfirst hsecond]
  constructor
  · intro heq
    exact Reader.write_injective (Json.readable_normal first hfirst)
      (Json.readable_normal second hsecond) heq
  · intro heq
    rw [heq]

/-- **Canonical bytes decide equality.** Values with finite numbers have the same canonical bytes
exactly when they are the same up to the order of members and the spelling of numbers; and a reader
that goes deep enough reads the bytes of such a value as one with the same bytes. -/
theorem canonical_decides {F : Type} (format : FloatFormat F) (sha256 : Bytes → String) :
    (∀ first second : Json, first.readable format.finite = true →
      second.readable format.finite = true →
        ((∃ written, (format.encoding sha256).bytes first = .ok written ∧
          (format.encoding sha256).bytes second = .ok written) ↔
            Json.same format first second)) ∧
    ∀ value : Json, value.readable format.finite = true →
      ∃ written, (format.encoding sha256).bytes value = .ok written ∧
        ∀ levels remaining, value.depth ≤ levels → value.nodes ≤ remaining →
          ∃ read, Reader.value format.finite levels written remaining =
              .ok (read, remaining - value.nodes) ∧
            (format.encoding sha256).bytes read = .ok written := by
  refine ⟨?_, ?_⟩
  · intro first second hfirst hsecond
    rw [← bytes_eq_iff sha256 hfirst hsecond, Json.bytes_normal sha256 first hfirst]
    simp [eq_comm]
  · intro value hvalue
    have hnormal := Json.readable_normal value hvalue
    obtain ⟨hdepth, hnodes⟩ := @Json.size_normal _ format value
    refine ⟨_, Json.bytes_normal sha256 value hvalue, ?_⟩
    intro levels remaining hlevels hremaining
    refine ⟨Json.normal format value, ?_, ?_⟩
    · rw [← hnodes]
      exact Reader.value_write _ levels remaining hnormal (by omega) (by omega)
    · rw [Json.bytes_normal sha256 _ hnormal, Json.normal_normal value hvalue]

/-! ## A sampled format -/

/-- The floats of the sample. -/
inductive SampleFloat
  | zero
  | negativeZero
  | threeHalves
  | infinity
  deriving DecidableEq, Repr

/-- Three spellings of two floats. Any other text is out of range. -/
def SampleFloat.read (text : String) : SampleFloat :=
  if text = "0.0" then .zero
  else if text = "-0.0" then .negativeZero
  else if text = "1.5" ∨ text = "1.50" then .threeHalves
  else .infinity

def SampleFloat.print : SampleFloat → Option String
  | .zero => some "0.0"
  | .negativeZero => some "-0.0"
  | .threeHalves => some "1.5"
  | .infinity => none

def SampleFloat.unsigned : SampleFloat → SampleFloat
  | .negativeZero => .zero
  | float => float

def sampleFormat : FloatFormat SampleFloat where
  read := SampleFloat.read
  print := SampleFloat.print
  unsigned := SampleFloat.unsigned
  read_print {x text} h := by cases x <;> cases h <;> decide
  isNumber_print {x text} h := by cases x <;> cases h <;> decide
  isFloat_print {x text} h := by cases x <;> cases h <;> decide
  unsigned_unsigned x := by cases x <;> rfl
  print_unsigned x := by cases x <;> rfl

/-- One value in two spellings. -/
def sampleFirst : Json := .object [("b", .number "1.50"), ("a", .array [.number "-0"])]
def sampleSecond : Json := .object [("a", .array [.number "0"]), ("b", .number "1.5")]

theorem canonical_decides_sampled :
    ∃ written, (sampleFormat.encoding fun _ => "").bytes sampleFirst = .ok written ∧
      (sampleFormat.encoding fun _ => "").bytes sampleSecond = .ok written := by
  have hzero : Json.sameNumber sampleFormat "-0" "0" := by
    rw [Json.sameNumber, if_neg (by decide)]
    exact ⟨by decide, by decide⟩
  have hfloat : Json.sameNumber sampleFormat "1.50" "1.5" := by
    rw [Json.sameNumber, if_pos (by decide)]
    exact ⟨by decide, by decide⟩
  refine ((canonical_decides sampleFormat fun _ => "").1 sampleFirst sampleSecond
    (by decide +kernel) (by decide +kernel)).mpr ?_
  exact ⟨.number "1.5", rfl, hfloat, .array [.number "0"], rfl, ⟨hzero, trivial⟩, rfl⟩

end Encoding

end ExperimentControl
