import ExperimentControl.Json.Equality
import ExperimentControl.Json.Literals
import ExperimentControl.Library.Floats

/-!
# Numbers of metrics

How the numbers of a record are ordered and told apart, of the first part of
`core/src/metrics/result.rs`: an integer by its digits, an integral float by the digits of its value,
and any other float by its bits.

* `parseFloat`, `asF64` — the float of a number text.
* `atom`, `numericCompare`, `numericEqual` — the functions of the source.
* `exactValue` — the rational number a number text stands for.
* **`numericCompare_exact`** — numbers are compared as the rational numbers they stand for.
-/

namespace ExperimentControl

namespace Metrics

inductive MetricError
  | schema
  | record
  deriving DecidableEq, Repr

/-! ## Floats of number texts -/

/-- The exponent behind the mark of a number text. -/
def parseExponent : List Char → ℤ
  | [] => 0
  | _ :: '-' :: digits => -(Nat.ofDigitChars 10 digits 0 : ℤ)
  | _ :: '+' :: digits => Nat.ofDigitChars 10 digits 0
  | _ :: digits => Nat.ofDigitChars 10 digits 0

def parseUnsigned (chars : List Char) : F64 :=
  let whole := chars.takeWhile Char.isDigit
  let rest := chars.dropWhile Char.isDigit
  let fraction := if rest.head? = some '.' then rest.tail.takeWhile Char.isDigit else []
  let rest := if rest.head? = some '.' then rest.tail.dropWhile Char.isDigit else rest
  Float.Model.ofScientific (Nat.ofDigitChars 10 (whole ++ fraction) 0)
    (parseExponent rest - fraction.length)

/-- `parse::<f64>` of a JSON number: the nearest float, an infinity where that is out of range. -/
def parseFloat (text : String) : F64 :=
  match text.toList with
  | '-' :: chars => (parseUnsigned chars).neg
  | chars => parseUnsigned chars

/-- `Number::as_f64`. -/
def asF64 (text : String) : Option F64 :=
  if (parseFloat text).isFinite then some (parseFloat text) else none

/-- The sixteen hexadecimal digits of some bits. -/
def hexBits (bits : UInt64) : List Char :=
  (List.range 16).reverse.map fun k => Nat.digitChar (bits.toNat / 16 ^ k % 16)

/-! ## Atoms -/

inductive Atom
  | null
  | number (key : String)
  | text (value : String)
  deriving DecidableEq, Repr

/-- The key of a float: its digits where nothing is behind the point, and otherwise its bits. -/
def floatKey (value : F64) : String :=
  if value.scaled = 0 then "0"
  else if value.isIntegral then value.floor.repr
  else "fraction:" ++ String.ofList (hexBits value.toBits)

def atom : Json → Except MetricError Atom
  | .null => .ok .null
  | .bool value => .ok (.number (if value then "1" else "0"))
  | .string value => .ok (.text value)
  | .number text =>
      if Reader.isFloat text then
        match asF64 text with
        | some value => .ok (.number (floatKey value))
        | none => .error .record
      else .ok (.number (if text = "-0" then "0" else text))
  | _ => .error .record

/-! ## Comparison -/

def integerCmp (left right : String) : Ordering :=
  let negativeLeft := left.toList.head? = some '-'
  let negativeRight := right.toList.head? = some '-'
  if decide negativeLeft ≠ decide negativeRight then
    if negativeLeft then .lt else .gt
  else
    let left := String.ofList (left.toList.dropWhile (· = '-'))
    let right := String.ofList (right.toList.dropWhile (· = '-'))
    let result := (compare (byteLen left) (byteLen right)).then (compare left right)
    if negativeLeft then result.swap else result

/-- `starts_with("fraction:")`. -/
def isFraction (key : String) : Bool := "fraction:".toList.isPrefixOf key.toList

def numberKey (value : Json) : Except MetricError String := do
  match ← atom value with
  | .number key => .ok key
  | _ => .error .record

/-- `Value::as_f64`. -/
def valueAsF64 : Json → Option F64
  | .number text => asF64 text
  | _ => none

/-- A float with something behind the point, and an integer: it is never the same. -/
def compareFloor (left : Json) (rightKey : String) : Option Ordering := do
  let floor := (← valueAsF64 left).floor.repr
  let result := integerCmp floor rightKey
  return if result = .eq then .gt else result

/-- Two floats with something behind the point. -/
def comparePartial (left right : Json) : Option Ordering := do
  (← valueAsF64 left).compare (← valueAsF64 right)

/-- `unwrap`, which is not reached without a value. -/
def unwrap (result : Option Ordering) : Except MetricError Ordering :=
  result.elim (.error .record) .ok

def numericCompare (left right : Json) : Except MetricError Ordering := do
  let leftKey ← numberKey left
  let rightKey ← numberKey right
  match isFraction leftKey, isFraction rightKey with
  | false, false => .ok (integerCmp leftKey rightKey)
  | true, true => unwrap (comparePartial left right)
  | true, false => unwrap (compareFloor left rightKey)
  -- the same call with the arguments exchanged
  | false, true => unwrap ((compareFloor right leftKey).map Ordering.swap)

def isNumeric : Json → Bool
  | .number _ => true
  | .bool _ => true
  | _ => false

def numericEqual (left right : Json) : Bool :=
  if ¬isNumeric left ∨ ¬isNumeric right then false
  else match atom left, atom right with
    | .ok left, .ok right => left = right
    | _, _ => false

/-! ## What a number stands for -/

/-- The rational number of a number text: that of its float, where it is the text of one. -/
def exactValue (text : String) : ℚ :=
  if Reader.isFloat text then (parseFloat text).value else Json.integer text

/-- A JSON number, and not one that is read as an infinity. -/
def FiniteNumber (text : String) : Prop :=
  Syntax.isNumber text = true ∧ (Reader.isFloat text = true → (parseFloat text).isFinite = true)

instance (text : String) : Decidable (FiniteNumber text) := inferInstanceAs (Decidable (_ ∧ _))

/-! ## Digits -/

/-- A text with fewer digits is that of a smaller number. -/
lemma lt_of_length_toDigits {a b : ℕ}
    (shorter : (Nat.toDigits 10 a).length < (Nat.toDigits 10 b).length) : a < b := by
  by_contra least
  have few := (Nat.length_toDigits_le_iff (b := 10) (by decide) Nat.length_toDigits_pos).mp
    (le_refl (Nat.toDigits 10 a).length)
  have fits := (Nat.length_toDigits_le_iff (b := 10) (by decide)
    (@Nat.length_toDigits_pos 10 a)).mpr (lt_of_le_of_lt (not_lt.mp least) few)
  omega

lemma ofDigitChars_cons_digitChar {d : ℕ} (small : d < 10) (xs : List Char) :
    Nat.ofDigitChars 10 (Nat.digitChar d :: xs) 0 =
      10 ^ xs.length * d + Nat.ofDigitChars 10 xs 0 := by
  rw [Nat.ofDigitChars_cons_digitChar_of_lt_ten small, Nat.ofDigitChars_eq_ofDigitChars_zero,
    Nat.mul_zero, Nat.zero_add]

lemma ofDigitChars_lt {xs : List Char} (digits : ∀ c ∈ xs, c.isDigit = true) :
    Nat.ofDigitChars 10 xs 0 < 10 ^ xs.length := by
  induction xs with
  | nil => simp
  | cons c xs ih =>
    have ⟨d, small, is⟩ := isDigit_cases (digits c List.mem_cons_self)
    have rest := ih fun c there => digits c (List.mem_cons_of_mem _ there)
    rw [is, ofDigitChars_cons_digitChar small, List.length_cons, pow_succ]
    have bound : 10 ^ xs.length * d ≤ 10 ^ xs.length * 9 := Nat.mul_le_mul_left _ (by omega)
    omega

/-- Digits of one length are ordered as the numbers they stand for. -/
lemma lt_iff_of_length {xs ys : List Char} (digits : ∀ c ∈ xs, c.isDigit = true)
    (digits' : ∀ c ∈ ys, c.isDigit = true) (same : xs.length = ys.length) :
    xs < ys ↔ Nat.ofDigitChars 10 xs 0 < Nat.ofDigitChars 10 ys 0 := by
  induction xs generalizing ys with
  | nil =>
    rw [List.length_nil, eq_comm, List.length_eq_zero_iff] at same
    rw [same]
    simp
  | cons c xs ih =>
    cases ys with
    | nil => simp at same
    | cons d ys =>
      have same' : xs.length = ys.length := by simpa using same
      have below := fun c there => digits c (List.mem_cons_of_mem _ there)
      have below' := fun c there => digits' c (List.mem_cons_of_mem _ there)
      have rest := ih below below' same'
      have first := ofDigitChars_lt below
      have second := ofDigitChars_lt below'
      have ⟨a, small, is⟩ := isDigit_cases (digits c List.mem_cons_self)
      have ⟨b, small', is'⟩ := isDigit_cases (digits' d List.mem_cons_self)
      have heads : ∀ a < 10, ∀ b < 10, (Nat.digitChar a < Nat.digitChar b ↔ a < b) ∧
          (Nat.digitChar a = Nat.digitChar b ↔ a = b) := by decide
      have ⟨less, equal⟩ := heads a small b small'
      rw [is, is', List.cons_lt_cons_iff, less, equal, rest, ofDigitChars_cons_digitChar small,
        ofDigitChars_cons_digitChar small', same']
      rw [same'] at first
      constructor
      · rintro (smaller | ⟨rfl, smaller⟩)
        · have gap : 10 ^ ys.length * (a + 1) ≤ 10 ^ ys.length * b := Nat.mul_le_mul_left _ smaller
          rw [Nat.mul_succ] at gap
          omega
        · omega
      · intro smaller
        rcases lt_trichotomy a b with before | same | after
        · exact Or.inl before
        · subst same
          exact Or.inr ⟨rfl, by omega⟩
        · have gap : 10 ^ ys.length * (b + 1) ≤ 10 ^ ys.length * a := Nat.mul_le_mul_left _ after
          rw [Nat.mul_succ] at gap
          omega

lemma isDigit_toDigits {n : ℕ} {c : Char} (there : c ∈ Nat.toDigits 10 n) : c.isDigit = true :=
  Nat.isDigit_of_mem_toDigits (by decide) (by decide) there

/-- **Numbers are ordered by the length of their texts**, and by the texts where these are as long. -/
lemma compare_toDigits (a b : ℕ) :
    (compare (Nat.toDigits 10 a).length (Nat.toDigits 10 b).length).then
      (compare (String.ofList (Nat.toDigits 10 a)) (String.ofList (Nat.toDigits 10 b))) =
      compare a b := by
  rcases lt_trichotomy (Nat.toDigits 10 a).length (Nat.toDigits 10 b).length with less | same | more
  · rw [compare_lt_iff_lt.mpr less, compare_lt_iff_lt.mpr (lt_of_length_toDigits less)]
    rfl
  · have ordered := lt_iff_of_length (fun c => @isDigit_toDigits a c)
      (fun c => @isDigit_toDigits b c) same
    rw [Nat.ofDigitChars_ten_toDigits, Nat.ofDigitChars_ten_toDigits] at ordered
    have texts : String.ofList (Nat.toDigits 10 a) < String.ofList (Nat.toDigits 10 b) ↔ a < b := by
      rw [String.lt_iff, String.toList_ofList, String.toList_ofList, ordered]
    have equal : String.ofList (Nat.toDigits 10 a) = String.ofList (Nat.toDigits 10 b) ↔ a = b := by
      rw [String.ofList_inj]
      refine ⟨fun digits => ?_, fun numbers => by rw [numbers]⟩
      rw [← @Nat.ofDigitChars_ten_toDigits a, digits, Nat.ofDigitChars_ten_toDigits]
    rw [compare_eq_iff_eq.mpr same]
    change String.compare _ _ = compareOfLessAndEq a b
    simp only [String.compare, compareOfLessAndEq, texts, equal]
  · rw [compare_gt_iff_gt.mpr more, compare_gt_iff_gt.mpr (lt_of_length_toDigits more)]
    rfl

/-! ## Integers -/

lemma toList_repr (a : ℤ) : a.repr.toList =
    if 0 ≤ a then Nat.toDigits 10 a.toNat else '-' :: Nat.toDigits 10 (-a).toNat := by
  rw [Int.repr_eq_if]
  split_ifs
  · exact Nat.toList_repr
  · rw [String.toList_append, Nat.toList_repr]
    rfl

lemma head_toDigits (n : ℕ) : (Nat.toDigits 10 n).head? ≠ some '-' := by
  intro minus
  have digit := isDigit_toDigits (List.mem_of_head? minus)
  exact absurd digit (by decide)

lemma dropWhile_toDigits (n : ℕ) :
    (Nat.toDigits 10 n).dropWhile (fun c => decide (c = '-')) = Nat.toDigits 10 n := by
  have head := head_toDigits n
  cases digits : Nat.toDigits 10 n with
  | nil => rfl
  | cons c rest =>
    rw [digits, List.head?_cons, Ne, Option.some.injEq] at head
    rw [List.dropWhile_cons, if_neg (by simpa using head)]

lemma byteLen_toDigits (n : ℕ) :
    byteLen (String.ofList (Nat.toDigits 10 n)) = (Nat.toDigits 10 n).length := by
  refine byteLen_ofList (List.all_eq_true.mpr fun c there => ?_)
  have ⟨d, small, is⟩ := isDigit_cases (isDigit_toDigits there)
  have digits : ∀ d < 10, isIdChar (Nat.digitChar d) = true := by decide
  rw [is]
  exact digits d small

/-- The texts of numbers with one sign, or with none, compare as their digits. -/
lemma integerCmp_unsigned {left right : String} {m n : ℕ} (first : left.toList = Nat.toDigits 10 m)
    (second : right.toList = Nat.toDigits 10 n) : integerCmp left right = compare m n := by
  simp only [integerCmp, first, second, head_toDigits, dropWhile_toDigits, byteLen_toDigits,
    compare_toDigits]
  rfl

lemma integerCmp_signed {left right : String} {m n : ℕ}
    (first : left.toList = '-' :: Nat.toDigits 10 m)
    (second : right.toList = '-' :: Nat.toDigits 10 n) :
    integerCmp left right = (compare m n).swap := by
  have minus : ∀ k : ℕ, ('-' :: Nat.toDigits 10 k).dropWhile (fun c => decide (c = '-')) =
      Nat.toDigits 10 k := by
    intro k
    rw [List.dropWhile_cons, if_pos (by simp), dropWhile_toDigits]
  simp only [integerCmp, first, second, List.head?_cons, minus, byteLen_toDigits, compare_toDigits]
  rfl

/-- **Integers compare by their texts.** -/
lemma integerCmp_repr (a b : ℤ) : integerCmp a.repr b.repr = compare a b := by
  have left := toList_repr a
  have right := toList_repr b
  by_cases first : 0 ≤ a
  · rw [if_pos first] at left
    by_cases second : 0 ≤ b
    · rw [if_pos second] at right
      rw [integerCmp_unsigned left right]
      simp only [compare, compareOfLessAndEq]
      grind
    · rw [if_neg second] at right
      have above : compare a b = .gt := compare_gt_iff_gt.mpr (by omega)
      simp only [integerCmp, left, right, head_toDigits, List.head?_cons, above]
      rfl
  · rw [if_neg first] at left
    by_cases second : 0 ≤ b
    · rw [if_pos second] at right
      have below : compare a b = .lt := compare_lt_iff_lt.mpr (by omega)
      simp only [integerCmp, left, right, head_toDigits, List.head?_cons, below]
      rfl
    · rw [if_neg second] at right
      rw [integerCmp_signed left right, Nat.compare_swap]
      simp only [compare, compareOfLessAndEq]
      grind

/-! ## Keys -/

lemma isFraction_repr (a : ℤ) : isFraction a.repr = false := by
  rw [isFraction, toList_repr]
  split_ifs
  · cases digits : Nat.toDigits 10 a.toNat with
    | nil => rfl
    | cons c rest =>
      have digit := @isDigit_toDigits a.toNat c (by rw [digits]; exact List.mem_cons_self)
      have other : 'f' ≠ c := by
        intro same
        rw [← same] at digit
        exact absurd digit (by decide)
      simp [List.isPrefixOf, other]
  · simp [List.isPrefixOf]

lemma isFraction_fraction (text : String) : isFraction ("fraction:" ++ text) = true := by
  rw [isFraction, String.toList_append, List.isPrefixOf_iff_prefix]
  exact List.prefix_append _ _

/-- The digits tell the bits. -/
lemma hexBits_inj {x y : UInt64} (same : hexBits x = hexBits y) : x = y := by
  have digits : ∀ d < 16, ∀ e < 16, Nat.digitChar d = Nat.digitChar e → d = e := by decide
  have each : ∀ k < 16, x.toNat / 16 ^ k % 16 = y.toNat / 16 ^ k % 16 := by
    intro k small
    have there : k ∈ (List.range 16).reverse := List.mem_reverse.mpr (List.mem_range.mpr small)
    exact digits _ (Nat.mod_lt _ (by decide)) _ (Nat.mod_lt _ (by decide))
      (List.map_inj_left.mp same k there)
  have bound := x.toNat_lt
  have bound' := y.toNat_lt
  refine UInt64.toNat_inj.mp ?_
  have parts : ∀ n k : ℕ, n < 16 ^ k → (∀ m : ℕ, m < 16 ^ k →
      (∀ i < k, n / 16 ^ i % 16 = m / 16 ^ i % 16) → n = m) := by
    intro n k
    induction k generalizing n with
    | zero =>
      intro small m small' _
      omega
    | succ k ih =>
      intro small m small' equal
      rw [pow_succ] at small small'
      have low := equal 0 (by omega)
      have high := ih (n / 16) (by omega) (m / 16) (by omega) fun i below => by
        have next := equal (i + 1) (by omega)
        rwa [pow_succ', ← Nat.div_div_eq_div_mul, ← Nat.div_div_eq_div_mul] at next
      rw [pow_zero, Nat.div_one, Nat.div_one] at low
      omega
  exact parts _ 16 (lt_of_lt_of_eq bound (by decide)) _ (lt_of_lt_of_eq bound' (by decide)) each

/-- What the key of a number is: the text of an integer, or the bits of a float that is none. -/
inductive Key (text : String) : String → Prop
  | integer (n : ℤ) (value : exactValue text = n) : Key text n.repr
  | fraction (float : asF64 text = some (parseFloat text)) (fraction : (parseFloat text).isIntegral = false)
      (value : exactValue text = (parseFloat text).value) :
      Key text ("fraction:" ++ String.ofList (hexBits (parseFloat text).toBits))

/-- The text of an integer is that of its value. -/
lemma repr_integer {text : String} (number : Syntax.isNumber text = true)
    (float : Reader.isFloat text = false) :
    (if text = "-0" then "0" else text) = (Json.integer text).repr := by
  have ⟨digits, decimal, shape⟩ := Json.integer_normal number float
  have back := toDigits_ofDigitChars decimal
  rw [← String.toList_inj, toList_repr]
  rcases shape with ⟨same, value⟩ | ⟨same, positive, value⟩
  · rw [same, value, if_pos (Int.natCast_nonneg _), Int.toNat_natCast, back]
  · rw [same, value, if_neg (by omega), neg_neg, Int.toNat_natCast, back]

/-- **Every finite number has a key.** -/
lemma atom_number {text : String} (finite : FiniteNumber text) :
    ∃ key, atom (.number text) = .ok (.number key) ∧ Key text key := by
  cases float : Reader.isFloat text with
  | false =>
    refine ⟨(Json.integer text).repr, ?_, .integer _ ?_⟩
    · rw [atom, if_neg (by simp [float]), repr_integer finite.1 float]
    · rw [exactValue, if_neg (by simp [float])]
  | true =>
    have read : asF64 text = some (parseFloat text) := if_pos (finite.2 float)
    have exact : exactValue text = (parseFloat text).value := if_pos float
    refine ⟨floatKey (parseFloat text), by rw [atom, if_pos float, read], ?_⟩
    unfold floatKey
    split_ifs with zero integral
    · exact .integer 0 (by rw [exact, F64.value_eq_zero.mpr zero]; rfl)
    · exact .integer _ (by rw [exact, F64.value_of_isIntegral integral])
    · exact .fraction read (by simpa using integral) exact

lemma isFinite_of_asF64 {text : String} (read : asF64 text = some (parseFloat text)) :
    (parseFloat text).isFinite = true := by
  unfold asF64 at read
  split_ifs at read with finite
  exact finite

/-- An integer is not a float with something behind the point. -/
lemma value_ne_integer {value : F64} (fraction : value.isIntegral = false) (n : ℤ) :
    value.value ≠ n := by
  intro same
  have below := F64.floor_lt_value fraction
  have above := F64.value_lt_floor_add_one value
  rw [same] at below above
  have low : value.floor < n := by exact_mod_cast below
  have high : n < value.floor + 1 := by exact_mod_cast above
  omega

lemma repr_inj {n m : ℤ} (same : n.repr = m.repr) : n = m := by
  have equal := integerCmp_repr n m
  rw [same, integerCmp_repr, compare_eq_iff_eq.mpr rfl, eq_comm, compare_eq_iff_eq] at equal
  exact equal

/-- **Keys tell numbers apart**, and nothing else. -/
lemma Key.eq_iff {x y key other : String} (first : Key x key) (second : Key y other) :
    key = other ↔ exactValue x = exactValue y := by
  have apart : ∀ (n : ℤ) (text : String), n.repr ≠ "fraction:" ++ text := by
    intro n text same
    have none := isFraction_repr n
    rw [same, isFraction_fraction] at none
    cases none
  cases first with
  | integer n value =>
    cases second with
    | integer m value' =>
      rw [value, value', Int.cast_inj]
      exact ⟨repr_inj, fun same => by rw [same]⟩
    | fraction read fraction value' =>
      rw [value, value']
      exact ⟨fun same => absurd same (apart _ _),
        fun same => absurd same.symm (value_ne_integer fraction n)⟩
  | fraction read fraction value =>
    cases second with
    | integer m value' =>
      rw [value, value']
      exact ⟨fun same => absurd same.symm (apart _ _),
        fun same => absurd same (value_ne_integer fraction m)⟩
    | fraction read' fraction' value' =>
      rw [value, value']
      constructor
      · intro same
        have digits : hexBits (parseFloat x).toBits = hexBits (parseFloat y).toBits := by
          simpa using congrArg String.toList same
        have bits := hexBits_inj digits
        have floats : parseFloat x = parseFloat y := by
          cases left : parseFloat x
          cases right : parseFloat y
          rw [left, right] at bits
          simpa using bits
        rw [floats]
      · intro same
        have nonzero : (parseFloat x).value ≠ 0 := by
          simpa using value_ne_integer fraction 0
        rw [F64.eq_of_value nonzero same]

/-! ## The comparison is exact -/

lemma compare_cast (n m : ℤ) : compare (n : ℚ) (m : ℚ) = compare n m := by
  rcases lt_trichotomy n m with less | same | more
  · rw [compare_lt_iff_lt.mpr less, compare_lt_iff_lt.mpr (Int.cast_lt.mpr less)]
  · rw [compare_eq_iff_eq.mpr same, compare_eq_iff_eq.mpr (congrArg _ same)]
  · rw [compare_gt_iff_gt.mpr more, compare_gt_iff_gt.mpr (Int.cast_lt.mpr more)]

lemma compareFloor_eq {text : String} (n : ℤ) (read : asF64 text = some (parseFloat text))
    (fraction : (parseFloat text).isIntegral = false) :
    compareFloor (.number text) n.repr = some (compare (parseFloat text).value (n : ℚ)) := by
  have below := F64.floor_lt_value fraction
  have above := F64.value_lt_floor_add_one (parseFloat text)
  have reads : valueAsF64 (.number text) = some (parseFloat text) := read
  unfold compareFloor
  rw [reads]
  simp only [Option.bind_eq_bind, Option.bind_some, integerCmp_repr]
  refine congrArg some ?_
  rcases lt_trichotomy (parseFloat text).floor n with less | same | more
  · have next : (parseFloat text).value < n :=
      lt_of_lt_of_le above (by exact_mod_cast less)
    rw [compare_lt_iff_lt.mpr less, compare_lt_iff_lt.mpr next]
    rfl
  · rw [same] at below
    rw [compare_eq_iff_eq.mpr same, compare_gt_iff_gt.mpr below]
    rfl
  · have next : (n : ℚ) < (parseFloat text).value :=
      lt_trans (by exact_mod_cast more) below
    rw [compare_gt_iff_gt.mpr more, compare_gt_iff_gt.mpr next]
    rfl

lemma comparePartial_eq {x y : String} (read : asF64 x = some (parseFloat x))
    (read' : asF64 y = some (parseFloat y)) : comparePartial (.number x) (.number y) =
      some (compare (parseFloat x).value (parseFloat y).value) := by
  have first : valueAsF64 (.number x) = some (parseFloat x) := read
  have second : valueAsF64 (.number y) = some (parseFloat y) := read'
  have scaled := F64.compare_eq (isFinite_of_asF64 read) (isFinite_of_asF64 read')
  have values : compare (parseFloat x).value (parseFloat y).value =
      compare (parseFloat x).scaled (parseFloat y).scaled := by
    rcases lt_trichotomy (parseFloat x).scaled (parseFloat y).scaled with less | same | more
    · rw [compare_lt_iff_lt.mpr less, compare_lt_iff_lt.mpr (F64.value_lt_iff.mpr less)]
    · rw [compare_eq_iff_eq.mpr same, compare_eq_iff_eq.mpr (F64.value_inj.mpr same)]
    · rw [compare_gt_iff_gt.mpr more, compare_gt_iff_gt.mpr (F64.value_lt_iff.mpr more)]
  unfold comparePartial
  rw [first, second, values, ← scaled]
  rfl

lemma compare_swap (q r : ℚ) : (compare q r).swap = compare r q := by
  rcases lt_trichotomy q r with less | same | more
  · rw [compare_lt_iff_lt.mpr less, compare_gt_iff_gt.mpr less]
    rfl
  · rw [compare_eq_iff_eq.mpr same, compare_eq_iff_eq.mpr same.symm]
    rfl
  · rw [compare_gt_iff_gt.mpr more, compare_lt_iff_lt.mpr more]
    rfl

lemma numericCompare_eq {x y : String} (finite : FiniteNumber x) (other : FiniteNumber y) :
    numericCompare (.number x) (.number y) = .ok (compare (exactValue x) (exactValue y)) := by
  have ⟨key, read, first⟩ := atom_number finite
  have ⟨key', read', second⟩ := atom_number other
  have left : numberKey (.number x) = .ok key := by
    rw [numberKey, read]
    rfl
  have right : numberKey (.number y) = .ok key' := by
    rw [numberKey, read']
    rfl
  unfold numericCompare
  rw [left, right]
  cases first with
  | integer n value =>
    cases second with
    | integer m value' =>
      rw [value, value', compare_cast, ← integerCmp_repr]
      simp only [bind, Except.bind, isFraction_repr]
    | fraction float fraction value' =>
      rw [value, value', ← compare_swap]
      simp only [bind, Except.bind, isFraction_repr, isFraction_fraction,
        compareFloor_eq n float fraction]
      rfl
  | fraction float fraction value =>
    cases second with
    | integer m value' =>
      rw [value, value']
      simp only [bind, Except.bind, isFraction_repr, isFraction_fraction,
        compareFloor_eq m float fraction]
      rfl
    | fraction float' fraction' value' =>
      rw [value, value']
      simp only [bind, Except.bind, isFraction_fraction, comparePartial_eq float float']
      rfl

/-- **Numbers are compared as the rational numbers they stand for**, whatever they are written as, and
they are the same number exactly when these are.  So the comparison is a total order. -/
theorem numericCompare_exact {x y z : String} (hx : FiniteNumber x) (hy : FiniteNumber y)
    (hz : FiniteNumber z) :
    numericCompare (.number x) (.number y) = .ok (compare (exactValue x) (exactValue y)) ∧
      (numericEqual (.number x) (.number y) = true ↔
        numericCompare (.number x) (.number y) = .ok .eq) ∧
      (numericCompare (.number y) (.number x) =
        (numericCompare (.number x) (.number y)).map Ordering.swap) ∧
      (numericCompare (.number x) (.number y) = .ok .lt →
        numericCompare (.number y) (.number z) = .ok .lt →
        numericCompare (.number x) (.number z) = .ok .lt) := by
  have ⟨key, read, first⟩ := atom_number hx
  have ⟨key', read', second⟩ := atom_number hy
  rw [numericCompare_eq hx hy, numericCompare_eq hy hx, numericCompare_eq hy hz,
    numericCompare_eq hx hz]
  refine ⟨rfl, ?_, ?_, ?_⟩
  · unfold numericEqual
    rw [read, read', if_neg (by simp [isNumeric])]
    simp only [decide_eq_true_eq, Atom.number.injEq, Except.ok.injEq, first.eq_iff second,
      compare_eq_iff_eq]
  · rw [Except.map, compare_swap]
  · intro less next
    rw [Except.ok.injEq, compare_lt_iff_lt] at less next ⊢
    exact less.trans next

/-- Beyond 53 bits, where a cast of the integer would round it to the float. -/
theorem numericCompare_exact_wide :
    numericCompare (.number "9007199254740992.0") (.number "9007199254740993") = .ok .lt ∧
      numericCompare (.number "9007199254740992.0") (.number "9007199254740993.5e0") = .ok .lt ∧
      numericEqual (.number "9007199254740992.0") (.number "9007199254740993") = false := by
  have exact := @numericCompare_exact "9007199254740992.0" "9007199254740993" "9007199254740993.5e0"
    (by decide +kernel) (by decide +kernel) (by decide +kernel)
  have less : numericCompare (.number "9007199254740992.0") (.number "9007199254740993") =
      .ok .lt := by decide +kernel
  refine ⟨less, exact.2.2.2 less (by decide +kernel), ?_⟩
  rw [← Bool.not_eq_true, exact.2.1, less]
  decide

end Metrics

end ExperimentControl
