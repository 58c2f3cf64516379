import Mathlib

/-!
# Floats of 64 bits

The floats of the core library and the rational numbers they stand for. A finite float is an integer
multiple of the smallest positive one, so that integers decide about floats.

* `F64.scaled`, `F64.value` — the multiple, and the number itself.
* `F64.floor`, `F64.isIntegral` — rounding down.
* **`F64.compare_eq`** — finite floats compare as their values.
* **`F64.eq_of_value`** — a nonzero value has one float.
-/

namespace ExperimentControl

open Float.Model (UnpackedFloat Format)
open Float.Model.UnpackedFloat (unpackMantissa unpackExponent unpackSign Sign)

abbrev F64 := Float.Model

namespace F64

/-! ## Values -/

/-- How many of the smallest positive floats make one. -/
def unit : ℕ := 2 ^ 1074

lemma unit_pos : 0 < unit := by
  unfold unit
  positivity

/-- A finite float as a multiple of the smallest positive one. -/
def scaled (x : F64) : ℤ :=
  match x.unpack with
  | .finite sign mantissa exponent _ => sign.apply (mantissa * 2 ^ (exponent + 1074).toNat)
  | _ => 0

/-- The rational number a finite float stands for. -/
def value (x : F64) : ℚ := x.scaled / unit

/-- The greatest integer that is not above. -/
def floor (x : F64) : ℤ := x.scaled / unit

/-- Whether there is nothing behind the point. -/
def isIntegral (x : F64) : Bool := (unit : ℤ) ∣ x.scaled

lemma value_lt_iff {x y : F64} : x.value < y.value ↔ x.scaled < y.scaled := by
  have positive : (0 : ℚ) < unit := Nat.cast_pos.mpr unit_pos
  rw [value, value, div_lt_div_iff_of_pos_right positive, Int.cast_lt]

lemma value_inj {x y : F64} : x.value = y.value ↔ x.scaled = y.scaled := by
  have nonzero : (unit : ℚ) ≠ 0 := Nat.cast_ne_zero.mpr unit_pos.ne'
  rw [value, value, div_left_inj' nonzero, Int.cast_inj]

lemma value_eq_zero {x : F64} : x.value = 0 ↔ x.scaled = 0 := by
  have nonzero : (unit : ℚ) ≠ 0 := Nat.cast_ne_zero.mpr unit_pos.ne'
  rw [value, div_eq_zero_iff, or_iff_left nonzero, Int.cast_eq_zero]

/-- An integral float is its floor. -/
lemma value_of_isIntegral {x : F64} (integral : x.isIntegral = true) : x.value = x.floor := by
  have positive : (unit : ℚ) ≠ 0 := Nat.cast_ne_zero.mpr unit_pos.ne'
  have divides : (unit : ℤ) ∣ x.scaled := of_decide_eq_true integral
  have product := Int.mul_ediv_cancel' divides
  rw [value, div_eq_iff positive, floor]
  calc (x.scaled : ℚ) = ((unit : ℤ) * (x.scaled / unit) : ℤ) := by rw [product]
    _ = _ := by
      push_cast
      ring

/-- Any other float is strictly between two integers. -/
lemma floor_lt_value {x : F64} (fraction : x.isIntegral = false) : x.floor < x.value := by
  have positive : (0 : ℚ) < unit := Nat.cast_pos.mpr unit_pos
  have split := Int.mul_ediv_add_emod x.scaled unit
  have rest := Int.emod_nonneg x.scaled (Int.natCast_ne_zero.mpr unit_pos.ne')
  have nonzero : x.scaled % unit ≠ 0 := fun zero =>
    of_decide_eq_false fraction (Int.dvd_of_emod_eq_zero zero)
  have below : (unit : ℤ) * x.floor < x.scaled := by
    rw [floor]
    omega
  rw [value, lt_div_iff₀ positive, mul_comm]
  exact_mod_cast below

lemma value_lt_floor_add_one (x : F64) : x.value < x.floor + 1 := by
  have positive : (0 : ℚ) < unit := Nat.cast_pos.mpr unit_pos
  have above : x.scaled < (unit : ℤ) * (x.floor + 1) := by
    have split := Int.mul_ediv_add_emod x.scaled unit
    have rest := Int.emod_lt_of_pos x.scaled (Int.natCast_pos.mpr unit_pos)
    rw [mul_add, mul_one, floor]
    omega
  rw [value, div_lt_iff₀ positive, mul_comm]
  exact_mod_cast above

/-! ## The one form of a float -/

/-- A mantissa and an exponent as they stand in a float. -/
structure Canonical (mantissa : ℕ) (exponent : ℤ) : Prop where
  pos : 0 < mantissa
  lt : mantissa < 2 ^ 53
  exponent_ge : -1074 ≤ exponent
  full : exponent = -1074 ∨ 2 ^ 52 ≤ mantissa

/-- What is read out of the bits of a float. -/
lemma canonical_of_unpack {x : F64} {sign : Sign} {mantissa : ℕ} {exponent : ℤ} {pos : 0 < mantissa}
    (h : x.unpack = .finite sign mantissa exponent pos) : Canonical mantissa exponent := by
  have narrow : (@unpackMantissa Format.binary64 x.toBits.toBitVec).toNat < 2 ^ 52 :=
    BitVec.isLt _
  rw [Float.Model.unpack, UnpackedFloat.unpack] at h
  have bias : ((Format.binary64.exponentBias : ℕ) : ℤ) = 1023 := rfl
  have width : ((Format.binary64.mantissaBitsWithoutImplicit : ℕ) : ℤ) = 52 := rfl
  split at h
  · split at h <;> cases h
  · split at h
    · rename_i lowest
      split at h
      · cases h
      · cases h
        refine ⟨pos, by omega, ?_, Or.inl ?_⟩ <;> rw [lowest] <;> simp [bias]
    · rename_i normal
      have filled : (1#1 ++ @unpackMantissa Format.binary64 x.toBits.toBitVec).toNat =
          2 ^ 52 + (@unpackMantissa Format.binary64 x.toBits.toBitVec).toNat := by
        rw [BitVec.toNat_append, ← Nat.shiftLeft_add_eq_or_of_lt (BitVec.isLt _), Nat.shiftLeft_eq]
        simp
      have above : 0 < (@unpackExponent Format.binary64 x.toBits.toBitVec).toNat :=
        Nat.pos_of_ne_zero fun zero => normal (BitVec.eq_of_toNat_eq zero)
      cases h
      refine ⟨pos, by omega, ?_, Or.inr (by omega)⟩
      rw [bias, width]
      omega

/-- Larger exponents are larger numbers. -/
lemma Canonical.lt_of_exponent {m n : ℕ} {e f : ℤ} (first : Canonical m e) (second : Canonical n f)
    (less : e < f) : m * 2 ^ (e + 1074).toNat < n * 2 ^ (f + 1074).toNat := by
  have low := first.exponent_ge
  -- the larger exponent leaves at least one factor of two on a full mantissa
  have gap : (f + 1074).toNat = (e + 1074).toNat + ((f - e).toNat - 1) + 1 := by omega
  have full : 2 ^ 52 ≤ n := second.full.resolve_left (by omega)
  have two : 2 ≤ 2 ^ ((f - e).toNat - 1) * 2 :=
    Nat.le_mul_of_pos_left 2 (Nat.pow_pos (by decide))
  have large : 2 ^ 52 * 2 ≤ n * (2 ^ ((f - e).toNat - 1) * 2) := Nat.mul_le_mul full two
  have small := first.lt
  calc m * 2 ^ (e + 1074).toNat < n * (2 ^ ((f - e).toNat - 1) * 2) * 2 ^ (e + 1074).toNat :=
        Nat.mul_lt_mul_of_pos_right (by omega) (Nat.pow_pos (by decide))
    _ = n * 2 ^ (f + 1074).toNat := by
        rw [gap, pow_succ, pow_add]
        ring

/-- Numbers are ordered by their exponents, and by their mantissas where these are the same. -/
lemma Canonical.compare_eq {m n : ℕ} {e f : ℤ} (first : Canonical m e) (second : Canonical n f) :
    compare (m * 2 ^ (e + 1074).toNat) (n * 2 ^ (f + 1074).toNat) =
      (compare e f).then (compare m n) := by
  rcases lt_trichotomy e f with less | same | more
  · rw [compare_lt_iff_lt.mpr less, compare_lt_iff_lt.mpr (first.lt_of_exponent second less)]
    rfl
  · have positive : 0 < 2 ^ (f + 1074).toNat := Nat.pow_pos (by decide)
    rw [same, compare_eq_iff_eq.mpr rfl, Ordering.then]
    rcases lt_trichotomy m n with less | equal | greater
    · rw [compare_lt_iff_lt.mpr less,
        compare_lt_iff_lt.mpr (Nat.mul_lt_mul_of_pos_right less positive)]
    · rw [equal, compare_eq_iff_eq.mpr rfl, compare_eq_iff_eq.mpr rfl]
    · rw [compare_gt_iff_gt.mpr greater,
        compare_gt_iff_gt.mpr (Nat.mul_lt_mul_of_pos_right greater positive)]
  · rw [compare_gt_iff_gt.mpr more, compare_gt_iff_gt.mpr (second.lt_of_exponent first more)]
    rfl

/-- A number has one mantissa and one exponent. -/
lemma Canonical.unique {m n : ℕ} {e f : ℤ} (first : Canonical m e) (second : Canonical n f)
    (same : m * 2 ^ (e + 1074).toNat = n * 2 ^ (f + 1074).toNat) : m = n ∧ e = f := by
  have equal := first.compare_eq second
  rw [compare_eq_iff_eq.mpr same, eq_comm, Ordering.then_eq_eq, compare_eq_iff_eq,
    compare_eq_iff_eq] at equal
  exact equal.symm

/-! ## Comparison -/

lemma Canonical.compare_cast {m n : ℕ} {e f : ℤ} (first : Canonical m e) (second : Canonical n f) :
    compare ((m : ℤ) * 2 ^ (e + 1074).toNat) ((n : ℤ) * 2 ^ (f + 1074).toNat) =
      (compare e f).then (compare m n) := by
  have cast : ∀ (a : ℕ) (g : ℤ),
      ((a : ℤ) * 2 ^ (g + 1074).toNat) = ((a * 2 ^ (g + 1074).toNat : ℕ) : ℤ) := by
    intro a g
    push_cast
    rfl
  rw [cast, cast, ← first.compare_eq second]
  simp only [compare, compareOfLessAndEq, Nat.cast_lt, Nat.cast_inj]

lemma Canonical.scaled_pos {m : ℕ} {e : ℤ} (first : Canonical m e) :
    (0 : ℤ) < m * 2 ^ (e + 1074).toNat :=
  Int.mul_pos (Int.natCast_pos.mpr first.pos) (Int.pow_pos (by decide))

/-- **Finite floats compare as their values.** -/
theorem compare_eq {x y : F64} (finite : x.isFinite = true) (other : y.isFinite = true) :
    x.compare y = some (compare x.scaled y.scaled) := by
  rw [Float.Model.isFinite] at finite other
  unfold Float.Model.compare scaled
  cases first : x.unpack with
  | infinity => rw [first] at finite; cases finite
  | notANumber => rw [first] at finite; cases finite
  | zero =>
    cases second : y.unpack with
    | infinity => rw [second] at other; cases other
    | notANumber => rw [second] at other; cases other
    | zero => rfl
    | finite sign n f pos =>
      have above := (canonical_of_unpack second).scaled_pos
      cases sign with
      | negative => exact congrArg some (compare_gt_iff_gt.mpr (neg_lt_zero.mpr above)).symm
      | positive => exact congrArg some (compare_lt_iff_lt.mpr above).symm
  | finite sign m e pos =>
    have one := canonical_of_unpack first
    cases second : y.unpack with
    | infinity => rw [second] at other; cases other
    | notANumber => rw [second] at other; cases other
    | zero =>
      cases sign with
      | negative => exact congrArg some (compare_lt_iff_lt.mpr (neg_lt_zero.mpr one.scaled_pos)).symm
      | positive => exact congrArg some (compare_gt_iff_gt.mpr one.scaled_pos).symm
    | finite sign' n f pos' =>
      have two := canonical_of_unpack second
      have ordered := one.compare_cast two
      cases sign with
      | negative =>
        cases sign' with
        | negative =>
          have swapped : compare (-((m : ℤ) * 2 ^ (e + 1074).toNat))
              (-((n : ℤ) * 2 ^ (f + 1074).toNat)) = ((compare e f).then (compare m n)).swap := by
            rw [← ordered, Int.compare_swap]
            simp only [compare, compareOfLessAndEq, neg_lt_neg_iff, neg_inj, @eq_comm ℤ (n * _)]
          exact congrArg some swapped.symm
        | positive =>
          have below := neg_lt_zero.mpr one.scaled_pos
          exact congrArg some (compare_lt_iff_lt.mpr (below.trans two.scaled_pos)).symm
      | positive =>
        cases sign' with
        | negative =>
          have below := neg_lt_zero.mpr two.scaled_pos
          exact congrArg some (compare_gt_iff_gt.mpr (below.trans one.scaled_pos)).symm
        | positive => exact congrArg some ordered.symm

/-! ## Bits -/

/-- The bits of a float, in their three parts. -/
def signBits (x : F64) : BitVec 1 := @unpackSign Format.binary64 x.toBits.toBitVec

def exponentBits (x : F64) : BitVec 11 := @unpackExponent Format.binary64 x.toBits.toBitVec

def mantissaBits (x : F64) : BitVec 52 := @unpackMantissa Format.binary64 x.toBits.toBitVec

/-- The parts are all the bits. -/
lemma eq_of_parts {x y : F64} (signs : x.signBits = y.signBits)
    (exponents : x.exponentBits = y.exponentBits) (mantissas : x.mantissaBits = y.mantissaBits) :
    x = y := by
  have whole : ∀ z : F64, z.signBits ++ z.exponentBits ++ z.mantissaBits = z.toBits.toBitVec := by
    intro z
    simp only [signBits, exponentBits, mantissaBits, unpackSign, unpackExponent, unpackMantissa,
      BitVec.extractLsb]
    ext i inside
    grind
  have bits : x.toBits.toBitVec = y.toBits.toBitVec := by
    rw [← whole x, ← whole y, signs, exponents, mantissas]
  cases x
  cases y
  simpa [UInt64.toBitVec_inj] using bits

/-- What a float is read as tells its parts. -/
lemma parts_of_unpack {x : F64} {sign : Sign} {mantissa : ℕ} {exponent : ℤ} {pos : 0 < mantissa}
    (h : x.unpack = .finite sign mantissa exponent pos) :
    x.signBits = sign.toBitVec ∧ x.mantissaBits.toNat = mantissa % 2 ^ 52 ∧
      x.exponentBits.toNat = if mantissa < 2 ^ 52 then 0 else (exponent + 1075).toNat := by
  have narrow : x.mantissaBits.toNat < 2 ^ 52 := BitVec.isLt _
  have bias : ((Format.binary64.exponentBias : ℕ) : ℤ) = 1023 := rfl
  have width : ((Format.binary64.mantissaBitsWithoutImplicit : ℕ) : ℤ) = 52 := rfl
  have signs : ∀ bits : BitVec 1, bits = (Sign.ofBitVec bits).toBitVec := by decide
  rw [Float.Model.unpack, UnpackedFloat.unpack] at h
  split at h
  · split at h <;> cases h
  · split at h
    · rename_i lowest
      split at h
      · cases h
      · cases h
        refine ⟨signs _, (Nat.mod_eq_of_lt narrow).symm, ?_⟩
        exact (congrArg BitVec.toNat lowest).trans (if_pos narrow).symm
    · have filled : (1#1 ++ x.mantissaBits).toNat = 2 ^ 52 + x.mantissaBits.toNat := by
        rw [BitVec.toNat_append, ← Nat.shiftLeft_add_eq_or_of_lt (BitVec.isLt _), Nat.shiftLeft_eq]
        simp
      cases h
      change _ ∧ _ = (1#1 ++ x.mantissaBits).toNat % 2 ^ 52 ∧
        _ = if (1#1 ++ x.mantissaBits).toNat < 2 ^ 52 then _ else _
      rw [filled, bias, width, if_neg (by omega)]
      refine ⟨signs _, by omega, ?_⟩
      change x.exponentBits.toNat = ((x.exponentBits.toNat : ℤ) - (1023 + 52) + 1075).toNat
      omega

/-- **A nonzero value has one float.** -/
theorem eq_of_value {x y : F64} (nonzero : x.value ≠ 0) (same : x.value = y.value) : x = y := by
  rw [value_inj] at same
  rw [Ne, value_eq_zero] at nonzero
  have read : ∀ z : F64, z.scaled ≠ 0 → ∃ sign m e pos, z.unpack = .finite sign m e pos ∧
      z.scaled = sign.apply (m * 2 ^ (e + 1074).toNat) := by
    intro z positive
    unfold scaled at positive ⊢
    cases is : z.unpack with
    | finite sign m e pos => exact ⟨sign, m, e, pos, rfl, rfl⟩
    | _ =>
      rw [is] at positive
      exact absurd rfl positive
  have ⟨s, m, e, pos, first, one⟩ := read x nonzero
  have ⟨t, n, f, pos', second, two⟩ := read y (same ▸ nonzero)
  have here := canonical_of_unpack first
  have there := canonical_of_unpack second
  have above := here.scaled_pos
  have above' := there.scaled_pos
  have equal : s = t ∧ (m : ℤ) * 2 ^ (e + 1074).toNat = n * 2 ^ (f + 1074).toNat := by
    rw [one, two] at same
    cases s <;> cases t <;> simp only [Sign.apply] at same
    · exact ⟨rfl, neg_inj.mp same⟩
    · omega
    · omega
    · exact ⟨rfl, same⟩
  have ⟨mantissas, exponents⟩ := here.unique there (by exact_mod_cast equal.2)
  subst mantissas exponents
  have ⟨signs, lows, highs⟩ := parts_of_unpack first
  have ⟨signs', lows', highs'⟩ := parts_of_unpack second
  exact eq_of_parts (by rw [signs, signs', equal.1])
    (BitVec.eq_of_toNat_eq (highs.trans highs'.symm)) (BitVec.eq_of_toNat_eq (lows.trans lows'.symm))

/-- A finite float that is not above another one is not greater. -/
lemma le_iff {x y : F64} (finite : x.isFinite = true) (other : y.isFinite = true) :
    x ≤ y ↔ x.value ≤ y.value := by
  have compares : x ≤ y ↔ (x.compare y).any Ordering.isLE = true := Iff.rfl
  rw [compares, compare_eq finite other, Option.any_some, Std.isLE_compare, ← not_lt, ← not_lt,
    value_lt_iff]

lemma lt_iff {x y : F64} (finite : x.isFinite = true) (other : y.isFinite = true) :
    x < y ↔ x.value < y.value := by
  have less : x < y ↔ (x.compare y == some .lt) = true := Iff.rfl
  rw [less, beq_iff_eq, compare_eq finite other, Option.some.injEq, compare_lt_iff_lt, value_lt_iff]

lemma value_zero : value (Float.Model.ofNat 0) = 0 := by
  rw [value_eq_zero]
  decide +kernel

end F64

end ExperimentControl
