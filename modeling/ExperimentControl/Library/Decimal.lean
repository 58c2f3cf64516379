import Mathlib

/-!
# Decimal texts

The texts that numbers are written as, without superfluous zeros. Such a text is found again from
its value, so that two of them are one text exactly when they have one value.

* `IsDecimal` — digits without a superfluous zero.
* **`toDigits_ofDigitChars`** — a decimal text is the text of its value.
* `padded` — digits up to a width, with **`ofDigitChars_padded`**.
-/

namespace ExperimentControl

/-- Digits without a superfluous zero before them. -/
structure IsDecimal (digits : List Char) : Prop where
  nonempty : digits ≠ []
  digit : ∀ c ∈ digits, c.isDigit = true
  first : digits.head? = some '0' → digits = ['0']

/-- The digit of a digit character. -/
lemma isDigit_cases {c : Char} (h : c.isDigit = true) : ∃ d < 10, c = Nat.digitChar d := by
  have hbounds : 48 ≤ c.toNat ∧ c.toNat ≤ 57 := by
    simp only [Char.isDigit, Bool.and_eq_true, decide_eq_true_eq] at h
    exact h
  have hchar : ∀ n, 48 ≤ n → n ≤ 57 → Char.ofNat n = Nat.digitChar (n - 48) := by
    intro n hlow hhigh
    interval_cases n <;> rfl
  refine ⟨c.toNat - 48, by omega, ?_⟩
  rw [← hchar c.toNat hbounds.1 hbounds.2, Char.ofNat_toNat]

lemma ofDigitChars_concat (digits : List Char) {d : ℕ} (hd : d < 10) :
    Nat.ofDigitChars 10 (digits ++ [Nat.digitChar d]) 0 =
      10 * Nat.ofDigitChars 10 digits 0 + d := by
  rw [Nat.ofDigitChars_append, Nat.ofDigitChars_cons_digitChar_of_lt_ten hd, Nat.ofDigitChars_nil]

/-- **A decimal text is the text of its value.** -/
theorem toDigits_ofDigitChars {digits : List Char} (h : IsDecimal digits) :
    Nat.toDigits 10 (Nat.ofDigitChars 10 digits 0) = digits := by
  induction digits using List.reverseRecOn with
  | nil => exact absurd rfl h.nonempty
  | append_singleton digits c ih =>
    obtain ⟨d, hd, rfl⟩ := isDigit_cases (h.digit c (by simp))
    rw [ofDigitChars_concat digits hd]
    by_cases hempty : digits = []
    · rw [hempty, Nat.ofDigitChars_nil, Nat.mul_zero, Nat.zero_add, Nat.toDigits_of_lt_base hd]
      rfl
    · -- The digits before the last are a decimal text of their own, and not that of zero.
      have hfirst : digits.head? ≠ some '0' := by
        intro hzero
        have hall := h.first (by rw [List.head?_append, hzero]; rfl)
        have hlength := congrArg List.length hall
        simp only [List.length_append, List.length_singleton, Nat.add_eq_right] at hlength
        exact hempty (List.eq_nil_of_length_eq_zero hlength)
      have hdigits : IsDecimal digits :=
        ⟨hempty, fun c hc => h.digit c (by simp [hc]), fun hzero => absurd hzero hfirst⟩
      have ih := ih hdigits
      have hpos : 0 < Nat.ofDigitChars 10 digits 0 := by
        rcases Nat.eq_zero_or_pos (Nat.ofDigitChars 10 digits 0) with hzero | hpos
        · rw [hzero, Nat.toDigits_zero] at ih
          exact absurd (by rw [← ih]; rfl) hfirst
        · exact hpos
      rw [← Nat.toDigits_append_toDigits (by omega) hpos hd, ih, Nat.toDigits_of_lt_base hd]

/-- Two decimal texts of one value are one text. -/
lemma IsDecimal.ext {first second : List Char} (hfirst : IsDecimal first)
    (hsecond : IsDecimal second)
    (h : Nat.ofDigitChars 10 first 0 = Nat.ofDigitChars 10 second 0) : first = second := by
  rw [← toDigits_ofDigitChars hfirst, h, toDigits_ofDigitChars hsecond]

/-! ## Texts of a width -/

/-- The digits of a number behind as many zeros as fill a width. -/
def padded (width n : ℕ) : List Char :=
  List.replicate (width - (Nat.toDigits 10 n).length) '0' ++ Nat.toDigits 10 n

lemma le_length_padded (width n : ℕ) : width ≤ (padded width n).length := by
  rw [padded, List.length_append, List.length_replicate]
  omega

lemma isDigit_padded {width n : ℕ} {c : Char} (hc : c ∈ padded width n) : c.isDigit = true := by
  rcases List.mem_append.mp hc with hc | hc
  · rw [List.eq_of_mem_replicate hc]
    rfl
  · exact Nat.isDigit_of_mem_toDigits (by decide) (by decide) hc

/-- **Zeros in front do not count.** -/
theorem ofDigitChars_padded (width n : ℕ) : Nat.ofDigitChars 10 (padded width n) 0 = n := by
  rw [padded, Nat.ofDigitChars_append, Nat.ofDigitChars_replicate_zero, Nat.mul_zero,
    Nat.ofDigitChars_ten_toDigits]

end ExperimentControl
