import ExperimentControl.Json.Syntax
import Mathlib

/-!
# The grammar of JSON text

What a text of JSON is, said without a reader: the words, the literals and the containers, with
whitespace around each value. `Text t v` means that `t` is a text of the value `v`; keys may repeat
and any depth is allowed, since both are the reader's business and not the grammar's.

* `Spelling`, `NumberText` — what stands between quotes, and what a number looks like.
* `Value`, `Text`, `Items`, `Members` — values alone, values in whitespace, and what stands between
  the marks of a container.
* **`ignoreValue_append`**, **`ignoreValue_suffix`** — a scan stops where the value does.
* **`value_write`** — what is written is a text of its value.
-/

namespace ExperimentControl

namespace Grammar

open Syntax

/-! ## Literals -/

def Space (w : Bytes) : Prop := ∀ b ∈ w, isSpace b = true

/-- What stands between the quotes of a string, and the bytes it stands for. An escaped surrogate
has to be in a pair, since no text has one alone. -/
inductive Spelling : Bytes → Bytes → Prop
  | nil : Spelling [] []
  | plain {b : UInt8} {s m : Bytes} : b ≠ 34 → b ≠ 92 → ¬b < 32 → Spelling s m →
      Spelling (b :: s) (b :: m)
  | escape {c b : UInt8} {s m : Bytes} : simpleEscape c = some b → Spelling s m →
      Spelling (92 :: c :: s) (b :: m)
  | unit {x y z w : UInt8} {n : ℕ} {s m : Bytes} : codeUnit x y z w = some n →
      ¬(0xD800 ≤ n ∧ n < 0xE000) → Spelling s m →
      Spelling (92 :: 117 :: x :: y :: z :: w :: s) (String.utf8EncodeChar (Char.ofNat n) ++ m)
  | pair {x y z w x' y' z' w' : UInt8} {high low : ℕ} {s m : Bytes} :
      codeUnit x y z w = some high → 0xD800 ≤ high → high < 0xDC00 →
      codeUnit x' y' z' w' = some low → 0xDC00 ≤ low → low < 0xE000 → Spelling s m →
      Spelling (92 :: 117 :: x :: y :: z :: w :: 92 :: 117 :: x' :: y' :: z' :: w' :: s)
        (String.utf8EncodeChar (Char.ofNat (0x10000 + (high - 0xD800) * 0x400 + (low - 0xDC00))) ++ m)

def Digits (t : Bytes) : Prop := t ≠ [] ∧ ∀ b ∈ t, isDigit b = true

/-- Zero, or digits the first of which is not zero. -/
def Integer (t : Bytes) : Prop := t = [48] ∨ (Digits t ∧ t.head? ≠ some 48)

def Fraction (t : Bytes) : Prop := t = [] ∨ ∃ digits, t = 46 :: digits ∧ Digits digits

def Exponent (t : Bytes) : Prop :=
  t = [] ∨ ∃ mark sign digits, t = mark :: (sign ++ digits) ∧ (mark = 69 ∨ mark = 101) ∧
    (sign = [] ∨ sign = [43] ∨ sign = [45]) ∧ Digits digits

def NumberText (t : Bytes) : Prop :=
  ∃ sign integer fraction exponent, t = sign ++ (integer ++ (fraction ++ exponent)) ∧
    (sign = [] ∨ sign = [45]) ∧ Integer integer ∧ Fraction fraction ∧ Exponent exponent

/-! ## Whitespace -/

lemma space_nil : Space [] := fun _ h => nomatch h

lemma Space.append {w w' : Bytes} (h : Space w) (h' : Space w') : Space (w ++ w') := by
  intro b hb
  rcases List.mem_append.mp hb with hb | hb
  · exact h b hb
  · exact h' b hb

/-- Whitespace is skipped, whatever stands behind it. -/
lemma Space.skip {w : Bytes} (h : Space w) (bytes : Bytes) :
    skipSpace (w ++ bytes) = skipSpace bytes := by
  induction w with
  | nil => rfl
  | cons b w ih =>
    rw [skipSpace, List.cons_append, List.dropWhile_cons_of_pos (h b (by simp))]
    exact ih fun b hb => h b (by simp [hb])

lemma skipSpace_eq_nil {bytes : Bytes} : skipSpace bytes = [] ↔ Space bytes := by
  rw [skipSpace, List.dropWhile_eq_nil_iff]
  rfl

/-- What is skipped is whitespace. -/
lemma exists_space (bytes : Bytes) : ∃ w, Space w ∧ bytes = w ++ skipSpace bytes :=
  ⟨bytes.takeWhile isSpace, fun _ h => List.mem_takeWhile_imp h,
    (List.takeWhile_append_dropWhile).symm⟩

lemma expect_space {mark : UInt8} {w : Bytes} (h : Space w) (bytes : Bytes) :
    expect mark (w ++ bytes) = expect mark bytes := by
  rw [expect, expect, h.skip]

/-- A mark is found behind whitespace only. -/
lemma exists_of_expect {mark : UInt8} {bytes rest : Bytes} (h : expect mark bytes = some rest) :
    ∃ w, Space w ∧ bytes = w ++ mark :: rest := by
  obtain ⟨w, hspace, hbytes⟩ := exists_space bytes
  rw [expect] at h
  cases hskip : skipSpace bytes with
  | nil =>
    rw [hskip] at h
    cases h
  | cons b tail =>
    rw [hskip] at h
    dsimp only at h
    split_ifs at h with hmark
    obtain rfl := Option.some.inj h
    exact ⟨w, hspace, by rw [hbytes, hskip, hmark]⟩

lemma ends_space {w rest : Bytes} (h : Space w) (hrest : Ends rest) : Ends (w ++ rest) := by
  cases w with
  | nil => exact hrest
  | cons b w =>
    have hall : ∀ n < 256, isSpace (UInt8.ofNat n) = true → Ends [UInt8.ofNat n] := by
      unfold Ends
      decide +kernel
    have hb := hall b.toNat b.toNat_lt
    rw [UInt8.ofNat_toNat] at hb
    exact hb (h b (by simp))

/-! ## Strings -/

/-- **A spelling is read as what it stands for.** -/
lemma Spelling.read {s m : Bytes} (h : Spelling s m) (rest : Bytes) :
    readString (s ++ 34 :: rest) = some (m, rest) := by
  induction h with
  | nil =>
    rw [List.nil_append, readString.eq_def]
    rfl
  | plain hquote hslash hlow _ ih =>
    rw [List.cons_append, readString.eq_def]
    simp [hquote, hslash, hlow, ih]
  | @escape c b s m hsimple _ ih =>
    have hc : c ≠ 117 := by
      rintro rfl
      cases hsimple
    rw [List.cons_append, List.cons_append, readString.eq_def]
    dsimp only
    rw [if_neg (by decide), if_pos rfl]
    split
    next heq => exact absurd (List.cons.inj heq).1 hc
    next heq =>
      obtain ⟨rfl, rfl⟩ := List.cons.inj heq
      rw [hsimple]
      dsimp only
      rw [ih]
      rfl
    next heq => cases heq
  | @unit x y z w n s m hunit hno _ ih =>
    have hpair : ¬(56320 ≤ n ∧ n < 57344) := fun h => hno ⟨by omega, h.2⟩
    have hhigh : ¬(55296 ≤ n ∧ n < 56320) := fun h => hno ⟨h.1, by omega⟩
    simp only [List.cons_append]
    rw [readString.eq_def]
    simp [hunit, hpair, hhigh, ih]
  | @pair x y z w x' y' z' w' high low s m hhigh hfrom hto hlow hfrom' hto' _ ih =>
    have hfirst : ¬(56320 ≤ high ∧ high < 57344) := fun h => absurd hto (Nat.not_lt.mpr h.1)
    simp only [List.cons_append]
    rw [readString.eq_def]
    simp [hhigh, hlow, hfrom, hto, hfrom', hto', hfirst, ih]

/-- **What is read is spelled that way.** -/
lemma spelling_of_read {bytes m rest : Bytes} (h : readString bytes = some (m, rest)) :
    ∃ s, bytes = s ++ 34 :: rest ∧ Spelling s m := by
  fun_induction readString bytes generalizing m with
  | case2 tail =>
    obtain ⟨rfl, rfl⟩ := Prod.mk.inj (Option.some.inj h)
    exact ⟨[], rfl, .nil⟩
  | case6 x y z w high hhigh hno hin x' y' z' w' tail low hlow hin' _ ih =>
    obtain ⟨⟨m', tail'⟩, htail, heq⟩ := Option.map_eq_some_iff.mp h
    obtain ⟨rfl, rfl⟩ := Prod.mk.inj heq
    obtain ⟨s, rfl, hs⟩ := ih htail
    exact ⟨_, rfl, .pair hhigh hin.1 hin.2 hlow hin'.1 hin'.2 hs⟩
  | case9 x y z w tail n hunit hlow hhigh _ ih =>
    obtain ⟨⟨m', tail'⟩, htail, heq⟩ := Option.map_eq_some_iff.mp h
    obtain ⟨rfl, rfl⟩ := Prod.mk.inj heq
    obtain ⟨s, rfl, hs⟩ := ih htail
    exact ⟨_, rfl, .unit hunit (by omega) hs⟩
  | case11 c tail _ b hsimple _ ih =>
    obtain ⟨⟨m', tail'⟩, htail, heq⟩ := Option.map_eq_some_iff.mp h
    obtain ⟨rfl, rfl⟩ := Prod.mk.inj heq
    obtain ⟨s, rfl, hs⟩ := ih htail
    exact ⟨_, rfl, .escape hsimple hs⟩
  | case14 b tail hquote hslash hlow ih =>
    obtain ⟨⟨m', tail'⟩, htail, heq⟩ := Option.map_eq_some_iff.mp h
    obtain ⟨rfl, rfl⟩ := Prod.mk.inj heq
    obtain ⟨s, rfl, hs⟩ := ih htail
    exact ⟨_, rfl, .plain hquote hslash hlow hs⟩
  -- The other branches read nothing.
  | _ => cases h

/-- A spelling is scanned to its end. -/
lemma Spelling.ignore {s m : Bytes} (h : Spelling s m) (rest : Bytes) :
    ignoreString (s ++ 34 :: rest) = some rest := by
  induction h with
  | nil =>
    rw [List.nil_append, ignoreString.eq_def]
    rfl
  | plain hquote hslash hlow _ ih =>
    rw [List.cons_append, ignoreString.eq_def]
    simp [hquote, hslash, hlow, ih]
  | @escape c b s m hsimple _ ih =>
    have hc : c ≠ 117 := by
      rintro rfl
      cases hsimple
    rw [List.cons_append, List.cons_append, ignoreString.eq_def]
    dsimp only
    rw [if_neg (by decide), if_pos rfl]
    split
    next heq => exact absurd (List.cons.inj heq).1 hc
    next heq =>
      obtain ⟨rfl, rfl⟩ := List.cons.inj heq
      rw [hsimple, Option.isSome_some, if_pos rfl, ih]
    next heq => cases heq
  | unit hunit _ _ ih =>
    simp only [List.cons_append]
    rw [ignoreString.eq_def]
    simp [hunit, ih]
  | pair hhigh _ _ hlow _ _ _ ih =>
    simp only [List.cons_append]
    rw [ignoreString.eq_def]
    simp only [hhigh, Option.isSome_some, if_true]
    rw [if_neg (by decide), ignoreString.eq_def]
    simp [hlow, ih]

lemma ignoreString_suffix {bytes rest : Bytes} (h : ignoreString bytes = some rest) :
    rest <:+ bytes := by
  fun_induction ignoreString bytes with
  | case2 tail =>
    obtain rfl := Option.some.inj h
    exact List.suffix_cons 34 tail
  | case3 _ _ _ _ tail _ _ ih => exact (ih h).trans ⟨92 :: 117 :: _ :: _ :: _ :: _ :: [], rfl⟩
  | case5 c tail _ _ _ ih => exact (ih h).trans ⟨92 :: c :: [], rfl⟩
  | case9 b tail _ _ _ ih => exact (ih h).trans (List.suffix_cons b tail)
  | _ => cases h

/-! ## Numbers -/

section Numbers

variable {t bytes rest : Bytes}

/-- What digits end at. -/
def NoDigit (rest : Bytes) : Prop := rest.head?.any isDigit = false

lemma dropWhile_digits (h : ∀ b ∈ t, isDigit b = true) (hrest : NoDigit rest) :
    (t ++ rest).dropWhile isDigit = rest := by
  rw [List.dropWhile_append, List.dropWhile_eq_nil_iff.mpr h]
  cases rest with
  | nil => rfl
  | cons b rest =>
    have hb : isDigit b = false := hrest
    simp [hb]

lemma digits_of_ignore (h : ignoreDigits bytes = some rest) :
    ∃ t, bytes = t ++ rest ∧ Digits t := by
  cases bytes with
  | nil => cases h
  | cons b tail =>
    rw [ignoreDigits] at h
    split_ifs at h with hdigit
    obtain rfl := Option.some.inj h
    refine ⟨b :: tail.takeWhile isDigit, ?_, List.cons_ne_nil _ _, ?_⟩
    · rw [List.cons_append, List.takeWhile_append_dropWhile]
    · intro c hc
      rcases List.mem_cons.mp hc with rfl | hc
      · exact hdigit
      · exact List.mem_takeWhile_imp hc

lemma Digits.head (h : Digits t) : ∃ b tail, t = b :: tail ∧ isDigit b = true := by
  obtain ⟨b, tail, rfl⟩ := List.exists_cons_of_ne_nil h.1
  exact ⟨b, tail, rfl, h.2 b (by simp)⟩

lemma Digits.ignore (h : Digits t) (hrest : NoDigit rest) :
    ignoreDigits (t ++ rest) = some rest := by
  obtain ⟨b, tail, rfl, hdigit⟩ := h.head
  rw [List.cons_append, ignoreDigits, if_pos hdigit,
    dropWhile_digits (fun c hc => h.2 c (List.mem_cons_of_mem b hc)) hrest]

lemma integer_of_ignore (h : ignoreInteger bytes = some rest) :
    ∃ t, bytes = t ++ rest ∧ Integer t := by
  cases bytes with
  | nil => cases h
  | cons b tail =>
    rw [ignoreInteger] at h
    by_cases hzero : b = 48
    · rw [if_pos hzero] at h
      split_ifs at h
      exact ⟨[48], by rw [hzero, ← Option.some.inj h]; rfl, Or.inl rfl⟩
    · rw [if_neg hzero] at h
      obtain ⟨t, ht, hdigits⟩ := @digits_of_ignore (b :: tail) rest h
      refine ⟨t, ht, Or.inr ⟨hdigits, ?_⟩⟩
      obtain ⟨c, t, rfl, -⟩ := hdigits.head
      obtain ⟨rfl, -⟩ := List.cons.inj ht
      exact fun hhead => hzero (Option.some.inj hhead)

lemma Integer.ignore (h : Integer t) (hrest : NoDigit rest) :
    ignoreInteger (t ++ rest) = some rest := by
  rcases h with rfl | ⟨hdigits, hzero⟩
  · rw [List.singleton_append, ignoreInteger, if_pos rfl, if_neg]
    rw [hrest]
    simp
  · obtain ⟨b, tail, rfl, hdigit⟩ := hdigits.head
    have hscan := hdigits.ignore hrest
    rw [List.cons_append, ignoreDigits] at hscan
    rw [List.cons_append, ignoreInteger, if_neg fun hb => hzero (congrArg some hb), hscan]

lemma fraction_of_ignore (h : ignoreFraction bytes = some rest) :
    ∃ t, bytes = t ++ rest ∧ Fraction t := by
  cases bytes with
  | nil => exact ⟨[], by rw [← Option.some.inj h]; rfl, Or.inl rfl⟩
  | cons b tail =>
    rw [ignoreFraction] at h
    split_ifs at h with hmark
    · obtain ⟨t, rfl, hdigits⟩ := digits_of_ignore h
      exact ⟨b :: t, rfl, Or.inr ⟨t, by rw [hmark], hdigits⟩⟩
    · exact ⟨[], by rw [← Option.some.inj h]; rfl, Or.inl rfl⟩

lemma Fraction.ignore (h : Fraction t) (hrest : NoDigit rest) (hmark : rest.head? ≠ some 46) :
    ignoreFraction (t ++ rest) = some rest := by
  rcases h with rfl | ⟨digits, rfl, hdigits⟩
  · cases rest with
    | nil => rfl
    | cons b rest =>
      rw [List.nil_append, ignoreFraction, if_neg fun hb => hmark (congrArg some hb)]
  · rw [List.cons_append, ignoreFraction, if_pos rfl, hdigits.ignore hrest]

lemma exponent_of_ignore (h : ignoreExponent bytes = some rest) :
    ∃ t, bytes = t ++ rest ∧ Exponent t := by
  cases bytes with
  | nil => exact ⟨[], by rw [← Option.some.inj h]; rfl, Or.inl rfl⟩
  | cons b tail =>
    rw [ignoreExponent] at h
    split_ifs at h with hmark
    · obtain ⟨t, ht, hdigits⟩ := digits_of_ignore h
      obtain ⟨sign, htail, hsign⟩ : ∃ sign, tail = sign ++ ignoreSign tail ∧
          (sign = [] ∨ sign = [43] ∨ sign = [45]) := by
        cases tail with
        | nil => exact ⟨[], rfl, Or.inl rfl⟩
        | cons c tail =>
          rw [ignoreSign]
          split_ifs with hsign
          · exact ⟨[c], rfl, Or.inr (by simpa using hsign)⟩
          · exact ⟨[], rfl, Or.inl rfl⟩
      refine ⟨b :: (sign ++ t), ?_, Or.inr ⟨b, sign, t, rfl, hmark, hsign, hdigits⟩⟩
      rw [List.cons_append, List.append_assoc, ← ht, ← htail]
    · exact ⟨[], by rw [← Option.some.inj h]; rfl, Or.inl rfl⟩

lemma noDigit_of_ends (h : Ends rest) : NoDigit rest := by
  cases rest with
  | nil => rfl
  | cons b rest =>
    have hb : decide (¬isDigit b = true ∧ b ≠ 46 ∧ b ≠ 69 ∧ b ≠ 101) = true := h
    simpa [NoDigit] using (of_decide_eq_true hb).1

lemma Exponent.ignore (h : Exponent t) (hrest : Ends rest) :
    ignoreExponent (t ++ rest) = some rest := by
  rcases h with rfl | ⟨mark, sign, digits, rfl, hmark, hsign, hdigits⟩
  · cases rest with
    | nil => rfl
    | cons b rest =>
      rw [List.nil_append, ignoreExponent, if_neg]
      rintro (rfl | rfl)
      · exact hrest.head_ne (Or.inr (Or.inl rfl)) rfl
      · exact hrest.head_ne (Or.inr (Or.inr rfl)) rfl
  · have hskip : ignoreSign (sign ++ (digits ++ rest)) = digits ++ rest := by
      rcases hsign with rfl | rfl | rfl
      · obtain ⟨b, tail, rfl, hdigit⟩ := hdigits.head
        rw [List.nil_append, List.cons_append, ignoreSign, if_neg]
        rintro (rfl | rfl) <;> cases hdigit
      · rfl
      · rfl
    rw [List.cons_append, List.append_assoc, ignoreExponent, if_pos hmark, hskip,
      hdigits.ignore (noDigit_of_ends hrest)]

/-- What stands behind a fraction begins with no digit and no point. -/
lemma Exponent.head (h : Exponent t) (hrest : Ends rest) :
    NoDigit (t ++ rest) ∧ (t ++ rest).head? ≠ some 46 := by
  rcases h with rfl | ⟨mark, sign, digits, rfl, rfl | rfl, -⟩
  · exact ⟨noDigit_of_ends hrest, hrest.head_ne (Or.inl rfl)⟩
  · exact ⟨rfl, by simp⟩
  · exact ⟨rfl, by simp⟩

lemma Fraction.head (h : Fraction t) (hrest : NoDigit rest) : NoDigit (t ++ rest) := by
  rcases h with rfl | ⟨digits, rfl, -⟩
  · exact hrest
  · rfl

/-- **A number is scanned to its end**, whatever ends it. -/
lemma NumberText.ignore (h : NumberText t) (hrest : Ends rest) :
    ignoreNumber (t ++ rest) = some rest := by
  obtain ⟨sign, integer, fraction, exponent, rfl, hsign, hinteger, hfraction, hexponent⟩ := h
  obtain ⟨hdigit, hmark⟩ := hexponent.head hrest
  have hminus : ignoreMinus (sign ++ (integer ++ (fraction ++ (exponent ++ rest)))) =
      integer ++ (fraction ++ (exponent ++ rest)) := by
    rcases hsign with rfl | rfl
    · obtain ⟨b, tail, rfl, hb⟩ : ∃ b tail, integer = b :: tail ∧ b ≠ 45 := by
        rcases hinteger with rfl | ⟨hdigits, -⟩
        · exact ⟨48, [], rfl, by decide⟩
        · obtain ⟨b, tail, rfl, hdigit⟩ := hdigits.head
          refine ⟨b, tail, rfl, ?_⟩
          rintro rfl
          cases hdigit
      rw [List.nil_append, List.cons_append, ignoreMinus, if_neg hb]
    · rfl
  simp only [List.append_assoc]
  rw [ignoreNumber, hminus, hinteger.ignore (hfraction.head hdigit), Option.bind_eq_bind,
    Option.bind_some, hfraction.ignore hdigit hmark, Option.bind_some, hexponent.ignore hrest]

/-- **What is scanned as a number is one.** -/
lemma number_of_ignore (h : ignoreNumber bytes = some rest) :
    ∃ t, bytes = t ++ rest ∧ NumberText t := by
  rw [ignoreNumber] at h
  simp only [Option.bind_eq_bind, Option.bind_eq_some_iff] at h
  obtain ⟨behind, hscan, behind', hscan', hscan''⟩ := h
  obtain ⟨integer, hminus, hinteger⟩ := integer_of_ignore hscan
  obtain ⟨fraction, rfl, hfraction⟩ := fraction_of_ignore hscan'
  obtain ⟨exponent, rfl, hexponent⟩ := exponent_of_ignore hscan''
  obtain ⟨sign, hbytes, hsign⟩ : ∃ sign, bytes = sign ++ ignoreMinus bytes ∧
      (sign = [] ∨ sign = [45]) := by
    cases bytes with
    | nil => exact ⟨[], rfl, Or.inl rfl⟩
    | cons b bytes =>
      rw [ignoreMinus]
      split_ifs with hb
      · exact ⟨[b], rfl, Or.inr (by rw [hb])⟩
      · exact ⟨[], rfl, Or.inl rfl⟩
  refine ⟨sign ++ (integer ++ (fraction ++ exponent)), ?_, sign, integer, fraction, exponent, rfl,
    hsign, hinteger, hfraction, hexponent⟩
  rw [hbytes, hminus]
  simp only [List.append_assoc]

lemma isNumber_iff {text : String} : isNumber text = true ↔ NumberText (utf8 text) := by
  constructor
  · intro h
    obtain ⟨t, htext, hnumber⟩ := number_of_ignore (of_decide_eq_true h)
    rw [List.append_nil] at htext
    rwa [htext]
  · intro h
    have hscan := @NumberText.ignore _ [] h rfl
    rw [List.append_nil] at hscan
    exact decide_eq_true hscan

lemma NumberText.head (h : NumberText t) :
    ∃ b tail, t = b :: tail ∧ (b = 45 ∨ isDigit b = true) := by
  obtain ⟨sign, integer, fraction, exponent, rfl, rfl | rfl, hinteger, -⟩ := h
  · rcases hinteger with rfl | ⟨hdigits, -⟩
    · exact ⟨48, _, rfl, Or.inr (by decide)⟩
    · obtain ⟨b, tail, rfl, hdigit⟩ := hdigits.head
      exact ⟨b, _, rfl, Or.inr hdigit⟩
  · exact ⟨45, _, rfl, Or.inl rfl⟩

end Numbers

/-! ## Values -/

/-- The key of a member, from behind the mark before it to the colon. -/
def KeyText (t : Bytes) (key : String) : Prop :=
  ∃ w s w', t = w ++ 34 :: (s ++ 34 :: w') ∧ Space w ∧ Space w' ∧ Spelling s (utf8 key)

mutual

/-- A value, with nothing around it. -/
inductive Value : Bytes → Json → Prop
  | null : Value (utf8 "null") .null
  | yes : Value (utf8 "true") (.bool true)
  | no : Value (utf8 "false") (.bool false)
  | number {text : String} : NumberText (utf8 text) → Value (utf8 text) (.number text)
  | string {s : Bytes} {text : String} : Spelling s (utf8 text) →
      Value (34 :: (s ++ [34])) (.string text)
  | noItems {w : Bytes} : Space w → Value (91 :: (w ++ [93])) (.array [])
  | array {body : Bytes} {items : List Json} : Items body items →
      Value (91 :: (body ++ [93])) (.array items)
  | noMembers {w : Bytes} : Space w → Value (123 :: (w ++ [125])) (.object [])
  | object {body : Bytes} {fields : List (String × Json)} : Members body fields →
      Value (123 :: (body ++ [125])) (.object fields)

/-- A value in whitespace. -/
inductive Text : Bytes → Json → Prop
  | around {w t w' : Bytes} {v : Json} : Space w → Value t v → Space w' → Text (w ++ (t ++ w')) v

/-- The items between the brackets of an array, one at least. -/
inductive Items : Bytes → List Json → Prop
  | last {t : Bytes} {v : Json} : Text t v → Items t [v]
  | more {t body : Bytes} {v : Json} {items : List Json} : Text t v → Items body items →
      Items (t ++ 44 :: body) (v :: items)

/-- The members between the braces of an object, one at least. -/
inductive Members : Bytes → List (String × Json) → Prop
  | last {k t : Bytes} {key : String} {v : Json} : KeyText k key → Text t v →
      Members (k ++ 58 :: t) [(key, v)]
  | more {k t body : Bytes} {key : String} {v : Json} {fields : List (String × Json)} :
      KeyText k key → Text t v → Members body fields →
      Members (k ++ 58 :: (t ++ 44 :: body)) ((key, v) :: fields)

end

lemma Text.pad {w t w' : Bytes} {v : Json} (hw : Space w) (h : Text t v) (hw' : Space w') :
    Text (w ++ (t ++ w')) v := by
  cases h with
  | @around u t u' _ hu hvalue hu' =>
    have htext := Text.around (hw.append hu) hvalue (hu'.append hw')
    simpa only [List.append_assoc] using htext

/-- What a value begins with. -/
lemma Value.head {t : Bytes} {v : Json} (h : Value t v) :
    ∃ b tail, t = b :: tail ∧ isSpace b = false ∧ b ≠ 93 := by
  cases h with
  | null => exact ⟨110, [117, 108, 108], by decide, by decide, by decide⟩
  | yes => exact ⟨116, [114, 117, 101], by decide, by decide, by decide⟩
  | no => exact ⟨102, [97, 108, 115, 101], by decide, by decide, by decide⟩
  | number hnumber =>
    obtain ⟨b, tail, hbytes, hb⟩ := hnumber.head
    refine ⟨b, tail, hbytes, isSpace_false_of_number hb, ?_⟩
    rintro rfl
    rcases hb with hb | hb <;> cases hb
  | string => exact ⟨34, _, rfl, by decide, by decide⟩
  | noItems => exact ⟨91, _, rfl, by decide, by decide⟩
  | array => exact ⟨91, _, rfl, by decide, by decide⟩
  | noMembers => exact ⟨123, _, rfl, by decide, by decide⟩
  | object => exact ⟨123, _, rfl, by decide, by decide⟩

/-- The closing bracket of an array does not stand before its first item. -/
lemma Text.expect_none {t : Bytes} {v : Json} (h : Text t v) (rest : Bytes) :
    expect 93 (t ++ rest) = none := by
  cases h with
  | around hw hvalue =>
    obtain ⟨b, tail, rfl, hspace, hb⟩ := hvalue.head
    rw [List.append_assoc, expect_space hw]
    exact expect_ne hspace hb

lemma Items.expect_none {body : Bytes} {items : List Json} (h : Items body items) (rest : Bytes) :
    expect 93 (body ++ rest) = none := by
  cases h with
  | last htext => exact htext.expect_none rest
  | more htext => rw [List.append_assoc]; exact htext.expect_none _

lemma KeyText.expect_none {k : Bytes} {key : String} (h : KeyText k key) (rest : Bytes) :
    expect 125 (k ++ rest) = none := by
  obtain ⟨w, s, w', rfl, hw, -⟩ := h
  rw [List.append_assoc, expect_space hw]
  exact expect_ne (by decide) (by decide)

lemma Members.expect_none {body : Bytes} {fields : List (String × Json)} (h : Members body fields)
    (rest : Bytes) : expect 125 (body ++ rest) = none := by
  cases h with
  | last hkey => rw [List.append_assoc]; exact hkey.expect_none _
  | more hkey => rw [List.append_assoc]; exact hkey.expect_none _

/-! ## Scanning -/

lemma ignoreValue_space {w : Bytes} (h : Space w) (fuel : ℕ) (bytes : Bytes) :
    ignoreValue fuel (w ++ bytes) = ignoreValue fuel bytes := by
  cases fuel with
  | zero => rfl
  | succ fuel => rw [ignoreValue, ignoreValue, h.skip]

/-- The words, each with the marks it does not begin with. -/
lemma ignoreValue_words (fuel : ℕ) (rest : Bytes) :
    ignoreValue (fuel + 1) (utf8 "null" ++ rest) = some rest ∧
      ignoreValue (fuel + 1) (utf8 "true" ++ rest) = some rest ∧
        ignoreValue (fuel + 1) (utf8 "false" ++ rest) = some rest := by
  have hnull : utf8 "null" = [110, 117, 108, 108] := by decide
  have htrue : utf8 "true" = [116, 114, 117, 101] := by decide
  have hfalse : utf8 "false" = [102, 97, 108, 115, 101] := by decide
  refine ⟨?_, ?_, ?_⟩
  · have hword := ignoreWord_append (utf8 "null") rest
    rw [hnull] at hword ⊢
    rw [List.cons_append, ignoreValue, skipSpace_cons (by decide), hnull]
    exact hword
  · have hword := ignoreWord_append (utf8 "true") rest
    rw [htrue] at hword ⊢
    rw [List.cons_append, ignoreValue, skipSpace_cons (by decide), htrue]
    exact hword
  · have hword := ignoreWord_append (utf8 "false") rest
    rw [hfalse] at hword ⊢
    rw [List.cons_append, ignoreValue, skipSpace_cons (by decide), hfalse]
    exact hword

lemma ignoreValue_number {t : Bytes} (h : NumberText t) (fuel : ℕ) {rest : Bytes}
    (hrest : Ends rest) : ignoreValue (fuel + 1) (t ++ rest) = some rest := by
  obtain ⟨b, tail, rfl, hb⟩ := h.head
  have hall : ∀ n < 256, (UInt8.ofNat n = 45 ∨ isDigit (UInt8.ofNat n) = true) →
      UInt8.ofNat n ≠ 34 ∧ UInt8.ofNat n ≠ 91 ∧ UInt8.ofNat n ≠ 123 := by decide +kernel
  have hmarks := hall b.toNat b.toNat_lt
  rw [UInt8.ofNat_toNat] at hmarks
  obtain ⟨hquote, harray, hobject⟩ := hmarks hb
  have hscan := h.ignore hrest
  rw [List.cons_append] at hscan ⊢
  rw [ignoreValue, skipSpace_cons (isSpace_false_of_number hb)]
  dsimp only
  rw [if_neg hquote, if_neg harray, if_neg hobject, if_pos hb, hscan]

/-- A key is scanned, and the colon behind it is found. -/
lemma KeyText.ignore {k : Bytes} {key : String} (h : KeyText k key) (rest : Bytes) :
    ∃ text behind, expect 34 (k ++ 58 :: rest) = some text ∧ ignoreString text = some behind ∧
      expect 58 behind = some rest := by
  obtain ⟨w, s, w', rfl, hw, hw', hs⟩ := h
  refine ⟨s ++ 34 :: (w' ++ 58 :: rest), w' ++ 58 :: rest, ?_, hs.ignore _, ?_⟩
  · rw [List.append_assoc, expect_space hw]
    simp only [List.cons_append, List.append_assoc]
    exact expect_cons (by decide) _
  · rw [expect_space hw']
    exact expect_cons (by decide) rest

mutual

/-- **A value is scanned to its end**, whatever ends it. -/
theorem ignoreValue_append {t : Bytes} {v : Json} : Value t v → ∀ (fuel : ℕ) {rest : Bytes},
    Ends rest → t.length ≤ fuel → ignoreValue fuel (t ++ rest) = some rest
  | hvalue, 0, rest, _, hfuel => by
      obtain ⟨b, tail, rfl, -⟩ := hvalue.head
      simp at hfuel
  | .null, fuel + 1, rest, _, _ => (ignoreValue_words fuel rest).1
  | .yes, fuel + 1, rest, _, _ => (ignoreValue_words fuel rest).2.1
  | .no, fuel + 1, rest, _, _ => (ignoreValue_words fuel rest).2.2
  | .number hnumber, fuel + 1, rest, hends, _ => ignoreValue_number hnumber fuel hends
  | .string hs, fuel + 1, rest, _, _ => by
      simp only [List.cons_append, List.append_assoc, List.nil_append]
      rw [ignoreValue, skipSpace_cons (by decide)]
      dsimp only
      rw [if_pos rfl, hs.ignore]
  | .noItems hw, fuel + 1, rest, _, _ => by
      simp only [List.cons_append, List.append_assoc, List.nil_append]
      rw [ignoreValue, skipSpace_cons (by decide)]
      dsimp only
      rw [if_neg (by decide), if_pos rfl, expect_space hw, expect_cons (by decide),
        Option.isSome_some, if_pos rfl]
  | .array hitems, fuel + 1, rest, _, hfuel => by
      simp only [List.length_cons, List.length_append, List.length_nil] at hfuel
      have hscan := ignoreItems_append hitems fuel rest (by omega)
      simp only [List.cons_append, List.append_assoc, List.nil_append]
      rw [ignoreValue, skipSpace_cons (by decide)]
      dsimp only
      rw [if_neg (by decide), if_pos rfl, hitems.expect_none, Option.isSome_none,
        if_neg (by decide), hscan]
  | .noMembers hw, fuel + 1, rest, _, _ => by
      simp only [List.cons_append, List.append_assoc, List.nil_append]
      rw [ignoreValue, skipSpace_cons (by decide)]
      dsimp only
      rw [if_neg (by decide), if_neg (by decide), if_pos rfl, expect_space hw,
        expect_cons (by decide), Option.isSome_some, if_pos rfl]
  | .object hmembers, fuel + 1, rest, _, hfuel => by
      simp only [List.length_cons, List.length_append, List.length_nil] at hfuel
      have hscan := ignoreMembers_append hmembers fuel rest (by omega)
      simp only [List.cons_append, List.append_assoc, List.nil_append]
      rw [ignoreValue, skipSpace_cons (by decide)]
      dsimp only
      rw [if_neg (by decide), if_neg (by decide), if_pos rfl, hmembers.expect_none,
        Option.isSome_none, if_neg (by decide), hscan]

/-- A value in whitespace is scanned up to the whitespace behind it. -/
theorem ignoreText_append {t : Bytes} {v : Json} : Text t v → ∀ (fuel : ℕ) {rest : Bytes},
    Ends rest → t.length ≤ fuel →
      ∃ w, Space w ∧ ignoreValue fuel (t ++ rest) = some (w ++ rest)
  | @Text.around _ _ w' _ hw hvalue hw', fuel, rest, hends, hfuel => by
      simp only [List.length_append] at hfuel
      have hscan := ignoreValue_append hvalue fuel (ends_space hw' hends) (by omega)
      refine ⟨w', hw', ?_⟩
      rw [List.append_assoc, List.append_assoc, ignoreValue_space hw, hscan]

/-- Items are scanned to the end of their array. -/
theorem ignoreItems_append {body : Bytes} {items : List Json} : Items body items →
    ∀ (fuel : ℕ) (rest : Bytes), body.length + 1 ≤ fuel →
      ignoreItems fuel (body ++ 93 :: rest) = some rest
  | _, 0, rest, hfuel => by omega
  | .last htext, fuel + 1, rest, hfuel => by
      obtain ⟨w, hw, hscan⟩ := ignoreText_append htext fuel
        (ends_of_mark rest (Or.inr (Or.inl rfl))) (by omega)
      rw [ignoreItems, hscan, Option.bind_eq_bind, Option.bind_some, hw.skip,
        skipSpace_cons (by decide)]
      rfl
  | @Items.more t body _ _ htext hitems, fuel + 1, rest, hfuel => by
      simp only [List.length_append, List.length_cons] at hfuel
      obtain ⟨w, hw, hscan⟩ := ignoreText_append htext fuel
        (ends_of_mark (body ++ 93 :: rest) (Or.inl rfl)) (by omega)
      have hmore := ignoreItems_append hitems fuel rest (by omega)
      rw [List.append_assoc, List.cons_append, ignoreItems, hscan, Option.bind_eq_bind,
        Option.bind_some, hw.skip, skipSpace_cons (by decide)]
      exact hmore

/-- Members are scanned to the end of their object. -/
theorem ignoreMembers_append {body : Bytes} {fields : List (String × Json)} :
    Members body fields → ∀ (fuel : ℕ) (rest : Bytes), body.length + 1 ≤ fuel →
      ignoreMembers fuel (body ++ 125 :: rest) = some rest
  | _, 0, rest, hfuel => by omega
  | @Members.last _ t _ _ hkey htext, fuel + 1, rest, hfuel => by
      simp only [List.length_append, List.length_cons] at hfuel
      obtain ⟨w, hw, hscan⟩ := ignoreText_append htext fuel
        (ends_of_mark rest (Or.inr (Or.inr rfl))) (by omega)
      obtain ⟨text, behind, hquote, hstring, hcolon⟩ := hkey.ignore (t ++ 125 :: rest)
      rw [List.append_assoc, List.cons_append, ignoreMembers]
      simp only [Option.bind_eq_bind, Option.bind_some, hquote, hstring, hcolon, hscan]
      rw [hw.skip, skipSpace_cons (by decide)]
      rfl
  | @Members.more _ t body _ _ _ hkey htext hmembers, fuel + 1, rest, hfuel => by
      simp only [List.length_append, List.length_cons] at hfuel
      obtain ⟨w, hw, hscan⟩ := ignoreText_append htext fuel
        (ends_of_mark (body ++ 125 :: rest) (Or.inl rfl)) (by omega)
      have hmore := ignoreMembers_append hmembers fuel rest (by omega)
      obtain ⟨text, behind, hquote, hstring, hcolon⟩ :=
        hkey.ignore (t ++ 44 :: (body ++ 125 :: rest))
      simp only [List.append_assoc, List.cons_append]
      rw [ignoreMembers]
      simp only [Option.bind_eq_bind, Option.bind_some, hquote, hstring, hcolon, hscan]
      rw [hw.skip, skipSpace_cons (by decide)]
      exact hmore

end

lemma expect_suffix {mark : UInt8} {bytes rest : Bytes} (h : expect mark bytes = some rest) :
    rest <:+ bytes := by
  obtain ⟨w, -, rfl⟩ := exists_of_expect h
  exact (List.suffix_cons mark rest).trans (List.suffix_append w _)

lemma ignoreNumber_suffix {bytes rest : Bytes} (h : ignoreNumber bytes = some rest) :
    rest <:+ bytes := by
  obtain ⟨t, rfl, -⟩ := number_of_ignore h
  exact List.suffix_append t rest

lemma ignoreWord_suffix {word bytes rest : Bytes} (h : ignoreWord word bytes = some rest) :
    rest <:+ bytes := by
  rw [ignoreWord] at h
  split_ifs at h
  rw [← Option.some.inj h]
  exact List.drop_suffix _ _

/-- What stands behind the next mark is behind everything. -/
lemma suffix_of_skipSpace {b : UInt8} {bytes tail : Bytes} (h : skipSpace bytes = b :: tail) :
    tail <:+ bytes := by
  have hall : b :: tail <:+ bytes := h ▸ List.dropWhile_suffix _
  exact (List.suffix_cons b tail).trans hall

mutual

/-- **A scan leaves the end of what it is given.** -/
theorem ignoreValue_suffix : ∀ (fuel : ℕ) {bytes rest : Bytes},
    ignoreValue fuel bytes = some rest → rest <:+ bytes
  | 0, _, _, h => by cases h
  | fuel + 1, bytes, rest, h => by
      rw [ignoreValue] at h
      cases hskip : skipSpace bytes with
      | nil =>
        rw [hskip] at h
        cases h
      | cons b tail =>
        rw [hskip] at h
        dsimp only at h
        have hbehind := suffix_of_skipSpace hskip
        have hall : b :: tail <:+ bytes := hskip ▸ List.dropWhile_suffix _
        split_ifs at h
        · exact (ignoreString_suffix h).trans hbehind
        · exact (expect_suffix h).trans hbehind
        · exact (ignoreItems_suffix fuel h).trans hbehind
        · exact (expect_suffix h).trans hbehind
        · exact (ignoreMembers_suffix fuel h).trans hbehind
        · exact (ignoreNumber_suffix h).trans hall
        · exact (ignoreWord_suffix h).trans hall
        · exact (ignoreWord_suffix h).trans hall
        · exact (ignoreWord_suffix h).trans hall

theorem ignoreItems_suffix : ∀ (fuel : ℕ) {bytes rest : Bytes},
    ignoreItems fuel bytes = some rest → rest <:+ bytes
  | 0, _, _, h => by cases h
  | fuel + 1, bytes, rest, h => by
      rw [ignoreItems, Option.bind_eq_bind, Option.bind_eq_some_iff] at h
      obtain ⟨behind, hvalue, h⟩ := h
      have hfirst := ignoreValue_suffix fuel hvalue
      cases hskip : skipSpace behind with
      | nil =>
        rw [hskip] at h
        cases h
      | cons b tail =>
        rw [hskip] at h
        dsimp only at h
        have hbehind := (suffix_of_skipSpace hskip).trans hfirst
        split_ifs at h
        · exact (ignoreItems_suffix fuel h).trans hbehind
        · rwa [← Option.some.inj h]

theorem ignoreMembers_suffix : ∀ (fuel : ℕ) {bytes rest : Bytes},
    ignoreMembers fuel bytes = some rest → rest <:+ bytes
  | 0, _, _, h => by cases h
  | fuel + 1, bytes, rest, h => by
      rw [ignoreMembers] at h
      simp only [Option.bind_eq_bind, Option.bind_eq_some_iff] at h
      obtain ⟨key, hquote, colon, hkey, value, hcolon, behind, hvalue, h⟩ := h
      have hfirst := (ignoreValue_suffix fuel hvalue).trans ((expect_suffix hcolon).trans
        ((ignoreString_suffix hkey).trans (expect_suffix hquote)))
      cases hskip : skipSpace behind with
      | nil =>
        rw [hskip] at h
        cases h
      | cons b tail =>
        rw [hskip] at h
        dsimp only at h
        have hbehind := (suffix_of_skipSpace hskip).trans hfirst
        split_ifs at h
        · exact (ignoreMembers_suffix fuel h).trans hbehind
        · rwa [← Option.some.inj h]

end

/-! ## What is written -/

open Json (write exact)
open Encoding (joined)

/-- An escaped text spells itself. -/
lemma spelling_escaped (m : Bytes) : Spelling (m.flatMap escapeByte) m := by
  induction m with
  | nil => exact .nil
  | cons b m ih =>
    rw [List.flatMap_cons]
    rcases escapeByte_cases b with ⟨c, h, -, hsimple⟩ | ⟨x, y, h, hunit, hlow⟩ |
      ⟨h, hquote, hslash, hlow⟩
    · rw [h]
      exact .escape hsimple ih
    · have hencode : String.utf8EncodeChar (Char.ofNat b.toNat) = [b] := by
        have hall : ∀ n < 32, String.utf8EncodeChar (Char.ofNat n) = [UInt8.ofNat n] := by
          decide
        rw [hall _ hlow, UInt8.ofNat_toNat]
      have hs := Spelling.unit hunit (by omega) ih
      rw [hencode] at hs
      rw [h]
      exact hs
    · rw [h]
      exact .plain hquote hslash hlow ih

lemma keyText_write (key : String) : KeyText (writeString key) key :=
  ⟨[], (utf8 key).flatMap escapeByte, [], by simp [writeString], space_nil, space_nil,
    spelling_escaped _⟩

lemma Value.text {t : Bytes} {v : Json} (h : Value t v) : Text t v := by
  have htext := Text.around space_nil h space_nil
  rwa [List.nil_append, List.append_nil] at htext

mutual

/-- **What is written is a text of its value.** -/
theorem value_of_write : ∀ v : Json, exact v = true → Value (write v) v
  | .null, _ => .null
  | .bool true, _ => .yes
  | .bool false, _ => .no
  | .number _, h => .number (isNumber_iff.mp h)
  | .string text, _ => by
      have htext : write (.string text) = 34 :: ((utf8 text).flatMap escapeByte ++ [34]) := by
        simp [write, writeString]
      rw [htext]
      exact .string (spelling_escaped _)
  | .array items, h => by
      have hitems := items_of_write items h
      cases items with
      | nil => exact .noItems space_nil
      | cons item items =>
        have htext : write (.array (item :: items)) =
            91 :: (joined (Json.writeItems (item :: items)) ++ [93]) := by
          simp [write]
        rw [htext]
        exact .array (hitems (List.cons_ne_nil _ _))
  | .object fields, h => by
      have hmembers := members_of_write fields h
      cases fields with
      | nil => exact .noMembers space_nil
      | cons field fields =>
        have htext : write (.object (field :: fields)) =
            123 :: (joined (Json.writeFields (field :: fields)) ++ [125]) := by
          simp [write]
        rw [htext]
        exact .object (hmembers (List.cons_ne_nil _ _))

theorem items_of_write : ∀ items : List Json, Json.exactItems items = true → items ≠ [] →
    Items (joined (Json.writeItems items)) items
  | [], _, hne => absurd rfl hne
  | [item], h, _ => .last (value_of_write item (Bool.and_eq_true_iff.mp h).1).text
  | item :: next :: items, h, _ => by
      obtain ⟨hitem, hitems⟩ := Bool.and_eq_true_iff.mp h
      exact .more (value_of_write item hitem).text
        (items_of_write (next :: items) hitems (List.cons_ne_nil _ _))

theorem members_of_write : ∀ fields : List (String × Json), Json.exactFields fields = true →
    fields ≠ [] → Members (joined (Json.writeFields fields)) fields
  | [], _, hne => absurd rfl hne
  | [(key, v)], h, _ =>
      .last (keyText_write key) (value_of_write v (Bool.and_eq_true_iff.mp h).1).text
  | (key, v) :: next :: fields, h, _ => by
      obtain ⟨hvalue, hfields⟩ := Bool.and_eq_true_iff.mp h
      have hmembers := Members.more (keyText_write key) (value_of_write v hvalue).text
        (members_of_write (next :: fields) hfields (List.cons_ne_nil _ _))
      simpa [Json.writeFields, joined] using hmembers

end

end Grammar

end ExperimentControl
