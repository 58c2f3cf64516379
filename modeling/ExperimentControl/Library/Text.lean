import ExperimentControl.Library.Framing

/-!
# Texts as bytes

UTF-8 and hexadecimal texts, as far as a record format needs them: both determine what they encode,
and an ASCII text has one byte a character.

* `utf8`, `fromUtf8` — the bytes of a text and back, with **`utf8_injective`** and
  **`fromUtf8_eq_some`**.
* `lowerHex` — the two-digit hexadecimal rendering, and **`lowerHex_injective`**.
-/

namespace ExperimentControl

/-! ## UTF-8 -/

/-- The bytes of a text in UTF-8. -/
def utf8 (s : String) : Bytes := s.toUTF8.data.toList

lemma utf8_eq (s : String) : utf8 s = s.toList.flatMap String.utf8EncodeChar := by
  unfold utf8
  change s.toByteArray.data.toList = _
  rw [← String.utf8Encode_toList, List.utf8Encode, List.data_toByteArray]

/-- **UTF-8 determines the text.** -/
theorem utf8_injective : Function.Injective utf8 := by
  intro s t h
  have hdata : s.toUTF8.data = t.toUTF8.data := Array.toList_inj.mp h
  exact String.toByteArray_inj.mp (ByteArray.ext hdata)

@[simp] lemma utf8_append (s t : String) : utf8 (s ++ t) = utf8 s ++ utf8 t := by
  simp [utf8_eq]

/-- `String::from_utf8`: the text of some bytes, if they are the bytes of one. -/
def fromUtf8 (bytes : Bytes) : Option String := String.fromUTF8? ⟨bytes.toArray⟩

/-- **Bytes are read as the text they are the bytes of**, and as no other. -/
theorem fromUtf8_eq_some {bytes : Bytes} {s : String} : fromUtf8 bytes = some s ↔ utf8 s = bytes := by
  unfold fromUtf8 String.fromUTF8?
  constructor
  · intro h
    split_ifs at h with hvalid
    rw [← Option.some.inj h]
    rfl
  · rintro rfl
    have hvalid : ByteArray.IsValidUTF8 ⟨(utf8 s).toArray⟩ := s.isValidUTF8
    rw [dif_pos hvalid]
    exact congrArg some (utf8_injective rfl)

@[simp] lemma fromUtf8_utf8 (s : String) : fromUtf8 (utf8 s) = some s := fromUtf8_eq_some.mpr rfl

/-- An ASCII text has one byte a character. -/
lemma length_utf8_of_ascii {s : String} (h : ∀ c ∈ s.toList, c.utf8Size = 1) :
    (utf8 s).length = s.length := by
  rw [utf8_eq, ← String.length_toList]
  generalize s.toList = chars at h ⊢
  induction chars with
  | nil => rfl
  | cons c cs ih =>
    simp only [List.flatMap_cons, List.length_append, List.length_cons,
      String.length_utf8EncodeChar, h c (by simp), ih fun d hd => h d (by simp [hd])]
    omega

/-! ## Hexadecimal text -/

/-- The lower-case hexadecimal digit of `n < 16`. -/
def hexDigit (n : ℕ) : Char :=
  if n < 10 then Char.ofNat (48 + n) else Char.ofNat (87 + n)

/-- Two lower-case hexadecimal digits a byte. -/
def lowerHex (bytes : Bytes) : List Char :=
  bytes.flatMap fun b => [hexDigit (b.toNat / 16), hexDigit (b.toNat % 16)]

@[simp] lemma length_lowerHex (bytes : Bytes) : (lowerHex bytes).length = 2 * bytes.length := by
  induction bytes with
  | nil => rfl
  | cons b bytes ih =>
    simp only [lowerHex, List.flatMap_cons, List.length_append, List.length_cons,
      List.length_nil] at ih ⊢
    omega

lemma mem_lowerHex {c : Char} {bytes : Bytes} (h : c ∈ lowerHex bytes) :
    ∃ n < 16, c = hexDigit n := by
  simp only [lowerHex, List.mem_flatMap, List.mem_cons, List.not_mem_nil, or_false] at h
  obtain ⟨b, _, rfl | rfl⟩ := h
  · exact ⟨b.toNat / 16, by have := b.toNat_lt; omega, rfl⟩
  · exact ⟨b.toNat % 16, by omega, rfl⟩

/-- The digits of the sixteen values differ. -/
lemma hexDigit_inj : ∀ m < 16, ∀ n < 16, hexDigit m = hexDigit n → m = n := by
  decide

/-- **Hexadecimal text determines the bytes.** -/
theorem lowerHex_injective : Function.Injective lowerHex := by
  have hdelim : SelfDelimiting
      (fun b : UInt8 => [hexDigit (b.toNat / 16), hexDigit (b.toNat % 16)]) Set.univ := by
    refine ⟨fun _ _ => by simp, ?_⟩
    intro a _ b _ s t heq
    simp only [List.cons_append, List.nil_append, List.cons.injEq] at heq
    have ha := a.toNat_lt
    have hb := b.toNat_lt
    have hhigh := hexDigit_inj _ (by omega) _ (by omega) heq.1
    have hlow := hexDigit_inj _ (by omega) _ (by omega) heq.2.1
    exact ⟨UInt8.toNat_inj.mp (by omega), heq.2.2⟩
  intro a b h
  exact hdelim.flatMap_inj (fun _ _ => Set.mem_univ _) (fun _ _ => Set.mem_univ _) h

end ExperimentControl
