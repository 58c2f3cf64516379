import ExperimentControl.Json.Text

/-!
# Literals of admitted texts

How long the identifiers, digests, paths and counters that records are made of become as JSON text.
What the checks admit decides it: an identifier or a digest is written as it is, a path pays one
more byte for each quote.

* `Clear`, `Clear.textSize_eq` — texts that are written as they are.
* `clear_of_validateId`, `clear_of_component`, `clear_of_isSha256`, … — what the checks admit.
* `size_ofNat_le` — a counter of 64 bits takes twenty digits at most.
-/

namespace ExperimentControl

/-! ## Clear texts -/

/-- A character that a literal holds as it is. -/
def isClear (c : Char) : Bool := isPlain c ∧ c ≠ '"'

/-- A text that its literal holds as it is. -/
def Clear (text : String) : Prop := text.toList.all isClear = true

lemma Clear.textSize_eq {text : String} (h : Clear text) : textSize text = byteLen text + 2 := by
  unfold Clear isClear at h
  rw [List.all_eq_true] at h
  simp only [decide_eq_true_eq] at h
  rw [ExperimentControl.textSize_eq (List.all_eq_true.mpr fun c hc => (h c hc).1)]
  rw [List.count_eq_zero.mpr fun hmem => (h _ hmem).2 rfl]

lemma clear_append {s t : String} (hs : Clear s) (ht : Clear t) : Clear (s ++ t) := by
  unfold Clear at *
  rw [String.toList_append, List.all_append, hs, ht]
  rfl

lemma byteLen_append (s t : String) : byteLen (s ++ t) = byteLen s + byteLen t := by
  unfold byteLen
  rw [utf8_append, List.length_append]

/-! ## What the checks admit -/

lemma toNat_lt_of_isIdChar {c : Char} (h : isIdChar c = true) : c.toNat < 128 := by
  simp only [isIdChar, Char.isAlphanum, Char.isAlpha, Char.isUpper, Char.isLower, Char.isDigit,
    Bool.or_eq_true, Bool.and_eq_true, decide_eq_true_eq] at h
  rcases h with ((⟨-, h⟩ | ⟨-, h⟩) | ⟨-, h⟩) | rfl | rfl | rfl
  · exact Nat.lt_of_le_of_lt (UInt32.le_iff_toNat_le.mp h) (by decide)
  · exact Nat.lt_of_le_of_lt (UInt32.le_iff_toNat_le.mp h) (by decide)
  · exact Nat.lt_of_le_of_lt (UInt32.le_iff_toNat_le.mp h) (by decide)
  all_goals decide

/-- Letters and digits of ASCII are clear, and so are the marks of an identifier. -/
lemma isClear_of_isIdChar {c : Char} (h : isIdChar c = true) : isClear c = true := by
  have hall : ∀ n < 128, isIdChar (Char.ofNat n) = true → isClear (Char.ofNat n) = true := by
    decide +kernel
  have hchar : Char.ofNat c.toNat = c := Char.ofNat_toNat c
  rw [← hchar] at h ⊢
  exact hall c.toNat (toNat_lt_of_isIdChar (hchar ▸ h)) h

lemma isIdChar_of_isLowerHex {c : Char} (h : isLowerHex c = true) : isIdChar c = true := by
  simp only [isLowerHex, decide_eq_true_eq] at h
  simp only [isIdChar, Char.isAlphanum, Char.isAlpha, Char.isUpper, Char.isLower, Char.isDigit,
    Bool.or_eq_true, Bool.and_eq_true, decide_eq_true_eq]
  rcases h with ⟨hlow, hhigh⟩ | ⟨hlow, hhigh⟩
  · exact Or.inl (Or.inr ⟨hlow, hhigh⟩)
  · refine Or.inl (Or.inl (Or.inr ⟨hlow, ?_⟩))
    exact UInt32.le_trans hhigh (by decide)

/-- A text of identifier characters is clear. -/
lemma clear_of_all {text : String} {ok : Char → Bool} (hok : ∀ c, ok c = true → isIdChar c = true)
    (h : text.toList.all ok = true) : Clear text := by
  rw [List.all_eq_true] at h
  exact List.all_eq_true.mpr fun c hc => isClear_of_isIdChar (hok c (h c hc))

lemma clear_of_validateId {text : String} (h : validateId text = .ok ()) :
    Clear text ∧ byteLen text ≤ 128 := by
  simp only [validateId, reject_eq_ok, not_or, not_not, gt_iff_lt, not_lt] at h
  exact ⟨clear_of_all (fun _ h => h) h.2.2, h.1⟩

lemma clear_of_component {text : String} (h : component text = true) :
    Clear text ∧ byteLen text ≤ 128 := by
  simp only [component, decide_eq_true_eq] at h
  refine ⟨clear_of_all (fun c hc => ?_) h.2.2, h.1⟩
  simp only [decide_eq_true_eq] at hc
  simp only [isIdChar, decide_eq_true_eq]
  tauto

/-- A text has a byte a character at least. -/
lemma length_le_byteLen (text : String) : text.toList.length ≤ byteLen text := by
  rw [byteLen, utf8_eq]
  induction text.toList with
  | nil => exact Nat.le_refl 0
  | cons c chars ih =>
    have hpos : 0 < c.utf8Size := c.utf8Size_pos
    rw [List.flatMap_cons, List.length_append, List.length_cons, String.length_utf8EncodeChar]
    omega

/-- A clear text has one byte a character, if it is made of identifier characters. -/
lemma byteLen_of_all {text : String} (h : text.toList.all isIdChar = true) :
    byteLen text = text.toList.length := by
  have hascii : ∀ n < 128, isIdChar (Char.ofNat n) = true → (Char.ofNat n).utf8Size = 1 := by
    decide +kernel
  rw [byteLen, length_utf8_of_ascii, String.length_toList]
  intro c hc
  have hid := List.all_eq_true.mp h c hc
  have hchar : Char.ofNat c.toNat = c := Char.ofNat_toNat c
  rw [← hchar] at hid ⊢
  exact hascii c.toNat (toNat_lt_of_isIdChar (hchar ▸ hid)) hid

/-- The length of a literal, from its characters. -/
lemma byteLen_ofList {chars : List Char} (h : chars.all isIdChar = true) :
    byteLen (String.ofList chars) = chars.length := by
  rw [byteLen_of_all (by rwa [String.toList_ofList]), String.toList_ofList]

/-- An identifier, from its characters. -/
lemma validateId_ofList {chars : List Char} (hlength : chars.length ≤ 128)
    (hfirst : chars.head?.any Char.isAlphanum = true) (hall : chars.all isIdChar = true) :
    validateId (String.ofList chars) = .ok () := by
  have hlist : (String.ofList chars).toList = chars := String.toList_ofList
  rw [validateId, reject_eq_ok, byteLen_ofList hall, hlist, hfirst, hall]
  simp [hlength]

/-- A name of the scheduler's, from its characters. -/
lemma component_ofList {chars : List Char} (hlength : chars.length ≤ 128)
    (hfirst : chars.head?.any Char.isAlphanum = true) (hall : chars.all isIdChar = true) :
    component (String.ofList chars) = true := by
  have hlist : (String.ofList chars).toList = chars := String.toList_ofList
  have hword : (chars.all fun c => c.isAlphanum ∨ c = '_' ∨ c = '.' ∨ c = '-') = true := by
    refine List.all_eq_true.mpr fun c hc => ?_
    have hid := List.all_eq_true.mp hall c hc
    simp only [isIdChar, decide_eq_true_eq] at hid ⊢
    tauto
  rw [component, byteLen_ofList hall, hlist, hfirst, hword]
  simp [hlength]

/-- The size of a literal, from its characters. -/
lemma textSize_ofList {chars : List Char} (h : chars.all isIdChar = true) :
    textSize (String.ofList chars) = chars.length + 2 := by
  have hall : (String.ofList chars).toList.all isIdChar = true := by rwa [String.toList_ofList]
  rw [(clear_of_all (fun _ h => h) hall).textSize_eq, byteLen_ofList h]

lemma clear_of_isSha256 {text : String} (h : isSha256 text = true) :
    Clear text ∧ byteLen text = 64 := by
  simp only [isSha256, decide_eq_true_eq] at h
  have hall : text.toList.all isIdChar = true := by
    refine List.all_eq_true.mpr fun c hc => isIdChar_of_isLowerHex ?_
    exact List.all_eq_true.mp h.2 c hc
  exact ⟨clear_of_all (fun _ h => h) hall, by rw [byteLen_of_all hall, h.1]⟩

lemma clear_of_validDigest {text : String} (h : validDigest text = true) :
    Clear text ∧ byteLen text = 71 := by
  simp only [validDigest, decide_eq_true_eq] at h
  obtain ⟨⟨rest, hrest⟩, hdigest⟩ := h
  have hdrop : text.toList.drop 7 = rest := by
    rw [← hrest]
    rfl
  rw [hdrop] at hdigest
  have htext : text = "sha256:" ++ String.ofList rest := by
    apply String.toList_inj.mp
    rw [← hrest, String.toList_append, @String.toList_ofList rest]
  obtain ⟨hclear, hlength⟩ := clear_of_isSha256 hdigest
  rw [htext]
  refine ⟨clear_append (by unfold Clear; decide) hclear, ?_⟩
  rw [byteLen_append, hlength]
  rfl

lemma isIdChar_of_validateAttempt {text : String} (h : validateAttempt text = .ok ()) :
    text.toList.all isIdChar = true := by
  simp only [validateAttempt, bind_eq_ok, reject_eq_ok, not_or, not_not] at h
  obtain ⟨⟨⟩, ⟨rest, hrest⟩, -, hdigits⟩ := h
  have hdrop : text.toList.drop 8 = rest := by
    rw [← hrest]
    rfl
  rw [hdrop] at hdigits
  rw [← hrest, List.all_append, Bool.and_eq_true]
  refine ⟨by decide, List.all_eq_true.mpr fun c hc => ?_⟩
  have hdigit := List.all_eq_true.mp hdigits c hc
  simp [isIdChar, Char.isAlphanum, hdigit]

lemma clear_of_validateAttempt {text : String} (h : validateAttempt text = .ok ()) : Clear text :=
  clear_of_all (fun _ h => h) (isIdChar_of_validateAttempt h)

/-- A text of identifier characters is printable. -/
lemma printable_of_all {text : String} {limit : ℕ} (hall : text.toList.all isIdChar = true)
    (hne : text ≠ "") (hlength : text.toList.length ≤ limit) : printable text limit = true := by
  simp only [printable, decide_eq_true_eq, List.any_eq_true, not_exists, not_and, Bool.not_eq_true]
  refine ⟨hne, by rwa [byteLen_of_all hall], fun c hc => ?_⟩
  have hclear := isClear_of_isIdChar (List.all_eq_true.mp hall c hc)
  simp only [isClear, isPlain, decide_eq_true_eq, Bool.not_eq_true] at hclear
  exact hclear.1.1

/-- A path pays one more byte for each quote. -/
lemma textSize_of_absolutePath {text : String} (h : absolutePath text = true) :
    textSize text = byteLen text + text.toList.count '"' + 2 ∧ byteLen text ≤ 4096 := by
  simp only [absolutePath, printable, decide_eq_true_eq, List.any_eq_true, not_exists, not_and,
    not_or, Bool.not_eq_true] at h
  obtain ⟨-, ⟨-, hlength, hcontrol⟩, hmarks, -⟩ := h
  refine ⟨textSize_eq (List.all_eq_true.mpr fun c hc => ?_), hlength⟩
  simp only [isPlain, decide_eq_true_eq]
  exact ⟨by simp [hcontrol c hc], (hmarks c hc).2⟩

/-! ## Counters -/

/-- A decimal text has digits only. -/
lemma toString_all (n : ℕ) : (toString n).toList.all isIdChar = true := by
  have hlist : (Nat.repr n).toList = Nat.toDigits 10 n := Nat.toList_repr
  rw [Nat.toString_eq_repr]
  refine List.all_eq_true.mpr fun c hc => ?_
  rw [hlist] at hc
  have hdigit := Nat.isDigit_of_mem_toDigits (by decide) (by decide) hc
  simp [isIdChar, Char.isAlphanum, hdigit]

lemma clear_toString (n : ℕ) : Clear (toString n) := clear_of_all (fun _ h => h) (toString_all n)

/-- A number text has one byte a digit. -/
lemma size_ofNat (n : ℕ) : (Json.ofNat n).size = (Nat.repr n).length := by
  change byteLen (toString n) = _
  rw [byteLen_of_all (toString_all n), Nat.toString_eq_repr, String.length_toList]

/-- A counter of 64 bits takes twenty digits at most. -/
lemma size_ofNat_le (n : UInt64) : (Json.ofNat n.toNat).size ≤ 20 := by
  have hlt := n.toNat_lt
  rw [size_ofNat, Nat.length_repr_le_iff (by decide)]
  omega

lemma size_ofNat_pos (n : ℕ) : 0 < (Json.ofNat n).size := by
  rw [size_ofNat]
  exact Nat.length_repr_pos

end ExperimentControl
