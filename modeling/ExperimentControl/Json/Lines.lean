import ExperimentControl.Json.Admission
import ExperimentControl.Json.Shape

/-!
# JSON texts as lines

A written object as a line of its own: no byte in it ends a line, the end of the line changes
nothing of what is read, and a line that is cut anywhere before its end is no object.

* `newline_write` — no newline in a written value.
* `ownMapping_write`, `ownMapping_line` — reading a written object, alone and with its line end.
* **`ownMapping_front`** — a front of a written object is not read as one.
* `Json.readable_insert`, `Json.depthFields_insert` — objects that are edited.
* `Json.get_asStr_normal`, `Json.get_asU64_normal` — what is read in a normal form.
-/

namespace ExperimentControl

namespace Grammar

open Syntax Encoding Json

/-! ## Line ends -/

lemma newline_escapeByte (b : UInt8) : (10 : UInt8) ∉ escapeByte b := by
  have hcode : ∀ n < 32,
      (10 : UInt8) ∉ utf8 (String.ofList [hexDigit (n / 16), hexDigit (n % 16)]) := by
    decide
  unfold escapeByte
  split
  case h_8 =>
    split_ifs with hlow
    · simpa using hcode _ hlow
    · simp only [List.mem_singleton]
      rintro rfl
      exact hlow (by decide)
  all_goals simp

lemma newline_writeString (text : String) : (10 : UInt8) ∉ writeString text := by
  unfold writeString
  simp only [List.cons_append, List.mem_cons, List.mem_append, List.mem_flatMap, List.not_mem_nil,
    or_false, not_or, not_exists, not_and]
  refine ⟨by decide, ?_, by decide⟩
  intro b _
  exact newline_escapeByte b

lemma newline_digit {b : UInt8} (h : isDigit b = true) : b ≠ 10 := by
  rintro rfl
  exact absurd h (by decide)

lemma Digits.newline {t : Bytes} (h : Digits t) : (10 : UInt8) ∉ t := by
  intro hmem
  exact newline_digit (h.2 10 hmem) rfl

lemma NumberText.newline {t : Bytes} (h : NumberText t) : (10 : UInt8) ∉ t := by
  obtain ⟨sign, integer, fraction, exponent, rfl, hsign, hinteger, hfraction, hexponent⟩ := h
  simp only [List.mem_append, not_or]
  refine ⟨?_, ?_, ?_, ?_⟩
  · rcases hsign with rfl | rfl <;> simp
  · rcases hinteger with rfl | ⟨hdigits, -⟩
    · simp
    · exact hdigits.newline
  · rcases hfraction with rfl | ⟨digits, rfl, hdigits⟩
    · simp
    · simp [hdigits.newline]
  · rcases hexponent with rfl | ⟨mark, sign, digits, rfl, hmark, hsign, hdigits⟩
    · simp
    · rcases hmark with rfl | rfl <;> rcases hsign with rfl | rfl | rfl <;>
        simp [hdigits.newline]

lemma newline_joined {items : List Bytes} (h : ∀ item ∈ items, (10 : UInt8) ∉ item) :
    (10 : UInt8) ∉ joined items := by
  induction items with
  | nil => simp [joined]
  | cons item items ih =>
      cases items with
      | nil => simpa [joined] using h item (by simp)
      | cons next items =>
          have hrest := ih fun item hitem => h item (by simp [hitem])
          simp [joined, h item (by simp), hrest]

mutual

/-- **No byte of a written value ends a line.** -/
theorem newline_write : ∀ v : Json, exact v = true → (10 : UInt8) ∉ write v
  | .null, _ => by decide
  | .bool true, _ => by decide
  | .bool false, _ => by decide
  | .number _, h => (isNumber_iff.mp h).newline
  | .string text, _ => newline_writeString text
  | .array items, h => by
      have hitems := newline_joined (newline_writeItems items h)
      simp [write, hitems]
  | .object fields, h => by
      have hfields := newline_joined (newline_writeFields fields h)
      simp [write, hfields]

lemma newline_writeItems : ∀ items : List Json, exactItems items = true →
    ∀ item ∈ writeItems items, (10 : UInt8) ∉ item
  | [], _ => by simp [writeItems]
  | item :: items, h => by
      obtain ⟨hitem, hitems⟩ := Bool.and_eq_true_iff.mp h
      simp only [writeItems, List.forall_mem_cons]
      exact ⟨newline_write item hitem, newline_writeItems items hitems⟩

lemma newline_writeFields : ∀ fields : List (String × Json), exactFields fields = true →
    ∀ member ∈ writeFields fields, (10 : UInt8) ∉ member
  | [], _ => by simp [writeFields]
  | (key, value) :: fields, h => by
      obtain ⟨hvalue, hfields⟩ := Bool.and_eq_true_iff.mp h
      simp only [writeFields, List.forall_mem_cons]
      refine ⟨?_, newline_writeFields fields hfields⟩
      simp [newline_writeString key, newline_write value hvalue]

end

/-! ## The end of an object -/

/-- An object is scanned to its end, whatever stands behind it. -/
lemma ignoreValue_object {t : Bytes} {fields : List (String × Json)} (h : Value t (.object fields))
    (rest : Bytes) : ignoreValue (t ++ rest).length (t ++ rest) = some rest := by
  cases h with
  | noMembers hw =>
      simp only [List.cons_append, List.append_assoc, List.nil_append, List.length_cons]
      rw [ignoreValue, skipSpace_cons (by decide)]
      dsimp only
      rw [if_neg (by decide), if_neg (by decide), if_pos rfl, expect_space hw,
        expect_cons (by decide), Option.isSome_some, if_pos rfl]
  | @object body _ hmembers =>
      simp only [List.cons_append, List.append_assoc, List.nil_append, List.length_cons]
      have hscan := ignoreMembers_append hmembers (body ++ 125 :: rest).length rest
        (by simp only [List.length_append, List.length_cons]; omega)
      rw [ignoreValue, skipSpace_cons (by decide)]
      dsimp only
      rw [if_neg (by decide), if_neg (by decide), if_pos rfl, hmembers.expect_none,
        Option.isSome_none, if_neg (by decide), hscan]

/-- An object does not begin with another one. -/
lemma object_front {t front rest : Bytes} {fields others : List (String × Json)}
    (h : Value t (.object fields)) (hfront : Text front (.object others)) (ht : t = front ++ rest) :
    rest = [] := by
  obtain ⟨b, tail, hhead, hspace, -⟩ := h.head
  have hscan := ignoreValue_object h []
  rw [List.append_nil] at hscan
  cases hfront with
  | @around w u w' _ hw hvalue hw' =>
      cases w with
      | nil =>
          have hscan' := ignoreValue_object hvalue (w' ++ rest)
          rw [ht, List.nil_append, List.append_assoc, hscan', Option.some.injEq,
            List.append_eq_nil_iff] at hscan
          exact hscan.2
      | cons c w =>
          -- A value does not begin with white space.
          simp only [List.cons_append] at ht
          rw [hhead, List.cons.injEq] at ht
          have hc := hw c (by simp)
          rw [← ht.1, hspace] at hc
          cases hc

end Grammar

namespace Reader

open Syntax Grammar Json

variable {finite : String → Bool} {fields : Fields}
  (hreadable : (Json.object fields).readable finite = true)
include hreadable

lemma ownMapping_text {bytes : Bytes} (htext : IsText bytes) (h : Text bytes (.object fields))
    (hdepth : Json.depthFields fields ≤ MAX_DEPTH) (hlength : bytes.length < 2 ^ 64) :
    ownMapping finite bytes = .ok fields := by
  have hnodes := nodes_le_of_text h
  exact parse_iff.mpr ⟨htext, ⟨h, hreadable, Nat.succ_le_succ hdepth⟩, by omega⟩

variable (hdepth : Json.depthFields fields ≤ MAX_DEPTH)
include hdepth

/-- A written object is read. -/
lemma ownMapping_write (hlength : (write (.object fields)).length < 2 ^ 64) :
    ownMapping finite (write (.object fields)) = .ok fields :=
  ownMapping_text hreadable (isText_write _)
    (value_of_write _ (exact_of_readable _ hreadable)).text hdepth hlength

/-- A written object is read with its line end. -/
lemma ownMapping_line (hlength : (write (.object fields) ++ [10]).length < 2 ^ 64) :
    ownMapping finite (write (.object fields) ++ [10]) = .ok fields := by
  have hvalue := value_of_write _ (exact_of_readable _ hreadable)
  refine ownMapping_text hreadable ((isText_write _).append (isText_ascii (by decide))) ?_ hdepth
    hlength
  exact @Text.around [] _ [10] _ space_nil hvalue (by simp [Space, isSpace])

omit hdepth

/-- **A front of a written object is not read.** -/
theorem ownMapping_front {front rest : Bytes} (hsplit : write (.object fields) = front ++ rest)
    (hrest : rest ≠ []) (others : Fields) : ownMapping finite front ≠ .ok others := by
  intro h
  obtain ⟨-, ⟨htext, -, -⟩, -⟩ := parse_iff.mp h
  exact hrest (object_front (value_of_write _ (exact_of_readable _ hreadable)) htext hsplit)

end Reader

/-! ## Objects that are edited -/

namespace Fields

lemma mem_insert {fields : Fields} {key : String} {value : Json} {field : String × Json}
    (h : field ∈ fields.insert key value) : field = (key, value) ∨ field ∈ fields := by
  induction fields with
  | nil => simpa [insert] using h
  | cons head fields ih =>
      unfold insert at h
      split_ifs at h with hkey
      · rcases List.mem_cons.mp h with h | h
        · exact Or.inl h
        · exact Or.inr (by simp [h])
      · rcases List.mem_cons.mp h with h | h
        · exact Or.inr (by simp [h])
        · rcases ih h with h | h
          · exact Or.inl h
          · exact Or.inr (by simp [h])

/-- A field that is put in leaves the keys apart. -/
lemma nodup_insert {fields : Fields} (hkeys : (fields.map Prod.fst).Nodup) (key : String)
    (value : Json) : ((fields.insert key value).map Prod.fst).Nodup := by
  induction fields with
  | nil => simp [insert]
  | cons head fields ih =>
      simp only [List.map_cons, List.nodup_cons] at hkeys
      unfold insert
      split_ifs with hkey
      · simp only [List.map_cons, List.nodup_cons]
        exact ⟨hkey ▸ hkeys.1, hkeys.2⟩
      · simp only [List.map_cons, List.nodup_cons]
        refine ⟨?_, ih hkeys.2⟩
        intro hmem
        obtain ⟨field, hfield, hsame⟩ := List.mem_map.mp hmem
        rcases mem_insert hfield with rfl | hold
        · exact hkey hsame.symm
        · exact hkeys.1 (List.mem_map.mpr ⟨field, hold, hsame⟩)

end Fields

namespace Json

lemma depthFields_le_iff {fields : Fields} {n : ℕ} :
    depthFields fields ≤ n ↔ ∀ field ∈ fields, field.2.depth ≤ n := by
  induction fields with
  | nil => simp [depthFields]
  | cons field fields ih => simp [depthFields, ih]

variable {finite : String → Bool} {fields : Fields}

lemma readable_insert {value : Json} (hfields : (object fields).readable finite = true)
    (hvalue : value.readable finite = true) (key : String) :
    (object (fields.insert key value)).readable finite = true := by
  obtain ⟨hkeys, hall⟩ := readable_object.mp hfields
  refine readable_object.mpr ⟨Fields.nodup_insert hkeys key value, ?_⟩
  rw [readableFields_iff] at hall ⊢
  intro field hfield
  rcases Fields.mem_insert hfield with rfl | hold
  · exact hvalue
  · exact hall field hold

lemma readable_remove (hfields : (object fields).readable finite = true) (key : String) :
    (object (Fields.remove fields key)).readable finite = true := by
  obtain ⟨hkeys, hall⟩ := readable_object.mp hfields
  exact readable_object.mpr ⟨nodup_remove hkeys key, readableFields_remove hall key⟩

lemma depthFields_insert {value : Json} {n : ℕ} (hfields : depthFields fields ≤ n)
    (hvalue : value.depth ≤ n) (key : String) : depthFields (fields.insert key value) ≤ n := by
  rw [depthFields_le_iff] at hfields ⊢
  intro field hfield
  rcases Fields.mem_insert hfield with rfl | hold
  · exact hvalue
  · exact hfields field hold

lemma depthFields_remove {n : ℕ} (hfields : depthFields fields ≤ n) (key : String) :
    depthFields (Fields.remove fields key) ≤ n := by
  rw [depthFields_le_iff] at hfields ⊢
  intro field hfield
  exact hfields field (List.mem_of_mem_filter hfield)

lemma plain_insert {value : Json} (hfields : (object fields).plain = true)
    (hvalue : value.plain = true) {key : String} (hkey : key ∉ PRIVATE_KEYS) :
    (object (fields.insert key value)).plain = true := by
  rw [plain, plainFields_iff] at hfields ⊢
  intro field hfield
  rcases Fields.mem_insert hfield with rfl | hold
  · exact ⟨hkey, hvalue⟩
  · exact hfields field hold

/-! ## What is read in a normal form -/

variable {F : Type} {format : FloatFormat F}

mutual

/-- The normal form of a plain value is plain. -/
lemma plain_normal : ∀ value : Json, value.plain = true → (value.normal format).plain = true
  | .null, _ => rfl
  | .bool _, _ => rfl
  | .number _, _ => rfl
  | .string _, _ => rfl
  | .array items, h => plainItems_normal items h
  | .object fields, h => by
      have hfields := plainFields_normal fields h
      rw [normal, plain, plainFields_iff]
      rw [plainFields_iff] at hfields
      intro field hfield
      exact hfields field ((perm_sortKeys _).mem_iff.mp hfield)

lemma plainItems_normal : ∀ items : List Json, plainItems items = true →
    plainItems (normalItems format items) = true
  | [], _ => rfl
  | item :: items, h => by
      obtain ⟨hitem, hitems⟩ := Bool.and_eq_true_iff.mp h
      rw [normalItems, plainItems, plain_normal item hitem, plainItems_normal items hitems]
      rfl

lemma plainFields_normal : ∀ fields : List (String × Json), plainFields fields = true →
    plainFields (normalFields format fields) = true
  | [], _ => rfl
  | (key, value) :: fields, h => by
      obtain ⟨hkey, h⟩ := Bool.and_eq_true_iff.mp h
      obtain ⟨hvalue, hfields⟩ := Bool.and_eq_true_iff.mp h
      rw [normalFields, plainFields, hkey, plain_normal value hvalue,
        plainFields_normal fields hfields]
      rfl

end

@[simp] lemma asStr_normal (value : Json) : (value.normal format).asStr = value.asStr := by
  cases value <;> rfl

@[simp] lemma isObject_normal (value : Json) :
    (value.normal format).isObject = value.isObject := by
  cases value <;> rfl

/-- A natural number is read from its normal form as well. -/
lemma asU64_normal {value : Json} {n : ℕ} (h : value.asU64 = some n) :
    (value.normal format).asU64 = some n := by
  cases value with
  | number text =>
      have hdigits : ∀ c ∈ text.toList, c.isDigit = true := by
        simp only [asU64, Option.filter_eq_some_iff, digits] at h
        obtain ⟨h, -⟩ := h
        split_ifs at h with hall
        exact List.all_eq_true.mp hall.2
      have hfloat : Reader.isFloat text = false := by
        rw [Reader.isFloat, List.any_eq_false]
        intro c hc
        simp only [decide_eq_true_eq]
        rintro (rfl | rfl | rfl) <;> cases hdigits _ hc
      have hzero : text ≠ "-0" := by
        rintro rfl
        exact absurd (hdigits '-' (by decide)) (by decide)
      rw [normal, normalNumber, if_neg (by simp [hfloat]), if_neg hzero]
      exact h
  | _ => simp [asU64] at h

/-- The text under a key is the same in the normal form. -/
lemma get_asStr_normal (hkeys : (fields.map Prod.fst).Nodup) (key : String) :
    (((object fields).normal format).get key).bind asStr =
      ((object fields).get key).bind asStr := by
  rw [get_normal hkeys]
  cases (object fields).get key with
  | none => rfl
  | some value => simp

lemma get_asU64_normal (hkeys : (fields.map Prod.fst).Nodup) {key : String} {n : ℕ}
    (h : ((object fields).get key).bind asU64 = some n) :
    (((object fields).normal format).get key).bind asU64 = some n := by
  obtain ⟨value, hvalue, hn⟩ := Option.bind_eq_some_iff.mp h
  rw [get_normal hkeys, hvalue]
  exact asU64_normal hn

end Json

end ExperimentControl
