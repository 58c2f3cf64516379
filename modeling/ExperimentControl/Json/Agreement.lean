import ExperimentControl.Json.Equality

/-!
# Agreement of documents

What equal canonical bytes say about two objects, field by field.

* `valid` — values as they are held in memory.
* **`readable_of_bytes`** — a valid value with canonical bytes is one that can be read.
* `Encoding.agree`, **`agree_of_bytes`** — objects with the same canonical bytes agree on every
  field.
-/

namespace ExperimentControl

namespace Json

/-- A value as it is held in memory: numbers are numbers and keys are unique. -/
def valid (value : Json) : Bool := value.readable fun _ => true

variable {F : Type} {format : FloatFormat F} {sha256 : Bytes → String}

/-! ## Values with canonical bytes -/

/-- A number with a canonical spelling is not an infinite float. -/
lemma finite_of_numberText {text written : String} (hfloat : Reader.isFloat text = true)
    (h : Encoding.numberText (format.encoding sha256) text = .ok written) :
    format.finite text = true := by
  rw [Reader.isFloat] at hfloat
  rw [Encoding.numberText, if_pos hfloat] at h
  rw [FloatFormat.finite, ← format.print_unsigned]
  cases hprint : format.print (format.unsigned (format.read text)) with
  | none =>
    have hshown : (format.encoding sha256).floatText text = none := hprint
    rw [hshown] at h
    cases h
  | some shown => rfl

mutual

/-- **A valid value with canonical bytes can be read.** -/
theorem readable_of_bytes : ∀ value : Json, value.valid = true →
    ∀ written, (format.encoding sha256).bytes value = .ok written →
      value.readable format.finite = true
  | .null, _, _, _ => rfl
  | .bool _, _, _, _ => rfl
  | .string _, _, _, _ => rfl
  | .number text, hvalid, written, h => by
      have hnumber : Syntax.isNumber text = true := by simpa [valid, readable] using hvalid
      rw [Encoding.bytes] at h
      cases htext : Encoding.numberText (format.encoding sha256) text with
      | error e =>
        rw [htext] at h
        cases h
      | ok shown =>
        exact readable_number.mpr ⟨hnumber, fun hfloat => finite_of_numberText hfloat htext⟩
  | .array items, hvalid, written, h => by
      rw [Encoding.bytes] at h
      obtain ⟨written, hitems, -⟩ := bind_eq_ok.mp h
      exact readableItems_of_bytes items hvalid written hitems
  | .object fields, hvalid, written, h => by
      rw [Encoding.bytes] at h
      obtain ⟨members, hmembers, -⟩ := bind_eq_ok.mp h
      obtain ⟨hkeys, hfields⟩ := readable_object.mp hvalid
      exact readable_object.mpr ⟨hkeys, readableFields_of_bytes fields hfields members hmembers⟩

lemma readableItems_of_bytes : ∀ items : List Json, readableItems (fun _ => true) items = true →
    ∀ written, (format.encoding sha256).bytesItems items = .ok written →
      readableItems format.finite items = true
  | [], _, _, _ => rfl
  | item :: items, hvalid, written, h => by
      obtain ⟨hitem, hitems⟩ := Bool.and_eq_true_iff.mp hvalid
      rw [Encoding.bytesItems] at h
      obtain ⟨first, hfirst, h⟩ := bind_eq_ok.mp h
      obtain ⟨rest, hrest, -⟩ := bind_eq_ok.mp h
      exact Bool.and_eq_true_iff.mpr ⟨readable_of_bytes item hitem first hfirst,
        readableItems_of_bytes items hitems rest hrest⟩

lemma readableFields_of_bytes : ∀ fields : List (String × Json),
    readableFields (fun _ => true) fields = true →
      ∀ members, (format.encoding sha256).bytesFields fields = .ok members →
        readableFields format.finite fields = true
  | [], _, _, _ => rfl
  | (key, value) :: fields, hvalid, members, h => by
      obtain ⟨hvalue, hfields⟩ := Bool.and_eq_true_iff.mp hvalid
      rw [Encoding.bytesFields] at h
      obtain ⟨first, hfirst, h⟩ := bind_eq_ok.mp h
      obtain ⟨rest, hrest, -⟩ := bind_eq_ok.mp h
      exact Bool.and_eq_true_iff.mpr ⟨readable_of_bytes value hvalue first hfirst,
        readableFields_of_bytes fields hfields rest hrest⟩

end

/-! ## Fields of equal objects -/

/-- A field of one of two equal objects has its counterpart in the other. -/
lemma sameFields_get {key : String} : ∀ {fields others : Fields},
    sameFields format fields others →
      (∀ value, Fields.get fields key = some value →
        ∃ other, Fields.get others key = some other ∧ same format value other) ∧
      (Fields.get fields key = none → Fields.get others key = none)
  | [], others, h => by
      obtain rfl : others = [] := h
      simp
  | (name, first) :: fields, others, h => by
      obtain ⟨other, hget, hsame, hrest⟩ := h
      obtain ⟨ihsome, ihnone⟩ := @sameFields_get key fields (Fields.remove others name) hrest
      rw [Fields.get_cons]
      by_cases hkey : key = name
      · rw [if_pos hkey, hkey]
        refine ⟨?_, fun hnone => by cases hnone⟩
        rintro value ⟨⟩
        exact ⟨other, hget, hsame⟩
      · rw [if_neg hkey, ← Fields.get_remove_of_ne hkey others]
        exact ⟨ihsome, ihnone⟩

end Json

namespace Encoding

/-- Two fields agree: both are missing, or both have the same canonical bytes. -/
def agree (enc : Encoding) : Option Json → Option Json → Prop
  | none, none => True
  | some left, some right => enc.equal left right = true
  | _, _ => False

variable {F : Type} {format : FloatFormat F} {sha256 : Bytes → String}

lemma agree_text (enc : Encoding) (text : String) :
    enc.agree (some (.string text)) (some (.string text)) :=
  equal_self.mpr ⟨_, rfl⟩

/-- **Objects with the same canonical bytes agree on every field.** -/
theorem agree_of_bytes {fields others : Fields} (hvalid : (Json.object fields).valid = true)
    (hvalid' : (Json.object others).valid = true) {written : Bytes}
    (h : (format.encoding sha256).bytes (.object fields) = .ok written)
    (h' : (format.encoding sha256).bytes (.object others) = .ok written) (key : String) :
    (format.encoding sha256).agree (Fields.get fields key) (Fields.get others key) := by
  have hread := Json.readable_of_bytes _ hvalid _ h
  have hread' := Json.readable_of_bytes _ hvalid' _ h'
  have hsame : Json.sameFields format fields others :=
    (bytes_eq_iff sha256 hread hread').mp (h.trans h'.symm)
  obtain ⟨hsome, hnone⟩ := @Json.sameFields_get _ format key fields others hsame
  cases hget : Fields.get fields key with
  | none =>
    rw [hnone hget]
    trivial
  | some value =>
    obtain ⟨other, hother, hvalue⟩ := hsome value hget
    rw [hother]
    have hmem (fields : Fields) (found : Json) (hfields : (Json.object fields).readable
        format.finite = true) (hget : Fields.get fields key = some found) :
        found.readable format.finite = true := by
      obtain ⟨hkeys, hall⟩ := Json.readable_object.mp hfields
      have hfound := (lookup_eq_some_iff hkeys).mp hget
      exact (Json.readableFields_iff fields).mp hall _ hfound
    have hleft := hmem fields value hread hget
    have hright := hmem others other hread' hother
    have hbytes := (bytes_eq_iff sha256 hleft hright).mpr hvalue
    exact equal_iff.mpr ⟨_, Json.bytes_normal sha256 value hleft,
      hbytes ▸ Json.bytes_normal sha256 value hleft⟩

end Encoding

end ExperimentControl
