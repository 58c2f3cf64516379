import ExperimentControl.Json.Admission
import ExperimentControl.Json.Agreement
import ExperimentControl.Json.Records

/-!
# The shape of documents

Documents that are read as plain values first and looked into afterwards: which keys an object has,
what number a text stands for, and what reading a plain value from a text is.

* `Fields.perm_of_keys` — an object with as many fields as names, and each name among them.
* `Json.eq_ofNat` — a natural number has one text.
* `ValueReader` — `serde_json::from_slice` into a value.
-/

namespace ExperimentControl

namespace Fields

/-- **The fields of an object** with as many fields as there are names, each of the names among
them. -/
lemma perm_of_keys {fields : Fields} {keys : List String} (hkeys : keys.Nodup)
    (hlength : fields.length = keys.length) (hall : ∀ key ∈ keys, (fields.get key).isSome = true) :
    fields.Perm (keys.map fun key => (key, (fields.get key).getD .null)) := by
  have hnodup : (keys.map fun key => (key, (fields.get key).getD .null)).Nodup := by
    refine List.Nodup.of_map Prod.fst ?_
    rw [List.map_map]
    simpa [Function.comp_def] using hkeys
  have hsubset : (keys.map fun key => (key, (fields.get key).getD .null)) ⊆ fields := by
    intro field hfield
    obtain ⟨key, hkey, rfl⟩ := List.mem_map.mp hfield
    obtain ⟨value, hvalue⟩ := Option.isSome_iff_exists.mp (hall key hkey)
    rw [hvalue, Option.getD_some]
    obtain ⟨front, back, rfl, -⟩ := List.lookup_eq_some_iff.mp hvalue
    simp
  refine ((List.subperm_of_subset hnodup hsubset).perm_of_length_le ?_).symm
  rw [List.length_map, hlength]

/-- A field of one order is a field of another. -/
lemma get_perm {fields others : Fields} (hperm : fields.Perm others)
    (hkeys : (others.map Prod.fst).Nodup) (key : String) : fields.get key = others.get key := by
  have hkeys' : (fields.map Prod.fst).Nodup := ((hperm.map Prod.fst).nodup_iff).mpr hkeys
  ext value
  change fields.lookup key = some value ↔ others.lookup key = some value
  rw [lookup_eq_some_iff hkeys, lookup_eq_some_iff hkeys', hperm.mem_iff]

end Fields

namespace Json

/-- **A natural number has one text.** -/
lemma eq_ofNat {text : String} {n : ℕ} (hnumber : Syntax.isNumber text = true)
    (h : (Json.number text).asU64 = some n) : Json.number text = .ofNat n := by
  rw [asU64, Option.filter_eq_some_iff] at h
  obtain ⟨hdigits, -⟩ := h
  rw [digits] at hdigits
  split_ifs at hdigits with hall
  obtain rfl := Option.some.inj hdigits
  obtain ⟨hne, hall⟩ := hall
  rw [List.all_eq_true] at hall
  have hfloat : Reader.isFloat text = false := by
    rw [Reader.isFloat, List.any_eq_false]
    intro c hc
    have hdigit := hall c hc
    simp only [decide_eq_true_eq]
    rintro (rfl | rfl | rfl) <;> cases hdigit
  obtain ⟨digits, hdecimal, hunsigned | hsigned⟩ := Syntax.integer_cases hnumber hfloat
  · rw [hunsigned, ofNat, ← String.ofList_toList (s := text), hunsigned, Nat.toString_eq_repr,
      ← String.ofList_toList (s := Nat.repr _), Nat.toList_repr, toDigits_ofDigitChars hdecimal]
  · have hminus := hall '-' (by rw [hsigned]; simp)
    exact absurd hminus (by decide)

/-! ## Sizes -/

lemma joinedSize_eq_sum (sizes : List ℕ) : joinedSize sizes = sizes.sum + (sizes.length - 1) := by
  induction sizes with
  | nil => rfl
  | cons size sizes ih =>
    cases sizes with
    | nil => rfl
    | cons next sizes =>
      rw [joinedSize.eq_3 size (next :: sizes) (by simp), ih]
      simp only [List.sum_cons, List.length_cons]
      omega

/-- The text of an object is as long in any order of its members. -/
lemma size_object_perm {fields others : Fields} (h : fields.Perm others) :
    (Json.object fields).size = (Json.object others).size := by
  rw [size, size, joinedSize_eq_sum, joinedSize_eq_sum, sizeFields_eq, sizeFields_eq,
    (h.map _).sum_eq, (h.map _).length_eq]

/-- The text of an array is as long in any order of its items. -/
lemma size_array_perm {items others : List Json} (h : items.Perm others) :
    (Json.array items).size = (Json.array others).size := by
  rw [size, size, joinedSize_eq_sum, joinedSize_eq_sum, sizeItems_eq, sizeItems_eq,
    (h.map _).sum_eq, (h.map _).length_eq]

/-! ## Normal forms -/

section Normal

variable {F : Type} {format : FloatFormat F}

lemma normal_object_perm {fields others : Fields} (hperm : fields.Perm others)
    (hkeys : (others.map Prod.fst).Nodup) :
    normal format (object fields) = normal format (object others) := by
  have hunique : ((normalFields format fields).map Prod.fst).Nodup := by
    rw [keys_normalFields]
    exact (hperm.map Prod.fst).nodup_iff.mpr hkeys
  have hnormal : (normalFields format fields).Perm (normalFields format others) := by
    rw [normalFields_eq, normalFields_eq]
    exact hperm.map _
  rw [normal, normal, (sortKeys_eq_iff hunique).mpr hnormal]

lemma normal_ofNat (n : ℕ) : normal format (ofNat n) = ofNat n := by
  have hzero : toString n ≠ "-0" := by
    intro h
    have hlist : Nat.toDigits 10 n = ['-', '0'] := by
      rw [← Nat.toList_repr, ← Nat.toString_eq_repr, h]
      rfl
    exact toDigits_ne_minus n ['0'] hlist
  rw [ofNat, normal, normalNumber, isFloat_toString, if_neg (by decide),
    if_neg hzero]

/-- The normal form of an object has the normal forms of its values. -/
lemma get_normal {fields : Fields} (hkeys : (fields.map Prod.fst).Nodup) (key : String) :
    ((object fields).normal format).get key = ((object fields).get key).map (normal format) := by
  have hnormal : ((normalFields format fields).map Prod.fst).Nodup := by
    rw [keys_normalFields]
    exact hkeys
  rw [normal, get_object, get_object, Fields.get_perm (perm_sortKeys _) hnormal, normalFields_eq]
  clear hkeys hnormal
  induction fields with
  | nil => rfl
  | cons field fields ih =>
      rw [List.map_cons, Fields.get_cons, ih, Fields.get_cons]
      split_ifs
      · rfl
      · rfl

end Normal

lemma readableItems_iff {finite : String → Bool} (items : List Json) :
    readableItems finite items = true ↔ ∀ item ∈ items, item.readable finite = true := by
  induction items with
  | nil => simp [readableItems]
  | cons item items ih => simp [readableItems, ih]

/-! ## Reading a value -/

/-- The keys by which a number and a raw value are recognised. -/
def PRIVATE_KEYS : List String :=
  ["$serde_json::private::Number", "$serde_json::private::RawValue"]

mutual

/-- A value without a private key. -/
def plain : Json → Bool
  | .array items => plainItems items
  | .object fields => plainFields fields
  | _ => true

def plainItems : List Json → Bool
  | [] => true
  | item :: items => plain item && plainItems items

def plainFields : List (String × Json) → Bool
  | [] => true
  | (key, value) :: fields => decide (key ∉ PRIVATE_KEYS) && (plain value && plainFields fields)

end

lemma plainFields_iff (fields : Fields) : plainFields fields = true ↔
    ∀ field ∈ fields, field.1 ∉ PRIVATE_KEYS ∧ field.2.plain = true := by
  induction fields with
  | nil => simp [plainFields]
  | cons field fields ih => simp [plainFields, ih, and_assoc]

lemma plainItems_iff (items : List Json) : plainItems items = true ↔
    ∀ item ∈ items, item.plain = true := by
  induction items with
  | nil => simp [plainItems]
  | cons item items ih => simp [plainItems, ih]

end Json

/-- `serde_json::from_slice` into a value. What it does with a repeated key, or with a private one,
is left open. -/
structure ValueReader where
  read : Bytes → Option Json
  /-- A value has unique keys, and its numbers are numbers. -/
  valid_of_read {bytes : Bytes} {value : Json} : read bytes = some value → value.valid = true
  /-- A text of the grammar is read as its value, below the limit of 128 levels. -/
  read_text {bytes : Bytes} {value : Json} : Reader.IsText bytes → Grammar.Text bytes value →
    value.valid = true → value.plain = true → value.depth ≤ 127 → read bytes = some value

namespace ValueReader

variable (reader : ValueReader)

/-- **A written value is read back.** -/
lemma read_write {value : Json} (hvalid : value.valid = true) (hplain : value.plain = true)
    (hdepth : value.depth ≤ 127) : reader.read value.write = some value :=
  reader.read_text (Reader.isText_write value)
    (Grammar.value_of_write value (Json.exact_of_readable value hvalid)).text hvalid hplain hdepth

/-- Reading with the strict reader, which refuses repeated keys. -/
def strict : ValueReader where
  read bytes :=
    match Reader.value (fun _ => true) 127 bytes bytes.length with
    | .ok (value, _) => some value
    | .error _ => none
  valid_of_read {bytes value} h := by
    cases hread : Reader.value (fun _ => true) 127 bytes bytes.length with
    | error e =>
      rw [hread] at h
      cases h
    | ok result =>
      obtain ⟨found, left⟩ := result
      rw [hread] at h
      obtain rfl := Option.some.inj h
      exact (Reader.admitted_of_value 127 hread).1.readable
  read_text {bytes value} _ htext hvalid _ hdepth := by
    rw [Reader.value_of_text 127 bytes.length htext hvalid hdepth (Reader.nodes_le_of_text htext)]

end ValueReader

end ExperimentControl
