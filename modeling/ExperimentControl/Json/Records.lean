import ExperimentControl.Json.Equality

/-!
# Records in documents

How a record is read out of a document, as the derived readers do it, and how a document is edited
and compared as a value.

* `Json.record`, `Fields.text`, `Fields.u64`, `Fields.optional` — the fields of a record.
* `Json.set` — `value[key] = …`, with what it changes.
* `Json.equal` — equality of two values: the members of an object in any order.
* `FloatFormat.document`, `FloatFormat.ofJson` — a float in a document, null when it is not finite.
-/

namespace ExperimentControl

/-! ## Fields of a record -/

namespace Json

/-- The fields of an object that has no others than these. -/
def record (names : List String) (value : Json) : Option Fields :=
  value.asObject.filter fun fields => fields.all fun field => field.1 ∈ names

end Json

namespace Fields

def text (fields : Fields) (key : String) : Option String := (fields.get key).bind Json.asStr

def u64 (fields : Fields) (key : String) : Option UInt64 :=
  ((fields.get key).bind Json.asU64).map UInt64.ofNat

def u16 (fields : Fields) (key : String) : Option UInt16 :=
  (((fields.get key).bind Json.asU64).filter (· < 2 ^ 16)).map UInt16.ofNat

variable {α : Type}

/-- A value that may be null. -/
def nullable (read : Json → Option α) : Json → Option (Option α)
  | .null => some none
  | value => (read value).map some

/-- A field that may be null or left out. -/
def optional (read : Json → Option α) (fields : Fields) (key : String) : Option (Option α) :=
  match fields.get key with
  | none => some none
  | some value => nullable read value

/-- A reader goes on with what a field holds. -/
lemma bind_get {read : Json → Option α} {fields : Fields} {key : String} {value : Json}
    {r : Option α} (h : fields.get key = some value) (hread : read value = r) :
    (fields.get key).bind read = r := by
  rw [h, Option.bind_some, hread]

lemma optional_get {read : Json → Option α} {fields : Fields} {key : String} {value : Json}
    {a : Option α} (h : fields.get key = some value) (hread : nullable read value = some a) :
    fields.optional read key = some a := by
  rw [optional, h]
  exact hread

/-- A field with a default. -/
def orDefault (read : Json → Option α) (default : α) (fields : Fields) (key : String) : Option α :=
  match fields.get key with
  | none => some default
  | some value => read value

/-- A step of a reader that goes on with what it has read. -/
lemma read_step {β : Type} {x : Option α} {f : α → Option β} {a : α} {r : Option β}
    (hx : x = some a) (hf : f a = r) : x.bind f = r := by
  rw [hx, Option.bind_some, hf]

end Fields

namespace Json

variable {α : Type}

/-- What may be there, null when it is not. -/
def ofOption (document : α → Json) : Option α → Json
  | some value => document value
  | none => .null

lemma nullable_of_ne {read : Json → Option α} {value : Json} (h : value ≠ .null) :
    Fields.nullable read value = (read value).map some := by
  cases value with
  | null => exact absurd rfl h
  | _ => rfl

/-- What may be there is read back, where its document is not null. -/
lemma nullable_ofOption {read : Json → Option α} {document : α → Json}
    (hread : ∀ a, read (document a) = some a) (hnull : ∀ a, document a ≠ .null)
    (value : Option α) : Fields.nullable read (ofOption document value) = some value := by
  cases value with
  | none => rfl
  | some value => rw [ofOption, nullable_of_ne (hnull value), hread, Option.map_some]

/-! ## Editing -/

/-- `value[key] = new` on an object or on null. The code sets fields of objects only. -/
def set (value : Json) (key : String) (new : Json) : Json :=
  match value with
  | .object fields => .object (Fields.insert fields key new)
  | .null => .object [(key, new)]
  | other => other

@[simp] lemma set_object (fields : Fields) (key : String) (new : Json) :
    (Json.object fields).set key new = .object (Fields.insert fields key new) := rfl

lemma eq_null_of_isNull {value : Json} (h : value.isNull = true) : value = .null := by
  cases value with
  | null => rfl
  | _ => cases h

@[simp] lemma index_object (fields : Fields) (key : String) :
    (Json.object fields).index key = (Fields.get fields key).getD .null := rfl

lemma isObject_set {value : Json} (h : value.isObject = true) (key : String) (new : Json) :
    (value.set key new).isObject = true := by
  cases value with
  | object fields => rfl
  | _ => cases h

/-- Setting a field of an object changes nothing else. -/
lemma index_set {value : Json} (h : value.isObject = true) (key other : String) (new : Json) :
    (value.set key new).index other = if other = key then new else value.index other := by
  cases value with
  | object fields =>
    rw [set_object, index_object, index_object, Fields.get_insert]
    split_ifs
    · rfl
    · rfl
  | _ => cases h

end Json

namespace Fields

/-- `extend`: fields put one after another. -/
def extend (fields more : Fields) : Fields :=
  more.foldl (fun fields field => fields.insert field.1 field.2) fields

/-- Of fields that are put once, the new ones stand before the others. -/
lemma get_extend {key : String} : ∀ {more fields : Fields}, (more.map Prod.fst).Nodup →
    (fields.extend more).get key = (more.get key).or (fields.get key)
  | [], fields, _ => by simp [extend]
  | (k, v) :: more, fields, h => by
      rw [List.map_cons, List.nodup_cons] at h
      have ih := @get_extend key more (fields.insert k v) h.2
      rw [extend, List.foldl_cons, ← extend, ih, get_insert, get_cons]
      by_cases hkey : key = k
      · have hnone : Fields.get more key = none := by
          rw [Fields.get, List.lookup_eq_none_iff]
          rintro ⟨other, value⟩ hmem
          refine bne_iff_ne.mpr fun hsame => h.1 ?_
          exact List.mem_map.mpr ⟨(other, value), hmem, hsame.symm.trans hkey⟩
        rw [if_pos hkey, if_pos hkey, hnone]
        rfl
      · rw [if_neg hkey, if_neg hkey]

/-- Setting a field to what it is changes nothing. -/
lemma insert_of_get {key : String} {value : Json} : ∀ {fields : Fields},
    fields.get key = some value → fields.insert key value = fields
  | [], h => by cases h
  | (k, v) :: rest, h => by
      rw [get_cons] at h
      rw [insert]
      split_ifs at h with hkey
      · rw [if_pos hkey.symm, hkey, Option.some.inj h]
      · rw [if_neg (Ne.symm hkey), insert_of_get h]

/-- A new field stands at the end. -/
lemma insert_new {key : String} {value : Json} : ∀ {fields : Fields}, key ∉ fields.map Prod.fst →
    fields.insert key value = fields ++ [(key, value)]
  | [], _ => rfl
  | (k, v) :: rest, h => by
      rw [List.map_cons, List.mem_cons, not_or] at h
      rw [insert, if_neg (Ne.symm h.1), insert_new h.2, List.cons_append]

/-- Setting a field that is left out changes nothing else. -/
lemma filter_insert {p : String → Bool} {key : String} {value : Json} (h : p key = false) :
    ∀ fields : Fields,
      (fields.insert key value).filter (fun field => p field.1) =
        fields.filter fun field => p field.1
  | [] => by simp [insert, h]
  | (k, v) :: rest => by
      unfold insert
      split_ifs with hk
      · rw [List.filter_cons, List.filter_cons, if_neg (by simp [h]), if_neg (by simp [hk, h])]
      · rw [List.filter_cons, List.filter_cons, filter_insert h rest]

/-- What is done to every value is done to the new one. -/
lemma map_insert (f : Json → Json) (key : String) (value : Json) :
    ∀ fields : Fields, (fields.insert key value).map (fun field => (field.1, f field.2)) =
      insert (fields.map fun field => (field.1, f field.2)) key (f value)
  | [] => rfl
  | (k, v) :: rest => by
      simp only [insert, List.map_cons]
      split_ifs with hk
      · rfl
      · rw [List.map_cons, map_insert f key value rest]

end Fields

/-! ## Equality of values -/

namespace Json

mutual

/-- A value with the members of every object in the order of their keys. -/
def ordered : Json → Json
  | .array items => .array (orderedItems items)
  | .object fields => .object (sortKeys (orderedFields fields))
  | value => value

def orderedItems : List Json → List Json
  | [] => []
  | item :: items => ordered item :: orderedItems items

def orderedFields : List (String × Json) → List (String × Json)
  | [] => []
  | (key, value) :: fields => (key, ordered value) :: orderedFields fields

end

/-- `left == right`: objects by their members in any order, numbers by their texts. -/
def equal (left right : Json) : Bool := left.ordered = right.ordered

variable {left right third : Json}

lemma equal_iff : equal left right = true ↔ left.ordered = right.ordered := decide_eq_true_iff

@[simp] lemma equal_refl (value : Json) : equal value value = true := equal_iff.mpr rfl

lemma equal_symm (h : equal left right = true) : equal right left = true :=
  equal_iff.mpr (equal_iff.mp h).symm

lemma equal_trans (h : equal left right = true) (h' : equal right third = true) :
    equal left third = true :=
  equal_iff.mpr ((equal_iff.mp h).trans (equal_iff.mp h'))

lemma orderedFields_eq_map : ∀ fields : Fields,
    orderedFields fields = fields.map fun field => (field.1, field.2.ordered)
  | [] => rfl
  | (key, value) :: rest => by rw [orderedFields, orderedFields_eq_map rest, List.map_cons]

/-- **Two objects are equal** when their members are the same up to order. -/
theorem equal_object {fields others : Fields} (hkeys : (fields.map Prod.fst).Nodup) :
    equal (.object fields) (.object others) = true ↔
      (orderedFields fields).Perm (orderedFields others) := by
  have hnodup : ((orderedFields fields).map Prod.fst).Nodup := by
    rw [orderedFields_eq_map, List.map_map]
    exact hkeys
  rw [equal_iff, ordered, ordered, object.injEq]
  exact sortKeys_eq_iff hnodup

lemma orderedFields_insert (fields : Fields) (key : String) (new : Json) :
    orderedFields (fields.insert key new) =
      Fields.insert (orderedFields fields) key new.ordered := by
  rw [orderedFields_eq_map, Fields.map_insert, ← orderedFields_eq_map]

lemma equal_null {value : Json} : equal value .null = true ↔ value = .null := by
  rw [equal_iff]
  cases value <;> simp [ordered]

end Json

/-! ## Counters -/

namespace Json

lemma isFloat_toString (n : ℕ) : Reader.isFloat (toString n) = false := by
  rw [Reader.isFloat, Nat.toString_eq_repr, Nat.toList_repr, List.any_eq_false]
  intro c hc
  have hdigit := Nat.isDigit_of_mem_toDigits (by decide) (by decide) hc
  simp only [decide_eq_true_eq]
  rintro (rfl | rfl | rfl) <;> cases hdigit

lemma readable_ofNat {finite : String → Bool} (n : ℕ) : (Json.ofNat n).readable finite = true := by
  rw [Json.ofNat, Json.readable, Syntax.isNumber_toString, isFloat_toString]
  rfl

end Json

/-! ## Floats -/

namespace FloatFormat

variable {F : Type} (format : FloatFormat F)

/-- A float in a document: null when it is not finite. -/
def document (x : F) : Json :=
  match format.print x with
  | some text => .number text
  | none => .null

/-- The float of a number. -/
def ofJson : Json → Option F
  | .number text => some (format.read text)
  | _ => none

/-- Whether a float is finite. -/
def isFinite (x : F) : Bool := (format.print x).isSome

variable {format} {x : F}

/-- **A float is read back exactly when it is finite.** -/
theorem ofJson_document (h : format.isFinite x = true) :
    format.ofJson (format.document x) = some x := by
  obtain ⟨text, htext⟩ := Option.isSome_iff_exists.mp h
  simp only [document, htext, ofJson, format.read_print htext]

lemma ofJson_document_none (h : format.isFinite x = false) :
    format.ofJson (format.document x) = none := by
  rw [isFinite, Option.isSome_eq_false_iff, Option.isNone_iff_eq_none] at h
  simp only [document, h, ofJson]

end FloatFormat

end ExperimentControl
