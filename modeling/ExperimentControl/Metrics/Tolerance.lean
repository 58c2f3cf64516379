import ExperimentControl.Json.Agreement
import ExperimentControl.Metrics.Numbers

/-!
# Tolerant equality

Values that differ in the spelling of their numbers only, of the first lines of
`core/src/observation.rs`. A number that has no key equals nothing, itself included, so what is left
is a partial equivalence.

* `numericTolerantEqual` — the function of the source.
* **`tolerantEqual_trans`**, **`tolerantEqual_symm`** — it is transitive, and symmetric on values as
  they are held in memory.
-/

namespace ExperimentControl

namespace Metrics

mutual

def numericTolerantEqual : Json → Json → Bool
  | .object fields, .object others =>
      decide (fields.length = others.length) && tolerantFields fields others
  | .array items, .array others =>
      decide (items.length = others.length) && tolerantItems items others
  | left, right =>
      if isNumeric left ∧ isNumeric right then numericEqual left right else decide (left = right)

/-- Every field has its counterpart. -/
def tolerantFields : List (String × Json) → Fields → Bool
  | [], _ => true
  | (key, value) :: fields, others =>
      (match Fields.get others key with
        | some other => numericTolerantEqual value other
        | none => false) && tolerantFields fields others

/-- The items of both, one by one. -/
def tolerantItems : List Json → List Json → Bool
  | item :: items, other :: others => numericTolerantEqual item other && tolerantItems items others
  | _, _ => true

end

/-! ## Numbers -/

lemma numericEqual_iff {left right : Json} : numericEqual left right = true ↔
    isNumeric left = true ∧ isNumeric right = true ∧
      ∃ a, atom left = .ok a ∧ atom right = .ok a := by
  unfold numericEqual
  split_ifs with h
  · refine iff_of_false (by simp) fun hboth => ?_
    rcases h with h | h
    · exact h hboth.1
    · exact h hboth.2.1
  · rw [not_or, not_not, not_not] at h
    cases hleft : atom left with
    | error e => simp
    | ok a =>
      cases hright : atom right with
      | error e => simp
      | ok b => simp [h.1, h.2, eq_comm]

lemma numericEqual_symm {left right : Json} (h : numericEqual left right = true) :
    numericEqual right left = true := by
  obtain ⟨hleft, hright, a, ha, hb⟩ := (@numericEqual_iff _ _).mp h
  exact (@numericEqual_iff _ _).mpr ⟨hright, hleft, a, hb, ha⟩

lemma numericEqual_trans {left middle right : Json} (h : numericEqual left middle = true)
    (h' : numericEqual middle right = true) : numericEqual left right = true := by
  obtain ⟨hleft, -, a, ha, hmiddle⟩ := (@numericEqual_iff _ _).mp h
  obtain ⟨-, hright, b, hb, hb'⟩ := (@numericEqual_iff _ _).mp h'
  obtain rfl : a = b := Except.ok.inj (hmiddle.symm.trans hb)
  exact (@numericEqual_iff _ _).mpr ⟨hleft, hright, a, ha, hb'⟩

/-! ## Leaves, objects and arrays -/

/-- A value with nothing in it. -/
def isLeaf : Json → Bool
  | .object _ => false
  | .array _ => false
  | _ => true

/-- What a leaf is equal to: a number of its own value, or itself. -/
lemma tolerantEqual_leaf {left right : Json} (hleaf : isLeaf left = true) :
    numericTolerantEqual left right = true ↔
      numericEqual left right = true ∨
        isNumeric left = false ∧ isNumeric right = false ∧ left = right := by
  have hnumeric : numericEqual left right = true →
      isNumeric left = true ∧ isNumeric right = true := fun h =>
    ⟨((@numericEqual_iff _ _).mp h).1, ((@numericEqual_iff _ _).mp h).2.1⟩
  have hif : numericTolerantEqual left right =
      if isNumeric left ∧ isNumeric right then numericEqual left right
        else decide (left = right) := by
    cases left with
    | object fields => cases hleaf
    | array items => cases hleaf
    | _ => rfl
  rw [hif]
  split_ifs with h
  · rw [h.1, h.2]
    simp
  · rw [decide_eq_true_iff]
    constructor
    · rintro rfl
      exact Or.inr ⟨by simpa using h, by simpa using h, rfl⟩
    · rintro (hequal | ⟨-, -, hequal⟩)
      · exact absurd (hnumeric hequal) h
      · exact hequal

lemma tolerantEqual_object {fields : Fields} {right : Json} :
    numericTolerantEqual (.object fields) right = true ↔
      ∃ others, right = .object others ∧ fields.length = others.length ∧
        tolerantFields fields others = true := by
  cases right with
  | object others => simp [numericTolerantEqual]
  | _ => simp [numericTolerantEqual, isNumeric]

lemma tolerantEqual_array {items : List Json} {right : Json} :
    numericTolerantEqual (.array items) right = true ↔
      ∃ others, right = .array others ∧ items.length = others.length ∧
        tolerantItems items others = true := by
  cases right with
  | array others => simp [numericTolerantEqual]
  | _ => simp [numericTolerantEqual, isNumeric]

lemma isLeaf_of_tolerantEqual {left right : Json} (hleaf : isLeaf left = true)
    (h : numericTolerantEqual left right = true) : isLeaf right = true := by
  rcases (tolerantEqual_leaf hleaf).mp h with h | ⟨-, -, rfl⟩
  · have hnumeric := ((@numericEqual_iff _ _).mp h).2.1
    cases right with
    | object fields => cases hnumeric
    | array items => cases hnumeric
    | _ => rfl
  · exact hleaf

lemma tolerantEqual_leaf_trans {left middle right : Json} (hleaf : isLeaf left = true)
    (h : numericTolerantEqual left middle = true)
    (h' : numericTolerantEqual middle right = true) :
    numericTolerantEqual left right = true := by
  have hmiddle := isLeaf_of_tolerantEqual hleaf h
  rcases (tolerantEqual_leaf hleaf).mp h with hequal | ⟨-, -, rfl⟩
  · have hnumeric := ((@numericEqual_iff _ _).mp hequal).2.1
    rcases (tolerantEqual_leaf hmiddle).mp h' with hequal' | ⟨hnone, -⟩
    · exact (tolerantEqual_leaf hleaf).mpr (Or.inl (numericEqual_trans hequal hequal'))
    · rw [hnone] at hnumeric
      cases hnumeric
  · exact h'

lemma tolerantEqual_leaf_symm {left right : Json} (hleaf : isLeaf left = true)
    (h : numericTolerantEqual left right = true) : numericTolerantEqual right left = true := by
  have hright := isLeaf_of_tolerantEqual hleaf h
  rcases (tolerantEqual_leaf hleaf).mp h with hequal | ⟨-, -, rfl⟩
  · exact (tolerantEqual_leaf hright).mpr (Or.inl (numericEqual_symm hequal))
  · exact h

lemma tolerantFields_iff (fields others : Fields) : tolerantFields fields others = true ↔
    ∀ field ∈ fields, ∃ other, Fields.get others field.1 = some other ∧
      numericTolerantEqual field.2 other = true := by
  induction fields with
  | nil => simp [tolerantFields]
  | cons field fields ih =>
    obtain ⟨key, value⟩ := field
    rw [tolerantFields, Bool.and_eq_true_iff, ih, List.forall_mem_cons]
    cases hget : Fields.get others key with
    | none => simp
    | some other => simp

/-! ## A partial equivalence -/

mutual

/-- **Tolerant equality is transitive.** -/
theorem tolerantEqual_trans : ∀ left middle right : Json,
    numericTolerantEqual left middle = true → numericTolerantEqual middle right = true →
      numericTolerantEqual left right = true
  | .object fields, middle, right, h, h' => by
      obtain ⟨others, rfl, hlength, hfields⟩ := tolerantEqual_object.mp h
      obtain ⟨more, rfl, hlength', hothers⟩ := tolerantEqual_object.mp h'
      exact tolerantEqual_object.mpr ⟨more, rfl, hlength.trans hlength',
        tolerantFields_trans fields others more hfields hothers⟩
  | .array items, middle, right, h, h' => by
      obtain ⟨others, rfl, hlength, hitems⟩ := tolerantEqual_array.mp h
      obtain ⟨more, rfl, hlength', hothers⟩ := tolerantEqual_array.mp h'
      exact tolerantEqual_array.mpr ⟨more, rfl, hlength.trans hlength',
        tolerantItems_trans items others more hlength hitems hothers⟩
  | .null, _, _, h, h' => tolerantEqual_leaf_trans rfl h h'
  | .bool _, _, _, h, h' => tolerantEqual_leaf_trans rfl h h'
  | .number _, _, _, h, h' => tolerantEqual_leaf_trans rfl h h'
  | .string _, _, _, h, h' => tolerantEqual_leaf_trans rfl h h'

lemma tolerantFields_trans : ∀ (fields : List (String × Json)) (others more : Fields),
    tolerantFields fields others = true → tolerantFields others more = true →
      tolerantFields fields more = true
  | [], _, _, _, _ => rfl
  | (key, value) :: fields, others, more, h, h' => by
      rw [tolerantFields_iff, List.forall_mem_cons, ← tolerantFields_iff] at h
      obtain ⟨⟨other, hget, hvalue⟩, hfields⟩ := h
      have hmem : (key, other) ∈ others := by
        obtain ⟨front, back, rfl, -⟩ := List.lookup_eq_some_iff.mp hget
        simp
      obtain ⟨last, hlast, hother⟩ := (tolerantFields_iff others more).mp h' _ hmem
      rw [tolerantFields, Bool.and_eq_true_iff, hlast]
      exact ⟨tolerantEqual_trans value other last hvalue hother,
        tolerantFields_trans fields others more hfields h'⟩

lemma tolerantItems_trans : ∀ items others more : List Json, items.length = others.length →
    tolerantItems items others = true → tolerantItems others more = true →
      tolerantItems items more = true
  | [], _, _, _, _, _ => by simp [tolerantItems]
  | _ :: _, [], _, hlength, _, _ => by simp at hlength
  | _ :: _, _ :: _, [], _, _, _ => by simp [tolerantItems]
  | item :: items, other :: others, last :: more, hlength, h, h' => by
      rw [tolerantItems, Bool.and_eq_true_iff] at h h' ⊢
      exact ⟨tolerantEqual_trans item other last h.1 h'.1,
        tolerantItems_trans items others more (by simpa using hlength) h.2 h'.2⟩

end

/-- The keys of an object that has a counterpart for each field of another one as large. -/
lemma mem_keys_of_tolerantFields {fields others : Fields}
    (hkeys : (fields.map Prod.fst).Nodup) (hlength : fields.length = others.length)
    (h : tolerantFields fields others = true) : ∀ field ∈ others, field.1 ∈ fields.map Prod.fst := by
  have hsubset : fields.map Prod.fst ⊆ others.map Prod.fst := by
    intro key hkey
    obtain ⟨field, hfield, rfl⟩ := List.mem_map.mp hkey
    obtain ⟨other, hget, -⟩ := (tolerantFields_iff fields others).mp h field hfield
    obtain ⟨front, back, rfl, -⟩ := List.lookup_eq_some_iff.mp hget
    simp
  have hperm : (fields.map Prod.fst).Perm (others.map Prod.fst) := by
    refine (List.subperm_of_subset hkeys hsubset).perm_of_length_le ?_
    rw [List.length_map, List.length_map, hlength]
  intro field hfield
  exact hperm.mem_iff.mpr (List.mem_map_of_mem hfield)

mutual

/-- **Tolerant equality is symmetric** on values with unique keys. -/
theorem tolerantEqual_symm : ∀ left right : Json, left.valid = true → right.valid = true →
    numericTolerantEqual left right = true → numericTolerantEqual right left = true
  | .object fields, right, hvalid, hvalid', h => by
      obtain ⟨others, rfl, hlength, hfields⟩ := tolerantEqual_object.mp h
      obtain ⟨hkeys, hvalues⟩ := Json.readable_object.mp hvalid
      obtain ⟨hkeys', hvalues'⟩ := Json.readable_object.mp hvalid'
      have hback := tolerantFields_symm fields others hvalues
        ((Json.readableFields_iff others).mp hvalues') hfields
      have hmem := mem_keys_of_tolerantFields hkeys hlength hfields
      refine tolerantEqual_object.mpr ⟨fields, rfl, hlength.symm, ?_⟩
      refine (tolerantFields_iff others fields).mpr fun field hfield => ?_
      obtain ⟨⟨key, value⟩, hvalue, hsame⟩ := List.mem_map.mp (hmem field hfield)
      obtain rfl : key = field.1 := hsame
      obtain ⟨other, hget, hequal⟩ := hback _ hvalue
      have hother : Fields.get others field.1 = some field.2 :=
        (lookup_eq_some_iff hkeys').mpr hfield
      obtain rfl : field.2 = other := Option.some.inj (hother.symm.trans hget)
      exact ⟨value, (lookup_eq_some_iff hkeys).mpr hvalue, hequal⟩
  | .array items, right, hvalid, hvalid', h => by
      obtain ⟨others, rfl, hlength, hitems⟩ := tolerantEqual_array.mp h
      exact tolerantEqual_array.mpr ⟨items, rfl, hlength.symm,
        tolerantItems_symm items others hvalid hvalid' hitems⟩
  | .null, _, _, _, h => tolerantEqual_leaf_symm rfl h
  | .bool _, _, _, _, h => tolerantEqual_leaf_symm rfl h
  | .number _, _, _, _, h => tolerantEqual_leaf_symm rfl h
  | .string _, _, _, _, h => tolerantEqual_leaf_symm rfl h

/-- The counterpart of every field, looked at from the other side. -/
lemma tolerantFields_symm : ∀ (fields : List (String × Json)) (others : Fields),
    Json.readableFields (fun _ => true) fields = true →
    (∀ field ∈ others, field.2.readable (fun _ => true) = true) →
    tolerantFields fields others = true → ∀ field ∈ fields, ∃ other,
      Fields.get others field.1 = some other ∧ numericTolerantEqual other field.2 = true
  | [], _, _, _, _ => by simp
  | (key, value) :: fields, others, hvalid, hvalid', h => by
      obtain ⟨hvalue, hfields⟩ := Bool.and_eq_true_iff.mp hvalid
      rw [tolerantFields_iff, List.forall_mem_cons, ← tolerantFields_iff] at h
      obtain ⟨⟨other, hget, hequal⟩, hrest⟩ := h
      rw [List.forall_mem_cons]
      have hmem : (key, other) ∈ others := by
        obtain ⟨front, back, rfl, -⟩ := List.lookup_eq_some_iff.mp hget
        simp
      exact ⟨⟨other, hget, tolerantEqual_symm value other hvalue (hvalid' _ hmem) hequal⟩,
        tolerantFields_symm fields others hfields hvalid' hrest⟩

lemma tolerantItems_symm : ∀ items others : List Json,
    Json.readableItems (fun _ => true) items = true →
    Json.readableItems (fun _ => true) others = true →
    tolerantItems items others = true → tolerantItems others items = true
  | [], _, _, _, _ => by simp [tolerantItems]
  | _ :: _, [], _, _, _ => by simp [tolerantItems]
  | item :: items, other :: others, hvalid, hvalid', h => by
      obtain ⟨hitem, hitems⟩ := Bool.and_eq_true_iff.mp hvalid
      obtain ⟨hother, hothers⟩ := Bool.and_eq_true_iff.mp hvalid'
      rw [tolerantItems, Bool.and_eq_true_iff] at h ⊢
      exact ⟨tolerantEqual_symm item other hitem hother h.1,
        tolerantItems_symm items others hitems hothers h.2⟩

end

end Metrics

end ExperimentControl
