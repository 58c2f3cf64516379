import Mathlib

/-!
# JSON values

The document type every record of the control plane is kept in: an object keeps its fields in
insertion order and a number keeps its exact text, so that a document written and read again is
the same document.

* `Json`, `Fields` — values, and the fields of an object.
* `Fields.get`, `Fields.insert`, `Fields.remove` — the map operations, with their lookup lemmas.
* `Json.asU64`, `Json.asI64`, `Json.ofNat` — integers read from and written as number text.
-/

namespace ExperimentControl

/-- A JSON value. A number is the text it was written with. -/
inductive Json where
  | null
  | bool (value : Bool)
  | number (text : String)
  | string (text : String)
  | array (items : List Json)
  | object (fields : List (String × Json))
  deriving Repr

/-- The fields of an object, in insertion order. -/
abbrev Fields := List (String × Json)

/-! ## Equality is decidable -/

mutual

/-- Equality of two values as written. -/
def Json.beq : Json → Json → Bool
  | .null, .null => true
  | .bool a, .bool b => a == b
  | .number a, .number b => a == b
  | .string a, .string b => a == b
  | .array xs, .array ys => Json.beqItems xs ys
  | .object fs, .object gs => Json.beqFields fs gs
  | _, _ => false

/-- Equality of two arrays. -/
def Json.beqItems : List Json → List Json → Bool
  | [], [] => true
  | x :: xs, y :: ys => Json.beq x y && Json.beqItems xs ys
  | _, _ => false

/-- Equality of two field lists. -/
def Json.beqFields : List (String × Json) → List (String × Json) → Bool
  | [], [] => true
  | (k, v) :: fs, (l, w) :: gs => k == l && Json.beq v w && Json.beqFields fs gs
  | _, _ => false

end

mutual

lemma Json.beq_iff : ∀ x y : Json, Json.beq x y = true ↔ x = y
  | .null, y => by cases y <;> simp [Json.beq]
  | .bool a, y => by cases y <;> simp [Json.beq]
  | .number a, y => by cases y <;> simp [Json.beq]
  | .string a, y => by cases y <;> simp [Json.beq]
  | .array xs, y => by
      cases y with
      | array ys => simp [Json.beq, Json.beqItems_iff xs ys]
      | _ => simp [Json.beq]
  | .object fs, y => by
      cases y with
      | object gs => simp [Json.beq, Json.beqFields_iff fs gs]
      | _ => simp [Json.beq]

lemma Json.beqItems_iff : ∀ xs ys : List Json, Json.beqItems xs ys = true ↔ xs = ys
  | [], ys => by cases ys <;> simp [Json.beqItems]
  | x :: xs, ys => by
      cases ys with
      | nil => simp [Json.beqItems]
      | cons y ys => simp [Json.beqItems, Json.beq_iff x y, Json.beqItems_iff xs ys]

lemma Json.beqFields_iff : ∀ fs gs : List (String × Json), Json.beqFields fs gs = true ↔ fs = gs
  | [], gs => by cases gs <;> simp [Json.beqFields]
  | (k, v) :: fs, gs => by
      cases gs with
      | nil => simp [Json.beqFields]
      | cons g gs =>
          obtain ⟨l, w⟩ := g
          simp [Json.beqFields, Json.beq_iff v w, Json.beqFields_iff fs gs, and_assoc]

end

instance : DecidableEq Json := fun x y => decidable_of_iff _ (Json.beq_iff x y)

/-! ## Fields of an object -/

namespace Fields

/-- The value under a key. -/
def get (fields : Fields) (key : String) : Option Json :=
  fields.lookup key

/-- Put a value under a key: in place when the key is there, at the end when it is new. -/
def insert : Fields → String → Json → Fields
  | [], key, value => [(key, value)]
  | (k, v) :: rest, key, value =>
      if k = key then (key, value) :: rest else (k, v) :: insert rest key value

/-- Take a key out, the other fields keeping their order. Keys are unique in a document, so
there is one field to take out at most. -/
def remove (fields : Fields) (key : String) : Fields :=
  fields.filter fun field => field.1 ≠ key

@[simp] lemma get_nil (key : String) : get [] key = none := rfl

lemma get_cons (k : String) (v : Json) (rest : Fields) (key : String) :
    get ((k, v) :: rest) key = if key = k then some v else get rest key := by
  by_cases h : key = k
  · simp [get, h]
  · simp [get, List.lookup_cons, h, beq_eq_false_iff_ne.mpr h]

@[simp] lemma get_insert_self (key : String) (value : Json) :
    ∀ fields : Fields, get (insert fields key value) key = some value
  | [] => by simp [insert, get]
  | (k, v) :: rest => by
      unfold insert
      split_ifs with h
      · simp [get_cons]
      · rw [get_cons, if_neg (Ne.symm h)]
        exact get_insert_self key value rest

lemma get_insert_of_ne {key other : String} (h : other ≠ key) (value : Json) :
    ∀ fields : Fields, get (insert fields key value) other = get fields other
  | [] => by simp [insert, get_cons, h]
  | (k, v) :: rest => by
      unfold insert
      split_ifs with hk
      · rw [get_cons, get_cons, if_neg h, if_neg (hk ▸ h)]
      · rw [get_cons, get_cons, get_insert_of_ne h value rest]

lemma get_insert (fields : Fields) (key other : String) (value : Json) :
    get (insert fields key value) other = if other = key then some value else get fields other := by
  split_ifs with h
  · rw [h, get_insert_self]
  · exact get_insert_of_ne h value fields

@[simp] lemma get_remove_self (key : String) :
    ∀ fields : Fields, get (remove fields key) key = none
  | [] => rfl
  | (k, v) :: rest => by
      by_cases h : k = key
      · simpa [remove, h] using get_remove_self key rest
      · have hk : remove ((k, v) :: rest) key = (k, v) :: remove rest key := by simp [remove, h]
        rw [hk, get_cons, if_neg (Ne.symm h), get_remove_self key rest]

lemma get_remove_of_ne {key other : String} (h : other ≠ key) :
    ∀ fields : Fields, get (remove fields key) other = get fields other
  | [] => rfl
  | (k, v) :: rest => by
      by_cases hk : k = key
      · have : remove ((k, v) :: rest) key = remove rest key := by simp [remove, hk]
        rw [this, get_cons, if_neg (hk ▸ h), get_remove_of_ne h rest]
      · have : remove ((k, v) :: rest) key = (k, v) :: remove rest key := by simp [remove, hk]
        rw [this, get_cons, get_cons, get_remove_of_ne h rest]

/-- Taking out a key that was just added at the end gives the fields back. -/
lemma remove_insert {key : String} {value : Json} :
    ∀ {fields : Fields}, get fields key = none → remove (insert fields key value) key = fields
  | [], _ => by simp [insert, remove]
  | (k, v) :: rest, h => by
      rw [get_cons] at h
      split_ifs at h with hk
      have hk' : k ≠ key := Ne.symm hk
      have ih := @remove_insert key value rest h
      simp only [insert, if_neg hk', remove, List.filter_cons]
      simpa [hk', remove] using ih

end Fields

/-! ## Reading a value -/

namespace Json

/-- The value under a key of an object; any other value has no keys. -/
def get : Json → String → Option Json
  | .object fields, key => Fields.get fields key
  | _, _ => none

/-- `value[key]`: null where there is nothing under the key. -/
def index (value : Json) (key : String) : Json :=
  (value.get key).getD .null

def asObject : Json → Option Fields
  | .object fields => some fields
  | _ => none

def asArray : Json → Option (List Json)
  | .array items => some items
  | _ => none

def asStr : Json → Option String
  | .string text => some text
  | _ => none

def asBool : Json → Option Bool
  | .bool value => some value
  | _ => none

def isObject (value : Json) : Bool := value.asObject.isSome

def isNull : Json → Bool
  | .null => true
  | _ => false

@[simp] lemma get_object (fields : Fields) (key : String) :
    (Json.object fields).get key = Fields.get fields key := rfl

lemma asObject_eq_some {value : Json} {fields : Fields} :
    value.asObject = some fields ↔ value = .object fields := by
  cases value <;> simp [asObject]

lemma asStr_eq_some {value : Json} {text : String} :
    value.asStr = some text ↔ value = .string text := by
  cases value <;> simp [asStr]

/-! ## Integers as number text -/

/-- The decimal value of a digit text. -/
def digits (text : List Char) : Option ℕ :=
  if text ≠ [] ∧ text.all Char.isDigit then some (Nat.ofDigitChars 10 text 0) else none

/-- The unsigned 64-bit reading of a number text. -/
def asU64 : Json → Option ℕ
  | .number text => (digits text.toList).filter (· < 2 ^ 64)
  | _ => none

/-- The signed 64-bit reading of a number text. -/
def asI64 : Json → Option ℤ
  | .number text =>
      match text.toList with
      | '-' :: rest => ((digits rest).filter (· ≤ 2 ^ 63)).map fun n : ℕ => -(n : ℤ)
      | rest => ((digits rest).filter (· < 2 ^ 63)).map fun n : ℕ => (n : ℤ)
  | _ => none

/-- The number text of a natural number. -/
def ofNat (n : ℕ) : Json := .number (toString n)

/-- The number text of an integer. -/
def ofInt : ℤ → Json
  | .ofNat n => .number (toString n)
  | .negSucc n => .number ("-" ++ toString (n + 1))

lemma digits_toDigits (n : ℕ) : digits (Nat.toDigits 10 n) = some n := by
  have hall : (Nat.toDigits 10 n).all Char.isDigit = true := by
    rw [List.all_eq_true]
    intro c hc
    exact Nat.isDigit_of_mem_toDigits (by decide) (by decide) hc
  simp [digits, hall, Nat.toDigits_ne_nil]

@[simp] lemma asU64_ofNat {n : ℕ} (h : n < 2 ^ 64) : (ofNat n).asU64 = some n := by
  have hlist : (toString n).toList = Nat.toDigits 10 n := by
    rw [Nat.toString_eq_repr, Nat.toList_repr]
  simp only [ofNat, asU64, hlist, digits_toDigits, Option.filter_some, decide_eq_true h]
  rfl

/-- A decimal text has no sign. -/
lemma toDigits_ne_minus (n : ℕ) (rest : List Char) : Nat.toDigits 10 n ≠ '-' :: rest := by
  intro h
  have hdigit : ('-' : Char).isDigit = true :=
    Nat.isDigit_of_mem_toDigits (by decide) (by decide) (n := n) (h ▸ List.mem_cons_self)
  exact absurd hdigit (by decide)

/-- An integer is read back as itself, or not at all when it is too long. -/
lemma asI64_ofInt {z w : ℤ} (h : (ofInt z).asI64 = some w) : w = z := by
  cases z with
  | ofNat n =>
      have hlist : (toString n).toList = Nat.toDigits 10 n := by
        rw [Nat.toString_eq_repr, Nat.toList_repr]
      simp only [ofInt, asI64, hlist] at h
      split at h
      · exact absurd ‹_› (toDigits_ne_minus n _)
      · simp only [digits_toDigits, Option.map_eq_some_iff, Option.filter_eq_some_iff] at h
        obtain ⟨m, ⟨hm, -⟩, rfl⟩ := h
        rw [Option.some.inj hm]
        rfl
  | negSucc n =>
      have hlist : ("-" ++ toString (n + 1)).toList = '-' :: Nat.toDigits 10 (n + 1) := by
        rw [String.toList_append, Nat.toString_eq_repr, Nat.toList_repr]
        rfl
      simp only [ofInt, asI64, hlist, digits_toDigits, Option.map_eq_some_iff,
        Option.filter_eq_some_iff] at h
      obtain ⟨m, ⟨hm, -⟩, rfl⟩ := h
      rw [← Option.some.inj hm, Int.negSucc_eq]
      push_cast
      rfl

lemma lt_of_asU64 {value : Json} {n : ℕ} (h : value.asU64 = some n) : n < 2 ^ 64 := by
  cases value with
  | number text =>
      simp only [asU64, Option.filter_eq_some_iff] at h
      simpa using h.2
  | _ => simp [asU64] at h

end Json

end ExperimentControl
