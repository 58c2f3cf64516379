import ExperimentControl.Json.Grammar
import ExperimentControl.Library.Fallible

/-!
# Reading JSON text

The strict reader of `core/src/json.rs`: one object, without a repeated key, at most 64 levels deep,
and with no more nodes than a budget. The texts of a container's items are found one after another
and each is read on its own, one level further down.

* `value`, `mapping`, `ownMapping` — the reader, with and without the budget.
* `Json.readable`, `Json.depth`, `Json.nodes` — what a value takes to be read.
* **`value_of_text`** — a text of the grammar is read as its value.
* **`value_write`**, **`parse_write`** — a written value is read back as itself.
-/

namespace ExperimentControl

namespace Reader

open Syntax

inductive Error
  | malformed
  | complexity
  | mappingKey
  | number
  deriving DecidableEq, Repr

def MAX_DEPTH : ℕ := 64
def MAX_NODES : ℕ := 600000

def consume (remaining : ℕ) : Except Error ℕ :=
  if remaining = 0 then .error .complexity else .ok (remaining - 1)

/-! ## The texts of a container -/

/-- The text of a value, and what stands behind it. -/
def rawValue (bytes : Bytes) : Option (Bytes × Bytes) :=
  let text := skipSpace bytes
  (ignoreValue text.length text).map fun rest => (text.take (text.length - rest.length), rest)

/-- The texts of the items of an array, from before one of them, and what stands behind the array.
Where the syntax breaks there are no more texts, and nothing stands behind. -/
def rawItems : ℕ → Bytes → List Bytes × Option Bytes
  | 0, _ => ([], none)
  | fuel + 1, bytes =>
      match rawValue bytes with
      | none => ([], none)
      | some (raw, rest) =>
          match expect 44 rest with
          | some rest => (raw :: (rawItems fuel rest).1, (rawItems fuel rest).2)
          | none => ([raw], expect 93 rest)

def rawArray (bytes : Bytes) : List Bytes × Option Bytes :=
  match expect 93 bytes with
  | some rest => ([], some rest)
  | none => rawItems bytes.length bytes

/-- The key of a member, and what stands behind it. -/
def readKey (bytes : Bytes) : Option (String × Bytes) := do
  let text ← expect 34 bytes
  let (text, rest) ← readString text
  let key ← fromUtf8 text
  return (key, rest)

/-- The keys and texts of the members of an object, from before one of them, and what stands behind
the object. The text of the last one is missing where the syntax breaks behind its key. -/
def rawMembers : ℕ → Bytes → List (String × Option Bytes) × Option Bytes
  | 0, _ => ([], none)
  | fuel + 1, bytes =>
      match readKey bytes with
      | none => ([], none)
      | some (key, rest) =>
          match (expect 58 rest).bind rawValue with
          | none => ([(key, none)], none)
          | some (raw, rest) =>
              match expect 44 rest with
              | some rest =>
                  ((key, some raw) :: (rawMembers fuel rest).1, (rawMembers fuel rest).2)
              | none => ([(key, some raw)], expect 125 rest)

def rawObject (bytes : Bytes) : List (String × Option Bytes) × Option Bytes :=
  match expect 125 bytes with
  | some rest => ([], some rest)
  | none => rawMembers bytes.length bytes

/-! ## Values -/

/-- Nothing but whitespace is left. -/
def ended : Option Bytes → Except Error Unit
  | some rest => reject (skipSpace rest ≠ []) .malformed
  | none => .error .malformed

/-- A number text that stands for a float. -/
def isFloat (text : String) : Bool := text.toList.any fun c => c = '.' ∨ c = 'e' ∨ c = 'E'

section Values

-- Whether the float a number text stands for is finite.
variable (finite : String → Bool)

def numberOf (text : Bytes) : Except Error Json :=
  match fromUtf8 text with
  | some text => do
      reject (isFloat text ∧ ¬finite text) .number
      .ok (.number text)
  | none => .error .malformed

/-- A value that is no container. -/
def scalar (bytes : Bytes) : Except Error Json :=
  match skipSpace bytes with
  | [] => .error .malformed
  | b :: text =>
      if b = 34 then
        match readString text with
        | some (text, rest) =>
            match fromUtf8 text with
            | some text => do
                ended (some rest)
                .ok (.string text)
            | none => .error .malformed
        | none => .error .malformed
      else if b = 45 ∨ isDigit b then
        match ignoreNumber (b :: text) with
        | some rest => do
            ended (some rest)
            numberOf finite ((b :: text).take (text.length + 1 - rest.length))
        | none => .error .malformed
      else if b = 116 then do
        ended (ignoreWord (utf8 "true") (b :: text))
        .ok (.bool true)
      else if b = 102 then do
        ended (ignoreWord (utf8 "false") (b :: text))
        .ok (.bool false)
      else do
        ended (ignoreWord (utf8 "null") (b :: text))
        .ok .null

section Containers

-- The reader of the values one level down, with what is left of the budget.
variable (read : Bytes → ℕ → Except Error (Json × ℕ))

def readItems : List Bytes → ℕ → Except Error (List Json × ℕ)
  | [], remaining => .ok ([], remaining)
  | raw :: raws, remaining => do
      let (item, remaining) ← read raw remaining
      let (items, remaining) ← readItems raws remaining
      .ok (item :: items, remaining)

/-- The text of a member, if the syntax did not break. -/
def present : Option Bytes → Except Error Bytes
  | some raw => .ok raw
  | none => .error .malformed

def readMembers : List String → List (String × Option Bytes) → ℕ → Except Error (Fields × ℕ)
  | _, [], remaining => .ok ([], remaining)
  | seen, (key, raw) :: raws, remaining => do
      let remaining ← consume remaining
      reject (key ∈ seen) .mappingKey
      let raw ← present raw
      let (item, remaining) ← read raw remaining
      let (fields, remaining) ← readMembers (key :: seen) raws remaining
      .ok ((key, item) :: fields, remaining)

end Containers

/-- The value of a text, so many levels deep at most, with what is left of the budget. Whitespace
that is none of JSON's makes a text malformed in any case, so only JSON's is skipped here. -/
def value : ℕ → Bytes → ℕ → Except Error (Json × ℕ)
  | 0, _, remaining => do
      let _ ← consume remaining
      .error .complexity
  | levels + 1, text, remaining => do
      let remaining ← consume remaining
      match skipSpace text with
      | [] => .error .malformed
      | b :: body =>
          if b = 123 then do
            let (fields, remaining) ← readMembers (value levels) [] (rawObject body).1 remaining
            ended (rawObject body).2
            .ok (.object fields, remaining)
          else if b = 91 then do
            let (items, remaining) ← readItems (value levels) (rawArray body).1 remaining
            ended (rawArray body).2
            .ok (.array items, remaining)
          else do
            let result ← scalar finite text
            .ok (result, remaining)

/-- One object within a budget of nodes. -/
def parse (bytes : Bytes) (remaining : ℕ) : Except Error Fields := do
  reject (fromUtf8 bytes = none) .malformed
  let (value, _) ← value finite (MAX_DEPTH + 1) bytes remaining
  match value with
  | .object fields => .ok fields
  | _ => .error .malformed

/-- One object from anywhere outside the service's own state. -/
def mapping (bytes : Bytes) : Except Error Fields := parse finite bytes MAX_NODES

/-- One object the service wrote itself. -/
def ownMapping (bytes : Bytes) : Except Error Fields := parse finite bytes (2 ^ 64 - 1)

end Values

end Reader

/-! ## What a value takes to be read -/

namespace Json

section Readable

variable (finite : String → Bool)

mutual

/-- A value whose numbers are numbers, none of them an infinite float, and whose keys are unique. -/
def readable : Json → Bool
  | .null => true
  | .bool _ => true
  | .number text => Syntax.isNumber text && (!Reader.isFloat text || finite text)
  | .string _ => true
  | .array items => readableItems items
  | .object fields => decide (fields.map (·.1)).Nodup && readableFields fields

def readableItems : List Json → Bool
  | [] => true
  | item :: items => readable item && readableItems items

def readableFields : List (String × Json) → Bool
  | [] => true
  | (_, value) :: fields => readable value && readableFields fields

end

end Readable

mutual

/-- The levels of a value. -/
def depth : Json → ℕ
  | .array items => depthItems items + 1
  | .object fields => depthFields fields + 1
  | _ => 1

def depthItems : List Json → ℕ
  | [] => 0
  | item :: items => max (depth item) (depthItems items)

def depthFields : List (String × Json) → ℕ
  | [] => 0
  | (_, value) :: fields => max (depth value) (depthFields fields)

end

mutual

/-- The nodes of a value: the values and the keys. -/
def nodes : Json → ℕ
  | .array items => nodesItems items + 1
  | .object fields => nodesFields fields + 1
  | _ => 1

def nodesItems : List Json → ℕ
  | [] => 0
  | item :: items => nodes item + nodesItems items

def nodesFields : List (String × Json) → ℕ
  | [] => 0
  | (_, value) :: fields => 1 + nodes value + nodesFields fields

end

variable {finite : String → Bool}

mutual

lemma exact_of_readable : ∀ value : Json, readable finite value = true → exact value = true
  | .null, _ => rfl
  | .bool _, _ => rfl
  | .number _, h => (Bool.and_eq_true_iff.mp h).1
  | .string _, _ => rfl
  | .array items, h => exactItems_of_readable items h
  | .object fields, h => exactFields_of_readable fields (Bool.and_eq_true_iff.mp h).2

lemma exactItems_of_readable : ∀ items : List Json, readableItems finite items = true →
    exactItems items = true
  | [], _ => rfl
  | item :: items, h => by
      obtain ⟨hitem, hitems⟩ := Bool.and_eq_true_iff.mp h
      rw [exactItems, exact_of_readable item hitem, exactItems_of_readable items hitems]
      rfl

lemma exactFields_of_readable : ∀ fields : List (String × Json),
    readableFields finite fields = true → exactFields fields = true
  | [], _ => rfl
  | (_, value) :: fields, h => by
      obtain ⟨hvalue, hfields⟩ := Bool.and_eq_true_iff.mp h
      rw [exactFields, exact_of_readable value hvalue, exactFields_of_readable fields hfields]
      rfl

end

end Json

/-! ## A text is read as its value -/

namespace Reader

open Syntax Grammar
open Json (write exact readable)
open Encoding (joined)

variable {finite : String → Bool}

/-- A text is found up to the whitespace behind it. -/
lemma rawValue_of_text {t rest : Bytes} {v : Json} (h : Text t v) (hends : Ends rest) :
    ∃ raw w, rawValue (t ++ rest) = some (raw, w ++ rest) ∧ Space w ∧ Value raw v := by
  cases h with
  | @around w raw w' _ hw hvalue hw' =>
    have hscan := ignoreValue_append hvalue (raw ++ (w' ++ rest)).length (ends_space hw' hends)
      (by simp)
    obtain ⟨b, tail, rfl, hspace, -⟩ := hvalue.head
    refine ⟨b :: tail, w', ?_, hw', hvalue⟩
    rw [rawValue, List.append_assoc, List.append_assoc, hw.skip, List.cons_append,
      skipSpace_cons hspace, ← List.cons_append, hscan, Option.map_some, List.length_append,
      Nat.add_sub_cancel, List.take_left]

lemma readKey_of_text {k : Bytes} {key : String} (h : KeyText k key) (rest : Bytes) :
    ∃ behind, readKey (k ++ 58 :: rest) = some (key, behind) ∧ expect 58 behind = some rest := by
  obtain ⟨w, s, w', rfl, hw, hw', hs⟩ := h
  refine ⟨w' ++ 58 :: rest, ?_, ?_⟩
  · have hquote : expect 34 (w ++ 34 :: (s ++ 34 :: w') ++ 58 :: rest) =
        some (s ++ 34 :: (w' ++ 58 :: rest)) := by
      rw [List.append_assoc, expect_space hw]
      simp only [List.cons_append, List.append_assoc]
      exact expect_cons (by decide) _
    rw [readKey, hquote]
    simp only [Option.bind_eq_bind, Option.bind_some, hs.read, fromUtf8_utf8]
    rfl
  · rw [expect_space hw']
    exact expect_cons (by decide) rest

/-- The texts of items are found one after another. -/
lemma rawItems_of_items {body : Bytes} {items : List Json} (h : Items body items) (fuel : ℕ)
    (rest : Bytes) (hfuel : body.length + 1 ≤ fuel) :
    ∃ raws, rawItems fuel (body ++ 93 :: rest) = (raws, some rest) ∧
      List.Forall₂ Value raws items := by
  induction fuel generalizing body items rest with
  | zero => omega
  | succ fuel ih =>
    cases h with
    | last htext =>
      obtain ⟨raw, w, hraw, hw, hvalue⟩ :=
        rawValue_of_text htext (ends_of_mark rest (Or.inr (Or.inl rfl)))
      refine ⟨[raw], ?_, .cons hvalue .nil⟩
      rw [rawItems, hraw]
      dsimp only
      rw [expect_space hw, expect_ne (by decide) (by decide)]
      dsimp only
      rw [expect_space hw, expect_cons (by decide)]
    | @more t body _ _ htext hitems =>
      simp only [List.length_append, List.length_cons] at hfuel
      obtain ⟨raw, w, hraw, hw, hvalue⟩ :=
        rawValue_of_text htext (ends_of_mark (body ++ 93 :: rest) (Or.inl rfl))
      obtain ⟨raws, hmore, hvalues⟩ := ih hitems rest (by omega)
      refine ⟨raw :: raws, ?_, .cons hvalue hvalues⟩
      rw [List.append_assoc, List.cons_append, rawItems, hraw]
      dsimp only
      rw [expect_space hw, expect_cons (by decide)]
      dsimp only
      rw [hmore]

/-- A member whose text was found, and is one of its value. -/
def Found (text : Bytes → Json → Prop) (raw : String × Option Bytes) (field : String × Json) :
    Prop :=
  raw.1 = field.1 ∧ ∃ t, raw.2 = some t ∧ text t field.2

/-- The texts of members are found one after another. -/
lemma rawMembers_of_members {body : Bytes} {fields : List (String × Json)}
    (h : Members body fields) (fuel : ℕ) (rest : Bytes) (hfuel : body.length + 1 ≤ fuel) :
    ∃ raws, rawMembers fuel (body ++ 125 :: rest) = (raws, some rest) ∧
      List.Forall₂ (Found Value) raws fields := by
  induction fuel generalizing body fields rest with
  | zero => omega
  | succ fuel ih =>
    cases h with
    | @last _ t _ _ hkey htext =>
      obtain ⟨raw, w, hraw, hw, hvalue⟩ :=
        rawValue_of_text htext (ends_of_mark rest (Or.inr (Or.inr rfl)))
      obtain ⟨behind, hread, hcolon⟩ := readKey_of_text hkey (t ++ 125 :: rest)
      refine ⟨[(_, some raw)], ?_, .cons ⟨rfl, raw, rfl, hvalue⟩ .nil⟩
      rw [List.append_assoc, List.cons_append, rawMembers, hread]
      dsimp only
      rw [hcolon, Option.bind_some, hraw]
      dsimp only
      rw [expect_space hw, expect_ne (by decide) (by decide)]
      dsimp only
      rw [expect_space hw, expect_cons (by decide)]
    | @more _ t body _ _ _ hkey htext hmembers =>
      simp only [List.length_append, List.length_cons] at hfuel
      obtain ⟨raw, w, hraw, hw, hvalue⟩ :=
        rawValue_of_text htext (ends_of_mark (body ++ 125 :: rest) (Or.inl rfl))
      obtain ⟨raws, hmore, hvalues⟩ := ih hmembers rest (by omega)
      obtain ⟨behind, hread, hcolon⟩ := readKey_of_text hkey (t ++ 44 :: (body ++ 125 :: rest))
      refine ⟨(_, some raw) :: raws, ?_, .cons ⟨rfl, raw, rfl, hvalue⟩ hvalues⟩
      simp only [List.append_assoc, List.cons_append]
      rw [rawMembers, hread]
      dsimp only
      rw [hcolon, Option.bind_some, hraw]
      dsimp only
      rw [expect_space hw, expect_cons (by decide)]
      dsimp only
      rw [hmore]

lemma ended_of_space {w : Bytes} (h : Space w) : ended (some w) = .ok () := by
  rw [ended, skipSpace_eq_nil.mpr h]
  rfl

lemma consume_succ {n remaining : ℕ} (h : n + 1 ≤ remaining) :
    consume remaining = .ok (remaining - 1) := by
  rw [consume, if_neg (by omega)]

/-- The words and their values. -/
lemma scalar_of_word {w w' : Bytes} (hw : Space w) (hw' : Space w') :
    scalar finite (w ++ (utf8 "null" ++ w')) = .ok .null ∧
      scalar finite (w ++ (utf8 "true" ++ w')) = .ok (.bool true) ∧
        scalar finite (w ++ (utf8 "false" ++ w')) = .ok (.bool false) := by
  have hnull : utf8 "null" = [110, 117, 108, 108] := by decide
  have htrue : utf8 "true" = [116, 114, 117, 101] := by decide
  have hfalse : utf8 "false" = [102, 97, 108, 115, 101] := by decide
  refine ⟨?_, ?_, ?_⟩
  · have hword := ignoreWord_append (utf8 "null") w'
    rw [hnull, List.cons_append] at hword ⊢
    rw [scalar, hw.skip, skipSpace_cons (by decide)]
    dsimp only
    rw [if_neg (by decide), if_neg (by decide), if_neg (by decide), if_neg (by decide), hnull,
      hword, ended_of_space hw', ok_bind]
  · have hword := ignoreWord_append (utf8 "true") w'
    rw [htrue, List.cons_append] at hword ⊢
    rw [scalar, hw.skip, skipSpace_cons (by decide)]
    dsimp only
    rw [if_neg (by decide), if_neg (by decide), if_pos rfl, htrue, hword, ended_of_space hw',
      ok_bind]
  · have hword := ignoreWord_append (utf8 "false") w'
    rw [hfalse, List.cons_append] at hword ⊢
    rw [scalar, hw.skip, skipSpace_cons (by decide)]
    dsimp only
    rw [if_neg (by decide), if_neg (by decide), if_neg (by decide), if_pos rfl, hfalse, hword,
      ended_of_space hw', ok_bind]

lemma scalar_of_number {w w' : Bytes} {text : String} (hw : Space w) (hw' : Space w')
    (h : NumberText (utf8 text)) (hfinite : ¬(isFloat text = true ∧ ¬finite text = true)) :
    scalar finite (w ++ (utf8 text ++ w')) = .ok (.number text) := by
  have hscan := h.ignore (@ends_space w' [] hw' rfl)
  obtain ⟨b, tail, hbytes, hb⟩ := h.head
  have hquote : b ≠ 34 := by
    rintro rfl
    rcases hb with hb | hb <;> cases hb
  have htake : (b :: (tail ++ w')).take ((tail ++ w').length + 1 - w'.length) = utf8 text := by
    rw [hbytes, ← List.cons_append, ← List.length_cons (a := b), ← List.cons_append,
      List.length_append, Nat.add_sub_cancel, List.take_left]
  rw [List.append_nil, hbytes, List.cons_append] at hscan
  rw [scalar, hw.skip, hbytes, List.cons_append, skipSpace_cons (isSpace_false_of_number hb)]
  dsimp only
  rw [if_neg hquote, if_pos hb, hscan]
  dsimp only
  rw [ended_of_space hw', ok_bind, htake, numberOf, fromUtf8_utf8]
  dsimp only
  rw [reject, if_neg hfinite]
  rfl

lemma scalar_of_string {w w' s : Bytes} {text : String} (hw : Space w) (hw' : Space w')
    (h : Spelling s (utf8 text)) :
    scalar finite (w ++ (34 :: (s ++ [34]) ++ w')) = .ok (.string text) := by
  simp only [List.cons_append, List.append_assoc, List.nil_append]
  rw [scalar, hw.skip, skipSpace_cons (by decide)]
  dsimp only
  rw [if_pos rfl, h.read]
  dsimp only
  rw [fromUtf8_utf8]
  dsimp only
  rw [ended_of_space hw', ok_bind]

/-- A scalar in whitespace is no container to the reader. -/
lemma value_of_scalar {w t w' : Bytes} {v : Json} {b : UInt8} {tail : Bytes} (hw : Space w)
    (ht : t = b :: tail) (hspace : isSpace b = false) (hbrace : b ≠ 123) (hbracket : b ≠ 91)
    (hscalar : scalar finite (w ++ (t ++ w')) = .ok v) (levels : ℕ) {remaining : ℕ}
    (hnodes : 1 ≤ remaining) :
    value finite (levels + 1) (w ++ (t ++ w')) remaining = .ok (v, remaining - 1) := by
  have hskip : skipSpace (w ++ (t ++ w')) = b :: (tail ++ w') := by
    rw [hw.skip, ht, List.cons_append, skipSpace_cons hspace]
  rw [value, consume_succ (n := 0) hnodes, ok_bind, hskip]
  dsimp only
  rw [if_neg hbrace, if_neg hbracket, hscalar, ok_bind]

section Containers

variable (read : Bytes → ℕ → Except Error (Json × ℕ))

/-- Items that are each read one level down are read one after another. -/
lemma readItems_of_values {raws : List Bytes} {items : List Json}
    (h : List.Forall₂ Value raws items)
    (hread : ∀ {t : Bytes} {v : Json} (remaining : ℕ), Value t v → v ∈ items →
      v.nodes ≤ remaining → read t remaining = .ok (v, remaining - v.nodes))
    (remaining : ℕ) (hnodes : Json.nodesItems items ≤ remaining) :
    readItems read raws remaining = .ok (items, remaining - Json.nodesItems items) := by
  induction h generalizing remaining with
  | nil => rfl
  | @cons raw item raws items hvalue _ ih =>
    rw [Json.nodesItems] at hnodes ⊢
    have hfirst := hread remaining hvalue (by simp) (by omega)
    have hrest := ih (fun remaining hvalue hmem => hread remaining hvalue (List.mem_cons_of_mem _ hmem))
      (remaining - item.nodes) (by omega)
    rw [readItems, hfirst, ok_bind]
    dsimp only
    rw [hrest, ok_bind, Nat.sub_sub]

/-- Members that are each read one level down are read one after another, if no key repeats. -/
lemma readMembers_of_found {raws : List (String × Option Bytes)} {fields : List (String × Json)}
    (h : List.Forall₂ (Found Value) raws fields)
    (hread : ∀ {t : Bytes} {v : Json} (remaining : ℕ), Value t v → v ∈ fields.map (·.2) →
      v.nodes ≤ remaining → read t remaining = .ok (v, remaining - v.nodes))
    (seen : List String) (hnodup : (fields.map (·.1)).Nodup)
    (hseen : ∀ key ∈ fields.map (·.1), key ∉ seen) (remaining : ℕ)
    (hnodes : Json.nodesFields fields ≤ remaining) :
    readMembers read seen raws remaining = .ok (fields, remaining - Json.nodesFields fields) := by
  induction h generalizing seen remaining with
  | nil => rfl
  | @cons raw field raws fields hfound _ ih =>
    obtain ⟨key, item⟩ := field
    obtain ⟨key', raw⟩ := raw
    obtain ⟨hkey, t, rfl, hvalue⟩ := hfound
    obtain rfl : key' = key := hkey
    rw [List.map_cons, List.nodup_cons] at hnodup
    rw [Json.nodesFields] at hnodes ⊢
    have hseen' : ∀ other ∈ fields.map (·.1), other ∉ key' :: seen := by
      rintro other hother hmem
      rcases List.mem_cons.mp hmem with rfl | hmem
      · exact hnodup.1 hother
      · exact hseen other (List.mem_cons_of_mem _ hother) hmem
    have hfirst := hread (remaining - 1) hvalue (by simp) (by dsimp only; omega)
    have hrest := ih (fun remaining hvalue hmem => hread remaining hvalue (List.mem_cons_of_mem _ hmem))
      (key' :: seen) hnodup.2 hseen' (remaining - 1 - item.nodes) (by omega)
    rw [readMembers, consume_succ (n := 0) (by omega), ok_bind, reject,
      if_neg (hseen key' (by simp)), ok_bind, present, ok_bind, hfirst, ok_bind]
    dsimp only
    rw [hrest, ok_bind, Nat.sub_sub, Nat.sub_sub, ← Nat.add_assoc]

end Containers

lemma depth_le_items {v : Json} {items : List Json} (h : v ∈ items) :
    v.depth ≤ Json.depthItems items := by
  induction items with
  | nil => cases h
  | cons item items ih =>
    rw [Json.depthItems]
    rcases List.mem_cons.mp h with rfl | h
    · exact le_max_left _ _
    · exact (ih h).trans (le_max_right _ _)

lemma depth_le_fields {v : Json} {fields : List (String × Json)} (h : v ∈ fields.map (·.2)) :
    v.depth ≤ Json.depthFields fields := by
  induction fields with
  | nil => cases h
  | cons field fields ih =>
    obtain ⟨key, item⟩ := field
    rw [Json.depthFields]
    rcases List.mem_cons.mp h with rfl | h
    · exact le_max_left _ _
    · exact (ih h).trans (le_max_right _ _)

lemma readable_of_items {v : Json} {items : List Json} (h : v ∈ items)
    (hitems : Json.readableItems finite items = true) : readable finite v = true := by
  induction items with
  | nil => cases h
  | cons item items ih =>
    obtain ⟨hitem, hitems⟩ := Bool.and_eq_true_iff.mp hitems
    rcases List.mem_cons.mp h with rfl | h
    · exact hitem
    · exact ih h hitems

lemma readable_of_fields {v : Json} {fields : List (String × Json)} (h : v ∈ fields.map (·.2))
    (hfields : Json.readableFields finite fields = true) : readable finite v = true := by
  induction fields with
  | nil => cases h
  | cons field fields ih =>
    obtain ⟨key, item⟩ := field
    obtain ⟨hitem, hfields⟩ := Bool.and_eq_true_iff.mp hfields
    rcases List.mem_cons.mp h with rfl | h
    · exact hitem
    · exact ih h hfields

/-- **A text is read as its value**, and uses up its nodes. -/
theorem value_of_text : ∀ (levels : ℕ) {t : Bytes} {v : Json} (remaining : ℕ), Text t v →
    readable finite v = true → v.depth ≤ levels → v.nodes ≤ remaining →
      value finite levels t remaining = .ok (v, remaining - v.nodes)
  | 0, _, v, _, _, _, hdepth, _ => by
      cases v <;> simp [Json.depth] at hdepth
  | levels + 1, _, _, remaining, @Text.around w t w' v hw hvalue hw', h, hdepth, hnodes => by
      cases hvalue with
      | null =>
        have hword : utf8 "null" = 110 :: [117, 108, 108] := by decide
        exact value_of_scalar hw hword (by decide) (by decide) (by decide)
          (scalar_of_word hw hw').1 levels hnodes
      | yes =>
        have hword : utf8 "true" = 116 :: [114, 117, 101] := by decide
        exact value_of_scalar hw hword (by decide) (by decide) (by decide)
          (scalar_of_word hw hw').2.1 levels hnodes
      | no =>
        have hword : utf8 "false" = 102 :: [97, 108, 115, 101] := by decide
        exact value_of_scalar hw hword (by decide) (by decide) (by decide)
          (scalar_of_word hw hw').2.2 levels hnodes
      | @number text hnumber =>
        obtain ⟨b, tail, hbytes, hb⟩ := hnumber.head
        obtain ⟨-, hfinite⟩ := Bool.and_eq_true_iff.mp h
        have hok : ¬(isFloat text = true ∧ ¬finite text = true) := by
          rintro ⟨hfloat, hinfinite⟩
          rw [hfloat] at hfinite
          exact hinfinite hfinite
        refine value_of_scalar hw hbytes (isSpace_false_of_number hb) ?_ ?_
          (scalar_of_number hw hw' hnumber hok) levels hnodes <;>
        · rintro rfl
          rcases hb with hb | hb <;> cases hb
      | string hs =>
        exact value_of_scalar hw rfl (by decide) (by decide) (by decide)
          (scalar_of_string hw hw' hs) levels hnodes
      | noItems hspace =>
        simp only [List.cons_append, List.append_assoc, List.nil_append]
        rw [value, consume_succ (n := 0) hnodes, ok_bind, hw.skip, skipSpace_cons (by decide)]
        dsimp only
        rw [if_neg (by decide), if_pos rfl, rawArray, expect_space hspace, expect_cons (by decide)]
        dsimp only [readItems]
        rw [ok_bind]
        dsimp only
        rw [ended_of_space hw', ok_bind]
        rfl
      | @array body items hitems =>
        rw [Json.depth] at hdepth
        rw [Json.nodes] at hnodes ⊢
        have hfuel : body.length + 1 ≤ (body ++ 93 :: w').length := by simp
        obtain ⟨raws, hraws, hvalues⟩ := rawItems_of_items hitems _ w' hfuel
        have hread := readItems_of_values (value finite levels) hvalues
          (fun remaining hvalue hmem hnodes => value_of_text levels remaining hvalue.text
            (readable_of_items hmem h) ((depth_le_items hmem).trans (by omega)) hnodes)
          (remaining - 1) (by omega)
        simp only [List.cons_append, List.append_assoc, List.nil_append]
        rw [value, consume_succ hnodes, ok_bind, hw.skip, skipSpace_cons (by decide)]
        dsimp only
        rw [if_neg (by decide), if_pos rfl, rawArray, hitems.expect_none]
        dsimp only
        rw [hraws, hread, ok_bind]
        dsimp only
        rw [ended_of_space hw', ok_bind, Nat.sub_sub, Nat.add_comm 1]
      | noMembers hspace =>
        simp only [List.cons_append, List.append_assoc, List.nil_append]
        rw [value, consume_succ (n := 0) hnodes, ok_bind, hw.skip, skipSpace_cons (by decide)]
        dsimp only
        rw [if_pos rfl, rawObject, expect_space hspace, expect_cons (by decide)]
        dsimp only [readMembers]
        rw [ok_bind]
        dsimp only
        rw [ended_of_space hw', ok_bind]
        rfl
      | @object body fields hmembers =>
        obtain ⟨hnodup, hfields⟩ := Bool.and_eq_true_iff.mp h
        rw [Json.depth] at hdepth
        rw [Json.nodes] at hnodes ⊢
        have hfuel : body.length + 1 ≤ (body ++ 125 :: w').length := by simp
        obtain ⟨raws, hraws, hfound⟩ := rawMembers_of_members hmembers _ w' hfuel
        have hread := readMembers_of_found (value finite levels) hfound
          (fun remaining hvalue hmem hnodes => value_of_text levels remaining hvalue.text
            (readable_of_fields hmem hfields) ((depth_le_fields hmem).trans (by omega)) hnodes)
          [] (of_decide_eq_true hnodup) (by simp) (remaining - 1) (by omega)
        simp only [List.cons_append, List.append_assoc, List.nil_append]
        rw [value, consume_succ hnodes, ok_bind, hw.skip, skipSpace_cons (by decide)]
        dsimp only
        rw [if_pos rfl, rawObject, hmembers.expect_none]
        dsimp only
        rw [hraws, hread, ok_bind]
        dsimp only
        rw [ended_of_space hw', ok_bind, Nat.sub_sub, Nat.add_comm 1]

/-- **A written value is read back**, and uses up its nodes. -/
theorem value_write (v : Json) (levels remaining : ℕ) (h : readable finite v = true)
    (hdepth : v.depth ≤ levels) (hnodes : v.nodes ≤ remaining) :
    value finite levels (write v) remaining = .ok (v, remaining - v.nodes) :=
  value_of_text levels remaining (value_of_write v (Json.exact_of_readable v h)).text h hdepth hnodes

/-! ## Nodes of a text -/

mutual

/-- **A text has no more nodes than bytes.** -/
theorem nodes_le_of_value {t : Bytes} {v : Json} : Value t v → v.nodes ≤ t.length
  | .null => by decide
  | .yes => by decide
  | .no => by decide
  | .number hnumber => by
      obtain ⟨b, tail, hbytes, -⟩ := hnumber.head
      rw [hbytes]
      exact Nat.succ_pos _
  | .string _ => Nat.succ_pos _
  | .noItems _ => Nat.succ_pos _
  | .array hitems => by
      have hbody := nodes_le_of_items hitems
      rw [Json.nodes, List.length_cons, List.length_append]
      omega
  | .noMembers _ => Nat.succ_pos _
  | .object hmembers => by
      have hbody := nodes_le_of_members hmembers
      rw [Json.nodes, List.length_cons, List.length_append]
      omega

theorem nodes_le_of_text {t : Bytes} {v : Json} : Text t v → v.nodes ≤ t.length
  | .around _ hvalue _ => by
      have hinner := nodes_le_of_value hvalue
      rw [List.length_append, List.length_append]
      omega

theorem nodes_le_of_items {body : Bytes} {items : List Json} : Items body items →
    Json.nodesItems items ≤ body.length
  | .last htext => nodes_le_of_text htext
  | .more htext hitems => by
      have hfirst := nodes_le_of_text htext
      have hrest := nodes_le_of_items hitems
      rw [Json.nodesItems, List.length_append, List.length_cons]
      omega

theorem nodes_le_of_members {body : Bytes} {fields : List (String × Json)} :
    Members body fields → Json.nodesFields fields ≤ body.length
  | .last _ htext => by
      have hvalue := nodes_le_of_text htext
      simp only [Json.nodesFields, List.length_append, List.length_cons]
      omega
  | .more _ htext hmembers => by
      have hvalue := nodes_le_of_text htext
      have hrest := nodes_le_of_members hmembers
      simp only [Json.nodesFields, List.length_append, List.length_cons]
      omega

end

/-! ## Written values are text -/

/-- Bytes that are a text. -/
def IsText (bytes : Bytes) : Prop := ∃ text, utf8 text = bytes

lemma IsText.append {xs ys : Bytes} (hx : IsText xs) (hy : IsText ys) : IsText (xs ++ ys) := by
  obtain ⟨x, rfl⟩ := hx
  obtain ⟨y, rfl⟩ := hy
  exact ⟨x ++ y, utf8_append x y⟩

lemma isText_ascii {b : UInt8} (h : b.toNat < 128) : IsText [b] := by
  have hall : ∀ n < 128, utf8 (String.singleton (Char.ofNat n)) = [UInt8.ofNat n] := by
    decide
  exact ⟨_, by rw [hall b.toNat h, UInt8.ofNat_toNat]⟩

lemma isText_escape_char (c : Char) :
    IsText ((String.utf8EncodeChar c).flatMap escapeByte) := by
  rcases Nat.lt_or_ge c.toNat 128 with hascii | hwide
  · have hall : ∀ n < 128, (fromUtf8 ((String.utf8EncodeChar (Char.ofNat n)).flatMap
        escapeByte)).isSome = true := by decide +kernel
    have hsome := hall c.toNat hascii
    rw [Char.ofNat_toNat] at hsome
    obtain ⟨text, htext⟩ := Option.isSome_iff_exists.mp hsome
    exact ⟨text, fromUtf8_eq_some.mp htext⟩
  · have hsame : (String.utf8EncodeChar c).flatMap escapeByte = String.utf8EncodeChar c := by
      have hones : ∀ b ∈ String.utf8EncodeChar c, escapeByte b = [b] := by
        intro b hb
        have hlong := utf8EncodeChar_ge hwide b hb
        unfold escapeByte
        split <;> first | omega | skip
        rw [if_neg (by omega)]
      generalize String.utf8EncodeChar c = bytes at hones ⊢
      induction bytes with
      | nil => rfl
      | cons b bytes ih =>
        rw [List.flatMap_cons, hones b (by simp), ih fun b hb => hones b (by simp [hb])]
        rfl
    rw [hsame]
    exact ⟨String.singleton c, by rw [utf8_eq]; simp⟩

lemma isText_writeString (text : String) : IsText (writeString text) := by
  have hbody : IsText ((utf8 text).flatMap escapeByte) := by
    rw [utf8_eq]
    generalize text.toList = chars
    induction chars with
    | nil => exact ⟨"", rfl⟩
    | cons c chars ih =>
      rw [List.flatMap_cons, List.flatMap_append]
      exact (isText_escape_char c).append ih
  exact ((isText_ascii (b := 34) (by decide)).append hbody).append
    (isText_ascii (b := 34) (by decide))

lemma isText_joined {items : List Bytes} (h : ∀ item ∈ items, IsText item) :
    IsText (joined items) := by
  induction items with
  | nil => exact ⟨"", rfl⟩
  | cons item items ih =>
    have hrest := ih fun item hitem => h item (by simp [hitem])
    have hfirst := h item (by simp)
    cases items with
    | nil => exact hfirst
    | cons next items =>
      rw [joined]
      exact hfirst.append ((isText_ascii (b := 44) (by decide)).append hrest)
      simp

mutual

/-- The text of a value is text. -/
lemma isText_write : ∀ v : Json, IsText (write v)
  | .null => ⟨_, rfl⟩
  | .bool true => ⟨_, rfl⟩
  | .bool false => ⟨_, rfl⟩
  | .number text => ⟨text, rfl⟩
  | .string text => isText_writeString text
  | .array items =>
      ((isText_ascii (b := 91) (by decide)).append (isText_joined (isText_writeItems items))).append
        (isText_ascii (b := 93) (by decide))
  | .object fields =>
      ((isText_ascii (b := 123) (by decide)).append
        (isText_joined (isText_writeFields fields))).append (isText_ascii (b := 125) (by decide))

lemma isText_writeItems : ∀ items : List Json, ∀ item ∈ Json.writeItems items, IsText item
  | [], _, h => by cases h
  | item :: items, _, h => by
      rcases List.mem_cons.mp h with rfl | h
      · exact isText_write item
      · exact isText_writeItems items _ h

lemma isText_writeFields : ∀ fields : List (String × Json),
    ∀ member ∈ Json.writeFields fields, IsText member
  | [], _, h => by cases h
  | (key, value) :: fields, _, h => by
      rcases List.mem_cons.mp h with rfl | h
      · exact (isText_writeString key).append
          ((isText_ascii (b := 58) (by decide)).append (isText_write value))
      · exact isText_writeFields fields _ h

end

lemma fromUtf8_write (v : Json) : fromUtf8 (write v) ≠ none := by
  obtain ⟨text, htext⟩ := isText_write v
  rw [fromUtf8_eq_some.mpr htext]
  simp

/-- **A written object is read back** within the budget. -/
theorem parse_write {fields : Fields} {remaining : ℕ}
    (h : readable finite (.object fields) = true) (hdepth : Json.depthFields fields ≤ MAX_DEPTH)
    (hnodes : Json.nodesFields fields + 1 ≤ remaining) :
    parse finite (write (.object fields)) remaining = .ok fields := by
  have hvalue := value_write (.object fields) (MAX_DEPTH + 1) remaining h
    (by rw [Json.depth]; omega) (by rw [Json.nodes]; exact hnodes)
  rw [parse, reject, if_neg (fromUtf8_write _), ok_bind, hvalue, ok_bind]

end Reader

/-! ## What is read has a canonical form -/

namespace Encoding

variable {enc : Encoding} {finite : String → Bool}
  (hfinite : ∀ text, finite text = true → (enc.floatText text).isSome = true)
include hfinite

mutual

/-- **A readable value has a canonical form**, where every finite float has a text. -/
lemma canonical_of_readable : ∀ value : Json, value.readable finite = true → enc.Canonical value
  | .null, _ => ⟨_, rfl⟩
  | .bool true, _ => ⟨_, rfl⟩
  | .bool false, _ => ⟨_, rfl⟩
  | .number text, h => by
      rw [Json.readable, Bool.and_eq_true, Bool.or_eq_true, Bool.not_eq_true'] at h
      rw [Canonical, bytes, numberText, ← Reader.isFloat]
      by_cases hfloat : Reader.isFloat text = true
      · obtain ⟨written, hwritten⟩ := Option.isSome_iff_exists.mp
          (hfinite text (h.2.resolve_left (by simp [hfloat])))
        rw [if_pos hfloat, hwritten]
        exact ⟨_, rfl⟩
      · rw [if_neg hfloat]
        split
        · exact ⟨_, rfl⟩
        · exact ⟨_, rfl⟩
  | .string _, _ => ⟨_, rfl⟩
  | .array items, h => by
      obtain ⟨written, hwritten⟩ := canonicalItems_of_readable items h
      exact ⟨_, by rw [bytes, hwritten]; rfl⟩
  | .object fields, h => by
      obtain ⟨written, hwritten⟩ :=
        canonicalFields_of_readable fields (Bool.and_eq_true_iff.mp h).2
      exact ⟨_, by rw [bytes, hwritten]; rfl⟩

lemma canonicalItems_of_readable : ∀ items : List Json, Json.readableItems finite items = true →
    ∃ written, enc.bytesItems items = .ok written
  | [], _ => ⟨_, rfl⟩
  | item :: items, h => by
      obtain ⟨hitem, hitems⟩ := Bool.and_eq_true_iff.mp h
      obtain ⟨written, hwritten⟩ := canonical_of_readable item hitem
      obtain ⟨rest, hrest⟩ := canonicalItems_of_readable items hitems
      exact ⟨_, by rw [bytesItems, hwritten, ok_bind, hrest]; rfl⟩

lemma canonicalFields_of_readable : ∀ fields : List (String × Json),
    Json.readableFields finite fields = true → ∃ written, enc.bytesFields fields = .ok written
  | [], _ => ⟨_, rfl⟩
  | (key, value) :: fields, h => by
      obtain ⟨hvalue, hfields⟩ := Bool.and_eq_true_iff.mp h
      obtain ⟨written, hwritten⟩ := canonical_of_readable value hvalue
      obtain ⟨rest, hrest⟩ := canonicalFields_of_readable fields hfields
      exact ⟨_, by rw [bytesFields, hwritten, ok_bind, hrest]; rfl⟩

end

end Encoding

end ExperimentControl
