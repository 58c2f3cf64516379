import ExperimentControl.Json.Reader

/-!
# What the reader admits

The other half of reading: what the strict reader of `core/src/json.rs` returns is what the text
says. The reader finds the texts of a container's items first and reads each on its own one level
further down, with what is left of the budget; here both are put together again into a derivation
of the grammar, and what was refused on the way is left out of it.

* `Admitted` — what is known of a value that was read.
* **`admitted_of_value`** — a value that is read is admitted, from any level and any budget.
* **`mapping_exact`** — what `mapping` and `ownMapping` accept, and what they return.
-/

namespace ExperimentControl

namespace Reader

open Syntax Grammar
open Json (readable)

/-! ## The texts of a container -/

section Texts

variable {bytes raw rest : Bytes}

/-- The text of a value stands behind whitespace. -/
lemma exists_of_rawValue (h : rawValue bytes = some (raw, rest)) :
    ∃ w, Space w ∧ bytes = w ++ (raw ++ rest) := by
  obtain ⟨w, hw, hbytes⟩ := exists_space bytes
  rw [rawValue, Option.map_eq_some_iff] at h
  obtain ⟨behind, hscan, heq⟩ := h
  obtain ⟨htake, rfl⟩ := Prod.mk.inj heq
  obtain ⟨text, htext⟩ := ignoreValue_suffix _ hscan
  refine ⟨w, hw, ?_⟩
  rw [← htake, ← htext, List.length_append, Nat.add_sub_cancel, List.take_left, htext]
  exact hbytes

lemma exists_of_readKey {key : String} (h : readKey bytes = some (key, rest)) :
    ∃ w s, Space w ∧ bytes = w ++ 34 :: (s ++ 34 :: rest) ∧ Spelling s (utf8 key) := by
  rw [readKey] at h
  simp only [Option.bind_eq_bind, Option.bind_eq_some_iff] at h
  obtain ⟨text, hquote, ⟨m, behind⟩, hread, key', hutf8, heq⟩ := h
  obtain ⟨rfl, rfl⟩ := Prod.mk.inj (Option.some.inj heq)
  obtain ⟨w, hw, rfl⟩ := exists_of_expect hquote
  obtain ⟨s, rfl, hs⟩ := spelling_of_read hread
  exact ⟨w, s, hw, rfl, by rwa [fromUtf8_eq_some.mp hutf8]⟩

/-- The item texts of an array make its body. -/
lemma items_of_rawItems : ∀ (fuel : ℕ) {bytes rest : Bytes} {raws : List Bytes}
    {items : List Json}, rawItems fuel bytes = (raws, some rest) →
      List.Forall₂ Text raws items → ∃ body, bytes = body ++ 93 :: rest ∧ Items body items
  | 0, _, _, _, _, h, _ => by cases h
  | fuel + 1, bytes, rest, raws, items, h, hitems => by
      rw [rawItems] at h
      cases hraw : rawValue bytes with
      | none =>
        rw [hraw] at h
        cases h
      | some found =>
        obtain ⟨raw, behind⟩ := found
        obtain ⟨w, hw, rfl⟩ := exists_of_rawValue hraw
        rw [hraw] at h
        dsimp only at h
        cases hcomma : expect 44 behind with
        | none =>
          rw [hcomma] at h
          obtain ⟨rfl, hclose⟩ := Prod.mk.inj h
          obtain ⟨w', hw', rfl⟩ := exists_of_expect hclose
          obtain ⟨item, _, htext, hnil, rfl⟩ := List.forall₂_cons_left_iff.mp hitems
          obtain rfl := List.forall₂_nil_left_iff.mp hnil
          exact ⟨w ++ (raw ++ w'), by simp, .last (htext.pad hw hw')⟩
        | some more =>
          rw [hcomma] at h
          obtain ⟨rfl, hrest⟩ := Prod.mk.inj h
          obtain ⟨w', hw', rfl⟩ := exists_of_expect hcomma
          obtain ⟨item, items', htext, hmore, rfl⟩ := List.forall₂_cons_left_iff.mp hitems
          obtain ⟨body, rfl, hbody⟩ :=
            items_of_rawItems fuel (Prod.ext rfl hrest : rawItems fuel more = (_, some rest)) hmore
          exact ⟨w ++ (raw ++ w') ++ 44 :: body, by simp, .more (htext.pad hw hw') hbody⟩

/-- The member texts of an object make its body. -/
lemma members_of_rawMembers : ∀ (fuel : ℕ) {bytes rest : Bytes}
    {raws : List (String × Option Bytes)} {fields : List (String × Json)},
    rawMembers fuel bytes = (raws, some rest) → List.Forall₂ (Found Text) raws fields →
      ∃ body, bytes = body ++ 125 :: rest ∧ Members body fields
  | 0, _, _, _, _, h, _ => by cases h
  | fuel + 1, bytes, rest, raws, fields, h, hfields => by
      rw [rawMembers] at h
      cases hkey : readKey bytes with
      | none =>
        rw [hkey] at h
        cases h
      | some found =>
        obtain ⟨key, colon⟩ := found
        obtain ⟨w, s, hw, rfl, hs⟩ := exists_of_readKey hkey
        rw [hkey] at h
        dsimp only at h
        cases hvalue : (expect 58 colon).bind rawValue with
        | none =>
          rw [hvalue] at h
          cases h
        | some found =>
          obtain ⟨raw, behind⟩ := found
          obtain ⟨value, hcolon, hraw⟩ := Option.bind_eq_some_iff.mp hvalue
          obtain ⟨w', hw', rfl⟩ := exists_of_expect hcolon
          obtain ⟨u, hu, rfl⟩ := exists_of_rawValue hraw
          have hkeyText : KeyText (w ++ 34 :: (s ++ 34 :: w')) key :=
            ⟨w, s, w', rfl, hw, hw', hs⟩
          rw [hvalue] at h
          dsimp only at h
          cases hcomma : expect 44 behind with
          | none =>
            rw [hcomma] at h
            obtain ⟨rfl, hclose⟩ := Prod.mk.inj h
            obtain ⟨u', hu', rfl⟩ := exists_of_expect hclose
            obtain ⟨⟨key', item⟩, _, hfound, hnil, rfl⟩ := List.forall₂_cons_left_iff.mp hfields
            obtain rfl := List.forall₂_nil_left_iff.mp hnil
            obtain ⟨rfl, t, ht, htext⟩ := hfound
            obtain rfl := Option.some.inj ht
            exact ⟨_, by simp, .last hkeyText (htext.pad hu hu')⟩
          | some more =>
            rw [hcomma] at h
            obtain ⟨rfl, hrest⟩ := Prod.mk.inj h
            obtain ⟨u', hu', rfl⟩ := exists_of_expect hcomma
            obtain ⟨⟨key', item⟩, fields', hfound, hmore, rfl⟩ :=
              List.forall₂_cons_left_iff.mp hfields
            obtain ⟨rfl, t, ht, htext⟩ := hfound
            obtain rfl := Option.some.inj ht
            obtain ⟨body, rfl, hbody⟩ := members_of_rawMembers fuel
              (Prod.ext rfl hrest : rawMembers fuel more = (_, some rest)) hmore
            exact ⟨_, by simp, .more hkeyText (htext.pad hu hu') hbody⟩

/-- An array whose item texts say its items. -/
lemma text_of_rawArray {w w' body : Bytes} {items : List Json} (hw : Space w) (hw' : Space w')
    (hitems : List.Forall₂ Text (rawArray body).1 items) (hrest : (rawArray body).2 = some w') :
    Text (w ++ 91 :: body) (.array items) := by
  rw [rawArray] at hitems hrest
  cases hclose : expect 93 body with
  | some behind =>
    rw [hclose] at hitems hrest
    obtain rfl := Option.some.inj hrest
    obtain rfl := List.forall₂_nil_left_iff.mp hitems
    obtain ⟨u, hu, rfl⟩ := exists_of_expect hclose
    have htext := Text.around hw (.noItems hu) hw'
    simpa only [List.cons_append, List.append_assoc, List.nil_append] using htext
  | none =>
    rw [hclose] at hitems hrest
    obtain ⟨inner, rfl, hinner⟩ := items_of_rawItems body.length (Prod.ext rfl hrest) hitems
    have htext := Text.around hw (.array hinner) hw'
    simpa only [List.cons_append, List.append_assoc, List.nil_append] using htext

/-- An object whose member texts say its members. -/
lemma text_of_rawObject {w w' body : Bytes} {fields : List (String × Json)} (hw : Space w)
    (hw' : Space w') (hfields : List.Forall₂ (Found Text) (rawObject body).1 fields)
    (hrest : (rawObject body).2 = some w') : Text (w ++ 123 :: body) (.object fields) := by
  rw [rawObject] at hfields hrest
  cases hclose : expect 125 body with
  | some behind =>
    rw [hclose] at hfields hrest
    obtain rfl := Option.some.inj hrest
    obtain rfl := List.forall₂_nil_left_iff.mp hfields
    obtain ⟨u, hu, rfl⟩ := exists_of_expect hclose
    have htext := Text.around hw (.noMembers hu) hw'
    simpa only [List.cons_append, List.append_assoc, List.nil_append] using htext
  | none =>
    rw [hclose] at hfields hrest
    obtain ⟨inner, rfl, hinner⟩ := members_of_rawMembers body.length (Prod.ext rfl hrest) hfields
    have htext := Text.around hw (.object hinner) hw'
    simpa only [List.cons_append, List.append_assoc, List.nil_append] using htext

end Texts

/-! ## Values -/

variable {finite : String → Bool}

lemma space_of_ended {behind : Option Bytes} (h : ended behind = .ok ()) :
    ∃ w, behind = some w ∧ Space w := by
  cases behind with
  | none => cases h
  | some w =>
    rw [ended, reject] at h
    split_ifs at h with hskip
    exact ⟨w, rfl, skipSpace_eq_nil.mp (not_not.mp hskip)⟩

/-- A word up to the end is the word. -/
lemma text_of_word {word bytes : Bytes} {v : Json} (hvalue : Value word v) {w : Bytes}
    (hw : Space w) (h : ended (ignoreWord word bytes) = .ok ()) : Text (w ++ bytes) v := by
  obtain ⟨w', hscan, hw'⟩ := space_of_ended h
  rw [ignoreWord] at hscan
  split_ifs at hscan with hprefix
  obtain ⟨tail, rfl⟩ := hprefix
  rw [List.drop_left] at hscan
  rw [Option.some.inj hscan]
  exact .around hw hvalue hw'

lemma number_of_numberOf {t : Bytes} {v : Json} (ht : NumberText t)
    (h : numberOf finite t = .ok v) :
    ∃ text, v = .number text ∧ utf8 text = t ∧ readable finite v = true := by
  rw [numberOf] at h
  cases hutf8 : fromUtf8 t with
  | none =>
    rw [hutf8] at h
    cases h
  | some text =>
    rw [hutf8] at h
    have htext := fromUtf8_eq_some.mp hutf8
    obtain ⟨_, hfinite, hv⟩ := bind_eq_ok.mp h
    obtain rfl := Except.ok.inj hv
    rw [reject] at hfinite
    split_ifs at hfinite with hno
    refine ⟨text, rfl, htext, ?_⟩
    have hnumber : isNumber text = true := isNumber_iff.mpr (by rwa [htext])
    cases hfloat : isFloat text with
    | false => simp [readable, hnumber, hfloat]
    | true =>
      have hfinite : finite text = true := by
        by_contra hfin
        exact hno ⟨hfloat, hfin⟩
      simp [readable, hnumber, hfinite]

/-- What is known of a value that was read, so many levels deep at most: the text says it, its
numbers are finite, no key repeats, and it is not too deep. -/
structure Admitted (finite : String → Bool) (levels : ℕ) (t : Bytes) (v : Json) : Prop where
  text : Text t v
  readable : readable finite v = true
  depth : v.depth ≤ levels

/-- **A scalar is admitted.** -/
lemma admitted_of_scalar {t : Bytes} {v : Json} (h : scalar finite t = .ok v) (levels : ℕ) :
    Admitted finite (levels + 1) t v ∧ v.nodes = 1 := by
  obtain ⟨w, hw, ht⟩ := exists_space t
  rw [scalar] at h
  cases hskip : skipSpace t with
  | nil =>
    rw [hskip] at h
    cases h
  | cons b body =>
    rw [hskip] at h ht
    dsimp only at h
    rw [ht]
    by_cases hquote : b = 34
    · rw [if_pos hquote] at h
      cases hread : readString body with
      | none =>
        rw [hread] at h
        cases h
      | some found =>
        obtain ⟨m, rest⟩ := found
        rw [hread] at h
        dsimp only at h
        cases hutf8 : fromUtf8 m with
        | none =>
          rw [hutf8] at h
          cases h
        | some text =>
          rw [hutf8] at h
          obtain ⟨_, hended, hv⟩ := bind_eq_ok.mp h
          obtain rfl := Except.ok.inj hv
          obtain ⟨w', hrest, hw'⟩ := space_of_ended hended
          obtain rfl := Option.some.inj hrest
          obtain ⟨s, rfl, hs⟩ := spelling_of_read hread
          have htext : Text (w ++ (34 :: (s ++ [34]) ++ rest)) (.string text) :=
            .around hw (.string (by rwa [fromUtf8_eq_some.mp hutf8])) hw'
          simp only [List.cons_append, List.append_assoc, List.nil_append] at htext
          rw [hquote]
          exact ⟨⟨htext, rfl, Nat.succ_pos _⟩, rfl⟩
    · rw [if_neg hquote] at h
      by_cases hdigit : b = 45 ∨ isDigit b = true
      · rw [if_pos hdigit] at h
        cases hscan : ignoreNumber (b :: body) with
        | none =>
          rw [hscan] at h
          cases h
        | some rest =>
          rw [hscan] at h
          obtain ⟨_, hended, hnumber⟩ := bind_eq_ok.mp h
          obtain ⟨w', hrest, hw'⟩ := space_of_ended hended
          obtain rfl := Option.some.inj hrest
          obtain ⟨u, hu, hnumberText⟩ := number_of_ignore hscan
          rw [← List.length_cons (a := b), hu, List.length_append, Nat.add_sub_cancel,
            List.take_left] at hnumber
          obtain ⟨text, rfl, rfl, hreadable⟩ := number_of_numberOf hnumberText hnumber
          rw [hu]
          exact ⟨⟨.around hw (.number hnumberText) hw', hreadable, Nat.succ_pos _⟩, rfl⟩
      · rw [if_neg hdigit] at h
        split_ifs at h with htrue hfalse
        · obtain ⟨_, hended, hv⟩ := bind_eq_ok.mp h
          obtain rfl := Except.ok.inj hv
          exact ⟨⟨text_of_word .yes hw hended, rfl, Nat.succ_pos _⟩, rfl⟩
        · obtain ⟨_, hended, hv⟩ := bind_eq_ok.mp h
          obtain rfl := Except.ok.inj hv
          exact ⟨⟨text_of_word .no hw hended, rfl, Nat.succ_pos _⟩, rfl⟩
        · obtain ⟨_, hended, hv⟩ := bind_eq_ok.mp h
          obtain rfl := Except.ok.inj hv
          exact ⟨⟨text_of_word .null hw hended, rfl, Nat.succ_pos _⟩, rfl⟩

lemma remaining_of_consume {remaining left : ℕ} (h : consume remaining = .ok left) :
    remaining = left + 1 := by
  rw [consume] at h
  split_ifs at h with hzero
  have hleft := Except.ok.inj h
  omega

section Containers

variable {read : Bytes → ℕ → Except Error (Json × ℕ)} {levels : ℕ}
  (hread : ∀ {t : Bytes} {v : Json} {remaining left : ℕ}, read t remaining = .ok (v, left) →
    Admitted finite levels t v ∧ remaining = left + v.nodes)
include hread

/-- Items are admitted, each on its own. -/
lemma admitted_of_readItems {raws : List Bytes} {items : List Json} {remaining left : ℕ}
    (h : readItems read raws remaining = .ok (items, left)) :
    List.Forall₂ Text raws items ∧ Json.readableItems finite items = true ∧
      Json.depthItems items ≤ levels ∧ remaining = left + Json.nodesItems items := by
  induction raws generalizing items remaining left with
  | nil =>
    obtain ⟨rfl, rfl⟩ := Prod.mk.inj (Except.ok.inj h)
    exact ⟨.nil, rfl, Nat.zero_le _, rfl⟩
  | cons raw raws ih =>
    rw [readItems] at h
    obtain ⟨⟨item, behind⟩, hitem, h⟩ := bind_eq_ok.mp h
    obtain ⟨⟨more, left'⟩, hmore, h⟩ := bind_eq_ok.mp h
    obtain ⟨rfl, rfl⟩ := Prod.mk.inj (Except.ok.inj h)
    obtain ⟨hadmitted, hnodes⟩ := hread hitem
    obtain ⟨htexts, hreadable, hdepth, hrest⟩ := ih hmore
    refine ⟨.cons hadmitted.text htexts, ?_, ?_, ?_⟩
    · rw [Json.readableItems, hadmitted.readable, hreadable]
      rfl
    · rw [Json.depthItems]
      exact max_le hadmitted.depth hdepth
    · rw [Json.nodesItems]
      omega

/-- Members are admitted, each on its own, and no key is one seen before. -/
lemma admitted_of_readMembers {raws : List (String × Option Bytes)} {seen : List String}
    {fields : List (String × Json)} {remaining left : ℕ}
    (h : readMembers read seen raws remaining = .ok (fields, left)) :
    List.Forall₂ (Found Text) raws fields ∧ Json.readableFields finite fields = true ∧
      (fields.map (·.1)).Nodup ∧ (∀ key ∈ fields.map (·.1), key ∉ seen) ∧
        Json.depthFields fields ≤ levels ∧ remaining = left + Json.nodesFields fields := by
  induction raws generalizing seen fields remaining left with
  | nil =>
    obtain ⟨rfl, rfl⟩ := Prod.mk.inj (Except.ok.inj h)
    exact ⟨.nil, rfl, List.nodup_nil, by simp, Nat.zero_le _, rfl⟩
  | cons member raws ih =>
    obtain ⟨key, raw⟩ := member
    rw [readMembers] at h
    obtain ⟨consumed, hconsume, h⟩ := bind_eq_ok.mp h
    obtain ⟨_, hseen, h⟩ := bind_eq_ok.mp h
    obtain ⟨text, hpresent, h⟩ := bind_eq_ok.mp h
    obtain ⟨⟨item, behind⟩, hitem, h⟩ := bind_eq_ok.mp h
    obtain ⟨⟨more, left'⟩, hmore, h⟩ := bind_eq_ok.mp h
    obtain ⟨rfl, rfl⟩ := Prod.mk.inj (Except.ok.inj h)
    obtain ⟨hadmitted, hnodes⟩ := hread hitem
    obtain ⟨hfound, hreadable, hnodup, hnew, hdepth, hrest⟩ := ih hmore
    have hbudget := remaining_of_consume hconsume
    have hraw : raw = some text := by
      cases raw with
      | none => cases hpresent
      | some raw => rw [Except.ok.inj hpresent]
    rw [reject] at hseen
    split_ifs at hseen with hmem
    refine ⟨.cons ⟨rfl, text, hraw, hadmitted.text⟩ hfound, ?_, ?_, ?_, ?_, ?_⟩
    · rw [Json.readableFields, hadmitted.readable, hreadable]
      rfl
    · rw [List.map_cons, List.nodup_cons]
      exact ⟨fun h => hnew key h (by simp), hnodup⟩
    · intro other hother hin
      rcases List.mem_cons.mp hother with rfl | hother
      · exact hmem hin
      · exact hnew other hother (List.mem_cons_of_mem _ hin)
    · rw [Json.depthFields]
      exact max_le hadmitted.depth hdepth
    · rw [Json.nodesFields]
      omega

end Containers

/-- **What is read is admitted**, and used up its nodes. -/
theorem admitted_of_value : ∀ (levels : ℕ) {t : Bytes} {v : Json} {remaining left : ℕ},
    value finite levels t remaining = .ok (v, left) →
      Admitted finite levels t v ∧ remaining = left + v.nodes
  | 0, _, _, _, _, h => by
      obtain ⟨_, -, h⟩ := bind_eq_ok.mp h
      cases h
  | levels + 1, t, v, remaining, left, h => by
      obtain ⟨w, hw, ht⟩ := exists_space t
      rw [value] at h
      obtain ⟨consumed, hconsume, h⟩ := bind_eq_ok.mp h
      have hbudget := remaining_of_consume hconsume
      cases hskip : skipSpace t with
      | nil =>
        rw [hskip] at h
        cases h
      | cons b body =>
        rw [hskip] at h ht
        dsimp only at h
        by_cases hbrace : b = 123
        · rw [if_pos hbrace] at h
          obtain ⟨⟨fields, behind⟩, hmembers, h⟩ := bind_eq_ok.mp h
          obtain ⟨_, hended, h⟩ := bind_eq_ok.mp h
          obtain ⟨rfl, rfl⟩ := Prod.mk.inj (Except.ok.inj h)
          obtain ⟨w', hrest, hw'⟩ := space_of_ended hended
          obtain ⟨hfound, hreadable, hnodup, -, hdepth, hnodes⟩ :=
            admitted_of_readMembers (fun h => admitted_of_value levels h) hmembers
          have htext : Text t (.object fields) := by
            rw [ht, hbrace]
            exact text_of_rawObject hw hw' hfound hrest
          refine ⟨⟨htext, ?_, ?_⟩, ?_⟩
          · rw [readable, hreadable, decide_eq_true hnodup]
            rfl
          · rw [Json.depth]
            exact Nat.succ_le_succ hdepth
          · simp only [Json.nodes]
            omega
        · rw [if_neg hbrace] at h
          by_cases hbracket : b = 91
          · rw [if_pos hbracket] at h
            obtain ⟨⟨items, behind⟩, hitems, h⟩ := bind_eq_ok.mp h
            obtain ⟨_, hended, h⟩ := bind_eq_ok.mp h
            obtain ⟨rfl, rfl⟩ := Prod.mk.inj (Except.ok.inj h)
            obtain ⟨w', hrest, hw'⟩ := space_of_ended hended
            obtain ⟨htexts, hreadable, hdepth, hnodes⟩ :=
              admitted_of_readItems (fun h => admitted_of_value levels h) hitems
            have htext : Text t (.array items) := by
              rw [ht, hbracket]
              exact text_of_rawArray hw hw' htexts hrest
            refine ⟨⟨htext, hreadable, ?_⟩, ?_⟩
            · rw [Json.depth]
              exact Nat.succ_le_succ hdepth
            · simp only [Json.nodes]
              omega
          · rw [if_neg hbracket] at h
            obtain ⟨result, hscalar, h⟩ := bind_eq_ok.mp h
            obtain ⟨rfl, rfl⟩ := Prod.mk.inj (Except.ok.inj h)
            obtain ⟨hadmitted, hnodes⟩ := admitted_of_scalar hscalar levels
            exact ⟨hadmitted, by rw [hnodes]; exact hbudget⟩

/-! ## One reading -/

/-- The constructor of a value, as its first byte tells it. -/
def kind : Json → ℕ
  | .null => 0
  | .bool false => 1
  | .bool true => 2
  | .number _ => 3
  | .string _ => 4
  | .array _ => 5
  | .object _ => 6

def kindOfByte (b : UInt8) : ℕ :=
  if b = 110 then 0 else if b = 102 then 1 else if b = 116 then 2
  else if b = 34 then 4 else if b = 91 then 5 else if b = 123 then 6 else 3

lemma kind_of_value {t : Bytes} {v : Json} (h : Value t v) :
    ∃ b tail, t = b :: tail ∧ kindOfByte b = kind v := by
  cases h with
  | null => exact ⟨110, [117, 108, 108], by decide, rfl⟩
  | yes => exact ⟨116, [114, 117, 101], by decide, rfl⟩
  | no => exact ⟨102, [97, 108, 115, 101], by decide, rfl⟩
  | number hnumber =>
    obtain ⟨b, tail, hbytes, hb⟩ := hnumber.head
    have hall : ∀ n < 256, (UInt8.ofNat n = 45 ∨ isDigit (UInt8.ofNat n) = true) →
        kindOfByte (UInt8.ofNat n) = 3 := by decide +kernel
    have hkind := hall b.toNat b.toNat_lt
    rw [UInt8.ofNat_toNat] at hkind
    exact ⟨b, tail, hbytes, hkind hb⟩
  | string => exact ⟨34, _, rfl, rfl⟩
  | noItems => exact ⟨91, _, rfl, rfl⟩
  | array => exact ⟨91, _, rfl, rfl⟩
  | noMembers => exact ⟨123, _, rfl, rfl⟩
  | object => exact ⟨123, _, rfl, rfl⟩

/-- What the reader finds in a value that is none of the words. -/
def Inside (t : Bytes) : Json → Prop
  | .number text => utf8 text = t
  | .string text => readString (t.drop 1) = some (utf8 text, [])
  | .array items => ∃ raws, rawArray (t.drop 1) = (raws, some []) ∧ List.Forall₂ Value raws items
  | .object fields =>
      ∃ raws, rawObject (t.drop 1) = (raws, some []) ∧ List.Forall₂ (Found Value) raws fields
  | _ => True

lemma inside_of_value {t : Bytes} {v : Json} (h : Value t v) : Inside t v := by
  cases h with
  | null => trivial
  | yes => trivial
  | no => trivial
  | number => exact rfl
  | string hs => exact hs.read []
  | noItems hw =>
    refine ⟨[], ?_, .nil⟩
    change rawArray (_ ++ [93]) = _
    rw [rawArray, expect_space hw, expect_cons (by decide)]
  | @array body items hitems =>
    obtain ⟨raws, hraws, hvalues⟩ := rawItems_of_items hitems (body ++ [93]).length [] (by simp)
    refine ⟨raws, ?_, hvalues⟩
    change rawArray (body ++ [93]) = _
    rw [rawArray, hitems.expect_none]
    exact hraws
  | noMembers hw =>
    refine ⟨[], ?_, .nil⟩
    change rawObject (_ ++ [125]) = _
    rw [rawObject, expect_space hw, expect_cons (by decide)]
  | @object body fields hmembers =>
    obtain ⟨raws, hraws, hfound⟩ :=
      rawMembers_of_members hmembers (body ++ [125]).length [] (by simp)
    refine ⟨raws, ?_, hfound⟩
    change rawObject (body ++ [125]) = _
    rw [rawObject, hmembers.expect_none]
    exact hraws

lemma kind_eq {t : Bytes} {v v' : Json} (h : Value t v) (h' : Value t v') : kind v = kind v' := by
  obtain ⟨b, tail, ht, hkind⟩ := kind_of_value h
  obtain ⟨b', tail', ht', hkind'⟩ := kind_of_value h'
  obtain ⟨rfl, -⟩ := List.cons.inj (ht.symm.trans ht')
  exact hkind.symm.trans hkind'

mutual

/-- **A text has one reading.** -/
theorem value_unique : ∀ (v : Json) {t : Bytes} {v' : Json}, Value t v → Value t v' → v = v'
  | .null, _, v', h, h' => by
      have hkind := kind_eq h h'
      cases v' with
      | null => rfl
      | bool b => cases b <;> simp [kind] at hkind
      | _ => simp [kind] at hkind
  | .bool b, _, v', h, h' => by
      have hkind := kind_eq h h'
      cases v' with
      | bool b' => cases b <;> cases b' <;> simp [kind] at hkind ⊢
      | _ => cases b <;> simp [kind] at hkind
  | .number text, _, v', h, h' => by
      have hkind := kind_eq h h'
      cases v' with
      | number text' =>
        have hin : utf8 text = _ := inside_of_value h
        have hin' : utf8 text' = _ := inside_of_value h'
        rw [utf8_injective (hin.trans hin'.symm)]
      | bool b => cases b <;> simp [kind] at hkind
      | _ => simp [kind] at hkind
  | .string text, _, v', h, h' => by
      have hkind := kind_eq h h'
      cases v' with
      | string text' =>
        have hin : readString _ = some (utf8 text, []) := inside_of_value h
        have hin' : readString _ = some (utf8 text', []) := inside_of_value h'
        obtain ⟨hutf8, -⟩ := Prod.mk.inj (Option.some.inj (hin.symm.trans hin'))
        rw [utf8_injective hutf8]
      | bool b => cases b <;> simp [kind] at hkind
      | _ => simp [kind] at hkind
  | .array items, _, v', h, h' => by
      have hkind := kind_eq h h'
      cases v' with
      | array items' =>
        obtain ⟨raws, hraws, hvalues⟩ := inside_of_value h
        obtain ⟨raws', hraws', hvalues'⟩ := inside_of_value h'
        obtain ⟨rfl, -⟩ := Prod.mk.inj (hraws.symm.trans hraws')
        rw [items_unique items hvalues hvalues']
      | bool b => cases b <;> simp [kind] at hkind
      | _ => simp [kind] at hkind
  | .object fields, _, v', h, h' => by
      have hkind := kind_eq h h'
      cases v' with
      | object fields' =>
        obtain ⟨raws, hraws, hfound⟩ := inside_of_value h
        obtain ⟨raws', hraws', hfound'⟩ := inside_of_value h'
        obtain ⟨rfl, -⟩ := Prod.mk.inj (hraws.symm.trans hraws')
        rw [fields_unique fields hfound hfound']
      | bool b => cases b <;> simp [kind] at hkind
      | _ => simp [kind] at hkind

lemma items_unique : ∀ (items : List Json) {raws : List Bytes} {items' : List Json},
    List.Forall₂ Value raws items → List.Forall₂ Value raws items' → items = items'
  | [], _, _, .nil, h' => (List.forall₂_nil_left_iff.mp h').symm
  | item :: items, _, _, .cons hvalue hvalues, h' => by
      obtain ⟨item', items', hvalue', hvalues', rfl⟩ := List.forall₂_cons_left_iff.mp h'
      rw [value_unique item hvalue hvalue', items_unique items hvalues hvalues']

lemma fields_unique : ∀ (fields : List (String × Json)) {raws : List (String × Option Bytes)}
    {fields' : List (String × Json)}, List.Forall₂ (Found Value) raws fields →
      List.Forall₂ (Found Value) raws fields' → fields = fields'
  | [], _, _, .nil, h' => (List.forall₂_nil_left_iff.mp h').symm
  | (key, item) :: fields, _, _, .cons hfound hmore, h' => by
      obtain ⟨⟨key', item'⟩, fields', hfound', hmore', rfl⟩ := List.forall₂_cons_left_iff.mp h'
      obtain ⟨hkey, t, ht, hvalue⟩ := hfound
      obtain ⟨hkey', t', ht', hvalue'⟩ := hfound'
      obtain rfl := Option.some.inj (ht.symm.trans ht')
      obtain rfl : key = key' := hkey.symm.trans hkey'
      rw [value_unique item hvalue hvalue', fields_unique fields hmore hmore']

end

/-- Whitespace around a value does not change its reading. -/
theorem text_unique {t : Bytes} {v v' : Json} (h : Text t v) (h' : Text t v') : v = v' := by
  obtain ⟨raw, w, hraw, -, hvalue⟩ := @rawValue_of_text t [] v h rfl
  obtain ⟨raw', w', hraw', -, hvalue'⟩ := @rawValue_of_text t [] v' h' rfl
  obtain ⟨rfl, -⟩ := Prod.mk.inj (Option.some.inj (hraw.symm.trans hraw'))
  exact value_unique v hvalue hvalue'

/-! ## One object -/

lemma parse_iff {bytes : Bytes} {remaining : ℕ} {fields : Fields} :
    parse finite bytes remaining = .ok fields ↔
      IsText bytes ∧ Admitted finite (MAX_DEPTH + 1) bytes (.object fields) ∧
        (Json.object fields).nodes ≤ remaining := by
  constructor
  · intro h
    rw [parse] at h
    obtain ⟨_, hutf8, h⟩ := bind_eq_ok.mp h
    obtain ⟨⟨v, left⟩, hvalue, h⟩ := bind_eq_ok.mp h
    obtain ⟨hadmitted, hnodes⟩ := admitted_of_value _ hvalue
    rw [reject] at hutf8
    split_ifs at hutf8 with hnone
    obtain ⟨text, htext⟩ := Option.ne_none_iff_exists'.mp hnone
    cases v with
    | object found =>
      obtain rfl := Except.ok.inj h
      exact ⟨⟨text, fromUtf8_eq_some.mp htext⟩, hadmitted, by omega⟩
    | _ => cases h
  · rintro ⟨⟨text, rfl⟩, hadmitted, hnodes⟩
    have hvalue := value_of_text (MAX_DEPTH + 1) remaining hadmitted.text hadmitted.readable
      hadmitted.depth hnodes
    rw [parse, fromUtf8_utf8, reject, if_neg (by simp), ok_bind, hvalue, ok_bind]

/-- **Strict admission is exact.** An object is returned for a text exactly when the text says that
object and nothing behind it, its numbers are finite, no key repeats at any depth, what is inside
nests 64 levels at most, and the budget is kept; what the service wrote itself has no budget, since
no text has more nodes than bytes. -/
theorem mapping_exact (finite : String → Bool) (bytes : Bytes) (fields : Fields) :
    (mapping finite bytes = .ok fields ↔
      IsText bytes ∧ Text bytes (.object fields) ∧ readable finite (.object fields) = true ∧
        Json.depthFields fields ≤ MAX_DEPTH ∧ (Json.object fields).nodes ≤ MAX_NODES) ∧
    (bytes.length < 2 ^ 64 → (ownMapping finite bytes = .ok fields ↔
      IsText bytes ∧ Text bytes (.object fields) ∧ readable finite (.object fields) = true ∧
        Json.depthFields fields ≤ MAX_DEPTH)) := by
  refine ⟨?_, fun hlength => ?_⟩
  · rw [mapping, parse_iff]
    constructor
    · rintro ⟨hutf8, ⟨htext, hreadable, hdepth⟩, hnodes⟩
      exact ⟨hutf8, htext, hreadable, Nat.le_of_succ_le_succ hdepth, hnodes⟩
    · rintro ⟨hutf8, htext, hreadable, hdepth, hnodes⟩
      exact ⟨hutf8, ⟨htext, hreadable, Nat.succ_le_succ hdepth⟩, hnodes⟩
  · rw [ownMapping, parse_iff]
    constructor
    · rintro ⟨hutf8, ⟨htext, hreadable, hdepth⟩, -⟩
      exact ⟨hutf8, htext, hreadable, Nat.le_of_succ_le_succ hdepth⟩
    · rintro ⟨hutf8, htext, hreadable, hdepth⟩
      have hnodes := nodes_le_of_text htext
      exact ⟨hutf8, ⟨htext, hreadable, Nat.succ_le_succ hdepth⟩, by omega⟩

end Reader

end ExperimentControl
