import ExperimentControl.Library.Lines
import ExperimentControl.Library.Text
import Mathlib

/-!
# Rows of separated fields

Texts as a program reads them that prints tables: lines, fields between separators, and what is left
of a text without the white space around it.

* `lines`, `split`, `join` — the cuts, with **`split_join`**: fields without the separator are read
  back.
* `trim`, `firstWord`, `trimEndMatches` — a text without what stands around it.
-/

namespace ExperimentControl

/-! ## White space -/

/-- `char::is_whitespace`: the Unicode property White_Space. -/
def isWhitespace (c : Char) : Bool :=
  9 ≤ c.toNat ∧ c.toNat ≤ 13 ∨ c.toNat ∈ [32, 133, 160, 5760, 8232, 8233, 8239, 8287, 12288] ∨
    8192 ≤ c.toNat ∧ c.toNat ≤ 8202

/-- `str::trim`. -/
def trim (text : String) : String :=
  String.ofList ((text.toList.dropWhile isWhitespace).rdropWhile isWhitespace)

/-- `split_whitespace().next()`: the first word, or nothing. -/
def firstWord (text : String) : String :=
  String.ofList ((text.toList.dropWhile isWhitespace).takeWhile fun c => !isWhitespace c)

/-- `split_whitespace`: the words of a text. -/
def splitWhitespace (text : String) : List String :=
  ((text.toList.splitOnP isWhitespace).filter fun word => word ≠ []).map String.ofList

/-- `trim_end_matches`: without these characters at the end. -/
def trimEndMatches (mark : Char) (text : String) : String :=
  String.ofList (text.toList.rdropWhile (· = mark))

lemma dropWhile_eq_self {α : Type*} {p : α → Bool} {xs : List α} (h : ∀ x ∈ xs, p x = false) :
    xs.dropWhile p = xs := by
  cases xs with
  | nil => rfl
  | cons x xs => rw [List.dropWhile_cons_of_neg (by simp [h x])]

/-- Trimming twice is trimming once. -/
lemma trim_trim (text : String) : trim (trim text) = trim text := by
  unfold trim
  rw [String.toList_ofList]
  generalize hfront : text.toList.dropWhile isWhitespace = front
  have hhead : (front.rdropWhile isWhitespace).dropWhile isWhitespace =
      front.rdropWhile isWhitespace := by
    rw [List.dropWhile_eq_self_iff]
    intro hpos hspace
    have hstarts := List.rdropWhile_prefix isWhitespace (l := front)
    have hne : front ≠ [] := by
      rintro rfl
      simp at hpos
    have hfirst := List.head_dropWhile_not isWhitespace (l := text.toList)
      (by rw [hfront]; exact hne)
    rw [hstarts.getElem hpos, ← List.head_eq_getElem hne] at hspace
    simp only [hfront] at hfirst
    rw [hspace] at hfirst
    cases hfirst
  rw [hhead, List.rdropWhile_idempotent]

lemma mem_of_mem_trim {text : String} {c : Char} (h : c ∈ (trim text).toList) : c ∈ text.toList := by
  rw [trim, String.toList_ofList] at h
  exact (List.dropWhile_suffix _).subset ((List.rdropWhile_prefix _ _).subset h)

/-- A text with more than white space is not trimmed away. -/
lemma trim_ne_empty {text : String} {c : Char} (hmem : c ∈ text.toList)
    (hspace : isWhitespace c = false) : trim text ≠ "" := by
  intro hnone
  have hnil : (text.toList.dropWhile isWhitespace).rdropWhile isWhitespace = [] := by
    rw [← String.toList_inj, trim, String.toList_ofList] at hnone
    exact hnone
  rw [List.rdropWhile_eq_nil_iff] at hnil
  have hdrop : text.toList.dropWhile isWhitespace = [] := by
    by_contra hne
    have hhead := List.head_dropWhile_not isWhitespace hne
    rw [hnil _ (List.head_mem hne)] at hhead
    cases hhead
  rw [List.dropWhile_eq_nil_iff.mp hdrop c hmem] at hspace
  cases hspace

/-- A text without white space is its own first word. -/
lemma firstWord_eq_self {text : String} (h : ∀ c ∈ text.toList, isWhitespace c = false) :
    firstWord text = text := by
  rw [firstWord, dropWhile_eq_self h, List.takeWhile_eq_self_iff.mpr, String.ofList_toList]
  intro c hc
  rw [h c hc]
  rfl

lemma trimEndMatches_eq_self {mark : Char} {text : String} (h : mark ∉ text.toList) :
    trimEndMatches mark text = text := by
  rw [trimEndMatches, List.rdropWhile_eq_self_iff.mpr, String.ofList_toList]
  intro hne hlast
  exact h (of_decide_eq_true hlast ▸ List.getLast_mem hne)

/-! ## Lines -/

/-- `str::lines`: the lines without their ends, `\n` or `\r\n`. -/
def lines (text : String) : List String :=
  (linesOf '\n' text.toList).map fun line =>
    String.ofList (if line.getLast? = some '\n' then
      (if line.dropLast.getLast? = some '\r' then line.dropLast.dropLast else line.dropLast)
      else line)

lemma lines_single {text : String} (hnone : text ≠ "") (h : '\n' ∉ text.toList) :
    lines text = [text] := by
  have hchars : text.toList ≠ [] := fun hnil => hnone (String.toList_inj.mp hnil)
  have hlast : text.toList.getLast? ≠ some '\n' := by
    intro hsome
    exact h (List.mem_of_getLast? hsome)
  rw [lines, linesOf_unterminated h, if_neg hchars, List.map_singleton, if_neg hlast,
    String.ofList_toList]

/-- The separator stands at the end of a line only. -/
lemma not_mem_linesOf {α : Type*} [DecidableEq α] {sep : α} {stream : List α} :
    ∀ line ∈ linesOf sep stream, sep ∉ line ∨ ∃ front, line = front ++ [sep] ∧ sep ∉ front := by
  induction stream with
  | nil => simp [linesOf]
  | cons b rest ih =>
    unfold linesOf
    by_cases hb : b = sep
    · subst hb
      rw [if_pos rfl]
      rintro line hline
      rcases List.mem_cons.mp hline with rfl | hline
      · exact Or.inr ⟨[], rfl, by simp⟩
      · exact ih line hline
    · rw [if_neg hb]
      cases hrest : linesOf sep rest with
      | nil =>
        rintro line hline
        obtain rfl := List.mem_singleton.mp hline
        exact Or.inl (by simpa using Ne.symm hb)
      | cons first others =>
        rw [hrest] at ih
        rintro line hline
        rcases List.mem_cons.mp hline with rfl | hline
        · rcases ih first (by simp) with hnone | ⟨front, rfl, hfront⟩
          · exact Or.inl (by simp [Ne.symm hb, hnone])
          · exact Or.inr ⟨b :: front, rfl, by simp [Ne.symm hb, hfront]⟩
        · exact ih line (by simp [hline])

/-- A line has no line end. -/
lemma not_newline_of_mem_lines {text line : String} (h : line ∈ lines text) :
    '\n' ∉ line.toList := by
  obtain ⟨chars, hchars, rfl⟩ := List.mem_map.mp h
  rw [String.toList_ofList]
  rcases not_mem_linesOf chars hchars with hnone | ⟨front, rfl, hfront⟩
  · rw [if_neg fun hlast => hnone (List.mem_of_getLast? hlast)]
    exact hnone
  · rw [if_pos (by simp), List.dropLast_concat]
    split_ifs
    · exact fun hmem => hfront (List.mem_of_mem_dropLast hmem)
    · exact hfront

/-! ## Fields -/

/-- `str::split` at a character. -/
def split (mark : Char) (text : String) : List String :=
  (text.toList.splitOn mark).map String.ofList

/-- `split_once`: what stands before the first separator, and behind it. -/
def splitOnce (mark : Char) (text : String) : Option (String × String) :=
  if mark ∈ text.toList then
    some (String.ofList (text.toList.takeWhile (· ≠ mark)),
      String.ofList ((text.toList.dropWhile (· ≠ mark)).drop 1))
  else none

/-- What stands before the first place where a text begins, and behind that text. -/
def splitAtText (mark : List Char) : List Char → Option (List Char × List Char)
  | [] => if mark = [] then some ([], []) else none
  | c :: rest =>
      if mark <+: c :: rest then some ([], (c :: rest).drop mark.length)
      else (splitAtText mark rest).map fun (first, second) => (c :: first, second)

/-- `split_once` at a text. -/
def splitOnceAt (mark text : String) : Option (String × String) :=
  (splitAtText mark.toList text.toList).map fun (first, second) =>
    (String.ofList first, String.ofList second)

/-- `join`: the fields with the separator between them. -/
def join (mark : Char) (fields : List String) : String :=
  String.ofList ([mark].intercalate (fields.map String.toList))

variable {mark : Char}

/-- **Fields without the separator are read back.** -/
theorem split_join {fields : List String} (hne : fields ≠ [])
    (h : ∀ field ∈ fields, mark ∉ field.toList) : split mark (join mark fields) = fields := by
  have hchars : ∀ chars ∈ fields.map String.toList, mark ∉ chars := by
    intro chars hmem
    obtain ⟨field, hfield, rfl⟩ := List.mem_map.mp hmem
    exact h field hfield
  have hsome : fields.map String.toList ≠ [] := fun hnil => hne (List.map_eq_nil_iff.mp hnil)
  rw [split, join, String.toList_ofList, List.splitOn_intercalate mark hchars hsome, List.map_map]
  have hsame : String.ofList ∘ String.toList = id := funext fun s => String.ofList_toList
  rw [hsame, List.map_id]

/-- Words are read back from the text that they are joined to. -/
lemma splitWhitespace_join {words : List String}
    (h : ∀ word ∈ words, word ≠ "" ∧ ∀ c ∈ word.toList, isWhitespace c = false) :
    splitWhitespace (join ' ' words) = words := by
  have hsplit : ∀ words : List String, words ≠ [] →
      (∀ word ∈ words, ∀ c ∈ word.toList, isWhitespace c = false) →
      ([' '].intercalate (words.map String.toList)).splitOnP isWhitespace =
        words.map String.toList := by
    intro words hne hwords
    induction words with
    | nil => exact absurd rfl hne
    | cons word words ih =>
      have hword := hwords word List.mem_cons_self
      cases words with
      | nil =>
        rw [List.map_singleton, List.intercalate_singleton]
        exact List.splitOnP_eq_singleton (by simpa using hword)
      | cons next words =>
        rw [List.map_cons, List.map_cons, List.intercalate_cons_cons, List.append_assoc,
          List.singleton_append,
          List.splitOnP_append_cons_of_forall_mem (by simpa using hword) _ (by decide)]
        exact congrArg _ (ih nofun fun other hother => hwords other (List.mem_cons_of_mem _ hother))
  by_cases hne : words = []
  · subst hne
    decide
  · rw [splitWhitespace, join, String.toList_ofList,
      hsplit words hne fun word hword => (h word hword).2, List.filter_eq_self.mpr, List.map_map]
    · have hsame : String.ofList ∘ String.toList = id := funext fun s => String.ofList_toList
      rw [hsame, List.map_id]
    · intro chars hchars
      obtain ⟨word, hword, rfl⟩ := List.mem_map.mp hchars
      exact decide_eq_true fun hnil => (h word hword).1 (String.toList_inj.mp hnil)

lemma splitAtText_append {front back : List Char} {c : Char} : ∀ {text : List Char}, c ∉ text →
    c ∉ front → splitAtText (front ++ c :: back) (text ++ (front ++ c :: back)) = some (text, [])
  | [], _, _ => by
      obtain ⟨first, rest, hmark⟩ := List.exists_cons_of_ne_nil (l := front ++ c :: back) (by simp)
      rw [List.nil_append, hmark, splitAtText, if_pos (List.prefix_refl _), List.drop_length]
  | x :: text, htext, hfront => by
      rw [List.cons_append, splitAtText, if_neg,
        splitAtText_append (fun h => htext (List.mem_cons_of_mem _ h)) hfront]
      · rfl
      · -- the mark's `c` would stand in the text or in the mark's own front
        intro hprefix
        have hplace : (x :: (text ++ (front ++ c :: back)))[front.length]? = some c := by
          rw [List.prefix_iff_getElem?.mp hprefix front.length (by simp)]
          simp
        have hmem : c ∈ (x :: text) ++ front := by
          rw [← List.cons_append, ← List.append_assoc, List.getElem?_append_left (by simp)] at hplace
          exact List.mem_of_getElem? hplace
        exact (List.mem_append.mp hmem).elim htext hfront

/-- A text before a mark is cut there where it does not have some character of the mark. -/
lemma splitOnceAt_append {text : String} {front back : List Char} (c : Char) (hfront : c ∉ front)
    (htext : c ∉ text.toList) :
    splitOnceAt (String.ofList (front ++ c :: back)) (text ++ String.ofList (front ++ c :: back)) =
      some (text, "") := by
  rw [splitOnceAt, String.toList_append, String.toList_ofList, splitAtText_append htext hfront,
    Option.map_some]
  exact congrArg (fun s => some (s, "")) String.ofList_toList

/-- Two lines are read back. -/
lemma lines_join_pair {first second : String} (hfirst : '\n' ∉ first.toList)
    (hlast : first.toList.getLast? ≠ some '\r') (hsecond : '\n' ∉ second.toList)
    (hsome : second ≠ "") : lines (join '\n' [first, second]) = [first, second] := by
  have hone := lines_single hsome hsecond
  have hchars : (join '\n' [first, second]).toList = first.toList ++ '\n' :: second.toList := by
    rw [join, String.toList_ofList]
    simp
  rw [lines] at hone
  rw [lines, hchars, linesOf_append_terminated hfirst, List.map_cons, hone]
  simp [hlast]

lemma not_mem_of_mem_splitOn {α : Type*} [DecidableEq α] {mark : α} {xs : List α} :
    ∀ part ∈ xs.splitOn mark, mark ∉ part := by
  induction xs with
  | nil => simp
  | cons x xs ih =>
    rw [List.splitOn_cons_eq_if_modifyHead]
    by_cases hx : x = mark
    · subst hx
      intro part hpart
      simp only [beq_self_eq_true, if_true, List.mem_cons] at hpart
      rcases hpart with rfl | hpart
      · simp
      · exact ih part hpart
    · rw [if_neg (by simpa using hx)]
      cases hparts : xs.splitOn mark with
      | nil => simp
      | cons first rest =>
        rw [hparts] at ih
        intro part hpart
        simp only [List.modifyHead_cons, List.mem_cons] at hpart
        rcases hpart with rfl | hpart
        · have hfirst := ih first (by simp)
          simp [Ne.symm hx, hfirst]
        · exact ih part (by simp [hpart])

/-- A field has no separator. -/
lemma not_mem_of_mem_split {text field : String} (h : field ∈ split mark text) :
    mark ∉ field.toList := by
  obtain ⟨chars, hchars, rfl⟩ := List.mem_map.mp h
  rw [String.toList_ofList]
  exact not_mem_of_mem_splitOn chars hchars

/-- What stands in a field stands in the text. -/
lemma mem_of_mem_split {text field : String} {c : Char} (h : field ∈ split mark text)
    (hc : c ∈ field.toList) : c ∈ text.toList := by
  obtain ⟨part, hpart, rfl⟩ := List.mem_map.mp h
  rw [String.toList_ofList] at hc
  have hjoin : ∀ parts : List (List Char), part ∈ parts → c ∈ [mark].intercalate parts := by
    intro parts hmem
    induction parts with
    | nil => cases hmem
    | cons first rest ih =>
      cases rest with
      | nil =>
        obtain rfl := List.mem_singleton.mp hmem
        simpa using hc
      | cons next rest =>
        rw [List.intercalate_cons_cons, List.mem_append, List.mem_append]
        rcases List.mem_cons.mp hmem with rfl | hmem
        · exact Or.inl (Or.inl hc)
        · exact Or.inr (ih hmem)
  have hmem := hjoin _ hpart
  rwa [List.intercalate_splitOn] at hmem

lemma splitOnce_eq_some {text first second : String} (h : splitOnce mark text = some (first, second)) :
    text.toList = first.toList ++ mark :: second.toList := by
  unfold splitOnce at h
  split_ifs at h with hmem
  obtain ⟨rfl, rfl⟩ := Prod.mk.inj (Option.some.inj h)
  rw [String.toList_ofList, String.toList_ofList]
  have hne : text.toList.dropWhile (· ≠ mark) ≠ [] := by
    rw [Ne, List.dropWhile_eq_nil_iff]
    intro hall
    simpa using hall mark hmem
  have hhead : (text.toList.dropWhile (· ≠ mark)).head hne = mark := by
    have hnot := List.head_dropWhile_not (· ≠ mark) hne
    simpa using hnot
  have htail : (text.toList.dropWhile (· ≠ mark)).drop 1 =
      (text.toList.dropWhile (· ≠ mark)).tail := List.drop_one
  have hsplit : mark :: (text.toList.dropWhile (· ≠ mark)).drop 1 =
      text.toList.dropWhile (· ≠ mark) := by
    rw [htail]
    exact (congrArg (· :: _) hhead.symm).trans (List.cons_head_tail hne)
  rw [hsplit, List.takeWhile_append_dropWhile]

lemma mem_join {fields : List String} {c : Char} (h : c ∈ (join mark fields).toList) :
    c = mark ∨ ∃ field ∈ fields, c ∈ field.toList := by
  rw [join, String.toList_ofList] at h
  induction fields with
  | nil => simp at h
  | cons field fields ih =>
    cases fields with
    | nil => exact Or.inr ⟨field, by simp, by simpa using h⟩
    | cons next fields =>
      simp only [List.map_cons, List.intercalate_cons_cons, List.mem_append,
        List.mem_singleton] at h ih
      rcases h with (h | h) | h
      · exact Or.inr ⟨field, by simp, h⟩
      · exact Or.inl h
      · rcases ih h with hmark | ⟨other, hother, hc⟩
        · exact Or.inl hmark
        · exact Or.inr ⟨other, by simp [hother], hc⟩

/-- The bytes of a row, with a separator of one byte. -/
lemma length_utf8_join_le (hmark : mark.utf8Size = 1) (fields : List String) :
    (utf8 (join mark fields)).length ≤ (fields.map fun field => (utf8 field).length + 1).sum := by
  induction fields with
  | nil => simp [join, utf8_eq]
  | cons field fields ih =>
    cases fields with
    | nil => simp [join, utf8_eq]
    | cons next fields =>
      have hsplit : join mark (field :: next :: fields) =
          field ++ String.singleton mark ++ join mark (next :: fields) := by
        apply String.toList_inj.mp
        simp [join, List.intercalate_cons_cons]
      have hone : (utf8 (String.singleton mark)).length = 1 := by
        simp [utf8_eq, hmark]
      rw [hsplit, utf8_append, utf8_append, List.length_append, List.length_append, hone,
        List.map_cons, List.sum_cons]
      omega

end ExperimentControl
