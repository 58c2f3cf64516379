import Mathlib

/-!
# Words of a shell

How a POSIX shell cuts the arguments of a simple command into words. Only plain words are read: a
text with an operator, an expansion, a pattern, a comment or an open quote has no words here.

* `Shell.words` — the words of a text.
* `Spells` — a text that stands for a word, whatever follows.
* **`words_intercalate`** — texts that stand for words, with blanks between them, are those words.
* `Spells.bare`, **`Spells.quoted`** — plain characters, and any characters between single quotes.
-/

namespace ExperimentControl

namespace Shell

/-- Where a shell is in a text, with the word that it reads; there is none between words. -/
inductive Mode
  | plain (word : Option (List Char))
  | escaped (word : Option (List Char))
  | single (word : List Char)
  | double (word : List Char)
  | doubleEscaped (word : List Char)

/-- What a shell may give a meaning to outside of quotes: the ends of commands, operators,
expansions, patterns and comments. -/
def isSpecial (c : Char) : Bool :=
  c ∈ ['\n', '|', '&', ';', '<', '>', '(', ')', '$', '`', '*', '?', '[', '#', '~', Char.ofNat 0]

def isBlank (c : Char) : Bool := c = ' ' ∨ c = '\t'

/-- The words of a text from where the shell is. -/
def fields : Mode → List Char → Option (List (List Char))
  | .plain none, [] => some []
  | .plain (some word), [] => some [word]
  | .escaped _, [] => none
  | .single _, [] => none
  | .double _, [] => none
  | .doubleEscaped _, [] => none
  | .plain word, c :: rest =>
      if isBlank c then (fields (.plain none) rest).map (word.toList ++ ·)
      else if c = '\'' then fields (.single (word.getD [])) rest
      else if c = '"' then fields (.double (word.getD [])) rest
      else if c = '\\' then fields (.escaped word) rest
      else if isSpecial c then none
      else fields (.plain (some (word.getD [] ++ [c]))) rest
  | .escaped word, c :: rest =>
      -- an escaped line end is removed
      if c = '\n' then fields (.plain word) rest
      else fields (.plain (some (word.getD [] ++ [c]))) rest
  | .single word, c :: rest =>
      if c = '\'' then fields (.plain (some word)) rest
      else fields (.single (word ++ [c])) rest
  | .double word, c :: rest =>
      if c = '"' then fields (.plain (some word)) rest
      else if c = '\\' then fields (.doubleEscaped word) rest
      else if c = '$' ∨ c = '`' then none
      else fields (.double (word ++ [c])) rest
  | .doubleEscaped word, c :: rest =>
      if c = '\n' then fields (.double word) rest
      else if c ∈ ['$', '`', '"', '\\'] then fields (.double (word ++ [c])) rest
      else fields (.double (word ++ ['\\', c])) rest

def words (text : String) : Option (List String) :=
  (fields (.plain none) text.toList).map (List.map String.ofList)

example : words "a 'b c'\\ d \"e\\\"f\"" = some ["a", "b c d", "e\"f"] := by decide

example : words "a; b" = none := by decide

/-! ## Texts that stand for words -/

/-- A text between blanks that is read as a word. -/
def Spells (text word : List Char) : Prop :=
  ∀ rest, fields (.plain none) (text ++ rest) = fields (.plain (some word)) rest

/-- **Words with blanks between their texts are read back.** -/
theorem fields_intercalate {texts words : List (List Char)} (h : List.Forall₂ Spells texts words) :
    fields (.plain none) ([' '].intercalate texts) = some words := by
  induction h with
  | nil => rfl
  | @cons text word texts words hfirst hrest ih =>
    cases hrest with
    | nil =>
      have hend := hfirst []
      rw [List.append_nil] at hend
      rw [List.intercalate_singleton, hend]
      rfl
    | cons hsecond hothers =>
      rw [List.intercalate_cons_cons, List.append_assoc, hfirst, List.singleton_append, fields,
        if_pos (by decide), ih]
      rfl

/-- The words of a text that is followed by a blank and another one. -/
theorem fields_append_blank {front rest : List Char} {mode : Mode} {words : List (List Char)}
    (h : fields mode front = some words) :
    fields mode (front ++ ' ' :: rest) = (fields (.plain none) rest).map (words ++ ·) := by
  fun_induction fields mode front generalizing words with
  | case1 =>
    cases h
    rw [List.nil_append, fields, if_pos (by decide)]
    rfl
  | case2 word =>
    cases h
    rw [List.nil_append, fields, if_pos (by decide)]
    rfl
  | case3 | case4 | case5 | case6 => cases h
  | case7 word c front hblank ih =>
    obtain ⟨others, hothers, rfl⟩ := Option.map_eq_some_iff.mp h
    rw [List.cons_append, fields, if_pos hblank, ih hothers, Option.map_map]
    exact congrArg (Option.map · _) (funext fun more => (List.append_assoc _ _ _).symm)
  | case8 word front hblank ih => rw [List.cons_append, fields, if_neg hblank, if_pos rfl, ih h]
  | case9 word front hblank hsingle ih =>
    rw [List.cons_append, fields, if_neg hblank, if_neg hsingle, if_pos rfl, ih h]
  | case10 word front hblank hsingle hdouble ih =>
    rw [List.cons_append, fields, if_neg hblank, if_neg hsingle, if_neg hdouble, if_pos rfl, ih h]
  | case11 => cases h
  | case12 word c front hblank hsingle hdouble hescape hspecial ih =>
    rw [List.cons_append, fields, if_neg hblank, if_neg hsingle, if_neg hdouble, if_neg hescape,
      if_neg hspecial, ih h]
  | case13 word front ih => rw [List.cons_append, fields, if_pos rfl, ih h]
  | case14 word c front hline ih => rw [List.cons_append, fields, if_neg hline, ih h]
  | case15 word front ih => rw [List.cons_append, fields, if_pos rfl, ih h]
  | case16 word c front hquote ih => rw [List.cons_append, fields, if_neg hquote, ih h]
  | case17 word front ih => rw [List.cons_append, fields, if_pos rfl, ih h]
  | case18 word front hquote ih => rw [List.cons_append, fields, if_neg hquote, if_pos rfl, ih h]
  | case19 => cases h
  | case20 word c front hquote hescape hexpands ih =>
    rw [List.cons_append, fields, if_neg hquote, if_neg hescape, if_neg hexpands, ih h]
  | case21 word front ih => rw [List.cons_append, fields, if_pos rfl, ih h]
  | case22 word c front hline hescaped ih =>
    rw [List.cons_append, fields, if_neg hline, if_pos hescaped, ih h]
  | case23 word c front hline hplain ih =>
    rw [List.cons_append, fields, if_neg hline, if_neg hplain, ih h]

/-- A character that a shell leaves alone. -/
def isPlain (c : Char) : Bool :=
  ¬isBlank c ∧ c ≠ '\'' ∧ c ≠ '"' ∧ c ≠ '\\' ∧ ¬isSpecial c

lemma fields_plain {c : Char} (h : isPlain c = true) (word : Option (List Char)) (rest : List Char) :
    fields (.plain word) (c :: rest) = fields (.plain (some (word.getD [] ++ [c]))) rest := by
  obtain ⟨hblank, hsingle, hdouble, hescape, hspecial⟩ := of_decide_eq_true h
  rw [fields, if_neg hblank, if_neg hsingle, if_neg hdouble, if_neg hescape, if_neg hspecial]

lemma fields_plain_append {chars : List Char} (h : ∀ c ∈ chars, isPlain c = true) (word rest : List Char) :
    fields (.plain (some word)) (chars ++ rest) = fields (.plain (some (word ++ chars))) rest := by
  induction chars generalizing word with
  | nil => rw [List.append_nil, List.nil_append]
  | cons c chars ih =>
    rw [List.cons_append, fields_plain (h c List.mem_cons_self), Option.getD_some,
      ih fun d hd => h d (List.mem_cons_of_mem c hd), List.append_assoc, List.singleton_append]

/-- Plain characters stand for themselves. -/
lemma Spells.bare {chars : List Char} (hne : chars ≠ []) (h : ∀ c ∈ chars, isPlain c = true) :
    Spells chars chars := by
  intro rest
  obtain ⟨c, chars, rfl⟩ := List.exists_cons_of_ne_nil hne
  rw [List.cons_append, fields_plain (h c List.mem_cons_self),
    fields_plain_append fun d hd => h d (List.mem_cons_of_mem c hd)]
  rfl

/-- Characters between single quotes, where a single quote leaves them for double ones. -/
def escapeQuotes (chars : List Char) : List Char :=
  chars.flatMap fun c => if c = '\'' then ['\'', '"', '\'', '"', '\''] else [c]

lemma fields_escapeQuotes (chars word rest : List Char) :
    fields (.single word) (escapeQuotes chars ++ '\'' :: rest) =
      fields (.plain (some (word ++ chars))) rest := by
  induction chars generalizing word with
  | nil =>
    rw [escapeQuotes, List.flatMap_nil, List.nil_append, fields, if_pos rfl, List.append_nil]
  | cons c chars ih =>
    rw [escapeQuotes, List.flatMap_cons, ← escapeQuotes]
    by_cases hquote : c = '\''
    · subst hquote
      have hleave : fields (.single word)
          (['\'', '"', '\'', '"', '\''] ++ (escapeQuotes chars ++ '\'' :: rest)) =
            fields (.single (word ++ ['\''])) (escapeQuotes chars ++ '\'' :: rest) := by
        simp [fields, isBlank]
      rw [if_pos rfl, List.append_assoc, hleave, ih, List.append_assoc, List.singleton_append]
    · rw [if_neg hquote, List.append_assoc, List.singleton_append, fields, if_neg hquote, ih,
        List.append_assoc, List.singleton_append]

/-- **Any characters between single quotes** stand for themselves. -/
theorem Spells.quoted (chars : List Char) : Spells ('\'' :: (escapeQuotes chars ++ ['\''])) chars := by
  intro rest
  have hopen : fields (.plain none) ('\'' :: (escapeQuotes chars ++ ['\''] ++ rest)) =
      fields (.single []) (escapeQuotes chars ++ ['\''] ++ rest) := by
    rw [fields, if_neg (by decide), if_pos rfl]
    rfl
  rw [List.cons_append, hopen, List.append_assoc, List.singleton_append, fields_escapeQuotes,
    List.nil_append]

end Shell

end ExperimentControl
