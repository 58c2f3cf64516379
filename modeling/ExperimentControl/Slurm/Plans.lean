import ExperimentControl.Library.Shell
import ExperimentControl.Slurm.Observation

/-!
# Command lines of a job

Arguments as a shell reads them back, of `core/src/slurm/plans.rs`.

* `shellQuote`, `shellJoin` — the functions of the source.
* `quoted_spells` — single quotes around any argument stand for it, here and in the cloud's lines.
* **`shellJoin_words`** — a joined line has the arguments as its words.
-/

namespace ExperimentControl

/-- `value.replace('\'', "'\"'\"'")` between single quotes. -/
def singleQuoted (value : String) : String :=
  String.ofList ('\'' :: (Shell.escapeQuotes value.toList ++ ['\'']))

lemma quoted_spells (value : String) :
    Shell.Spells (singleQuoted value).toList value.toList := by
  rw [singleQuoted, String.toList_ofList]
  exact Shell.Spells.quoted value.toList

/-- Texts that stand for the arguments are read as them. -/
lemma words_join {texts args : List String}
    (h : List.Forall₂ (fun text value => Shell.Spells text.toList value.toList) texts args) :
    Shell.words (" ".intercalate texts) = some args := by
  have hfields : List.Forall₂ Shell.Spells (texts.map String.toList) (args.map String.toList) := by
    rw [List.forall₂_map_left_iff, List.forall₂_map_right_iff]
    exact h
  have hsame : String.ofList ∘ String.toList = id := funext fun s => String.ofList_toList
  rw [Shell.words, String.toList_intercalate]
  change (Shell.fields _ ([' '].intercalate _)).map _ = _
  rw [Shell.fields_intercalate hfields, Option.map_some, List.map_map, hsame, List.map_id]

/-- A line that stands behind other words adds its own. -/
lemma words_behind {front line : String} {words args : List String}
    (hfront : Shell.words front = some words) (h : Shell.words line = some args) :
    Shell.words (front ++ " " ++ line) = some (words ++ args) := by
  obtain ⟨first, hfirst, rfl⟩ := Option.map_eq_some_iff.mp hfront
  obtain ⟨second, hsecond, rfl⟩ := Option.map_eq_some_iff.mp h
  have hchars : (front ++ " " ++ line).toList = front.toList ++ ' ' :: line.toList := by
    rw [String.toList_append, String.toList_append, List.append_assoc]
    rfl
  rw [Shell.words, hchars, Shell.fields_append_blank hfirst, hsecond, Option.map_some,
    Option.map_some, List.map_append]

namespace Slurm

/-- A character that needs no quotes. -/
def isSafe (c : Char) : Bool := c.isAlphanum ∨ c ∈ "_@%+=:,./-".toList

def shellQuote (value : String) : Except Error String :=
  if Char.ofNat 0 ∈ value.toList then .error (.configuration "command argument")
  else if value ≠ "" ∧ value.toList.all isSafe then .ok value
  else .ok (singleQuoted value)

def shellJoin (args : List String) : Except Error String :=
  if args = [] then .error (.configuration "command")
  else (args.mapM shellQuote).map fun values => " ".intercalate values

/-- A safe character has no meaning to a shell. -/
lemma isPlain_of_isSafe {c : Char} (h : isSafe c = true) : Shell.isPlain c = true := by
  have hall : [' ', '\t', '\'', '"', '\\', '\n', '|', '&', ';', '<', '>', '(', ')', '$', '`',
      '*', '?', '[', '#', '~', Char.ofNat 0].all fun d => isSafe d = false := by
    decide +kernel
  have hsafe := fun d hd => of_decide_eq_true (List.all_eq_true.mp hall d hd)
  have hne : ∀ d, isSafe d = false → c ≠ d := by
    rintro d hd rfl
    rw [h] at hd
    cases hd
  refine decide_eq_true ⟨?_, ?_, ?_, ?_, ?_⟩
  · rw [Shell.isBlank, decide_eq_true_iff, not_or]
    exact ⟨hne _ (hsafe _ (by simp)), hne _ (hsafe _ (by simp))⟩
  · exact hne _ (hsafe _ (by simp))
  · exact hne _ (hsafe _ (by simp))
  · exact hne _ (hsafe _ (by simp))
  · rw [Shell.isSpecial, decide_eq_true_iff]
    intro hmem
    refine hne c (hsafe c ?_) rfl
    exact List.mem_append_right [' ', '\t', '\'', '"', '\\'] hmem

/-- A quoted argument stands for itself. -/
lemma shellQuote_spells {value text : String} (h : shellQuote value = .ok text) :
    Shell.Spells text.toList value.toList := by
  unfold shellQuote at h
  split_ifs at h with hnul hsafe
  · cases h
    refine Shell.Spells.bare ?_ fun c hc => isPlain_of_isSafe (List.all_eq_true.mp hsafe.2 c hc)
    exact fun hnil => hsafe.1 (String.toList_inj.mp hnil)
  · cases h
    exact quoted_spells value

/-- **A joined line has the arguments as its words.** -/
theorem shellJoin_words {args : List String} {line : String} (h : shellJoin args = .ok line) :
    Shell.words line = some args := by
  unfold shellJoin at h
  split_ifs at h with hempty
  cases htexts : args.mapM shellQuote with
  | error e =>
    rw [htexts] at h
    cases h
  | ok texts =>
    rw [htexts] at h
    cases h
    exact words_join ((mapM_eq_ok.mp htexts).imp fun value text hquote => shellQuote_spells hquote).flip

/-- Arguments are joined where there is one, and none of them has a NUL. -/
lemma shellJoin_isOk {args : List String} : (∃ line, shellJoin args = .ok line) ↔
    args ≠ [] ∧ ∀ value ∈ args, Char.ofNat 0 ∉ value.toList := by
  have hquote : ∀ value, (∃ text, shellQuote value = .ok text) ↔ Char.ofNat 0 ∉ value.toList := by
    intro value
    unfold shellQuote
    split_ifs with hnul hsafe
    · exact ⟨nofun, fun h => absurd hnul h⟩
    · exact ⟨fun _ => hnul, fun _ => ⟨_, rfl⟩⟩
    · exact ⟨fun _ => hnul, fun _ => ⟨_, rfl⟩⟩
  have hmap : ∀ values : List String, (∃ texts, values.mapM shellQuote = .ok texts) ↔
      ∀ value ∈ values, Char.ofNat 0 ∉ value.toList := by
    intro values
    simp only [mapM_eq_ok]
    constructor
    · rintro ⟨texts, htexts⟩ value hvalue
      obtain ⟨text, -, htext⟩ := exists_right htexts hvalue
      exact (hquote value).mp ⟨text, htext⟩
    · intro h
      induction values with
      | nil => exact ⟨[], .nil⟩
      | cons value values ih =>
        obtain ⟨text, htext⟩ := (hquote value).mpr (h value List.mem_cons_self)
        obtain ⟨texts, htexts⟩ := ih fun other hother => h other (List.mem_cons_of_mem _ hother)
        exact ⟨text :: texts, .cons htext htexts⟩
  unfold shellJoin
  split_ifs with hempty
  · exact ⟨nofun, fun h => absurd hempty h.1⟩
  · rw [← hmap args]
    constructor
    · rintro ⟨line, hline⟩
      cases htexts : args.mapM shellQuote with
      | error e =>
        rw [htexts] at hline
        cases hline
      | ok texts => exact ⟨hempty, texts, rfl⟩
    · rintro ⟨-, texts, htexts⟩
      exact ⟨_, by rw [htexts]; rfl⟩

end Slurm

end ExperimentControl
