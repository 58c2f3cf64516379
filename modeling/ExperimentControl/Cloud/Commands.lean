import ExperimentControl.Cloud.Retry
import ExperimentControl.Slurm.Plans

/-!
# Command lines of a cloud job

Arguments as a provider's shell reads them back, of `core/src/cloud/mod.rs`, where every argument is
quoted.

* `shellJoin` — the function of the source.
* **`shellJoin_faithful`** — the lines for both backends have exactly the arguments as their words.
-/

namespace ExperimentControl

namespace Cloud

/-- `submission::MAX_REQUEST_BYTES`. -/
def MAX_REQUEST_BYTES : ℕ := 2 ^ 20

def shellJoin (args : List String) : Except CoreError String :=
  if args = [] ∨ args.length > 256 ∨
      (args.any fun s => byteLen s > 65536 ∨ Char.ofNat 0 ∈ s.toList) ∨ args.head? = some "" then
    .error ⟨"command"⟩
  else
    let command := " ".intercalate (args.map singleQuoted)
    if byteLen command > MAX_REQUEST_BYTES then .error ⟨"command length"⟩ else .ok command

/-- The arguments that a provider's command line holds. -/
structure Joinable (args : List String) : Prop where
  nonempty : args ≠ []
  few : args.length ≤ 256
  plain : ∀ value ∈ args, byteLen value ≤ 65536 ∧ Char.ofNat 0 ∉ value.toList
  command : args.head? ≠ some ""
  length : byteLen (" ".intercalate (args.map singleQuoted)) ≤ MAX_REQUEST_BYTES

lemma shellJoin_eq_ok {args : List String} {line : String} : shellJoin args = .ok line ↔
    Joinable args ∧ line = " ".intercalate (args.map singleQuoted) := by
  unfold shellJoin
  constructor
  · intro h
    split_ifs at h with hargs
    dsimp only at h
    split_ifs at h with hlength
    simp only [not_or, not_lt, Bool.not_eq_true, List.any_eq_false, decide_eq_true_eq]
      at hargs hlength
    exact ⟨⟨hargs.1, hargs.2.1, hargs.2.2.1, hargs.2.2.2, hlength⟩, (Except.ok.inj h).symm⟩
  · rintro ⟨h, rfl⟩
    rw [if_neg]
    · exact if_neg (not_lt.mpr h.length)
    · simp only [not_or, not_lt, Bool.not_eq_true, List.any_eq_false, decide_eq_true_eq]
      exact ⟨h.nonempty, h.few, h.plain, h.command⟩

/-- **Command lines have exactly the arguments as words**, behind any other words of a command: the
lines for the scheduler, which are there for all arguments without a NUL, and those for a provider,
which are there within its limits. -/
theorem shellJoin_faithful (args : List String) :
    (∀ line, Slurm.shellJoin args = .ok line → Shell.words line = some args ∧
      ∀ front words, Shell.words front = some words →
        Shell.words (front ++ " " ++ line) = some (words ++ args)) ∧
    (∀ line, shellJoin args = .ok line → Shell.words line = some args ∧
      ∀ front words, Shell.words front = some words →
        Shell.words (front ++ " " ++ line) = some (words ++ args)) ∧
    ((∃ line, Slurm.shellJoin args = .ok line) ↔
      args ≠ [] ∧ ∀ value ∈ args, Char.ofNat 0 ∉ value.toList) ∧
    ((∃ line, shellJoin args = .ok line) ↔ Joinable args) := by
  refine ⟨fun line h => ?_, fun line h => ?_, Slurm.shellJoin_isOk, ?_⟩
  · have hwords := Slurm.shellJoin_words h
    exact ⟨hwords, fun front words hfront => words_behind hfront hwords⟩
  · obtain ⟨-, rfl⟩ := shellJoin_eq_ok.mp h
    have hwords : Shell.words (" ".intercalate (args.map singleQuoted)) = some args := by
      refine words_join ?_
      rw [List.forall₂_map_left_iff]
      exact List.forall₂_same.mpr fun value _ => quoted_spells value
    exact ⟨hwords, fun front words hfront => words_behind hfront hwords⟩
  · exact ⟨fun ⟨line, h⟩ => (shellJoin_eq_ok.mp h).1, fun h => ⟨_, shellJoin_eq_ok.mpr ⟨h, rfl⟩⟩⟩

end Cloud

end ExperimentControl
