import Mathlib

/-!
# Lines of a stream

The cut of a stream after each separator: every line ends with the separator but the last, which
may be unterminated.

* `linesOf` — the lines, terminators kept, with **`flatten_linesOf`**: nothing is lost.
* `linesOf_unterminated`, `linesOf_append_terminated` — the two steps of a reader of lines.
* `terminated` — lines with their ends, with `rdropWhile_terminated`, `rtakeWhile_terminated` and
  **`splitOn_terminated`**: what a reader finds that looks for the last end first.
-/

namespace ExperimentControl

variable {α : Type*}

section Decidable

variable [DecidableEq α]

/-- The lines of a stream, each with its terminator; a rest without one is the last line. -/
def linesOf (sep : α) : List α → List (List α)
  | [] => []
  | b :: rest =>
      if b = sep then [b] :: linesOf sep rest
      else match linesOf sep rest with
        | [] => [[b]]
        | line :: lines => (b :: line) :: lines

/-- **The lines are the stream**, in order. -/
theorem flatten_linesOf (sep : α) : ∀ stream : List α, (linesOf sep stream).flatten = stream
  | [] => rfl
  | b :: rest => by
      have ih := flatten_linesOf sep rest
      unfold linesOf
      split_ifs with hb
      · simp [ih]
      · rcases h : linesOf sep rest with _ | ⟨line, lines⟩
        · simpa [h] using ih
        · simpa [h] using ih

/-- A stream without a separator is one line, or none when it is empty. -/
lemma linesOf_unterminated {sep : α} : ∀ {rest : List α}, sep ∉ rest →
    linesOf sep rest = if rest = [] then [] else [rest]
  | [], _ => rfl
  | b :: rest, h => by
      have hb : b ≠ sep := fun heq => h (by simp [heq])
      have ih := linesOf_unterminated fun hm => h (List.mem_cons_of_mem b hm)
      unfold linesOf
      rw [if_neg hb, ih]
      by_cases hrest : rest = [] <;> simp [hrest]

/-- The first line ends at the first separator. -/
lemma linesOf_append_terminated {sep : α} {rest : List α} : ∀ {line : List α}, sep ∉ line →
    linesOf sep (line ++ sep :: rest) = (line ++ [sep]) :: linesOf sep rest
  | [], _ => by simp [linesOf]
  | b :: line, h => by
      have hb : b ≠ sep := fun heq => h (by simp [heq])
      have ih := @linesOf_append_terminated sep rest line fun hm => h (List.mem_cons_of_mem b hm)
      simp [linesOf, hb, ih]

end Decidable

/-! ## Lines with their ends -/

/-- Lines one after another, each with its end. -/
def terminated (sep : α) (lines : List (List α)) : List α := lines.flatMap fun line => line ++ [sep]

section JoinLines

variable {sep : α} {lines : List (List α)}

@[simp] lemma terminated_nil : terminated sep [] = [] := rfl

@[simp] lemma terminated_cons (line : List α) : terminated sep (line :: lines) =
    line ++ sep :: terminated sep lines := by
  simp [terminated]

lemma terminated_append (more : List (List α)) : terminated sep (lines ++ more) =
    terminated sep lines ++ terminated sep more := by
  simp [terminated]

@[simp] lemma terminated_eq_nil : terminated sep lines = [] ↔ lines = [] := by
  cases lines <;> simp

/-- Lines with their ends are nothing, or end in an end. -/
lemma terminated_cases : terminated sep lines = [] ∨ ∃ front, terminated sep lines = front ++ [sep] := by
  rcases List.eq_nil_or_concat lines with rfl | ⟨front, line, rfl⟩
  · exact Or.inl rfl
  · refine Or.inr ⟨terminated sep front ++ line, ?_⟩
    rw [List.concat_eq_append, terminated_append]
    simp

variable [DecidableEq α] {tail : List α} (htail : sep ∉ tail)
include htail

/-- What stands before the last end. -/
lemma rdropWhile_terminated :
    (terminated sep lines ++ tail).rdropWhile (fun b => b ≠ sep) = terminated sep lines := by
  induction tail using List.reverseRecOn with
  | nil =>
      rw [List.append_nil]
      rcases @terminated_cases _ sep lines with h | ⟨front, h⟩
      · rw [h, List.rdropWhile_nil]
      · rw [h, List.rdropWhile_concat_neg _ _ _ (by simp)]
  | append_singleton tail b ih =>
      simp only [List.mem_append, List.mem_singleton, not_or] at htail
      rw [← List.append_assoc, List.rdropWhile_concat_pos _ _ _ (by simpa using Ne.symm htail.2),
        ih htail.1]

/-- What stands behind the last end. -/
lemma rtakeWhile_terminated :
    (terminated sep lines ++ tail).rtakeWhile (fun b => b ≠ sep) = tail := by
  have hboth := @List.rdropWhile_append_rtakeWhile _ (fun b => decide (b ≠ sep))
    (terminated sep lines ++ tail)
  rw [rdropWhile_terminated htail] at hboth
  exact List.append_cancel_left hboth

omit htail

/-- **The lines are found again**, without the last end. -/
theorem splitOn_terminated (hlines : ∀ line ∈ lines, sep ∉ line) (hne : lines ≠ []) :
    (terminated sep lines).dropLast.splitOn sep = lines := by
  have hjoin : ∀ {lines : List (List α)}, lines ≠ [] →
      (terminated sep lines).dropLast = [sep].intercalate lines := by
    intro lines
    induction lines with
    | nil => simp
    | cons line lines ih =>
        intro _
        cases lines with
        | nil => simp [terminated]
        | cons next lines =>
            have hrest : terminated sep (next :: lines) ≠ [] := by simp
            have hne : sep :: terminated sep (next :: lines) ≠ [] := by simp
            rw [terminated_cons, List.dropLast_append_of_ne_nil hne,
              List.dropLast_cons_of_ne_nil hrest, ih (by simp), List.intercalate_cons_cons]
            simp
  rw [hjoin hne]
  exact List.splitOn_intercalate sep hlines hne

end JoinLines

end ExperimentControl
