import Mathlib

/-!
# Consecutive lists

Entries that carry their own place, counted on from some number. What is drawn from such a list,
in any order and with repetitions, is numbered again only when it is a front of it.

* `Consecutive` — the number of every entry is one more than that of the entry before.
* `Consecutive.append`, `Consecutive.mem_number` — its parts and its numbers.
* **`Consecutive.front`** — a numbered list of entries of a numbered list is a front of it.
-/

namespace ExperimentControl

variable {α : Type*}

/-- Entries that carry the numbers behind `start`, one after another. -/
def Consecutive (number : α → Option ℕ) : ℕ → List α → Prop
  | _, [] => True
  | start, entry :: entries => number entry = some (start + 1) ∧ Consecutive number (start + 1) entries

namespace Consecutive

variable {number : α → Option ℕ}

@[simp] lemma nil (start : ℕ) : Consecutive number start [] := trivial

@[simp] lemma cons {start : ℕ} {entry : α} {entries : List α} :
    Consecutive number start (entry :: entries) ↔
      number entry = some (start + 1) ∧ Consecutive number (start + 1) entries := Iff.rfl

@[simp] lemma append {first second : List α} : ∀ {start : ℕ},
    Consecutive number start (first ++ second) ↔
      Consecutive number start first ∧ Consecutive number (start + first.length) second := by
  induction first with
  | nil => simp
  | cons entry first ih =>
      intro start
      simp only [List.cons_append, cons, ih, List.length_cons, and_assoc]
      rw [show start + 1 + first.length = start + (first.length + 1) by omega]

/-- The numbers of the entries. -/
lemma mem_number {entries : List α} : ∀ {start : ℕ}, Consecutive number start entries →
    ∀ entry ∈ entries, ∃ n, number entry = some n ∧ start < n ∧ n ≤ start + entries.length := by
  induction entries with
  | nil => simp
  | cons head entries ih =>
      intro start h entry hentry
      rcases List.mem_cons.mp hentry with rfl | hentry
      · exact ⟨start + 1, h.1, by omega, by simp⟩
      · obtain ⟨n, hn, hlow, hhigh⟩ := ih h.2 entry hentry
        exact ⟨n, hn, by omega, by simp only [List.length_cons]; omega⟩

/-- **A numbered list of entries of a numbered list is a front of it.** -/
theorem front {entries drawn : List α} : ∀ {start : ℕ}, Consecutive number start entries →
    Consecutive number start drawn → (∀ entry ∈ drawn, entry ∈ entries) → drawn <+: entries := by
  induction drawn generalizing entries with
  | nil => intro start _ _ _; exact List.nil_prefix
  | cons entry drawn ih =>
      intro start hentries hdrawn hmem
      cases entries with
      | nil => simpa using hmem entry (by simp)
      | cons head entries =>
          -- Behind the head every number is greater.
          have hbehind : ∀ other ∈ entries, number other ≠ some (start + 1) := by
            intro other hother hsame
            obtain ⟨n, hn, hlow, -⟩ := mem_number hentries.2 other hother
            rw [hn] at hsame
            simp only [Option.some.injEq] at hsame
            omega
          have hhead : entry = head := by
            rcases List.mem_cons.mp (hmem entry (by simp)) with h | h
            · exact h
            · exact absurd hdrawn.1 (hbehind entry h)
          subst hhead
          have hrest : ∀ other ∈ drawn, other ∈ entries := by
            intro other hother
            rcases List.mem_cons.mp (hmem other (by simp [hother])) with rfl | h
            · obtain ⟨n, hn, hlow, -⟩ := mem_number hdrawn.2 other hother
              rw [hdrawn.1] at hn
              simp only [Option.some.injEq] at hn
              omega
            · exact h
          simpa using ih hentries.2 hdrawn.2 hrest

end Consecutive

end ExperimentControl
