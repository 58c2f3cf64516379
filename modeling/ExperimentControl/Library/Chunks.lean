import Mathlib

/-!
# Cutting a list into chunks

`slice::chunks`: pieces of one length, the last one as long as what is left.

* `chunks`, **`chunks_flatten`** — the pieces, which together are the list.
* `length_le_of_mem_chunks` — no piece is longer than the bound.
-/

namespace ExperimentControl

variable {α : Type*}

/-- Pieces of one length, the last one as long as what is left. -/
def chunks (bound : ℕ) : List α → List (List α)
  | [] => []
  | item :: items => (item :: items.take (bound - 1)) :: chunks bound (items.drop (bound - 1))
  termination_by items => items.length
  decreasing_by
    rw [List.length_drop, List.length_cons]
    omega

theorem chunks_flatten (bound : ℕ) : ∀ items : List α, (chunks bound items).flatten = items
  | [] => by rw [chunks, List.flatten_nil]
  | item :: items => by
      rw [chunks, List.flatten_cons, chunks_flatten bound (items.drop (bound - 1)),
        List.cons_append, List.take_append_drop]
  termination_by items => items.length
  decreasing_by
    rw [List.length_drop, List.length_cons]
    omega

theorem length_le_of_mem_chunks {bound : ℕ} (hbound : 0 < bound) :
    ∀ items : List α, ∀ chunk ∈ chunks bound items, chunk.length ≤ bound
  | [] => by simp [chunks]
  | item :: items => by
      intro chunk hchunk
      rw [chunks, List.mem_cons] at hchunk
      rcases hchunk with rfl | hrest
      · rw [List.length_cons, List.length_take]
        omega
      · exact length_le_of_mem_chunks hbound (items.drop (bound - 1)) chunk hrest
  termination_by items => items.length
  decreasing_by
    rw [List.length_drop, List.length_cons]
    omega

lemma ne_nil_of_mem_chunks (bound : ℕ) : ∀ items : List α, ∀ chunk ∈ chunks bound items, chunk ≠ []
  | [] => by simp [chunks]
  | item :: items => by
      intro chunk hchunk
      rw [chunks, List.mem_cons] at hchunk
      rcases hchunk with rfl | hrest
      · exact List.cons_ne_nil _ _
      · exact ne_nil_of_mem_chunks bound (items.drop (bound - 1)) chunk hrest
  termination_by items => items.length
  decreasing_by
    rw [List.length_drop, List.length_cons]
    omega

end ExperimentControl
