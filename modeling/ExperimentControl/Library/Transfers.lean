import ExperimentControl.Library.Framing

/-!
# Bytes that come in one read after another

A transfer is what a reader gets of a source that gives its bytes in pieces, until it ends or fails.

* `Transfer` — the reads that are left; a read that gives nothing is an end.
* `Transfer.take` — one read into a buffer.
* `Transfer.bytes`, `Transfer.fails` — what comes in, however it is read.
* `take_eq_some`, `take_eq_none` — a read takes the bytes off the front, and leaves how they end.
-/

namespace ExperimentControl

/-- The reads of a source, which gives at least one byte with each before its end. -/
inductive Transfer
  | ended
  | failed
  | read (first : UInt8) (rest : Bytes) (more : Transfer)
  deriving DecidableEq

namespace Transfer

/-- All the bytes that come in. -/
def bytes : Transfer → Bytes
  | ended => []
  | failed => []
  | read first rest more => first :: rest ++ more.bytes

/-- The source does not come to its end. -/
def fails : Transfer → Bool
  | ended => false
  | failed => true
  | read _ _ more => more.fails

/-- Bytes that are at hand before the other reads. -/
def later (more : Transfer) : Bytes → Transfer
  | [] => more
  | first :: rest => read first rest more

/-- One read into a buffer of some size. -/
def take (limit : ℕ) : Transfer → Option (Bytes × Transfer)
  | ended => some ([], ended)
  | failed => none
  | read first rest more =>
      some ((first :: rest).take limit, more.later ((first :: rest).drop limit))

@[simp] lemma bytes_later (more : Transfer) (front : Bytes) :
    (more.later front).bytes = front ++ more.bytes := by
  cases front <;> rfl

lemma bytes_later_ended (front : Bytes) : (ended.later front).bytes = front := by
  rw [bytes_later, bytes, List.append_nil]

@[simp] lemma fails_later (more : Transfer) (front : Bytes) :
    (more.later front).fails = more.fails := by
  cases front <;> rfl

/-- A read fails where the source does, and there is nothing before it. -/
lemma take_eq_none {limit : ℕ} {t : Transfer} (h : t.take limit = none) :
    t.bytes = [] ∧ t.fails = true := by
  cases t with
  | ended => cases h
  | failed => exact ⟨rfl, rfl⟩
  | read first rest more => cases h

/-- A read takes some bytes off the front. -/
lemma take_eq_some {limit : ℕ} {t rest : Transfer} {chunk : Bytes}
    (h : t.take limit = some (chunk, rest)) :
    t.bytes = chunk ++ rest.bytes ∧ rest.fails = t.fails ∧ chunk.length ≤ limit := by
  cases t with
  | ended =>
    obtain ⟨rfl, rfl⟩ := Prod.mk.inj (Option.some.inj h)
    exact ⟨rfl, rfl, Nat.zero_le _⟩
  | failed => cases h
  | read first others more =>
    obtain ⟨rfl, rfl⟩ := Prod.mk.inj (Option.some.inj h)
    refine ⟨?_, fails_later _ _, List.length_take_le _ _⟩
    rw [bytes_later, ← List.append_assoc, List.take_append_drop]
    rfl

/-- A read into a buffer that is not empty gives nothing at the end alone. -/
lemma take_eq_nil {limit : ℕ} (hlimit : 0 < limit) {t rest : Transfer}
    (h : t.take limit = some ([], rest)) : t.bytes = [] ∧ t.fails = false := by
  cases t with
  | ended => exact ⟨rfl, rfl⟩
  | failed => cases h
  | read first others more =>
    obtain ⟨hchunk, -⟩ := Prod.mk.inj (Option.some.inj h)
    rw [List.take_eq_nil_iff] at hchunk
    rcases hchunk with hzero | hnil
    · exact absurd hzero hlimit.ne'
    · cases hnil

end Transfer

end ExperimentControl
