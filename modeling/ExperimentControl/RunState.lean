import Mathlib

/-!
# Attempt states

`RunState` of `core/src/state.rs` and the transitions an observation may report.

* `RunState.allows` — the transition table.
* **`RunState.eq_of_terminal_allows`** — a terminal state allows itself only.
-/

namespace ExperimentControl

inductive RunState
  | notSubmitted
  | created
  | submitting
  | queued
  | starting
  | running
  | evaluating
  | succeeded
  | failed
  | preempted
  | cancelled
  | unknown
  deriving DecidableEq, Repr

namespace RunState

def isTerminal : RunState → Bool
  | succeeded | failed | preempted | cancelled => true
  | _ => false

/-- The states that may be observed after `self`, sampled skips and requeues included. -/
def allows (self next : RunState) : Bool :=
  if self.isTerminal then
    self = next
  else
    match self with
    | notSubmitted => next = created
    | created | unknown => next ≠ notSubmitted
    | submitting => next ∉ [notSubmitted, created]
    | queued | starting => next ∉ [notSubmitted, created, submitting]
    | running => next ∉ [notSubmitted, created, submitting, starting]
    | evaluating => next.isTerminal ∨ next ∈ [evaluating, unknown]
    | _ => false

/-- **A terminal state is final.** -/
theorem eq_of_terminal_allows {a b : RunState} (ha : a.isTerminal) (h : a.allows b) : a = b := by
  simpa [allows, ha] using h

end RunState

end ExperimentControl
