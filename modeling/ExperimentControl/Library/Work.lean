import ExperimentControl.Library.Programs

/-!
# Work on a record

A program of `Library.Programs` that holds the lock, may fail, and keeps a record of its own beside the
store: what it did to the record stays done when it fails.

* `Work` — such programs, and their steps `ask`, `record`, `change`, `lift`, `outcome`.
* `Work.Sat` — triples with an invariant of record and store, which a failure keeps as well.
-/

namespace ExperimentControl

/-- A program on a record: it fails or ends with a value, and leaves the record. -/
abbrev Work (Op : Type) (Ans : Op → Type) (ρ ε α : Type) := ExceptT ε (StateT ρ (Prog Op Ans)) α

namespace Work

variable {σ Op : Type} {Ans : Op → Type} {ρ ε α β : Type}

/-- Run on a record. -/
def perform (x : Work Op Ans ρ ε α) (record : ρ) : Prog Op Ans (Except ε α × ρ) := x.run record

/-- An operation whose answer is used as it is. -/
def ask (op : Op) : Work Op Ans ρ ε (Ans op) :=
  ExceptT.mk fun record => .call op fun answer => .done (.ok answer, record)

/-- The record as it is. -/
def record : Work Op Ans ρ ε ρ := ExceptT.mk fun record => .done (.ok record, record)

/-- A change of the record. -/
def change (f : ρ → ρ) : Work Op Ans ρ ε Unit := ExceptT.mk fun record => .done (.ok (), f record)

/-- A computation without operations. -/
def lift (result : Except ε α) : Work Op Ans ρ ε α := ExceptT.mk fun record => .done (result, record)

/-- Run to the end and keep the failure as a value. -/
def outcome (x : Work Op Ans ρ ε α) : Work Op Ans ρ ε (Except ε α) :=
  ExceptT.mk fun record => (x.perform record).bind fun r => .done (.ok r.1, r.2)

/-- A result, by what holds of its value or of its failure. -/
def Ends (E : ε → Prop) (Q : α → Prop) : Except ε α → Prop
  | .error e => E e
  | .ok a => Q a

/-- From a store and a record with `P`, the invariant is kept, every success is one with `Q`, and every
failure is one with `E`. -/
def Sat (W : World σ Op Ans) (C : Contract σ) (I P : ρ → σ → Prop) (x : Work Op Ans ρ ε α)
    (Q : α → ρ → σ → Prop) (E : ε → ρ → σ → Prop) : Prop :=
  ∀ record s, C.inv s → I record s → P record s →
    wp W C (fun r held t => held = true ∧ C.inv t ∧ I r.2 t ∧ Ends (E · r.2 t) (Q · r.2 t) r.1)
      (x.perform record) true s

variable {W : World σ Op Ans} {C : Contract σ} {I P : ρ → σ → Prop} {Q : α → ρ → σ → Prop}
  {R : β → ρ → σ → Prop} {E : ε → ρ → σ → Prop}

lemma perform_bind (x : Work Op Ans ρ ε α) (f : α → Work Op Ans ρ ε β) (record : ρ) :
    (x >>= f).perform record = (x.perform record).bind fun r => match r.1 with
      | .ok a => (f a).perform r.2
      | .error e => .done (.error e, r.2) := by
  refine congrArg (Prog.bind (x.perform record)) (funext fun r => ?_)
  rcases r with ⟨_ | _, _⟩ <;> rfl

namespace Sat

/-- Sequencing. -/
lemma bind {x : Work Op Ans ρ ε α} {f : α → Work Op Ans ρ ε β} (hx : Sat W C I P x Q E)
    (hf : ∀ a, Sat W C I (Q a) (f a) R E) : Sat W C I P (x >>= f) R E := by
  intro record s inv keeps holds
  rw [perform_bind]
  refine wp_bind inv (wp_mono ?_ (hx record s inv keeps holds))
  rintro ⟨error | a, record⟩ held t ⟨same, _, keeps, post⟩ inv
  · subst same
    exact wp_done_held.mpr ⟨rfl, inv, keeps, post⟩
  · subst same
    exact hf a record t inv keeps post

lemma mono {P' : ρ → σ → Prop} {Q' : α → ρ → σ → Prop} {E' : ε → ρ → σ → Prop}
    {x : Work Op Ans ρ ε α} (h : Sat W C I P x Q E) (before : ∀ record s, P' record s → P record s)
    (after : ∀ a record s, Q a record s → Q' a record s)
    (failed : ∀ e record s, E e record s → E' e record s) : Sat W C I P' x Q' E' := by
  intro record s inv keeps holds
  refine wp_mono ?_ (h record s inv keeps (before record s holds))
  rintro ⟨error | a, record⟩ held t ⟨same, inv, keeps, post⟩
  · exact ⟨same, inv, keeps, failed _ _ _ post⟩
  · exact ⟨same, inv, keeps, after _ _ _ post⟩

/-- A stronger precondition. -/
lemma of {P' : ρ → σ → Prop} {x : Work Op Ans ρ ε α} (h : Sat W C I P x Q E)
    (before : ∀ record s, P' record s → P record s) : Sat W C I P' x Q E :=
  h.mono before (fun _ _ _ post => post) fun _ _ _ post => post

lemma pure {a : α} (h : ∀ record s, I record s → P record s → Q a record s) :
    Sat W C I P (Pure.pure a : Work Op Ans ρ ε α) Q E :=
  fun record s inv keeps holds => wp_done_held.mpr ⟨rfl, inv, keeps, h record s keeps holds⟩

/-- The record as it is. -/
lemma record {Q : ρ → ρ → σ → Prop} (h : ∀ record s, I record s → P record s → Q record record s) :
    Sat W C I P (Work.record : Work Op Ans ρ ε ρ) Q E :=
  fun record s inv keeps holds => wp_done_held.mpr ⟨rfl, inv, keeps, h record s keeps holds⟩

/-- Look at the record, then go on. -/
lemma record_bind {f : ρ → Work Op Ans ρ ε β}
    (h : ∀ record, Sat W C I (fun other s => other = record ∧ P record s) (f record) R E) :
    Sat W C I P (Work.record >>= f) R E :=
  bind (record fun _ _ _ holds => ⟨rfl, holds⟩) h

/-- A change of the record that keeps the invariant. -/
lemma change {f : ρ → ρ} {Q : Unit → ρ → σ → Prop}
    (h : ∀ record s, C.inv s → I record s → P record s → I (f record) s ∧ Q () (f record) s) :
    Sat W C I P (Work.change f : Work Op Ans ρ ε Unit) Q E := by
  intro record s inv keeps holds
  have ⟨keep, post⟩ := h record s inv keeps holds
  exact wp_done_held.mpr ⟨rfl, inv, keep, post⟩

/-- A computation without operations. -/
lemma lift {r : Except ε α} (h : ∀ record s, I record s → P record s →
    Ends (E · record s) (Q · record s) r) :
    Sat W C I P (Work.lift r : Work Op Ans ρ ε α) Q E :=
  fun record s inv keeps holds => wp_done_held.mpr ⟨rfl, inv, keeps, h record s keeps holds⟩

/-- A computation without operations, then the rest. -/
lemma lift_bind {r : Except ε α} {f : α → Work Op Ans ρ ε β}
    (failed : ∀ e record s, r = .error e → P record s → E e record s)
    (h : ∀ a, r = .ok a → Sat W C I P (f a) R E) :
    Sat W C I P (Work.lift r >>= f) R E := by
  cases r with
  | error e =>
    intro record s inv keeps holds
    rw [perform_bind]
    exact wp_done_held.mpr ⟨rfl, inv, keeps, failed e record s rfl holds⟩
  | ok a =>
    intro record s inv keeps holds
    rw [perform_bind]
    exact h a rfl record s inv keeps holds

/-- A failure. -/
lemma throw {e : ε} (h : ∀ record s, I record s → P record s → E e record s) :
    Sat W C I P (throw e : Work Op Ans ρ ε α) Q E :=
  fun record s inv keeps holds => wp_done_held.mpr ⟨rfl, inv, keeps, h record s keeps holds⟩

/-- A failure kept as a value. -/
lemma outcome {x : Work Op Ans ρ ε α} {E' : ε → ρ → σ → Prop} (h : Sat W C I P x Q E) :
    Sat W C I P (Work.outcome x) (fun r record s => Ends (E · record s) (Q · record s) r) E' := by
  intro record s inv keeps holds
  refine wp_bind inv (wp_mono ?_ (h record s inv keeps holds))
  rintro ⟨r, record⟩ held t ⟨same, _, keeps, post⟩ inv
  subst same
  exact wp_done_held.mpr ⟨rfl, inv, keeps, post⟩

/-- An operation. -/
lemma ask {op : Op} {Q : Ans op → ρ → σ → Prop}
    (crash : ∀ record s u, C.inv s → I record s → P record s → W.crash s op u →
      C.inv u ∧ C.rely s u)
    (exec : ∀ record s u a, C.inv s → I record s → P record s → W.exec s op a u →
      (C.inv u ∧ C.rely s u) ∧ I record u ∧ Q a record u) :
    Sat W C I P (Work.ask op : Work Op Ans ρ ε (Ans op)) Q E := by
  intro record s inv keeps holds
  refine wp_call_held.mpr ⟨fun u hu => crash record s u inv keeps holds hu, fun a u hu => ?_⟩
  have ⟨kept, stays, post⟩ := exec record s u a inv keeps holds hu
  exact ⟨kept, wp_done_held.mpr ⟨rfl, kept.1, stays, post⟩⟩

/-- A condition of the program. -/
lemma ite {c : Prop} [Decidable c] {x y : Work Op Ans ρ ε α} (hx : c → Sat W C I P x Q E)
    (hy : ¬c → Sat W C I P y Q E) : Sat W C I P (if c then x else y) Q E := by
  split_ifs with hc
  · exact hx hc
  · exact hy hc

end Sat

end Work

end ExperimentControl
