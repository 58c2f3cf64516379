import Mathlib

/-!
# Fallible computations

Inversion of a successful run of a computation in `Except`, so that a model written with `do` is
taken apart step by step instead of by unfolding its binds.
-/

namespace ExperimentControl

section Fallible

variable {ε : Type*} {α β σ : Type}

/-- The early return of a check: the error `e` when `bad` holds. -/
def reject (bad : Prop) [Decidable bad] (e : ε) : Except ε Unit :=
  if bad then .error e else .ok ()

@[simp] lemma reject_eq_ok {bad : Prop} [Decidable bad] {e : ε} {u : Unit} :
    reject bad e = .ok u ↔ ¬bad := by
  unfold reject
  split_ifs with h <;> simp [h]

@[simp] lemma reject_eq_error {bad : Prop} [Decidable bad] {e e' : ε} :
    reject bad e = .error e' ↔ bad ∧ e = e' := by
  unfold reject
  split_ifs with h <;> simp [h]

@[simp] lemma ok_bind (a : α) (f : α → Except ε β) : (Except.ok a >>= f) = f a := rfl

@[simp] lemma error_bind (e : ε) (f : α → Except ε β) : (Except.error e >>= f) = .error e := rfl

/-- A successful sequence is two successful steps. -/
lemma bind_eq_ok {x : Except ε α} {f : α → Except ε β} {b : β} :
    (x >>= f) = .ok b ↔ ∃ a, x = .ok a ∧ f a = .ok b := by
  cases x with
  | error e => simp [bind, Except.bind]
  | ok a => simp [bind, Except.bind]

/-- A failed sequence fails in its first step, or in its second one. -/
lemma bind_eq_error {x : Except ε α} {f : α → Except ε β} {e : ε} :
    (x >>= f) = .error e ↔ x = .error e ∨ ∃ a, x = .ok a ∧ f a = .error e := by
  cases x with
  | error e' => simp [bind, Except.bind]
  | ok a => simp [bind, Except.bind]

/-- A successful loop is a successful first turn and a successful rest. -/
lemma foldlM_cons_eq_ok {f : σ → α → Except ε σ} {x : α} {xs : List α} {s s' : σ} :
    (x :: xs).foldlM f s = .ok s' ↔ ∃ s₁, f s x = .ok s₁ ∧ xs.foldlM f s₁ = .ok s' := by
  rw [List.foldlM_cons]
  exact bind_eq_ok

/-- A successful map is a successful call an item. -/
lemma mapM_eq_ok {f : α → Except ε β} : ∀ {xs : List α} {ys : List β},
    xs.mapM f = .ok ys ↔ List.Forall₂ (fun x y => f x = .ok y) xs ys
  | [], ys => by
      rw [List.mapM_nil, List.forall₂_nil_left_iff]
      exact ⟨fun h => (Except.ok.inj h).symm, fun h => h ▸ rfl⟩
  | x :: xs, ys => by
      rw [List.mapM_cons, bind_eq_ok, List.forall₂_cons_left_iff]
      constructor
      · rintro ⟨y, hy, h⟩
        obtain ⟨rest, hrest, h⟩ := bind_eq_ok.mp h
        cases h
        exact ⟨y, rest, hy, mapM_eq_ok.mp hrest, rfl⟩
      · rintro ⟨y, rest, hy, hrest, rfl⟩
        exact ⟨y, hy, bind_eq_ok.mpr ⟨rest, mapM_eq_ok.mpr hrest, rfl⟩⟩

/-- Items related one by one: every item on the left has one on the right. -/
lemma exists_right {R : α → β → Prop} {xs : List α} {ys : List β} (h : List.Forall₂ R xs ys) {x : α}
    (hx : x ∈ xs) : ∃ y ∈ ys, R x y := by
  induction h with
  | nil => cases hx
  | @cons first result _ _ hfirst _ ih =>
    rcases List.mem_cons.mp hx with rfl | hx
    · exact ⟨result, List.mem_cons_self, hfirst⟩
    · obtain ⟨y, hy, hR⟩ := ih hx
      exact ⟨y, List.mem_cons_of_mem _ hy, hR⟩

lemma exists_left {R : α → β → Prop} {xs : List α} {ys : List β} (h : List.Forall₂ R xs ys) {y : β}
    (hy : y ∈ ys) : ∃ x ∈ xs, R x y := by
  obtain ⟨x, hx, hR⟩ := exists_right h.flip hy
  exact ⟨x, hx, hR⟩

/-- A part of a successful map. -/
lemma mapM_subset {f : α → Except ε β} {all : List α} {results : List β}
    (h : all.mapM f = .ok results) : ∀ {part : List α}, part ⊆ all →
      ∃ more, part.mapM f = .ok more ∧ more ⊆ results
  | [], _ => ⟨[], rfl, List.nil_subset _⟩
  | item :: part, hsub => by
      obtain ⟨more, hmore, hresults⟩ := mapM_subset h fun x hx => hsub (List.mem_cons_of_mem _ hx)
      obtain ⟨result, hresult, hitem⟩ := exists_right (mapM_eq_ok.mp h) (hsub List.mem_cons_self)
      refine ⟨result :: more, ?_, List.cons_subset.mpr ⟨hresult, hresults⟩⟩
      rw [List.mapM_cons, hitem, hmore]
      rfl

/-- A step whose error is forgotten. -/
lemma toOption_bind (x : Except ε α) (f : α → Except ε β) :
    (x >>= f).toOption = x.toOption.bind fun a => (f a).toOption := by
  cases x <;> rfl

/-- A check whose error is put into other words. -/
lemma mapError_eq_ok {ε' : Type*} {x : Except ε Unit} {f : ε → ε'} {u : Unit} :
    x.mapError f = .ok u ↔ x = .ok () := by
  cases x <;> simp [Except.mapError]

/-- A step whose error is put into other words. -/
lemma mapError_ok {ε' : Type*} {x : Except ε α} {f : ε → ε'} {a : α} :
    x.mapError f = .ok a ↔ x = .ok a := by
  cases x <;> simp [Except.mapError]

/-- A check of every item. -/
lemma forM_eq_ok {f : α → Except ε Unit} {u : Unit} : ∀ {xs : List α},
    xs.forM f = .ok u ↔ ∀ x ∈ xs, f x = .ok ()
  | [] => by
      change Except.ok () = Except.ok u ↔ _
      simp
  | x :: xs => by
      change (f x >>= fun _ => xs.forM f) = .ok u ↔ _
      rw [bind_eq_ok, List.forall_mem_cons]
      constructor
      · rintro ⟨⟨⟩, hx, hxs⟩
        exact ⟨hx, forM_eq_ok.mp hxs⟩
      · rintro ⟨hx, hxs⟩
        exact ⟨(), hx, forM_eq_ok.mpr hxs⟩

/-- A check of what may be there. -/
lemma option_forM_eq_ok {f : α → Except ε Unit} {x : Option α} {u : Unit} :
    x.forM f = .ok u ↔ ∀ a, x = some a → f a = .ok () := by
  cases x with
  | none =>
    change Except.ok () = Except.ok u ↔ _
    simp
  | some a => simp [Option.forM]

/-- **The loop rule**: what every successful turn keeps, a successful loop keeps. -/
theorem foldlM_invariant {P : σ → Prop} {f : σ → α → Except ε σ} :
    ∀ {xs : List α} {s s' : σ}, xs.foldlM f s = .ok s' → P s →
      (∀ s x s', x ∈ xs → P s → f s x = .ok s' → P s') → P s'
  | [], s, s', h, hs, _ => by
      cases h
      exact hs
  | x :: xs, s, s', h, hs, hstep => by
      obtain ⟨s₁, hx, hxs⟩ := foldlM_cons_eq_ok.mp h
      exact foldlM_invariant hxs (hstep s x s₁ (by simp) hs hx)
        fun t y t' hy => hstep t y t' (by simp [hy])

end Fallible

end ExperimentControl
