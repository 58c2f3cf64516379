import ExperimentControl.Library.Programs

/-!
# Programs that interfere

The rules of `Library.Programs` let a program without the lock only read.  Here it may also write, as
long as what it does is *calm*: the holder of the lock tolerates it between two of its own steps.
Assertions are then kept stable under what others may do, with the lock and without it.

* `Discipline` — the invariant, what others may do, and what they may do under another's lock.
* `wlp` — the weakest precondition of a program under a discipline, with `wlp_bind`.
* `Act.Sat` — triples for programs that may fail, in terms of the value of a success, with the rules
  `Sat.bind`, `Sat.attempt`, `Sat.lock` and `Sat.unlock`.
* **`Reachable.holds`**, **`Reachable.goes`** — in every run the invariant holds, every reply is
  justified, and the store moves as the discipline says.
-/

namespace ExperimentControl

/-- What the programs of a system keep, what may happen between two steps of one of them, and what
may happen there while it holds the lock. -/
structure Discipline (σ : Type) where
  inv : σ → Prop
  rely : σ → σ → Prop
  calm : σ → σ → Prop
  calm_refl : ∀ s, calm s s
  calm_trans : ∀ {s t u}, calm s t → calm t u → calm s u
  calm_rely : ∀ {s t}, calm s t → rely s t
  rely_trans : ∀ {s t u}, rely s t → rely t u → rely s u

namespace Discipline

variable {σ : Type} (D : Discipline σ)

/-- What others may do before the next step. -/
def Moved (held : Bool) (s t : σ) : Prop :=
  D.inv t ∧ if held then D.calm s t else D.rely s t

/-- What a step may do. -/
def Kept (held : Bool) (s t : σ) : Prop :=
  D.inv t ∧ if held then D.rely s t else D.calm s t

/-- An assertion that others do not disturb. -/
def Stable (held : Bool) (P : σ → Prop) : Prop :=
  ∀ {s t}, D.Moved held s t → P s → P t

variable {D}

lemma rely_refl (s : σ) : D.rely s s := D.calm_rely (D.calm_refl s)

lemma moved_self {s : σ} (hinv : D.inv s) (held : Bool) : D.Moved held s s := by
  refine ⟨hinv, ?_⟩
  cases held with
  | true => exact D.calm_refl s
  | false => exact D.rely_refl s

lemma kept_self {s : σ} (hinv : D.inv s) (held : Bool) : D.Kept held s s := by
  refine ⟨hinv, ?_⟩
  cases held with
  | true => exact D.rely_refl s
  | false => exact D.calm_refl s

lemma Moved.trans {held : Bool} {s t u : σ} (h : D.Moved held s t) (h' : D.Moved held t u) :
    D.Moved held s u := by
  refine ⟨h'.1, ?_⟩
  cases held with
  | true => exact D.calm_trans h.2 h'.2
  | false => exact D.rely_trans h.2 h'.2

lemma Kept.rely {held : Bool} {s t : σ} (h : D.Kept held s t) : D.rely s t := by
  cases held with
  | true => exact h.2
  | false => exact D.calm_rely h.2

/-- What one program does is what another one, whose lock it cannot hold, is prepared for. -/
lemma Kept.moved {held other : Bool} {s t : σ} (h : D.Kept held s t)
    (hexclusive : ¬(held = true ∧ other = true)) : D.Moved other s t := by
  refine ⟨h.1, ?_⟩
  cases other with
  | false => exact h.rely
  | true =>
    cases held with
    | true => exact absurd ⟨rfl, rfl⟩ hexclusive
    | false => exact h.2

lemma Stable.and {held : Bool} {P Q : σ → Prop} (hP : D.Stable held P) (hQ : D.Stable held Q) :
    D.Stable held fun s => P s ∧ Q s :=
  fun hmoved h => ⟨hP hmoved h.1, hQ hmoved h.2⟩

/-- What does not speak about the store is stable. -/
lemma stable_const {held : Bool} (p : Prop) : D.Stable held fun _ => p := fun _ h => h

end Discipline

/-! ## Weakest preconditions -/

section Wlp

variable {σ Op : Type} {Ans : Op → Type} {α β ε : Type}

/-- The weakest precondition of a program for a postcondition on its value, on whether it still holds
the lock, and on the store. -/
def wlp (W : World σ Op Ans) (D : Discipline σ) (post : α → Bool → σ → Prop) :
    Prog Op Ans α → Bool → σ → Prop
  | .done a, held, s => ∀ t, D.Moved held s t → post a held t
  | .call op next, held, s => ∀ t, D.Moved held s t →
      (∀ u, W.crash t op u → D.Kept held t u) ∧
        ∀ a u, W.exec t op a u → D.Kept held t u ∧ wlp W D post (next a) held u
  | .acquire next, held, s => ∀ t, D.Moved held s t →
      (held = false → wlp W D post (next true) true t) ∧ wlp W D post (next false) held t
  | .release next, held, s => ∀ t, D.Moved held s t → wlp W D post next false t

variable {W : World σ Op Ans} {D : Discipline σ} {post : α → Bool → σ → Prop}

/-- A weaker postcondition is easier to reach. -/
lemma wlp_mono {post' : α → Bool → σ → Prop} (hpost : ∀ a held s, post a held s → post' a held s) :
    ∀ {p : Prog Op Ans α} {held : Bool} {s : σ}, wlp W D post p held s → wlp W D post' p held s
  | .done a, _, _, h => fun t ht => hpost _ _ _ (h t ht)
  | .call _ _, _, _, h => fun t ht =>
      ⟨(h t ht).1, fun a u hu => ⟨((h t ht).2 a u hu).1, wlp_mono hpost ((h t ht).2 a u hu).2⟩⟩
  | .acquire _, _, _, h => fun t ht =>
      ⟨fun hf => wlp_mono hpost ((h t ht).1 hf), wlp_mono hpost (h t ht).2⟩
  | .release _, _, _, h => fun t ht => wlp_mono hpost (h t ht)

/-- **What others do before the next step does not matter.** -/
lemma wlp_moved {p : Prog Op Ans α} {held : Bool} {s t : σ} (h : wlp W D post p held s)
    (hst : D.Moved held s t) : wlp W D post p held t := by
  cases p with
  | done a => exact fun u hu => h u (hst.trans hu)
  | call op next => exact fun u hu => h u (hst.trans hu)
  | acquire next => exact fun u hu => h u (hst.trans hu)
  | release next => exact fun u hu => h u (hst.trans hu)

/-- **Sequencing**: the first program has to end where the second one may start. -/
theorem wlp_bind {post : β → Bool → σ → Prop} {f : α → Prog Op Ans β} :
    ∀ {p : Prog Op Ans α} {held : Bool} {s : σ}, D.inv s →
      wlp W D (fun a held t => D.inv t → wlp W D post (f a) held t) p held s →
      wlp W D post (p.bind f) held s
  | .done a, held, s, hinv, h => h s (D.moved_self hinv held) hinv
  | .call op next, held, s, hinv, h => fun t ht => by
      refine ⟨(h t ht).1, fun a u hu => ?_⟩
      obtain ⟨hkept, hnext⟩ := (h t ht).2 a u hu
      exact ⟨hkept, wlp_bind hkept.1 hnext⟩
  | .acquire next, held, s, hinv, h => fun t ht =>
      ⟨fun hf => wlp_bind ht.1 ((h t ht).1 hf), wlp_bind ht.1 (h t ht).2⟩
  | .release next, held, s, hinv, h => fun t ht => wlp_bind ht.1 (h t ht)

end Wlp

/-! ## Triples

A triple speaks about the success of a program that may fail: whatever the store is where it fails,
the invariant holds there.
-/

section Triples

variable {σ Op : Type} {Ans : Op → Type} {α β ε : Type}

/-- From a store with `P`, with or without the lock, every success is one with `Q`. -/
def Act.Sat (W : World σ Op Ans) (D : Discipline σ) (held : Bool) (P : σ → Prop)
    (x : Act Op Ans ε α) (Q : α → Bool → σ → Prop) : Prop :=
  ∀ s, D.inv s → P s → wlp W D (fun r held t => ∀ a, r = .ok a → Q a held t) x.run held s

variable {W : World σ Op Ans} {D : Discipline σ} {held : Bool} {P : σ → Prop}
  {Q : α → Bool → σ → Prop} {R : β → Bool → σ → Prop}

namespace Act.Sat

/-- Sequencing. -/
lemma bind {x : Act Op Ans ε α} {f : α → Act Op Ans ε β} (hx : Act.Sat W D held P x Q)
    (hf : ∀ a held, Act.Sat W D held (Q a held) (f a) R) : Act.Sat W D held P (x >>= f) R := by
  intro s hinv hP
  refine wlp_bind hinv (wlp_mono ?_ (hx s hinv hP))
  rintro (error | a) held t hQ hinvt
  · rintro u hu b ⟨⟩
  · exact hf a held t hinvt (hQ a rfl)

/-- Sequencing behind a program that keeps the lock as it is. -/
lemma bind_same {x : Act Op Ans ε α} {f : α → Act Op Ans ε β} {Q : α → σ → Prop}
    (hx : Act.Sat W D held P x fun a after t => after = held ∧ Q a t)
    (hf : ∀ a, Act.Sat W D held (Q a) (f a) R) : Act.Sat W D held P (x >>= f) R := by
  refine hx.bind fun a after s hinv hQ => ?_
  obtain ⟨rfl, hQ⟩ := hQ
  exact hf a s hinv hQ

lemma mono {P' : σ → Prop} {Q' : α → Bool → σ → Prop} {x : Act Op Ans ε α}
    (h : Act.Sat W D held P x Q) (hpre : ∀ s, P' s → P s)
    (hpost : ∀ a held s, Q a held s → Q' a held s) : Act.Sat W D held P' x Q' :=
  fun s hinv hP => wlp_mono (fun _ _ _ hr a ha => hpost _ _ _ (hr a ha)) (h s hinv (hpre s hP))

/-- A computation without operations. -/
lemma lift {r : Except ε α} (hstable : D.Stable held P) (h : ∀ a s, r = .ok a → P s → Q a held s) :
    Act.Sat W D held P (Act.lift r) Q :=
  fun _ _ hP _ ht a ha => h a _ ha (hstable ht hP)

lemma pure {a : α} (hstable : D.Stable held P) (h : ∀ s, P s → Q a held s) :
    Act.Sat W D held P (Pure.pure a : Act Op Ans ε α) Q :=
  fun _ _ hP _ ht _ ha => Except.ok.inj ha ▸ h _ (hstable ht hP)

/-- A computation without operations, then the rest. -/
lemma lift_bind {r : Except ε α} {f : α → Act Op Ans ε β} (hstable : D.Stable held P)
    (h : ∀ a, r = .ok a → Act.Sat W D held P (f a) R) :
    Act.Sat W D held P (Act.lift r >>= f) R :=
  (lift (Q := fun a after t => after = held ∧ r = .ok a ∧ P t) hstable
    fun a s ha hP => ⟨rfl, ha, hP⟩).bind_same fun a s hinv hP => h a hP.1 s hinv hP.2

/-- An operation: it keeps what it has to keep, and what a success says stays so. -/
lemma attempt {op : Op} {result : Ans op → Except ε α} (hstable : D.Stable held P)
    (hstays : ∀ a, D.Stable held (Q a held))
    (hcrash : ∀ s u, D.inv s → P s → W.crash s op u → D.Kept held s u)
    (hexec : ∀ s u a, D.inv s → P s → W.exec s op a u →
      D.Kept held s u ∧ ∀ b, result a = .ok b → Q b held u) :
    Act.Sat W D held P (Act.attempt op result) Q := by
  intro s hinv hP t ht
  have hPt := hstable ht hP
  refine ⟨fun u hu => hcrash t u ht.1 hPt hu, fun a u hu => ?_⟩
  obtain ⟨hkept, hQ⟩ := hexec t u a ht.1 hPt hu
  exact ⟨hkept, fun v hv b hb => hstays b hv (hQ b hb)⟩

/-- An operation that only reads: what it says stays so. -/
lemma read {op : Op} {result : Ans op → Except ε α} (hread : W.ReadOnly op)
    (hstable : D.Stable held P) (hstays : ∀ a, D.Stable held (Q a held))
    (hexec : ∀ s a, D.inv s → P s → W.exec s op a s → ∀ b, result a = .ok b → Q b held s) :
    Act.Sat W D held P (Act.attempt op result) Q := by
  refine attempt hstable hstays (fun s u hinv hP hu => ?_) fun s u a hinv hP hu => ?_
  · rw [hread.crash hu]
    exact D.kept_self hinv held
  · obtain rfl := hread.exec hu
    exact ⟨D.kept_self hinv held, hexec _ a hinv hP hu⟩

/-- Taking the lock. -/
lemma lock {busy : ε} {Q : Unit → Bool → σ → Prop} (hstable : D.Stable false P)
    (h : ∀ s, D.inv s → P s → Q () true s) (hstays : D.Stable true (Q () true)) :
    Act.Sat W D false P (Act.lock busy : Act Op Ans ε Unit) Q := by
  intro s hinv hP t ht
  refine ⟨fun _ u hu a ha => ?_, fun u hu a ha => by cases ha⟩
  exact hstays hu (h t ht.1 (hstable ht hP))

/-- Giving the lock back. -/
lemma unlock {Q : Unit → Bool → σ → Prop} (hstable : D.Stable held P)
    (h : ∀ s, D.inv s → P s → Q () false s) (hstays : D.Stable false (Q () false)) :
    Act.Sat W D held P (Act.unlock : Act Op Ans ε Unit) Q :=
  fun _ _ hP t ht _ hu _ _ => hstays hu (h t ht.1 (hstable ht hP))

/-- A failure kept as a value: what a success says has to stay so. -/
lemma outcome {x : Act Op Ans ε α} (hx : Act.Sat W D held P x Q)
    (hstays : ∀ a held, D.Stable held (Q a held)) :
    Act.Sat W D held P (Act.outcome x) fun r after t => ∀ a, r = .ok a → Q a after t := by
  intro s hinv hP
  refine wlp_bind hinv (wlp_mono (fun r after t hr _ u hu b hb a ha => ?_) (hx s hinv hP))
  obtain rfl := Except.ok.inj hb
  exact hstays a after hu (hr a ha)

/-- A condition of the program. -/
lemma ite {c : Prop} [Decidable c] {x y : Act Op Ans ε α}
    (hx : c → Act.Sat W D held P x Q) (hy : ¬c → Act.Sat W D held P y Q) :
    Act.Sat W D held P (if c then x else y) Q := by
  split_ifs with hc
  · exact hx hc
  · exact hy hc

end Act.Sat

end Triples

/-! ## Runs -/

section Runs

variable {σ Op : Type} {Ans : Op → Type} {α : Type}

/-- The invariant of a system: that of the discipline, at most one program with the lock, every
program on a path that its weakest precondition covers, and every reply justified. -/
structure Holds (W : World σ Op Ans) (D : Discipline σ) (post : α → σ → Prop)
    (c : Config σ Op Ans α) : Prop where
  inv : D.inv c.store
  exclusive : c.tasks.Pairwise fun t u => ¬(t.held = true ∧ u.held = true)
  tasks : ∀ t ∈ c.tasks, wlp W D (fun a _ s => post a s) t.prog t.held c.store
  replies : ∀ a ∈ c.replies, post a c.store

/-- What the programs of a system owe. -/
structure Disciplined (W : World σ Op Ans) (D : Discipline σ) (start : Set (Prog Op Ans α))
    (post : α → σ → Prop) : Prop where
  stable : ∀ {a s t}, post a s → D.rely s t → post a t
  start : ∀ p ∈ start, ∀ s, D.inv s → wlp W D (fun a _ s => post a s) p false s

variable {W : World σ Op Ans} {D : Discipline σ} {start : Set (Prog Op Ans α)} {post : α → σ → Prop}

/-- A program that does not run is not disturbed by the one that does. -/
lemma Holds.others {s s' : σ} {l r : List (Task Op Ans α)} {t : Task Op Ans α} {rs : List α}
    (h : Holds W D post ⟨s, l ++ t :: r, rs⟩) (hkept : D.Kept t.held s s') :
    ∀ u ∈ l ++ r, wlp W D (fun a _ s => post a s) u.prog u.held s' := by
  intro u hu
  have hwlp := h.tasks u (by simp only [List.mem_append, List.mem_cons] at hu ⊢; tauto)
  refine wlp_moved hwlp (hkept.moved ?_)
  have hpair := h.exclusive
  simp only [List.pairwise_append, List.pairwise_cons] at hpair
  rcases List.mem_append.mp hu with hu | hu
  · exact fun hboth => hpair.2.2 u hu t (by simp) hboth.symm
  · exact hpair.2.1.1 u hu

/-- The invariant after a program went on. -/
lemma Holds.advance (V : Disciplined W D start post) {s s' : σ} {l r : List (Task Op Ans α)}
    {t t' : Task Op Ans α} {rs : List α} (h : Holds W D post ⟨s, l ++ t :: r, rs⟩)
    (hkept : D.Kept t.held s s')
    (hexclusive : (l ++ t' :: r).Pairwise fun t u => ¬(t.held = true ∧ u.held = true))
    (hnext : wlp W D (fun a _ s => post a s) t'.prog t'.held s') :
    Holds W D post ⟨s', l ++ t' :: r, rs⟩ where
  inv := hkept.1
  exclusive := hexclusive
  tasks := by
    intro u hu
    have hothers := h.others hkept
    simp only [List.mem_append, List.mem_cons] at hu hothers
    rcases hu with hu | rfl | hu
    · exact hothers u (.inl hu)
    · exact hnext
    · exact hothers u (.inr hu)
  replies := fun a ha => V.stable (h.replies a ha) hkept.rely

/-- The invariant after a program went away. -/
lemma Holds.remove (V : Disciplined W D start post) {s s' : σ} {l r : List (Task Op Ans α)}
    {t : Task Op Ans α} {rs : List α} (h : Holds W D post ⟨s, l ++ t :: r, rs⟩)
    (hkept : D.Kept t.held s s') : Holds W D post ⟨s', l ++ r, rs⟩ where
  inv := hkept.1
  exclusive := exclusive_remove h.exclusive
  tasks := h.others hkept
  replies := fun a ha => V.stable (h.replies a ha) hkept.rely

/-- **One step keeps the invariant of the system**, and moves the store as programs may rely on. -/
lemma Holds.step (V : Disciplined W D start post) {c c' : Config σ Op Ans α}
    (h : Holds W D post c) (hstep : Step W start c c') :
    Holds W D post c' ∧ D.rely c.store c'.store := by
  cases hstep with
  | @spawn s ts rs p hp =>
    refine ⟨⟨h.inv, ?_, ?_, h.replies⟩, D.rely_refl s⟩
    · exact List.pairwise_cons.mpr ⟨fun u _ hboth => Bool.noConfusion hboth.1, h.exclusive⟩
    · intro t ht
      rcases List.mem_cons.mp ht with rfl | ht
      · exact V.start p hp s h.inv
      · exact h.tasks t ht
  | @call s s' l r rs op next held a hexec =>
    have hwlp := h.tasks ⟨.call op next, held⟩ (by simp)
    obtain ⟨hkept, hnext⟩ := (hwlp s (D.moved_self h.inv held)).2 a s' hexec
    exact ⟨h.advance V hkept (exclusive_replace h.exclusive id) hnext, hkept.rely⟩
  | @crash s s' l r rs op next held hcrash =>
    have hwlp := h.tasks ⟨.call op next, held⟩ (by simp)
    have hkept := (hwlp s (D.moved_self h.inv held)).1 s' hcrash
    exact ⟨h.remove V hkept, hkept.rely⟩
  | @kill s l r rs t => exact ⟨h.remove V (D.kept_self h.inv t.held), D.rely_refl s⟩
  | @acquire s l r rs next hfree =>
    have hwlp := h.tasks ⟨.acquire next, false⟩ (by simp)
    have hnext := (hwlp s (D.moved_self h.inv false)).1 rfl
    refine ⟨h.advance V (D.kept_self h.inv false) ?_ hnext, D.rely_refl s⟩
    have hrest := exclusive_remove h.exclusive
    simp only [List.pairwise_append, List.pairwise_cons, List.mem_cons, forall_eq_or_imp,
      List.mem_append] at hrest hfree ⊢
    exact ⟨hrest.1, ⟨fun u hu hboth => by simp [hfree u (.inr hu)] at hboth, hrest.2.1⟩,
      fun u hu => ⟨fun hboth => by simp [hfree u (.inl hu)] at hboth, hrest.2.2 u hu⟩⟩
  | @busy s l r rs next held =>
    have hwlp := h.tasks ⟨.acquire next, held⟩ (by simp)
    have hnext := (hwlp s (D.moved_self h.inv held)).2
    exact ⟨h.advance V (D.kept_self h.inv held) (exclusive_replace h.exclusive id) hnext,
      D.rely_refl s⟩
  | @release s l r rs next held =>
    have hwlp := h.tasks ⟨.release next, held⟩ (by simp)
    refine ⟨h.advance V (D.kept_self h.inv held) ?_ (hwlp s (D.moved_self h.inv held)), D.rely_refl s⟩
    exact exclusive_replace h.exclusive fun hfalse => Bool.noConfusion hfalse
  | @finish s l r rs a held =>
    have hwlp := h.tasks ⟨.done a, held⟩ (by simp)
    have hremove := h.remove V (D.kept_self h.inv held)
    refine ⟨⟨hremove.inv, hremove.exclusive, hremove.tasks, ?_⟩, D.rely_refl s⟩
    intro b hb
    rcases List.mem_cons.mp hb with rfl | hb
    · exact hwlp s (D.moved_self h.inv held)
    · exact h.replies b hb

/-- The invariant of the system along a run, with what happened to the store. -/
lemma Holds.steps (V : Disciplined W D start post) {c c' : Config σ Op Ans α}
    (h : Holds W D post c) (hsteps : Steps W start c c') :
    Holds W D post c' ∧ D.rely c.store c'.store := by
  induction hsteps with
  | refl => exact ⟨h, D.rely_refl _⟩
  | tail _ hstep ih =>
    obtain ⟨hholds, hrely⟩ := ih.1.step V hstep
    exact ⟨hholds, D.rely_trans ih.2 hrely⟩

lemma Holds.initial {s : σ} (hinv : D.inv s) :
    Holds W D post (⟨s, [], []⟩ : Config σ Op Ans α) :=
  ⟨hinv, List.Pairwise.nil, fun _ ht => by simp at ht, fun _ ha => by simp at ha⟩

/-- **Disciplined programs keep the invariant** in every run, and every reply is justified. -/
theorem Reachable.holds (V : Disciplined W D start post) {s : σ} (hinv : D.inv s)
    {c : Config σ Op Ans α} (hreach : Reachable W start s c) : Holds W D post c :=
  ((Holds.initial hinv).steps V hreach).1

/-- **Between any two points of a run** the store moves as programs may rely on. -/
theorem Reachable.goes (V : Disciplined W D start post) {s : σ} (hinv : D.inv s)
    {c c' : Config σ Op Ans α} (hreach : Reachable W start s c) (hsteps : Steps W start c c') :
    D.rely c.store c'.store :=
  ((hreach.holds V hinv).steps V hsteps).2

end Runs

end ExperimentControl
