import Mathlib

/-!
# Programs over a shared durable store

A program issues operations on a durable store one at a time and may hold an exclusive lock.  Several
programs run interleaved, each may stop at any point, and an operation that is cut short leaves the
store as the crash relation says.  What a program does is judged by a weakest precondition whose
conditions are an invariant, kept by every single operation, and a relation that every operation
satisfies, on which programs without the lock can rely.

* `Prog` — programs, and `Act`, programs that may fail.
* `wp` — the weakest precondition of a program, and its rules `wp_mono`, `wp_moved`, `wp_bind`.
* `Config`, `Step` — interleaved runs with crashes.
* **`Reachable.sound`** — when every program that may be started satisfies its weakest precondition,
  the invariant holds in every reachable configuration and every reply given there is justified.
* **`Reachable.rely`** — what programs may rely on holds between any two points of a run.
* `soloAll` — programs run one after another against a scripted store, which `soloAll_steps` makes a
  run of the system.
-/

namespace ExperimentControl

/-! ## Programs -/

/-- A program: it ends with a value, issues an operation and continues with the answer, tries to
take the lock and is told whether it got it, or gives the lock back. -/
inductive Prog (Op : Type) (Ans : Op → Type) (α : Type) : Type
  | done (value : α)
  | call (op : Op) (next : Ans op → Prog Op Ans α)
  | acquire (next : Bool → Prog Op Ans α)
  | release (next : Prog Op Ans α)

section Prog

variable {Op : Type} {Ans : Op → Type} {α β ε : Type}

/-- Sequencing. -/
def Prog.bind : Prog Op Ans α → (α → Prog Op Ans β) → Prog Op Ans β
  | .done a, f => f a
  | .call op next, f => .call op fun a => (next a).bind f
  | .acquire next, f => .acquire fun got => (next got).bind f
  | .release next, f => .release (next.bind f)

instance : Monad (Prog Op Ans) where
  pure := .done
  bind := Prog.bind

/-- A program that may fail. -/
abbrev Act (Op : Type) (Ans : Op → Type) (ε α : Type) := ExceptT ε (Prog Op Ans) α

/-- An operation whose answer is used as it is. -/
def Act.ask (op : Op) : Act Op Ans ε (Ans op) := ExceptT.mk (.call op fun a => .done (.ok a))

/-- An operation that may fail, with its failure passed on. -/
def Act.attempt (op : Op) (result : Ans op → Except ε α) : Act Op Ans ε α :=
  ExceptT.mk (.call op fun a => .done (result a))

/-- Take the lock or fail. -/
def Act.lock (busy : ε) : Act Op Ans ε Unit :=
  ExceptT.mk (.acquire fun got => .done (if got then .ok () else .error busy))

/-- Give the lock back. -/
def Act.unlock : Act Op Ans ε Unit := ExceptT.mk (.release (.done (.ok ())))

/-- A computation without operations. -/
def Act.lift (result : Except ε α) : Act Op Ans ε α := ExceptT.mk (.done result)

/-- Run to the end and keep the failure as a value. -/
def Act.outcome (x : Act Op Ans ε α) : Act Op Ans ε (Except ε α) :=
  ExceptT.mk (x.run.bind fun r => .done (.ok r))

end Prog

/-! ## Stores and contracts -/

/-- The store: what an operation may answer and do, and what it may leave behind when the program
stops in the middle of it. -/
structure World (σ Op : Type) (Ans : Op → Type) where
  exec : σ → (op : Op) → Ans op → σ → Prop
  crash : σ → Op → σ → Prop

/-- What programs keep and what they may rely on. -/
structure Contract (σ : Type) where
  inv : σ → Prop
  rely : σ → σ → Prop
  refl : ∀ s, rely s s
  trans : ∀ {s t u}, rely s t → rely t u → rely s u

section Wp

variable {σ Op : Type} {Ans : Op → Type} {α β ε : Type}

/-- How the store may move before the next step: not at all under the lock, and otherwise as others
may move it. -/
def Contract.Moved (C : Contract σ) (held : Bool) (s t : σ) : Prop :=
  if held then t = s else C.rely s t ∧ C.inv t

/-- What a step must keep: the invariant and the relation under the lock, and without the lock the
store itself. -/
def Contract.Kept (C : Contract σ) (held : Bool) (s t : σ) : Prop :=
  if held then C.inv t ∧ C.rely s t else t = s

/-- **The weakest precondition** of a program for a postcondition on its value, on whether it still
holds the lock, and on the store. -/
def wp (W : World σ Op Ans) (C : Contract σ) (post : α → Bool → σ → Prop) :
    Prog Op Ans α → Bool → σ → Prop
  | .done a, held, s => ∀ t, C.Moved held s t → post a held t
  | .call op next, held, s => ∀ t, C.Moved held s t →
      (∀ u, W.crash t op u → C.Kept held t u) ∧
        ∀ a u, W.exec t op a u → C.Kept held t u ∧ wp W C post (next a) held u
  | .acquire next, held, s => ∀ t, C.Moved held s t →
      (held = false → wp W C post (next true) true t) ∧ wp W C post (next false) held t
  | .release next, _, s => wp W C post next false s

variable {W : World σ Op Ans} {C : Contract σ} {post : α → Bool → σ → Prop}

lemma Contract.moved_self (C : Contract σ) {s : σ} (hinv : C.inv s) (held : Bool) :
    C.Moved held s s := by
  unfold Contract.Moved
  split_ifs
  · rfl
  · exact ⟨C.refl s, hinv⟩

/-- A move keeps the invariant and the relation, under the lock or not. -/
lemma Contract.Moved.sound {C : Contract σ} {held : Bool} {s t : σ} (h : C.Moved held s t)
    (hinv : C.inv s) : C.inv t ∧ C.rely s t := by
  unfold Contract.Moved at h
  split_ifs at h
  · subst h
    exact ⟨hinv, C.refl _⟩
  · exact ⟨h.2, h.1⟩

lemma Contract.Kept.sound {C : Contract σ} {held : Bool} {s t : σ} (h : C.Kept held s t)
    (hinv : C.inv s) : C.inv t ∧ C.rely s t := by
  unfold Contract.Kept at h
  split_ifs at h
  · exact h
  · subst h
    exact ⟨hinv, C.refl _⟩

/-- A weaker postcondition is easier to reach. -/
lemma wp_mono {post' : α → Bool → σ → Prop} (hpost : ∀ a held s, post a held s → post' a held s) :
    ∀ {p : Prog Op Ans α} {held : Bool} {s : σ}, wp W C post p held s → wp W C post' p held s
  | .done a, _, _, h => fun t ht => hpost _ _ _ (h t ht)
  | .call _ _, _, _, h => fun t ht =>
      ⟨(h t ht).1, fun a u hu => ⟨((h t ht).2 a u hu).1, wp_mono hpost ((h t ht).2 a u hu).2⟩⟩
  | .acquire _, _, _, h => fun t ht =>
      ⟨fun hf => wp_mono hpost ((h t ht).1 hf), wp_mono hpost (h t ht).2⟩
  | .release next, _, s, h => by
      rw [wp] at h ⊢
      exact wp_mono hpost h

/-- **Without the lock, what others do does not matter.** -/
lemma wp_moved : ∀ {p : Prog Op Ans α} {s t : σ}, wp W C post p false s → C.rely s t →
    wp W C post p false t
  | .done _, _, _, h, hst => fun u hu => h u ⟨C.trans hst hu.1, hu.2⟩
  | .call _ _, _, _, h, hst => fun u hu => h u ⟨C.trans hst hu.1, hu.2⟩
  | .acquire _, _, _, h, hst => fun u hu => h u ⟨C.trans hst hu.1, hu.2⟩
  | .release next, _, _, h, hst => by
      rw [wp] at h ⊢
      exact wp_moved h hst

/-- **Sequencing**: the first program has to end where the second one may start. -/
theorem wp_bind {post : β → Bool → σ → Prop} {f : α → Prog Op Ans β} :
    ∀ {p : Prog Op Ans α} {held : Bool} {s : σ}, C.inv s →
      wp W C (fun a held t => C.inv t → wp W C post (f a) held t) p held s →
      wp W C post (p.bind f) held s
  | .done a, held, s, hinv, h => h s (C.moved_self hinv held) hinv
  | .call op next, held, s, hinv, h => fun t ht => by
      have hinvt := (ht.sound hinv).1
      refine ⟨(h t ht).1, fun a u hu => ?_⟩
      obtain ⟨hkept, hnext⟩ := (h t ht).2 a u hu
      exact ⟨hkept, wp_bind (hkept.sound hinvt).1 hnext⟩
  | .acquire next, held, s, hinv, h => fun t ht => by
      have hinvt := (ht.sound hinv).1
      exact ⟨fun hf => wp_bind hinvt ((h t ht).1 hf), wp_bind hinvt (h t ht).2⟩
  | .release next, held, s, hinv, h => by
      rw [Prog.bind, wp]
      rw [wp] at h
      exact wp_bind hinv h

/-! ## Rules under the lock

With the lock held nothing moves between two operations, so the rules speak about the store at hand.
-/

lemma wp_done_held {a : α} {s : σ} : wp W C post (.done a) true s ↔ post a true s := by
  simp [wp, Contract.Moved]

lemma wp_call_held {op : Op} {next : Ans op → Prog Op Ans α} {s : σ} :
    wp W C post (.call op next) true s ↔
      (∀ u, W.crash s op u → C.inv u ∧ C.rely s u) ∧
        ∀ a u, W.exec s op a u → (C.inv u ∧ C.rely s u) ∧ wp W C post (next a) true u := by
  simp [wp, Contract.Moved, Contract.Kept]

/-! ## Rules for programs that may fail

A failure ends a sequence, so the rest of it only has to be considered after a success.
-/

/-- The postcondition of the first part of a sequence. -/
def thenPost (W : World σ Op Ans) (C : Contract σ) (post : Except ε β → Bool → σ → Prop)
    (f : α → Act Op Ans ε β) : Except ε α → Bool → σ → Prop
  | .ok a, held, s => C.inv s → wp W C post (f a).run held s
  | .error e, held, s => C.inv s → wp W C post (.done (.error e)) held s

/-- An operation that never changes the store. -/
structure World.ReadOnly (W : World σ Op Ans) (op : Op) : Prop where
  crash : ∀ {s u}, W.crash s op u → u = s
  exec : ∀ {s a u}, W.exec s op a u → u = s

section Fallible

variable {post : Except ε β → Bool → σ → Prop} {s : σ} {held : Bool}

/-- **Sequencing of programs that may fail.** -/
theorem wp_act_bind {x : Act Op Ans ε α} {f : α → Act Op Ans ε β} (hinv : C.inv s)
    (h : wp W C (thenPost W C post f) x.run held s) : wp W C post (x >>= f).run held s := by
  refine wp_bind hinv (wp_mono ?_ h)
  rintro (e | a) held t hr hinvt
  · exact hr hinvt
  · exact hr hinvt

lemma wp_pure_held {a : β} (h : post (.ok a) true s) :
    wp W C post (pure a : Act Op Ans ε β).run true s :=
  wp_done_held.mpr h

lemma wp_lift_held {r : Except ε β} (h : post r true s) :
    wp W C post (Act.lift r : Act Op Ans ε β).run true s :=
  wp_done_held.mpr h

/-- A computation without operations, then the rest. -/
lemma wp_lift_bind_held {r : Except ε α} {f : α → Act Op Ans ε β} (hinv : C.inv s)
    (hok : ∀ a, r = .ok a → wp W C post (f a).run true s)
    (herr : ∀ e, r = .error e → post (.error e) true s) :
    wp W C post (Act.lift r >>= f : Act Op Ans ε β).run true s := by
  refine wp_act_bind hinv (wp_lift_held ?_)
  cases r with
  | error e => exact fun _ => wp_done_held.mpr (herr e rfl)
  | ok a => exact fun _ => hok a rfl

/-- An operation under the lock. -/
lemma wp_attempt_held {op : Op} {result : Ans op → Except ε β}
    (hcrash : ∀ u, W.crash s op u → C.inv u ∧ C.rely s u)
    (hexec : ∀ a u, W.exec s op a u → (C.inv u ∧ C.rely s u) ∧ post (result a) true u) :
    wp W C post (Act.attempt op result).run true s :=
  wp_call_held.mpr ⟨hcrash, fun a u hu => ⟨(hexec a u hu).1, wp_done_held.mpr (hexec a u hu).2⟩⟩

/-- Under the lock, an operation that only reads leaves the store at hand. -/
lemma wp_attempt_read_held {op : Op} {result : Ans op → Except ε β} (hread : W.ReadOnly op)
    (hinv : C.inv s) (hexec : ∀ a, W.exec s op a s → post (result a) true s) :
    wp W C post (Act.attempt op result).run true s := by
  refine wp_attempt_held (fun u hu => ?_) fun a u hu => ?_
  · rw [hread.crash hu]
    exact ⟨hinv, C.refl s⟩
  · obtain rfl := hread.exec hu
    exact ⟨⟨hinv, C.refl _⟩, hexec a hu⟩

/-- Without the lock, an operation that only reads tells something about the past. -/
lemma wp_attempt_read_free {op : Op} {result : Ans op → Except ε β} (hread : W.ReadOnly op)
    (hexec : ∀ a u, C.rely s u → C.inv u → post (result a) false u) :
    wp W C post (Act.attempt op result).run false s := by
  intro t ht
  refine ⟨fun u hu => hread.crash hu, fun a u hu => ⟨hread.exec hu, ?_⟩⟩
  obtain rfl := hread.exec hu
  exact fun v hv => hexec a v (C.trans ht.1 hv.1) hv.2

/-- Taking the lock fixes some later store. -/
lemma wp_lock {busy : ε} {post : Except ε Unit → Bool → σ → Prop}
    (hgot : ∀ t, C.rely s t → C.inv t → post (.ok ()) true t)
    (hbusy : ∀ t, C.rely s t → C.inv t → post (.error busy) false t) :
    wp W C post (Act.lock busy : Act Op Ans ε Unit).run false s := by
  intro t ht
  refine ⟨fun _ => wp_done_held.mpr (hgot t ht.1 ht.2), fun u hu => ?_⟩
  exact hbusy u (C.trans ht.1 hu.1) hu.2

lemma wp_unlock {post : Except ε Unit → Bool → σ → Prop}
    (h : ∀ t, C.rely s t → C.inv t → post (.ok ()) false t) :
    wp W C post (Act.unlock : Act Op Ans ε Unit).run true s :=
  fun t ht => h t ht.1 ht.2

/-- A failure kept as a value. -/
lemma wp_outcome {x : Act Op Ans ε α} {post : Except ε (Except ε α) → Bool → σ → Prop}
    (hinv : C.inv s)
    (h : wp W C (fun r held t => ∀ u, C.Moved held t u → post (.ok r) held u) x.run held s) :
    wp W C post (Act.outcome x).run held s := by
  refine wp_bind hinv (wp_mono ?_ h)
  intro r held t hr _
  exact hr

end Fallible

/-! ## Programs that only read -/

/-- Every operation of the program only reads, and it leaves the lock alone. -/
def Prog.Reads (W : World σ Op Ans) : Prog Op Ans α → Prop
  | .done _ => True
  | .call op next => W.ReadOnly op ∧ ∀ a, (next a).Reads W
  | .acquire _ => False
  | .release _ => False

lemma Prog.Reads.bind {f : α → Prog Op Ans β} :
    ∀ {p : Prog Op Ans α}, p.Reads W → (∀ a, (f a).Reads W) → (p.bind f).Reads W
  | .done a, _, hf => hf a
  | .call _ _, hp, hf => ⟨hp.1, fun a => (hp.2 a).bind hf⟩
  | .acquire _, hp, _ => hp.elim
  | .release _, hp, _ => hp.elim

/-- A failing program that only reads. -/
abbrev Act.Reads (W : World σ Op Ans) (x : Act Op Ans ε α) : Prop := x.run.Reads W

lemma Act.Reads.pure (a : α) : Act.Reads W (Pure.pure a : Act Op Ans ε α) := trivial

lemma Act.Reads.lift (r : Except ε α) : Act.Reads W (Act.lift r : Act Op Ans ε α) := trivial

lemma Act.Reads.attempt {op : Op} (hop : W.ReadOnly op) (result : Ans op → Except ε α) :
    Act.Reads W (Act.attempt op result) :=
  ⟨hop, fun _ => trivial⟩

lemma Act.Reads.bind {x : Act Op Ans ε α} {f : α → Act Op Ans ε β} (hx : x.Reads W)
    (hf : ∀ a, (f a).Reads W) : (x >>= f).Reads W := by
  refine Prog.Reads.bind hx ?_
  rintro (e | a)
  · exact trivial
  · exact hf a

lemma Act.Reads.outcome {x : Act Op Ans ε α} (hx : x.Reads W) : (Act.outcome x).Reads W :=
  Prog.Reads.bind hx fun _ => trivial

/-- Reading under the lock leaves the store at hand. -/
lemma wp_reads_held {s : σ} (hinv : C.inv s) :
    ∀ {p : Prog Op Ans α}, p.Reads W → (∀ a, post a true s) → wp W C post p true s
  | .done a, _, h => wp_done_held.mpr (h a)
  | .call op next, hp, h => by
      refine wp_call_held.mpr ⟨fun u hu => ?_, fun a u hu => ?_⟩
      · rw [hp.1.crash hu]
        exact ⟨hinv, C.refl s⟩
      · rw [hp.1.exec hu]
        exact ⟨⟨hinv, C.refl s⟩, wp_reads_held hinv (hp.2 a) h⟩
  | .acquire _, hp, _ => hp.elim
  | .release _, hp, _ => hp.elim

/-- Reading without the lock ends at some later store. -/
lemma wp_reads_free :
    ∀ {p : Prog Op Ans α} {s : σ}, p.Reads W → (∀ a t, C.rely s t → C.inv t → post a false t) →
      wp W C post p false s
  | .done a, _, _, h => fun t ht => h a t ht.1 ht.2
  | .call op next, s, hp, h => by
      intro t ht
      refine ⟨fun u hu => hp.1.crash hu, fun a u hu => ⟨hp.1.exec hu, ?_⟩⟩
      rw [hp.1.exec hu]
      exact wp_reads_free (hp.2 a) fun b v hv => h b v (C.trans ht.1 hv)
  | .acquire _, _, hp, _ => hp.elim
  | .release _, _, hp, _ => hp.elim

section Sequences

variable {post : Except ε β → Bool → σ → Prop} {s : σ}

/-- Read under the lock, then go on with the store at hand. -/
lemma wp_reads_bind_held {x : Act Op Ans ε α} {f : α → Act Op Ans ε β} (hx : x.Reads W)
    (hinv : C.inv s) (hok : ∀ a, wp W C post (f a).run true s)
    (herr : ∀ e, post (.error e) true s) : wp W C post (x >>= f).run true s := by
  refine wp_act_bind hinv (wp_reads_held hinv hx ?_)
  rintro (e | a) _
  · exact wp_done_held.mpr (herr e)
  · exact hok a

/-- Read without the lock, then go on with a later store. -/
lemma wp_reads_bind_free {x : Act Op Ans ε α} {f : α → Act Op Ans ε β} (hx : x.Reads W)
    (hinv : C.inv s) (hok : ∀ a t, C.rely s t → C.inv t → wp W C post (f a).run false t)
    (herr : ∀ e t, C.rely s t → C.inv t → post (.error e) false t) :
    wp W C post (x >>= f).run false s := by
  refine wp_act_bind hinv (wp_reads_free hx ?_)
  rintro (e | a) t hst hinvt _
  · exact fun u hu => herr e u (C.trans hst hu.1) hu.2
  · exact hok a t hst hinvt

/-- Take the lock, then go on with some later store. -/
lemma wp_lock_bind {busy : ε} {f : Unit → Act Op Ans ε β} (hinv : C.inv s)
    (hgot : ∀ t, C.rely s t → C.inv t → wp W C post (f ()).run true t)
    (hbusy : ∀ t, C.rely s t → C.inv t → post (.error busy) false t) :
    wp W C post (Act.lock busy >>= f : Act Op Ans ε β).run false s := by
  refine wp_act_bind hinv (wp_lock (fun t hst hinvt _ => hgot t hst hinvt) ?_)
  exact fun t hst _ _ u hu => hbusy u (C.trans hst hu.1) hu.2

/-- Give the lock back, then go on with some later store. -/
lemma wp_unlock_bind {f : Unit → Act Op Ans ε β} (hinv : C.inv s)
    (h : ∀ t, C.rely s t → C.inv t → wp W C post (f ()).run false t) :
    wp W C post (Act.unlock >>= f : Act Op Ans ε β).run true s :=
  wp_act_bind hinv (wp_unlock fun t hst hinvt _ => h t hst hinvt)

end Sequences

end Wp

/-! ## Interleaved runs -/

/-- A running program, and whether it holds the lock. -/
structure Task (Op : Type) (Ans : Op → Type) (α : Type) where
  prog : Prog Op Ans α
  held : Bool

/-- The store, the running programs and the replies that were given. -/
structure Config (σ Op : Type) (Ans : Op → Type) (α : Type) where
  store : σ
  tasks : List (Task Op Ans α)
  replies : List α

section Runs

variable {σ Op : Type} {Ans : Op → Type} {α : Type}

/-- **One step of the system.**  Programs of `start` may be started at any time, any running program
may stop anywhere, and the lock is free again when its holder ends or stops. -/
inductive Step (W : World σ Op Ans) (start : Set (Prog Op Ans α)) :
    Config σ Op Ans α → Config σ Op Ans α → Prop
  | spawn {s ts rs p} (hp : p ∈ start) : Step W start ⟨s, ts, rs⟩ ⟨s, ⟨p, false⟩ :: ts, rs⟩
  | call {s s' l r rs op next held} (a : Ans op) (h : W.exec s op a s') :
      Step W start ⟨s, l ++ ⟨.call op next, held⟩ :: r, rs⟩ ⟨s', l ++ ⟨next a, held⟩ :: r, rs⟩
  | crash {s s' l r rs op next held} (h : W.crash s op s') :
      Step W start ⟨s, l ++ ⟨.call op next, held⟩ :: r, rs⟩ ⟨s', l ++ r, rs⟩
  | kill {s l r rs t} : Step W start ⟨s, l ++ t :: r, rs⟩ ⟨s, l ++ r, rs⟩
  | acquire {s l r rs next} (hfree : ∀ t ∈ l ++ r, t.held = false) :
      Step W start ⟨s, l ++ ⟨.acquire next, false⟩ :: r, rs⟩ ⟨s, l ++ ⟨next true, true⟩ :: r, rs⟩
  | busy {s l r rs next held} :
      Step W start ⟨s, l ++ ⟨.acquire next, held⟩ :: r, rs⟩ ⟨s, l ++ ⟨next false, held⟩ :: r, rs⟩
  | release {s l r rs next held} :
      Step W start ⟨s, l ++ ⟨.release next, held⟩ :: r, rs⟩ ⟨s, l ++ ⟨next, false⟩ :: r, rs⟩
  | finish {s l r rs a held} :
      Step W start ⟨s, l ++ ⟨.done a, held⟩ :: r, rs⟩ ⟨s, l ++ r, a :: rs⟩

/-- Any number of steps. -/
abbrev Steps (W : World σ Op Ans) (start : Set (Prog Op Ans α)) :
    Config σ Op Ans α → Config σ Op Ans α → Prop :=
  Relation.ReflTransGen (Step W start)

/-- The configurations of the runs that start with the store `s` and nothing running. -/
def Reachable (W : World σ Op Ans) (start : Set (Prog Op Ans α)) (s : σ)
    (c : Config σ Op Ans α) : Prop :=
  Steps W start ⟨s, [], []⟩ c

/-- The system invariant: the store satisfies the contract's invariant, at most one program holds
the lock, every running program is on a path its weakest precondition covers, and every reply is
justified. -/
structure Sound (W : World σ Op Ans) (C : Contract σ) (post : α → σ → Prop)
    (c : Config σ Op Ans α) : Prop where
  inv : C.inv c.store
  exclusive : c.tasks.Pairwise fun t u => ¬(t.held = true ∧ u.held = true)
  tasks : ∀ t ∈ c.tasks, wp W C (fun a _ s => post a s) t.prog t.held c.store
  replies : ∀ a ∈ c.replies, post a c.store

/-- What the programs of a system owe. -/
structure Verified (W : World σ Op Ans) (C : Contract σ) (start : Set (Prog Op Ans α))
    (post : α → σ → Prop) : Prop where
  stable : ∀ {a s t}, post a s → C.rely s t → post a t
  start : ∀ p ∈ start, ∀ s, C.inv s → wp W C (fun a _ s => post a s) p false s

variable {W : World σ Op Ans} {C : Contract σ} {start : Set (Prog Op Ans α)} {post : α → σ → Prop}

/-- A task that does not run is not disturbed: without the lock it relies on what is kept, and with
the lock it is the only one that can change the store. -/
lemma Sound.others {s s' : σ} {l r : List (Task Op Ans α)} {t : Task Op Ans α} {rs : List α}
    (h : Sound W C post ⟨s, l ++ t :: r, rs⟩) (hkept : C.Kept t.held s s') :
    ∀ u ∈ l ++ r, wp W C (fun a _ s => post a s) u.prog u.held s' := by
  intro u hu
  have hwp := h.tasks u (by simp only [List.mem_append, List.mem_cons] at hu ⊢; tauto)
  cases hheld : u.held with
  | false =>
    rw [hheld] at hwp
    exact wp_moved hwp (hkept.sound h.inv).2
  | true =>
    have hfree : t.held = false := by
      have hpair := h.exclusive
      simp only [List.pairwise_append, List.pairwise_cons] at hpair
      rcases List.mem_append.mp hu with hu | hu
      · have := hpair.2.2 u hu t (by simp)
        simp only [hheld, true_and, Bool.not_eq_true] at this
        exact this
      · have := hpair.2.1.1 u hu
        simp only [hheld, and_true, Bool.not_eq_true] at this
        exact this
    rw [hheld] at hwp
    simp only [Contract.Kept, hfree, Bool.false_eq_true, if_false] at hkept
    exact hkept ▸ hwp

/-- Exclusiveness after a task is replaced by one that holds the lock no longer than before. -/
lemma exclusive_replace {l r : List (Task Op Ans α)} {t t' : Task Op Ans α}
    (h : (l ++ t :: r).Pairwise fun t u => ¬(t.held = true ∧ u.held = true))
    (hheld : t'.held = true → t.held = true) :
    (l ++ t' :: r).Pairwise fun t u => ¬(t.held = true ∧ u.held = true) := by
  simp only [List.pairwise_append, List.pairwise_cons, List.mem_cons, forall_eq_or_imp] at h ⊢
  refine ⟨h.1, ⟨fun u hu hboth => h.2.1.1 u hu ⟨hheld hboth.1, hboth.2⟩, h.2.1.2⟩, fun u hu => ?_⟩
  exact ⟨fun hboth => (h.2.2 u hu).1 ⟨hboth.1, hheld hboth.2⟩, (h.2.2 u hu).2⟩

lemma exclusive_remove {l r : List (Task Op Ans α)} {t : Task Op Ans α}
    (h : (l ++ t :: r).Pairwise fun t u => ¬(t.held = true ∧ u.held = true)) :
    (l ++ r).Pairwise fun t u => ¬(t.held = true ∧ u.held = true) :=
  h.sublist (List.Sublist.append_left (List.sublist_cons_self t r) l)

/-- The invariant after a task went on. -/
lemma Sound.advance (V : Verified W C start post) {s s' : σ} {l r : List (Task Op Ans α)}
    {t t' : Task Op Ans α} {rs : List α} (h : Sound W C post ⟨s, l ++ t :: r, rs⟩)
    (hkept : C.Kept t.held s s')
    (hexcl : (l ++ t' :: r).Pairwise fun t u => ¬(t.held = true ∧ u.held = true))
    (hnext : wp W C (fun a _ s => post a s) t'.prog t'.held s') :
    Sound W C post ⟨s', l ++ t' :: r, rs⟩ where
  inv := (hkept.sound h.inv).1
  exclusive := hexcl
  tasks := by
    intro u hu
    have hothers := h.others hkept
    simp only [List.mem_append, List.mem_cons] at hu hothers
    rcases hu with hu | rfl | hu
    · exact hothers u (.inl hu)
    · exact hnext
    · exact hothers u (.inr hu)
  replies := fun a ha => V.stable (h.replies a ha) (hkept.sound h.inv).2

/-- The invariant after a task went away, with the replies it leaves. -/
lemma Sound.remove (V : Verified W C start post) {s s' : σ} {l r : List (Task Op Ans α)}
    {t : Task Op Ans α} {rs : List α} (h : Sound W C post ⟨s, l ++ t :: r, rs⟩)
    (hkept : C.Kept t.held s s') : Sound W C post ⟨s', l ++ r, rs⟩ where
  inv := (hkept.sound h.inv).1
  exclusive := exclusive_remove h.exclusive
  tasks := h.others hkept
  replies := fun a ha => V.stable (h.replies a ha) (hkept.sound h.inv).2

lemma Contract.kept_self (C : Contract σ) {s : σ} (hinv : C.inv s) (held : Bool) :
    C.Kept held s s := by
  unfold Contract.Kept
  split_ifs
  · exact ⟨hinv, C.refl s⟩
  · rfl

/-- **One step keeps the system invariant, and moves the store as others may rely on.** -/
lemma Sound.step (V : Verified W C start post) {c c' : Config σ Op Ans α}
    (h : Sound W C post c) (hstep : Step W start c c') :
    Sound W C post c' ∧ C.rely c.store c'.store := by
  cases hstep with
  | @spawn s ts rs p hp =>
    refine ⟨⟨h.inv, ?_, ?_, h.replies⟩, C.refl s⟩
    · exact List.pairwise_cons.mpr ⟨fun u _ hboth => Bool.noConfusion hboth.1, h.exclusive⟩
    · intro t ht
      rcases List.mem_cons.mp ht with rfl | ht
      · exact V.start p hp s h.inv
      · exact h.tasks t ht
  | @call s s' l r rs op next held a hexec =>
    have hwp := h.tasks ⟨.call op next, held⟩ (by simp)
    obtain ⟨hkept, hnext⟩ := (hwp s (C.moved_self h.inv held)).2 a s' hexec
    exact ⟨h.advance V hkept (exclusive_replace h.exclusive id) hnext, (hkept.sound h.inv).2⟩
  | @crash s s' l r rs op next held hcrash =>
    have hwp := h.tasks ⟨.call op next, held⟩ (by simp)
    have hkept := (hwp s (C.moved_self h.inv held)).1 s' hcrash
    exact ⟨h.remove V hkept, (hkept.sound h.inv).2⟩
  | @kill s l r rs t => exact ⟨h.remove V (C.kept_self h.inv t.held), C.refl s⟩
  | @acquire s l r rs next hfree =>
    have hwp := h.tasks ⟨.acquire next, false⟩ (by simp)
    have hnext := (hwp s (C.moved_self h.inv false)).1 rfl
    refine ⟨h.advance V (C.kept_self h.inv false) ?_ hnext, C.refl s⟩
    have hrest := exclusive_remove h.exclusive
    simp only [List.pairwise_append, List.pairwise_cons, List.mem_cons, forall_eq_or_imp,
      List.mem_append] at hrest hfree ⊢
    exact ⟨hrest.1, ⟨fun u hu hboth => by simp [hfree u (.inr hu)] at hboth, hrest.2.1⟩,
      fun u hu => ⟨fun hboth => by simp [hfree u (.inl hu)] at hboth, hrest.2.2 u hu⟩⟩
  | @busy s l r rs next held =>
    have hwp := h.tasks ⟨.acquire next, held⟩ (by simp)
    have hnext := (hwp s (C.moved_self h.inv held)).2
    exact ⟨h.advance V (C.kept_self h.inv held) (exclusive_replace h.exclusive id) hnext, C.refl s⟩
  | @release s l r rs next held =>
    have hwp : wp W C (fun a _ s => post a s) next false s := h.tasks ⟨.release next, held⟩ (by simp)
    refine ⟨h.advance V (C.kept_self h.inv held) ?_ hwp, C.refl s⟩
    exact exclusive_replace h.exclusive fun hfalse => Bool.noConfusion hfalse
  | @finish s l r rs a held =>
    have hwp : wp W C (fun a _ s => post a s) (.done a) held s := h.tasks ⟨.done a, held⟩ (by simp)
    have hremove := h.remove V (C.kept_self h.inv held)
    refine ⟨⟨hremove.inv, hremove.exclusive, hremove.tasks, ?_⟩, C.refl s⟩
    intro b hb
    rcases List.mem_cons.mp hb with rfl | hb
    · exact hwp s (C.moved_self h.inv held)
    · exact h.replies b hb

/-- The system invariant along a run, with what happened to the store. -/
lemma Sound.steps (V : Verified W C start post) {c c' : Config σ Op Ans α}
    (h : Sound W C post c) (hsteps : Steps W start c c') :
    Sound W C post c' ∧ C.rely c.store c'.store := by
  induction hsteps with
  | refl => exact ⟨h, C.refl _⟩
  | tail _ hstep ih =>
    obtain ⟨hsound, hrely⟩ := ih.1.step V hstep
    exact ⟨hsound, C.trans ih.2 hrely⟩

lemma Sound.initial {s : σ} (hinv : C.inv s) :
    Sound W C post (⟨s, [], []⟩ : Config σ Op Ans α) :=
  ⟨hinv, List.Pairwise.nil, fun _ ht => by simp at ht, fun _ ha => by simp at ha⟩

/-- **Verified programs keep the invariant** in every run, and every reply is justified. -/
theorem Reachable.sound (V : Verified W C start post) {s : σ} (hinv : C.inv s)
    {c : Config σ Op Ans α} (hreach : Reachable W start s c) : Sound W C post c :=
  ((Sound.initial hinv).steps V hreach).1

/-- **Between any two points of a run** the store moves as programs may rely on. -/
theorem Reachable.rely (V : Verified W C start post) {s : σ} (hinv : C.inv s)
    {c c' : Config σ Op Ans α} (hreach : Reachable W start s c) (hsteps : Steps W start c c') :
    C.rely c.store c'.store :=
  ((hreach.sound V hinv).steps V hsteps).2

/-! ## Scripted runs of one program -/

/-- A script answers the operation with the given number on the given store, or refuses to. -/
abbrev Script (σ Op : Type) (Ans : Op → Type) := ℕ → σ → (op : Op) → Option (Ans op × σ)

/-- The script only answers as the store may answer. -/
def Script.Faithful (script : Script σ Op Ans) (W : World σ Op Ans) : Prop :=
  ∀ n s op r, script n s op = some r → W.exec s op r.1 r.2

/-- The run of one program when `script` answers its operations. -/
def solo (script : Script σ Op Ans) : Prog Op Ans α → Bool → ℕ → σ → Option (α × σ × ℕ)
  | .done a, _, n, s => some (a, s, n)
  | .call op next, held, n, s =>
      match script n s op with
      | none => none
      | some r => solo script (next r.1) held (n + 1) r.2
  | .acquire next, held, n, s => solo script (next (!held)) true n s
  | .release next, _, n, s => solo script next false n s

/-- A faithful script gives a run of the system. -/
lemma solo_steps {script : Script σ Op Ans} (hscript : script.Faithful W) :
    ∀ {p : Prog Op Ans α} {held : Bool} {n : ℕ} {s : σ} {rs : List α} {r : α × σ × ℕ},
      solo script p held n s = some r →
      Steps W start ⟨s, [⟨p, held⟩], rs⟩ ⟨r.2.1, [], r.1 :: rs⟩
  | .done a, held, n, s, rs, r, h => by
      cases h
      exact Relation.ReflTransGen.single (Step.finish (W := W) (l := []) (r := []))
  | .call op next, held, n, s, rs, r, h => by
      rw [solo] at h
      split at h
      · cases h
      · rename_i answer hanswer
        exact Relation.ReflTransGen.head
          (Step.call (W := W) (l := []) (r := []) _ (hscript n s op answer hanswer))
          (solo_steps hscript h)
  | .acquire next, false, n, s, rs, r, h =>
      Relation.ReflTransGen.head (Step.acquire (W := W) (l := []) (r := []) (by simp))
        (solo_steps hscript h)
  | .acquire next, true, n, s, rs, r, h =>
      Relation.ReflTransGen.head (Step.busy (W := W) (l := []) (r := []))
        (solo_steps hscript h)
  | .release next, held, n, s, rs, r, h =>
      Relation.ReflTransGen.head (Step.release (W := W) (l := []) (r := []))
        (solo_steps hscript h)

/-- Programs one after another, each to its end. -/
def soloAll (script : Script σ Op Ans) :
    List (Prog Op Ans α) → ℕ → σ → List α → Option (σ × List α)
  | [], _, s, rs => some (s, rs)
  | p :: ps, n, s, rs =>
      match solo script p false n s with
      | none => none
      | some r => soloAll script ps r.2.2 r.2.1 (r.1 :: rs)

/-- Scripted programs one after another are a run of the system. -/
lemma soloAll_steps {script : Script σ Op Ans} (hscript : script.Faithful W) :
    ∀ {ps : List (Prog Op Ans α)} {n : ℕ} {s : σ} {rs : List α} {r : σ × List α},
      (∀ p ∈ ps, p ∈ start) → soloAll script ps n s rs = some r →
      Steps W start ⟨s, [], rs⟩ ⟨r.1, [], r.2⟩
  | [], _, _, _, _, _, h => by
      cases h
      exact Relation.ReflTransGen.refl
  | p :: ps, n, s, rs, r, hps, h => by
      rw [soloAll] at h
      split at h
      · cases h
      · rename_i first hfirst
        refine Relation.ReflTransGen.head (Step.spawn (hps p (by simp))) ?_
        exact (solo_steps hscript hfirst).trans
          (soloAll_steps hscript (fun q hq => hps q (by simp [hq])) h)

end Runs

end ExperimentControl
