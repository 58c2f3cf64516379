import ExperimentControl.Library.Programs

/-!
# Programs on their own

A program of `Library.Programs` that runs by itself to its end: nobody else moves the store, and no
operation is cut short.

* `Completes` — the runs, which `Completes.steps` makes runs of the system.
* `Passes` — the runs that come through a store, where `Passes.kill` stops them.
* `ends` — every run ends, and ends well: **`completes_of_ends`**.
* `Act.Delivers` — the triples for programs that may fail and do not, with their rules.
* `Act.Comes` — one run of such a program to a success, with its rules.
-/

namespace ExperimentControl

section Runs

variable {σ Op : Type} {Ans : Op → Type} {α β : Type} {W : World σ Op Ans}

/-- A program runs by itself from a store to its value, with or without the lock, and the store it
leaves. -/
inductive Completes (W : World σ Op Ans) : Prog Op Ans α → Bool → σ → α → Bool → σ → Prop
  | done (a : α) (held : Bool) (s : σ) : Completes W (.done a) held s a held s
  | call {op : Op} {next : Ans op → Prog Op Ans α} {held after : Bool} {s t u : σ} {a : Ans op} {r : α}
      (hexec : W.exec s op a t) (rest : Completes W (next a) held t r after u) :
      Completes W (.call op next) held s r after u
  | acquire {next : Bool → Prog Op Ans α} {after : Bool} {s u : σ} {r : α}
      (rest : Completes W (next true) true s r after u) :
      Completes W (.acquire next) false s r after u
  | release {next : Prog Op Ans α} {held after : Bool} {s u : σ} {r : α}
      (rest : Completes W next false s r after u) : Completes W (.release next) held s r after u

/-- A run of one program is a run of the system. -/
lemma Completes.steps {start : Set (Prog Op Ans α)} {p : Prog Op Ans α} {held after : Bool} {s u : σ}
    {r : α} {rs : List α} (h : Completes W p held s r after u) :
    Steps W start ⟨s, [⟨p, held⟩], rs⟩ ⟨u, [], r :: rs⟩ := by
  induction h with
  | done a held s => exact .single (Step.finish (W := W) (l := []) (r := []))
  | call hexec rest ih => exact .head (Step.call (W := W) (l := []) (r := []) _ hexec) ih
  | acquire rest ih => exact .head (Step.acquire (W := W) (l := []) (r := []) (by simp)) ih
  | release rest ih => exact .head (Step.release (W := W) (l := []) (r := [])) ih

/-- A run in a smaller world. -/
lemma Completes.mono {W' : World σ Op Ans} (hsub : ∀ s op a t, W.exec s op a t → W'.exec s op a t)
    {p : Prog Op Ans α} {held after : Bool} {s u : σ} {r : α} (h : Completes W p held s r after u) :
    Completes W' p held s r after u := by
  induction h with
  | done a held s => exact .done a held s
  | call hexec rest ih => exact .call (hsub _ _ _ _ hexec) ih
  | acquire rest ih => exact .acquire ih
  | release rest ih => exact .release ih

/-- Sequencing. -/
lemma Completes.bind {p : Prog Op Ans α} {f : α → Prog Op Ans β} {held middle after : Bool} {s t u : σ}
    {a : α} {b : β} (h : Completes W p held s a middle t) (rest : Completes W (f a) middle t b after u) :
    Completes W (p.bind f) held s b after u := by
  induction h with
  | done a held s => exact rest
  | call hexec _ ih => exact .call hexec (ih rest)
  | acquire _ ih => exact .acquire (ih rest)
  | release _ ih => exact .release (ih rest)

/-- A run of a program comes through a store. -/
inductive Passes (W : World σ Op Ans) (goal : σ → Prop) : Prog Op Ans α → Bool → σ → Prop
  | here {p : Prog Op Ans α} {held : Bool} {s : σ} (h : goal s) : Passes W goal p held s
  | call {op : Op} {next : Ans op → Prog Op Ans α} {held : Bool} {s t : σ} {a : Ans op}
      (hexec : W.exec s op a t) (rest : Passes W goal (next a) held t) :
      Passes W goal (.call op next) held s
  | acquire {next : Bool → Prog Op Ans α} {s : σ} (rest : Passes W goal (next true) true s) :
      Passes W goal (.acquire next) false s
  | release {next : Prog Op Ans α} {held : Bool} {s : σ} (rest : Passes W goal next false s) :
      Passes W goal (.release next) held s

variable {goal : σ → Prop}

/-- A program may stop where its run comes through. -/
lemma Passes.kill {start : Set (Prog Op Ans α)} {p : Prog Op Ans α} {held : Bool} {s : σ} {rs : List α}
    (h : Passes W goal p held s) :
    ∃ t, goal t ∧ Steps W start ⟨s, [⟨p, held⟩], rs⟩ ⟨t, [], rs⟩ := by
  induction h with
  | here h => exact ⟨_, h, .single (Step.kill (W := W) (l := []) (r := []))⟩
  | call hexec rest ih =>
    obtain ⟨t, ht, hsteps⟩ := ih
    exact ⟨t, ht, .head (Step.call (W := W) (l := []) (r := []) _ hexec) hsteps⟩
  | acquire rest ih =>
    obtain ⟨t, ht, hsteps⟩ := ih
    exact ⟨t, ht, .head (Step.acquire (W := W) (l := []) (r := []) (by simp)) hsteps⟩
  | release rest ih =>
    obtain ⟨t, ht, hsteps⟩ := ih
    exact ⟨t, ht, .head (Step.release (W := W) (l := []) (r := [])) hsteps⟩

lemma Passes.mono {W' : World σ Op Ans} (hsub : ∀ s op a t, W.exec s op a t → W'.exec s op a t)
    {p : Prog Op Ans α} {held : Bool} {s : σ} (h : Passes W goal p held s) :
    Passes W' goal p held s := by
  induction h with
  | here h => exact .here h
  | call hexec rest ih => exact .call (hsub _ _ _ _ hexec) ih
  | acquire rest ih => exact .acquire ih
  | release rest ih => exact .release ih

lemma Passes.bind {p : Prog Op Ans α} (f : α → Prog Op Ans β) {held : Bool} {s : σ}
    (h : Passes W goal p held s) : Passes W goal (p.bind f) held s := by
  induction h with
  | here h => exact .here h
  | call hexec rest ih => exact .call hexec ih
  | acquire rest ih => exact .acquire ih
  | release rest ih => exact .release ih

/-- Sequencing behind a run to the end. -/
lemma Completes.passes {p : Prog Op Ans α} {f : α → Prog Op Ans β} {held after : Bool} {s t : σ}
    {a : α} (h : Completes W p held s a after t) (rest : Passes W goal (f a) after t) :
    Passes W goal (p.bind f) held s := by
  induction h with
  | done a held s => exact rest
  | call hexec _ ih => exact .call hexec (ih rest)
  | acquire _ ih => exact .acquire (ih rest)
  | release _ ih => exact .release (ih rest)

/-- **Every run ends, and ends well**: there is an answer to each operation, and after every answer
the rest does so. -/
def ends (W : World σ Op Ans) (post : α → Bool → σ → Prop) : Prog Op Ans α → Bool → σ → Prop
  | .done a, held, s => post a held s
  | .call op next, held, s => (∃ a t, W.exec s op a t) ∧
      ∀ a t, W.exec s op a t → ends W post (next a) held t
  | .acquire next, held, s => held = false ∧ ends W post (next true) true s
  | .release next, _, s => ends W post next false s

variable {post : α → Bool → σ → Prop}

lemma ends_mono {post' : α → Bool → σ → Prop} (hpost : ∀ a held s, post a held s → post' a held s) :
    ∀ {p : Prog Op Ans α} {held : Bool} {s : σ}, ends W post p held s → ends W post' p held s
  | .done _, _, _, h => hpost _ _ _ h
  | .call _ _, _, _, h => ⟨h.1, fun a t hexec => ends_mono hpost (h.2 a t hexec)⟩
  | .acquire _, _, _, h => ⟨h.1, ends_mono hpost h.2⟩
  | .release next, _, s, h => by
      rw [ends] at h ⊢
      exact ends_mono hpost h

/-- Sequencing. -/
lemma ends_bind {post : β → Bool → σ → Prop} {f : α → Prog Op Ans β} :
    ∀ {p : Prog Op Ans α} {held : Bool} {s : σ},
      ends W (fun a held t => ends W post (f a) held t) p held s → ends W post (p.bind f) held s
  | .done _, _, _, h => h
  | .call _ _, _, _, h => ⟨h.1, fun a t hexec => ends_bind (h.2 a t hexec)⟩
  | .acquire _, _, _, h => ⟨h.1, ends_bind h.2⟩
  | .release next, _, s, h => by
      rw [ends] at h
      rw [Prog.bind, ends]
      exact ends_bind h

/-- **A program that ends well** has a run, and every run of it ends well. -/
theorem completes_of_ends : ∀ {p : Prog Op Ans α} {held : Bool} {s : σ}, ends W post p held s →
    (∃ r after u, Completes W p held s r after u) ∧
      ∀ r after u, Completes W p held s r after u → post r after u
  | .done a, held, s, h => by
      refine ⟨⟨a, held, s, .done a held s⟩, fun r after u hrun => ?_⟩
      cases hrun
      exact h
  | .call op next, held, s, ⟨⟨a, t, hexec⟩, hall⟩ => by
      obtain ⟨r, after, u, hrun⟩ := (completes_of_ends (hall a t hexec)).1
      refine ⟨⟨r, after, u, .call hexec hrun⟩, fun r after u hrun => ?_⟩
      cases hrun with
      | call hexec rest => exact (completes_of_ends (hall _ _ hexec)).2 r after u rest
  | .acquire next, held, s, ⟨hfree, h⟩ => by
      subst hfree
      obtain ⟨⟨r, after, u, hrun⟩, hall⟩ := completes_of_ends h
      refine ⟨⟨r, after, u, .acquire hrun⟩, fun r after u hrun => ?_⟩
      cases hrun with
      | acquire rest => exact hall r after u rest
  | .release next, held, s, h => by
      rw [ends] at h
      obtain ⟨⟨r, after, u, hrun⟩, hall⟩ := completes_of_ends h
      refine ⟨⟨r, after, u, .release hrun⟩, fun r after u hrun => ?_⟩
      cases hrun with
      | release rest => exact hall r after u rest

end Runs

/-! ## Programs that do not fail -/

section Delivers

variable {σ Op : Type} {Ans : Op → Type} {α β ε : Type} {W : World σ Op Ans} {held : Bool}
  {P : σ → Prop} {Q : α → Bool → σ → Prop} {R : β → Bool → σ → Prop}

/-- From a store with `P` the program, run by itself, ends with a success, and with `Q`. -/
def Act.Delivers (W : World σ Op Ans) (held : Bool) (P : σ → Prop) (x : Act Op Ans ε α)
    (Q : α → Bool → σ → Prop) : Prop :=
  ∀ s, P s → ends W (fun r after t => ∃ a, r = .ok a ∧ Q a after t) x.run held s

namespace Act.Delivers

lemma bind {x : Act Op Ans ε α} {f : α → Act Op Ans ε β} (hx : Act.Delivers W held P x Q)
    (hf : ∀ a held, Act.Delivers W held (Q a held) (f a) R) : Act.Delivers W held P (x >>= f) R := by
  intro s hs
  refine ends_bind (ends_mono ?_ (hx s hs))
  rintro r after t ⟨a, rfl, ha⟩
  exact hf a after t ha

/-- Sequencing behind a program that keeps the lock as it is. -/
lemma bind_same {x : Act Op Ans ε α} {f : α → Act Op Ans ε β} {Q : α → σ → Prop}
    (hx : Act.Delivers W held P x fun a after t => after = held ∧ Q a t)
    (hf : ∀ a, Act.Delivers W held (Q a) (f a) R) : Act.Delivers W held P (x >>= f) R := by
  refine hx.bind fun a after s hs => ?_
  obtain ⟨rfl, hs⟩ := hs
  exact hf a s hs

lemma mono {P' : σ → Prop} {Q' : α → Bool → σ → Prop} {x : Act Op Ans ε α}
    (h : Act.Delivers W held P x Q) (hpre : ∀ s, P' s → P s)
    (hpost : ∀ a held s, Q a held s → Q' a held s) : Act.Delivers W held P' x Q' :=
  fun s hs => ends_mono (fun _ _ _ ⟨a, ha, hQ⟩ => ⟨a, ha, hpost _ _ _ hQ⟩) (h s (hpre s hs))

lemma pure {a : α} (h : ∀ s, P s → Q a held s) :
    Act.Delivers W held P (Pure.pure a : Act Op Ans ε α) Q :=
  fun s hs => ⟨a, rfl, h s hs⟩

/-- A computation without operations that succeeds. -/
lemma lift {r : Except ε α} (h : ∀ s, P s → ∃ a, r = .ok a ∧ Q a held s) :
    Act.Delivers W held P (Act.lift r) Q := h

/-- An operation that succeeds. -/
lemma attempt {op : Op} {result : Ans op → Except ε α}
    (hsome : ∀ s, P s → ∃ answer t, W.exec s op answer t)
    (hall : ∀ s answer t, P s → W.exec s op answer t →
      ∃ a, result answer = .ok a ∧ Q a held t) :
    Act.Delivers W held P (Act.attempt op result) Q :=
  fun s hs => ⟨hsome s hs, fun answer t hexec => hall s answer t hs hexec⟩

lemma lock {busy : ε} {Q : Unit → Bool → σ → Prop} (h : ∀ s, P s → Q () true s) :
    Act.Delivers W false P (Act.lock busy : Act Op Ans ε Unit) Q :=
  fun s hs => ⟨rfl, (), rfl, h s hs⟩

lemma unlock {Q : Unit → Bool → σ → Prop} (h : ∀ s, P s → Q () false s) :
    Act.Delivers W held P (Act.unlock : Act Op Ans ε Unit) Q :=
  fun s hs => ⟨(), rfl, h s hs⟩

/-- A success kept as a value. -/
lemma outcome {x : Act Op Ans ε α} (hx : Act.Delivers W held P x Q) :
    Act.Delivers W held P (Act.outcome x) fun r after t => ∃ a, r = .ok a ∧ Q a after t := by
  intro s hs
  refine ends_bind (ends_mono ?_ (hx s hs))
  rintro r after t ⟨a, rfl, ha⟩
  exact ⟨_, rfl, a, rfl, ha⟩

lemma ite {c : Prop} [Decidable c] {x y : Act Op Ans ε α}
    (hx : c → Act.Delivers W held P x Q) (hy : ¬c → Act.Delivers W held P y Q) :
    Act.Delivers W held P (if c then x else y) Q := by
  split_ifs with hc
  · exact hx hc
  · exact hy hc

end Act.Delivers

end Delivers

/-! ## One run -/

section Comes

variable {σ Op : Type} {Ans : Op → Type} {α β ε : Type} {W : World σ Op Ans} {held middle after : Bool}
  {s t u : σ} {a : α} {goal : σ → Prop}

/-- The program, run by itself, may come to the given value or failure. -/
def Act.Comes (W : World σ Op Ans) (held : Bool) (s : σ) (x : Act Op Ans ε α) (r : Except ε α)
    (after : Bool) (t : σ) : Prop :=
  Completes W x.run held s r after t

namespace Act.Comes

lemma bind {x : Act Op Ans ε α} {f : α → Act Op Ans ε β} {r : Except ε β}
    (hx : Act.Comes W held s x (.ok a) middle t) (hf : Act.Comes W middle t (f a) r after u) :
    Act.Comes W held s (x >>= f) r after u :=
  Completes.bind hx hf

/-- Nothing is done behind a failure. -/
lemma bind_error {x : Act Op Ans ε α} {f : α → Act Op Ans ε β} {e : ε}
    (hx : Act.Comes W held s x (.error e) after t) :
    Act.Comes W held s (x >>= f) (.error e) after t :=
  Completes.bind hx (.done _ _ _)

lemma pure : Act.Comes W held s (Pure.pure a : Act Op Ans ε α) (.ok a) held s := .done _ _ _

lemma lift {r r' : Except ε α} (h : r = r') :
    Act.Comes W held s (Act.lift r : Act Op Ans ε α) r' held s :=
  h ▸ .done _ _ _

lemma attempt {op : Op} {result : Ans op → Except ε α} {r : Except ε α} (answer : Ans op)
    (hexec : W.exec s op answer t) (hresult : result answer = r) :
    Act.Comes W held s (Act.attempt op result) r held t :=
  .call hexec (hresult ▸ .done _ _ _)

lemma lock {busy : ε} :
    Act.Comes W false s (Act.lock busy : Act Op Ans ε Unit) (.ok ()) true s :=
  .acquire (.done _ _ _)

lemma unlock : Act.Comes W held s (Act.unlock : Act Op Ans ε Unit) (.ok ()) false s :=
  .release (.done _ _ _)

/-- A failure kept as a value. -/
lemma outcome {x : Act Op Ans ε α} {r : Except ε α} (hx : Act.Comes W held s x r after t) :
    Act.Comes W held s (Act.outcome x) (.ok r) after t :=
  Completes.bind hx (.done _ _ _)

lemma of_not {c : Prop} [Decidable c] {x y : Act Op Ans ε α} {r : Except ε α} (hc : ¬c)
    (h : Act.Comes W held s y r after t) : Act.Comes W held s (if c then x else y) r after t := by
  rwa [if_neg hc]

/-- A program goes on behind a success. -/
lemma passes {x : Act Op Ans ε α} {f : α → Act Op Ans ε β}
    (hx : Act.Comes W held s x (.ok a) after t) (hf : Passes W goal (f a).run after t) :
    Passes W goal (x >>= f).run held s :=
  Completes.passes hx hf

end Act.Comes

/-- A program comes through a store before its continuation. -/
lemma Passes.before {x : Act Op Ans ε α} {f : α → Act Op Ans ε β} (hx : Passes W goal x.run held s) :
    Passes W goal (x >>= f).run held s :=
  Passes.bind _ hx

lemma Passes.of_not {c : Prop} [Decidable c] {x y : Act Op Ans ε α} (hc : ¬c)
    (h : Passes W goal y.run held s) : Passes W goal (if c then x else y).run held s := by
  rwa [if_neg hc]

end Comes

end ExperimentControl
