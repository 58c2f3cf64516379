import Mathlib

/-!
# Depth-first traversal with a stack

A loop that pops a node, visits it and pushes its children visits every node of a forest at most
once.  The forest is given by a children function; nothing is assumed about its size.

* `visits` — the nodes the loop visits, in order, with a bound on the number of turns.
* `Forest` — every node has at most one parent and the root has none.
* **`Forest.nodup_visits`** — no node is visited twice.
* `Forest.visits_fuel` — a bound on the turns that covers all nodes is no bound at all.
* **`Forest.ancestors_first`**, `Forest.visits_closed` — every node is visited behind its ancestors,
  and with enough turns every node below the root is visited.
-/

namespace ExperimentControl

section Traversal

variable {α : Type*} {children : α → List α}

/-- The nodes visited in at most `fuel` turns from the stack `pending`, its top first. -/
def visits (children : α → List α) : ℕ → List α → List α
  | 0, _ => []
  | _ + 1, [] => []
  | fuel + 1, a :: pending => a :: visits children fuel (children a ++ pending)

@[simp] lemma visits_nil (fuel : ℕ) : visits children fuel [] = [] := by
  cases fuel <;> rfl

/-- More turns only visit more. -/
lemma visits_mono (k : ℕ) :
    ∀ (fuel : ℕ) (pending : List α),
      visits children fuel pending <+: visits children (fuel + k) pending
  | 0, _ => List.nil_prefix
  | fuel + 1, [] => by simp
  | fuel + 1, a :: pending => by
      rw [Nat.add_right_comm, visits, visits]
      exact List.prefix_cons_inj a |>.mpr (visits_mono k fuel _)

/-- Either every turn visited a node, or the stack ran empty before. -/
lemma visits_length_or_stable (k : ℕ) :
    ∀ (fuel : ℕ) (pending : List α),
      (visits children fuel pending).length = fuel ∨
        visits children (fuel + k) pending = visits children fuel pending
  | 0, _ => .inl rfl
  | fuel + 1, [] => .inr (by simp)
  | fuel + 1, a :: pending => by
      rw [Nat.add_right_comm, visits, visits]
      rcases visits_length_or_stable k fuel (children a ++ pending) with h | h
      · exact .inl (by simp [h])
      · exact .inr (by rw [h])

/-- **A forest.**  `parent` recovers the one node that lists a child, and nothing lists the root. -/
structure Forest (children : α → List α) (parent : α → α) (root : α) : Prop where
  nodup_children : ∀ a, (children a).Nodup
  parent_eq : ∀ a, ∀ b ∈ children a, parent b = a
  root_notMem : ∀ a, root ∉ children a

/-- The loop invariant: visited and pending nodes are distinct, and each of them is the root or a
child of a visited node. -/
structure Frontier (children : α → List α) (root : α) (done pending : List α) : Prop where
  nodup : (done ++ pending).Nodup
  origin : ∀ b ∈ done ++ pending, b = root ∨ ∃ a ∈ done, b ∈ children a

variable {parent : α → α} {root : α}

lemma Frontier.start : Frontier children root [] [root] :=
  ⟨by simp, by simp⟩

/-- **One turn keeps the invariant.**  A child of the popped node was never pushed before: its only
parent is the popped node, which was not visited yet. -/
lemma Frontier.pop (hf : Forest children parent root) {done pending : List α} {a : α}
    (h : Frontier children root done (a :: pending)) :
    Frontier children root (done ++ [a]) (children a ++ pending) := by
  have hadone : a ∉ done := by
    intro ha
    exact (List.nodup_append.mp h.nodup).2.2 a ha a (by simp) rfl
  have hfresh : ∀ c ∈ children a, c ∉ done ++ a :: pending := by
    intro c hc hmem
    rcases h.origin c hmem with rfl | ⟨a', ha', hc'⟩
    · exact hf.root_notMem a hc
    · rw [← hf.parent_eq a' c hc', hf.parent_eq a c hc] at ha'
      exact hadone ha'
  have hperm : (children a ++ (done ++ a :: pending)).Perm
      (done ++ [a] ++ (children a ++ pending)) := by
    rw [List.append_assoc, List.singleton_append]
    refine (List.perm_append_comm_assoc _ _ _).trans (List.Perm.append_left done ?_)
    exact List.perm_middle
  refine ⟨hperm.nodup_iff.mp ?_, ?_⟩
  · rw [List.nodup_append]
    exact ⟨hf.nodup_children a, h.nodup, fun c hc d hd hcd => hfresh c hc (hcd ▸ hd)⟩
  · intro b hb
    have hb' := hperm.mem_iff.mpr hb
    rw [List.mem_append] at hb'
    rcases hb' with hb' | hb'
    · exact .inr ⟨a, by simp, hb'⟩
    · rcases h.origin b hb' with rfl | ⟨a', ha', hba⟩
      · exact .inl rfl
      · exact .inr ⟨a', by simp [ha'], hba⟩

/-- The invariant, carried to the end of the visit list. -/
lemma Frontier.visits (hf : Forest children parent root) :
    ∀ (fuel : ℕ) {done pending : List α}, Frontier children root done pending →
      (done ++ visits children fuel pending).Nodup ∧
        ∀ b ∈ done ++ visits children fuel pending, b = root ∨ ∃ a, b ∈ children a
  | 0, done, pending, h => by
      refine ⟨by simpa [ExperimentControl.visits] using h.nodup.of_append_left, ?_⟩
      intro b hb
      simp only [ExperimentControl.visits, List.append_nil] at hb
      rcases h.origin b (by simp [hb]) with rfl | ⟨a, _, hba⟩
      · exact .inl rfl
      · exact .inr ⟨a, hba⟩
  | fuel + 1, done, [], h => by
      refine ⟨by simpa using h.nodup, ?_⟩
      intro b hb
      rcases h.origin b (by simpa using hb) with rfl | ⟨a, _, hba⟩
      · exact .inl rfl
      · exact .inr ⟨a, hba⟩
  | fuel + 1, done, a :: pending, h => by
      have ih := Frontier.visits hf fuel (h.pop hf)
      simpa [ExperimentControl.visits] using ih

/-- **No node is visited twice.** -/
theorem Forest.nodup_visits (hf : Forest children parent root) (fuel : ℕ) :
    (visits children fuel [root]).Nodup := by
  simpa using (Frontier.visits hf fuel Frontier.start).1

/-- Only the root and children are visited. -/
lemma Forest.mem_visits (hf : Forest children parent root) {fuel : ℕ} {b : α}
    (h : b ∈ visits children fuel [root]) : b = root ∨ ∃ a, b ∈ children a :=
  (Frontier.visits hf fuel Frontier.start).2 b (by simpa using h)

/-- **Enough turns are all turns.**  When all children lie in a list of fewer than `fuel` nodes, a
larger bound visits nothing more. -/
theorem Forest.visits_fuel (hf : Forest children parent root) {nodes : List α} {fuel : ℕ}
    (hnodes : ∀ a, ∀ b ∈ children a, b ∈ nodes) (hfuel : nodes.length < fuel) (k : ℕ) :
    visits children (fuel + k) [root] = visits children fuel [root] := by
  have hcases : (visits children fuel [root]).length = fuel ∨
      visits children (fuel + k) [root] = visits children fuel [root] :=
    visits_length_or_stable k fuel [root]
  rcases hcases with hlen | hstable
  · have hsub : visits children (fuel + k) [root] ⊆ root :: nodes := by
      intro b hb
      rcases hf.mem_visits hb with heq | ⟨a, hba⟩
      · simp [heq]
      · simp [hnodes a b hba]
    have hle := (List.subperm_of_subset (hf.nodup_visits (fuel + k)) hsub).length_le
    have hpre : visits children fuel [root] <+: visits children (fuel + k) [root] :=
      visits_mono k fuel [root]
    refine (hpre.eq_of_length_le ?_).symm
    simp only [List.length_cons] at hle
    omega
  · exact hstable

/-! ## The order of the visits -/

/-- The parent of a visited node was visited before it. -/
lemma Frontier.parent_visited (hf : Forest children parent root) :
    ∀ (fuel : ℕ) {done pending : List α}, Frontier children root done pending →
      ∀ {before after : List α} {b : α},
        ExperimentControl.visits children fuel pending = before ++ b :: after →
          b = root ∨ parent b ∈ done ++ before
  | 0, _, _, _, before, after, b, hsplit => by simp [ExperimentControl.visits] at hsplit
  | fuel + 1, _, [], _, before, after, b, hsplit => by simp at hsplit
  | fuel + 1, done, a :: pending, h, before, after, b, hsplit => by
      rw [ExperimentControl.visits] at hsplit
      cases before with
      | nil =>
        obtain ⟨rfl, -⟩ := List.cons.inj hsplit
        rcases h.origin a (by simp) with hroot | ⟨a', ha', hmem⟩
        · exact .inl hroot
        · rw [hf.parent_eq a' a hmem]
          exact .inr (List.mem_append_left _ ha')
      | cons first before =>
        obtain ⟨rfl, hrest⟩ := List.cons.inj hsplit
        have ih := Frontier.parent_visited hf fuel (h.pop hf) hrest
        simpa using ih

/-- The ancestors of a visited node were visited up to it. -/
lemma Forest.ancestor_visited (hf : Forest children parent root) (hroot : parent root = root)
    {fuel : ℕ} : ∀ (n i : ℕ) (hi : i < (visits children fuel [root]).length),
      ∃ k, ∃ hk : k < (visits children fuel [root]).length, k ≤ i ∧
        (visits children fuel [root])[k] = parent^[n] (visits children fuel [root])[i]
  | 0, i, hi => ⟨i, hi, le_refl i, rfl⟩
  | n + 1, i, hi => by
      have hsplit : visits children fuel [root] = (visits children fuel [root]).take i ++
          (visits children fuel [root])[i] :: (visits children fuel [root]).drop (i + 1) := by
        rw [List.getElem_cons_drop, List.take_append_drop]
      rw [Function.iterate_succ_apply]
      rcases Frontier.parent_visited hf fuel Frontier.start hsplit with hfirst | hmem
      · obtain ⟨k, hk, hle, hsame⟩ := ancestor_visited hf hroot n i hi
        exact ⟨k, hk, hle, by rw [hsame, hfirst, hroot]⟩
      · rw [List.nil_append] at hmem
        obtain ⟨j, hj, hsame⟩ := List.mem_iff_getElem.mp hmem
        rw [List.length_take] at hj
        rw [List.getElem_take] at hsame
        have hlt : j < (visits children fuel [root]).length := lt_of_lt_of_le hj (min_le_right _ _)
        obtain ⟨k, hk, hle, hthere⟩ := ancestor_visited hf hroot n j hlt
        exact ⟨k, hk, by omega, by rw [hthere, hsame]⟩

/-- **Ancestors come first.** No node is visited before one of its ancestors. -/
theorem Forest.ancestors_first (hf : Forest children parent root) (hroot : parent root = root)
    (fuel : ℕ) : (visits children fuel [root]).Pairwise fun a b => ∀ n, parent^[n] a ≠ b := by
  rw [List.pairwise_iff_getElem]
  intro i j hi hj hij n hsame
  obtain ⟨k, hk, hle, hthere⟩ := hf.ancestor_visited hroot n i hi
  have hnodup := hf.nodup_visits fuel
  have heq := (List.Nodup.getElem_inj_iff hnodup).mp (hthere.trans hsame)
  omega

lemma length_visits_le : ∀ (fuel : ℕ) (pending : List α),
    (visits children fuel pending).length ≤ fuel
  | 0, _ => le_refl 0
  | fuel + 1, [] => by simp
  | fuel + 1, a :: pending => by
      rw [visits, List.length_cons]
      exact Nat.succ_le_succ (length_visits_le fuel _)

/-- A loop that ends before its bound has visited the children of all it visited. -/
lemma visits_children : ∀ (fuel : ℕ) {pending : List α},
    (visits children fuel pending).length < fuel →
      pending ⊆ visits children fuel pending ∧
        ∀ a ∈ visits children fuel pending, children a ⊆ visits children fuel pending
  | fuel + 1, [], _ => by simp
  | fuel + 1, a :: pending, h => by
      rw [visits, List.length_cons] at h
      obtain ⟨hpending, hclosed⟩ := visits_children fuel (Nat.lt_of_succ_lt_succ h)
      obtain ⟨hchildren, hrest⟩ := List.append_subset.mp hpending
      rw [visits]
      refine ⟨List.cons_subset_cons a hrest, fun b hb => ?_⟩
      rcases List.mem_cons.mp hb with rfl | hb
      · exact List.subset_cons_of_subset _ hchildren
      · exact List.subset_cons_of_subset _ (hclosed b hb)

/-- **Everything below the root is visited**, with enough turns. -/
theorem Forest.visits_closed (hf : Forest children parent root) {nodes : List α} {fuel : ℕ}
    (hnodes : ∀ a, ∀ b ∈ children a, b ∈ nodes) (hfuel : nodes.length < fuel) :
    root ∈ visits children fuel [root] ∧
      ∀ a ∈ visits children fuel [root], children a ⊆ visits children fuel [root] := by
  have hmore := hf.visits_fuel hnodes hfuel 1
  have hlength : (visits children (fuel + 1) [root]).length < fuel + 1 := by
    rw [hmore]
    exact Nat.lt_succ_of_le (length_visits_le fuel [root])
  obtain ⟨hroot, hclosed⟩ := visits_children (fuel + 1) hlength
  rw [hmore] at hroot hclosed
  exact ⟨hroot List.mem_cons_self, hclosed⟩

end Traversal

end ExperimentControl
