import ExperimentControl.Library.Assoc

/-!
# Trees of named entries

A directory tree: a node has entries under names in increasing order, and each entry is a leaf or a
node again.  A path is the list of the names from the root.

* `find` and `put` — what is at a path, and a leaf at a new path, with the nodes on the way.
* `rows`, `leafPaths` — all paths and those of the leaves, each of them once (`nodup_rows`, `mem_rows`).
* `isSome_put`, `isSome_find_put`, `find_leaf_put` — when a leaf can be put, and what is added then: its
  path with the prefixes, and one leaf.
* `mapNodes` — other data at the nodes.
* `visit` — a traversal that counts every entry against a budget.
* **`visit_eq`** — where nothing else is refused, it ends well exactly when the budget is enough.
-/

namespace ExperimentControl

/-- A tree over the names `ν`, with data `δ` at its nodes and `α` at its leaves. -/
inductive Tree (ν δ α : Type)
  | leaf (a : α)
  | node (d : δ) (entries : List (ν × Tree ν δ α))

namespace Tree

variable {ν δ α : Type}

section Find

variable [LinearOrder ν]

/-- What is at a path. -/
def find : Tree ν δ α → List ν → Option (Tree ν δ α)
  | t, [] => some t
  | .leaf _, _ :: _ => none
  | .node _ entries, name :: path =>
      match entries.lookup name with
      | some t => find t path
      | none => none

/-- An entry under a name, in the place of one with that name. -/
def enter (name : ν) (t : Tree ν δ α) : List (ν × Tree ν δ α) → List (ν × Tree ν δ α)
  | [] => [(name, t)]
  | (other, u) :: rest =>
      if name = other then (name, t) :: rest
      else if name < other then (name, t) :: (other, u) :: rest
      else (other, u) :: enter name t rest

/-- A leaf at a new path.  Nodes that are missing on the way are made with the data `d`. -/
def put (d : δ) (a : α) : List ν → Tree ν δ α → Option (Tree ν δ α)
  | [], _ => none
  | _ :: _, .leaf _ => none
  | [name], .node e entries =>
      match entries.lookup name with
      | some _ => none
      | none => some (.node e (enter name (.leaf a) entries))
  | name :: next :: path, .node e entries =>
      (put d a (next :: path) ((entries.lookup name).getD (.node d []))).map fun t =>
        .node e (enter name t entries)

/-- The names of each node are in increasing order. -/
def Sorted (t : Tree ν δ α) : Prop :=
  ∀ path d entries, t.find path = some (.node d entries) →
    (entries.map Prod.fst).Pairwise (· < ·)

end Find

/-- The data of a leaf. -/
def kind : Tree ν δ α → Option α
  | .leaf a => some a
  | .node _ _ => none

mutual

/-- All paths of a tree, with the data of the leaves. -/
def rows : Tree ν δ α → List (List ν × Option α)
  | .leaf a => [([], some a)]
  | .node _ entries => ([], none) :: entryRows entries

def entryRows : List (ν × Tree ν δ α) → List (List ν × Option α)
  | [] => []
  | (name, t) :: rest => (rows t).map (fun row => (name :: row.1, row.2)) ++ entryRows rest

end

/-- The paths of the leaves. -/
def leafPaths (t : Tree ν δ α) : List (List ν) :=
  (t.rows.filter fun row => row.2.isSome).map Prod.fst

/-! ## What is at a path -/

section Find

variable [LinearOrder ν] {d e : δ} {a b : α} {t u : Tree ν δ α} {name other : ν} {path q : List ν}
  {entries : List (ν × Tree ν δ α)}

@[simp] lemma find_nil : t.find [] = some t := by
  cases t <;> rfl

@[simp] lemma find_leaf_cons : (leaf a : Tree ν δ α).find (name :: path) = none := rfl

lemma find_node_cons : (node d entries).find (name :: path) =
    (entries.lookup name).bind fun t => t.find path := by
  rw [find]
  cases entries.lookup name <;> rfl

lemma find_append : t.find (path ++ q) = (t.find path).bind fun u => u.find q := by
  induction path generalizing t with
  | nil => simp
  | cons name path ih =>
    cases t with
    | leaf a => rfl
    | node d entries =>
      rw [List.cons_append, find_node_cons, find_node_cons]
      cases entries.lookup name with
      | none => rfl
      | some t => exact ih

lemma lookup_pair {rest : List (ν × Tree ν δ α)} :
    ((other, u) :: rest).lookup name = if name = other then some u else rest.lookup name := by
  rw [List.lookup_cons]
  by_cases same : name = other
  · simp [same]
  · simp [same, beq_eq_false_iff_ne.mpr same]

lemma lookup_enter : (enter name t entries).lookup other =
    if other = name then some t else entries.lookup other := by
  induction entries with
  | nil => rw [enter, lookup_pair]
  | cons first rest ih =>
    have ⟨found, u⟩ := first
    rw [enter]
    by_cases equal : name = found
    · subst equal
      rw [if_pos rfl, lookup_pair, lookup_pair]
      split_ifs <;> rfl
    by_cases less : name < found
    · rw [if_neg equal, if_pos less, lookup_pair]
    · rw [if_neg equal, if_neg less, lookup_pair, lookup_pair, ih]
      by_cases same : other = name
      · rw [if_pos same, if_pos same, same, if_neg equal]
      · rw [if_neg same, if_neg same]

lemma mem_keys_enter {key : ν} : key ∈ (enter name t entries).map Prod.fst ↔
    key = name ∨ key ∈ entries.map Prod.fst := by
  induction entries with
  | nil => simp [enter]
  | cons first rest ih =>
    have ⟨found, u⟩ := first
    rw [enter]
    split_ifs with equal less
    · subst equal
      simp
    · simp
    · simp only [List.map_cons, List.mem_cons, ih]
      tauto

lemma pairwise_enter (sorted : (entries.map Prod.fst).Pairwise (· < ·)) :
    ((enter name t entries).map Prod.fst).Pairwise (· < ·) := by
  induction entries with
  | nil => simp [enter]
  | cons first rest ih =>
    have ⟨found, u⟩ := first
    rw [List.map_cons, List.pairwise_cons] at sorted
    have ⟨before, behind⟩ := sorted
    rw [enter]
    split_ifs with equal less
    · subst equal
      exact List.pairwise_cons.mpr ⟨before, behind⟩
    · refine List.pairwise_cons.mpr ⟨fun key there => ?_, List.pairwise_cons.mpr ⟨before, behind⟩⟩
      rcases List.mem_cons.mp there with rfl | later
      · exact less
      · exact less.trans (before key later)
    · refine List.pairwise_cons.mpr ⟨fun key there => ?_, ih behind⟩
      rcases mem_keys_enter.mp there with rfl | later
      · exact lt_of_le_of_ne (not_lt.mp less) (Ne.symm equal)
      · exact before key later

/-! ## A new leaf -/

/-- A step of `put`: below the root, or at it. -/
lemma put_node_cons : put d a (name :: path) (node e entries) =
    (if path = [] then
      match entries.lookup name with
      | some _ => none
      | none => some (leaf a)
    else put d a path ((entries.lookup name).getD (node d []))).map fun t =>
      node e (enter name t entries) := by
  cases path with
  | nil =>
    rw [if_pos rfl, put]
    cases entries.lookup name with
    | none => rfl
    | some u => rfl
  | cons next path => rw [put, if_neg (by simp)]

/-- **What a new leaf leaves**: its path is there with its prefixes, and all else is as it was. -/
lemma isSome_find_put (h : put d a path t = some u) :
    (u.find q).isSome ↔ (t.find q).isSome ∨ q <+: path := by
  induction path generalizing t u q with
  | nil => cases t <;> cases h
  | cons name path ih =>
    cases t with
    | leaf b => cases path <;> cases h
    | node e entries =>
      rw [put_node_cons, Option.map_eq_some_iff] at h
      have ⟨child, made, same⟩ := h
      subst same
      cases q with
      | nil => simp
      | cons other q =>
        rw [find_node_cons, find_node_cons, lookup_enter, List.cons_prefix_cons]
        split_ifs with equal
        · subst equal
          rw [Option.bind_some]
          split_ifs at made with last
          · subst last
            cases absent : entries.lookup other with
            | some t => rw [absent] at made; cases made
            | none =>
              rw [absent] at made
              cases made
              cases q <;> simp
          · rw [ih made]
            cases absent : entries.lookup other with
            | some t => simp
            | none =>
              rw [Option.getD_none, Option.bind_none]
              cases q with
              | nil => simp
              | cons _ _ => simp [find_node_cons]
        · simp [equal]

/-- The leaves behind a new one: those before, and itself. -/
lemma find_leaf_put (h : put d a path t = some u) :
    u.find q = some (leaf b) ↔ t.find q = some (leaf b) ∨ q = path ∧ b = a := by
  induction path generalizing t u q with
  | nil => cases t <;> cases h
  | cons name path ih =>
    cases t with
    | leaf b => cases path <;> cases h
    | node e entries =>
      rw [put_node_cons, Option.map_eq_some_iff] at h
      have ⟨child, made, same⟩ := h
      subst same
      cases q with
      | nil => simp
      | cons other q =>
        rw [find_node_cons, find_node_cons, lookup_enter, List.cons.injEq]
        split_ifs with equal
        · subst equal
          rw [Option.bind_some]
          split_ifs at made with last
          · subst last
            cases absent : entries.lookup other with
            | some t => rw [absent] at made; cases made
            | none =>
              rw [absent] at made
              cases made
              cases q <;> simp [eq_comm]
          · rw [ih made]
            cases absent : entries.lookup other with
            | some t => simp
            | none =>
              rw [Option.getD_none, Option.bind_none]
              cases q with
              | nil => simp
              | cons _ _ => simp [find_node_cons]
        · simp [equal]

/-- **When a leaf can be put**: nothing is at its path, and no leaf on the way to it. -/
lemma isSome_put : (put d a path t).isSome ↔
    path ≠ [] ∧ t.find path = none ∧ ∀ q, q <+: path → ∀ b, t.find q ≠ some (leaf b) := by
  induction path generalizing t with
  | nil => cases t <;> simp [put]
  | cons name path ih =>
    cases t with
    | leaf b =>
      have refused : put d a (name :: path) (leaf b) = none := by cases path <;> rfl
      rw [refused]
      simp only [Option.isSome_none, Bool.false_eq_true, false_iff, not_and, not_forall]
      exact fun _ _ => ⟨[], List.nil_prefix, b, fun never => never rfl⟩
    | node e entries =>
      rw [put_node_cons, Option.isSome_map, find_node_cons]
      have below : (∀ q, q <+: name :: path → ∀ b, (node e entries).find q ≠ some (leaf b)) ↔
          ∀ q, q <+: path → ∀ b,
            ((entries.lookup name).bind fun t => t.find q) ≠ some (leaf b) := by
        constructor
        · intro clear q there b
          rw [← find_node_cons]
          exact clear (name :: q) (List.cons_prefix_cons.mpr ⟨rfl, there⟩) b
        · intro clear q there b
          cases q with
          | nil => simp
          | cons other q =>
            have ⟨same, rest⟩ := List.cons_prefix_cons.mp there
            subst same
            rw [find_node_cons]
            exact clear q rest b
      rw [below]
      split_ifs with last
      · subst last
        cases entries.lookup name with
        | some t => simp
        | none => simp
      · rw [ih]
        cases entries.lookup name with
        | some t => simp [last]
        | none =>
          simp only [Option.getD_none, Option.bind_none, ne_eq, reduceCtorEq, not_false_eq_true,
            implies_true, and_true]
          refine ⟨fun _ => by simp, fun _ => ⟨last, ?_, ?_⟩⟩
          · cases path with
            | nil => exact absurd rfl last
            | cons _ _ => simp [find_node_cons]
          · intro q _ b
            cases q <;> simp [find_node_cons]

/-! ## Names in order -/

lemma sorted_leaf : (leaf a : Tree ν δ α).Sorted := by
  intro path d entries found
  cases path <;> simp at found

lemma sorted_node : (node d entries).Sorted ↔ (entries.map Prod.fst).Pairwise (· < ·) ∧
    ∀ name t, entries.lookup name = some t → t.Sorted := by
  constructor
  · intro sorted
    refine ⟨sorted [] d entries find_nil, fun name t there path e below found => ?_⟩
    refine sorted (name :: path) e below ?_
    rw [find_node_cons, there]
    exact found
  · rintro ⟨here, below⟩ path e others found
    cases path with
    | nil =>
      cases found
      exact here
    | cons name path =>
      rw [find_node_cons, Option.bind_eq_some_iff] at found
      have ⟨t, there, found⟩ := found
      exact below name t there path e others found

lemma sorted_put (sorted : t.Sorted) (h : put d a path t = some u) : u.Sorted := by
  induction path generalizing t u with
  | nil => cases t <;> cases h
  | cons name path ih =>
    cases t with
    | leaf b => cases path <;> cases h
    | node e entries =>
      rw [put_node_cons, Option.map_eq_some_iff] at h
      have ⟨child, made, same⟩ := h
      have ⟨here, below⟩ := sorted_node.mp sorted
      have child_sorted : child.Sorted := by
        split_ifs at made with last
        · cases absent : entries.lookup name with
          | some t => rw [absent] at made; cases made
          | none =>
            rw [absent] at made
            cases made
            exact sorted_leaf
        · refine ih ?_ made
          cases there : entries.lookup name with
          | some t => exact below name t there
          | none => exact sorted_node.mpr ⟨by simp, by simp⟩
      subst same
      refine sorted_node.mpr ⟨pairwise_enter here, fun other t there => ?_⟩
      rw [lookup_enter] at there
      split_ifs at there
      · cases there
        exact child_sorted
      · exact below other t there

/-! ## All paths -/

lemma mem_keys (pairwise : (entries.map Prod.fst).Pairwise (· < ·)) :
    entries.lookup name = some t ↔ (name, t) ∈ entries :=
  lookup_eq_some_iff (pairwise.imp fun less => less.ne)

mutual

/-- A path is listed with what is there. -/
lemma mem_rows : ∀ {t : Tree ν δ α}, t.Sorted → ∀ {path : List ν} {x : Option α},
    (path, x) ∈ t.rows ↔ ∃ u, t.find path = some u ∧ u.kind = x
  | leaf a, _, path, x => by
    cases path <;> simp [rows, kind, eq_comm]
  | node d entries, sorted, path, x => by
    have ⟨here, below⟩ := sorted_node.mp sorted
    have all : ∀ entry ∈ entries, entry.2.Sorted :=
      fun entry there => below entry.1 entry.2 ((mem_keys here).mpr there)
    rw [rows, List.mem_cons, mem_entryRows all]
    cases path with
    | nil => simp [kind, eq_comm]
    | cons name path =>
      rw [find_node_cons]
      simp only [Prod.mk.injEq, reduceCtorEq, false_and, false_or, List.cons.injEq,
        Option.bind_eq_some_iff]
      constructor
      · rintro ⟨_, _, t, ⟨rfl, rfl⟩, there, u, found, same⟩
        exact ⟨u, ⟨t, (mem_keys here).mpr there, found⟩, same⟩
      · rintro ⟨u, ⟨t, there, found⟩, same⟩
        exact ⟨name, path, t, ⟨rfl, rfl⟩, (mem_keys here).mp there, u, found, same⟩

lemma mem_entryRows : ∀ {entries : List (ν × Tree ν δ α)}, (∀ entry ∈ entries, entry.2.Sorted) →
    ∀ {path : List ν} {x : Option α}, (path, x) ∈ entryRows entries ↔
      ∃ name q t, path = name :: q ∧ (name, t) ∈ entries ∧ ∃ u, t.find q = some u ∧ u.kind = x
  | [], _, path, x => by simp [entryRows]
  | (name, t) :: rest, sorted, path, x => by
    have first : ∀ {q : List ν}, (q, x) ∈ t.rows ↔ ∃ u, t.find q = some u ∧ u.kind = x :=
      mem_rows (sorted (name, t) List.mem_cons_self)
    rw [entryRows, List.mem_append,
      mem_entryRows fun entry there => sorted entry (List.mem_cons_of_mem _ there)]
    constructor
    · rintro (here | ⟨other, q, u, same, there, found⟩)
      · have ⟨row, there, same⟩ := List.mem_map.mp here
        cases same
        exact ⟨name, row.1, t, rfl, List.mem_cons_self, first.mp there⟩
      · exact ⟨other, q, u, same, List.mem_cons_of_mem _ there, found⟩
    · rintro ⟨other, q, u, same, there, found⟩
      rcases List.mem_cons.mp there with equal | later
      · cases equal
        exact .inl (List.mem_map.mpr ⟨(q, x), first.mpr found, by rw [same]⟩)
      · exact .inr ⟨other, q, u, same, later, found⟩

end

omit [LinearOrder ν] in
lemma nodup_map_cons {rows : List (List ν × Option α)} (nodup : (rows.map Prod.fst).Nodup) :
    ((rows.map fun row => (name :: row.1, row.2)).map Prod.fst).Nodup := by
  have same : (rows.map fun row => (name :: row.1, row.2)).map Prod.fst =
      (rows.map Prod.fst).map (name :: ·) := by simp
  rw [same]
  exact nodup.map List.cons_injective

mutual

/-- Every path is listed once. -/
lemma nodup_rows : ∀ {t : Tree ν δ α}, t.Sorted → (t.rows.map Prod.fst).Nodup
  | leaf a, _ => by simp [rows]
  | node d entries, sorted => by
    have ⟨here, below⟩ := sorted_node.mp sorted
    have all : ∀ entry ∈ entries, entry.2.Sorted :=
      fun entry there => below entry.1 entry.2 ((mem_keys here).mpr there)
    rw [rows, List.map_cons, List.nodup_cons]
    refine ⟨fun there => ?_, nodup_entryRows here all⟩
    have ⟨row, listed, empty⟩ := List.mem_map.mp there
    have ⟨name, q, _, same, _⟩ := (mem_entryRows (x := row.2) all).mp listed
    rw [same] at empty
    cases empty

lemma nodup_entryRows : ∀ {entries : List (ν × Tree ν δ α)},
    (entries.map Prod.fst).Pairwise (· < ·) → (∀ entry ∈ entries, entry.2.Sorted) →
      ((entryRows entries).map Prod.fst).Nodup
  | [], _, _ => by simp [entryRows]
  | (name, t) :: rest, names, sorted => by
    rw [List.map_cons, List.pairwise_cons] at names
    have ⟨before, behind⟩ := names
    have later : ∀ entry ∈ rest, entry.2.Sorted :=
      fun entry there => sorted entry (List.mem_cons_of_mem _ there)
    rw [entryRows, List.map_append, List.nodup_append]
    refine ⟨nodup_map_cons (nodup_rows (sorted (name, t) List.mem_cons_self)),
      nodup_entryRows behind later, ?_⟩
    -- the paths of an entry begin with its name, and the names differ
    intro p here q there same
    have ⟨row, listed, first⟩ := List.mem_map.mp here
    have ⟨below, _, under⟩ := List.mem_map.mp listed
    have ⟨other, found, second⟩ := List.mem_map.mp there
    have ⟨next, _, u, path, entry, _⟩ := (mem_entryRows (x := other.2) later).mp found
    have equal : name = next := by
      rw [← first, ← under, ← second, path] at same
      exact (List.cons.inj same).1
    have less := before next (List.mem_map.mpr ⟨(next, u), entry, rfl⟩)
    exact absurd equal less.ne

end

lemma mem_leafPaths (sorted : t.Sorted) :
    path ∈ t.leafPaths ↔ ∃ a, t.find path = some (leaf a) := by
  have listed : path ∈ t.leafPaths ↔ ∃ a, (path, some a) ∈ t.rows := by
    simp [leafPaths, Option.isSome_iff_exists]
  rw [listed]
  constructor
  · rintro ⟨a, there⟩
    have ⟨u, found, kind⟩ := (mem_rows sorted).mp there
    cases u with
    | leaf b => exact ⟨b, found⟩
    | node d entries => cases kind
  · rintro ⟨a, found⟩
    exact ⟨a, (mem_rows sorted).mpr ⟨leaf a, found, rfl⟩⟩

lemma nodup_leafPaths (sorted : t.Sorted) : t.leafPaths.Nodup :=
  (nodup_rows sorted).sublist (List.filter_sublist.map _)

end Find

/-! ## Other data at the nodes -/

mutual

/-- A tree with other data at its nodes. -/
def mapNodes (f : δ → δ) : Tree ν δ α → Tree ν δ α
  | .leaf a => .leaf a
  | .node d entries => .node (f d) (mapEntries f entries)

def mapEntries (f : δ → δ) : List (ν × Tree ν δ α) → List (ν × Tree ν δ α)
  | [] => []
  | (name, t) :: rest => (name, mapNodes f t) :: mapEntries f rest

end

section MapNodes

variable {f : δ → δ} {t : Tree ν δ α} {entries : List (ν × Tree ν δ α)}

lemma keys_mapEntries : (mapEntries f entries).map Prod.fst = entries.map Prod.fst := by
  induction entries with
  | nil => rfl
  | cons first rest ih => rw [mapEntries, List.map_cons, List.map_cons, ih]

mutual

/-- The paths stay. -/
lemma rows_mapNodes : ∀ {t : Tree ν δ α}, (t.mapNodes f).rows = t.rows
  | leaf a => rfl
  | node d entries => by rw [mapNodes, rows, rows, rows_mapEntries]

lemma rows_mapEntries : ∀ {entries : List (ν × Tree ν δ α)},
    entryRows (mapEntries f entries) = entryRows entries
  | [] => rfl
  | (name, t) :: rest => by rw [mapEntries, entryRows, entryRows, rows_mapNodes, rows_mapEntries]

end

variable [LinearOrder ν]

lemma lookup_mapEntries {name : ν} :
    (mapEntries f entries).lookup name = (entries.lookup name).map (mapNodes f) := by
  induction entries with
  | nil => rfl
  | cons first rest ih =>
    have ⟨other, u⟩ := first
    rw [mapEntries, lookup_pair, lookup_pair, ih]
    split_ifs <;> rfl

lemma find_mapNodes {path : List ν} :
    (t.mapNodes f).find path = (t.find path).map (mapNodes f) := by
  induction path generalizing t with
  | nil => simp
  | cons name path ih =>
    cases t with
    | leaf a => rfl
    | node d entries =>
      rw [mapNodes, find_node_cons, find_node_cons, lookup_mapEntries]
      cases entries.lookup name with
      | none => rfl
      | some u => exact ih

lemma sorted_mapNodes (sorted : t.Sorted) : (t.mapNodes f).Sorted := by
  intro path d entries found
  rw [find_mapNodes, Option.map_eq_some_iff] at found
  have ⟨u, there, same⟩ := found
  cases u with
  | leaf a => cases same
  | node e others =>
    cases same
    rw [keys_mapEntries]
    exact sorted path e others there

end MapNodes

/-! ## A traversal with a budget -/

/-- What a traversal checks: the path and data of each node, the path of each entry, and each leaf. -/
structure Visitor (ν δ α : Type) where
  limit : ℕ
  opens : List ν → δ → Bool
  passes : List ν → Bool
  reads : α → Bool

mutual

/-- A traversal.  It keeps the paths of the leaves and counts the entries. -/
def visitTree (V : Visitor ν δ α) (here : List ν) :
    Tree ν δ α → List (List ν) × ℕ → Option (List (List ν) × ℕ)
  | .leaf a, (found, count) => if V.reads a then some (found ++ [here], count) else none
  | .node d entries, state =>
      if V.opens here d ∧ entries.length ≤ V.limit then visitEntries V here entries state else none

def visitEntries (V : Visitor ν δ α) (here : List ν) :
    List (ν × Tree ν δ α) → List (List ν) × ℕ → Option (List (List ν) × ℕ)
  | [], state => some state
  | (name, t) :: rest, (found, count) =>
      if count < V.limit ∧ V.passes (here ++ [name]) then
        (visitTree V (here ++ [name]) t (found, count + 1)).bind (visitEntries V here rest)
      else none

end

/-- The leaves that a traversal of a tree finds. -/
def visit (V : Visitor ν δ α) (t : Tree ν δ α) : Option (List (List ν)) :=
  (visitTree V [] t ([], 0)).map Prod.fst

mutual

/-- Nothing in a tree is refused, budget apart. -/
def Clean (V : Visitor ν δ α) (here : List ν) : Tree ν δ α → Prop
  | .leaf a => V.reads a
  | .node d entries => V.opens here d ∧ CleanEntries V here entries

def CleanEntries (V : Visitor ν δ α) (here : List ν) : List (ν × Tree ν δ α) → Prop
  | [] => True
  | (name, t) :: rest => V.passes (here ++ [name]) ∧ Clean V (here ++ [name]) t ∧
      CleanEntries V here rest

end

section Visit

variable {V : Visitor ν δ α} {d : δ} {t : Tree ν δ α} {entries : List (ν × Tree ν δ α)}
  {here : List ν}

/-- The leaves among some rows, below a path. -/
def leavesOf (here : List ν) (rows : List (List ν × Option α)) : List (List ν) :=
  (rows.filter fun row => row.2.isSome).map fun row => here ++ row.1

lemma length_le_entryRows : entries.length ≤ (entryRows entries).length := by
  induction entries with
  | nil => simp
  | cons first rest ih =>
    have ⟨name, t⟩ := first
    have pos : 0 < t.rows.length := by cases t <;> simp [rows]
    rw [entryRows, List.length_append, List.length_map, List.length_cons]
    omega

lemma leavesOf_append {rows others : List (List ν × Option α)} :
    leavesOf here (rows ++ others) = leavesOf here rows ++ leavesOf here others := by
  simp [leavesOf]

lemma leavesOf_cons {name : ν} {rows : List (List ν × Option α)} :
    leavesOf here (rows.map fun row => (name :: row.1, row.2)) = leavesOf (here ++ [name]) rows := by
  simp [leavesOf, List.filter_map, Function.comp_def]

mutual

/-- A traversal of what is not refused: its entries are counted, and the budget decides. -/
lemma visitTree_eq : ∀ {t : Tree ν δ α} {here : List ν}, Clean V here t →
    ∀ (found : List (List ν)) (count : ℕ), count ≤ V.limit →
      visitTree V here t (found, count) =
        if count + t.rows.length ≤ V.limit + 1 then
          some (found ++ leavesOf here t.rows, count + t.rows.length - 1)
        else none
  | leaf a, here, clean, found, count, within => by
    have room : count + 1 ≤ V.limit + 1 := Nat.add_le_add_right within 1
    have reads : V.reads a = true := clean
    rw [visitTree, if_pos reads, rows, List.length_singleton, if_pos room]
    simp [leavesOf]
  | node d entries, here, clean, found, count, within => by
    have ⟨opens, below⟩ := clean
    have few := @length_le_entryRows _ _ _ entries
    have leaves : leavesOf here (([], none) :: entryRows entries) =
        leavesOf here (entryRows entries) := by simp [leavesOf]
    rw [visitTree, visitEntries_eq below found count within, rows, List.length_cons, leaves]
    by_cases room : count + (entryRows entries).length ≤ V.limit
    · rw [if_pos ⟨opens, by omega⟩, if_pos room, if_pos (by omega)]
      simp [← Nat.add_assoc]
    · have beyond : ¬count + ((entryRows entries).length + 1) ≤ V.limit + 1 := by omega
      rw [if_neg room, if_neg beyond, ite_self]

lemma visitEntries_eq : ∀ {entries : List (ν × Tree ν δ α)} {here : List ν},
    CleanEntries V here entries → ∀ (found : List (List ν)) (count : ℕ), count ≤ V.limit →
      visitEntries V here entries (found, count) =
        if count + (entryRows entries).length ≤ V.limit then
          some (found ++ leavesOf here (entryRows entries), count + (entryRows entries).length)
        else none
  | [], here, _, found, count, within => by
    simp [visitEntries, entryRows, leavesOf, within]
  | (name, t) :: rest, here, clean, found, count, within => by
    have ⟨passes, first, later⟩ := clean
    have pos : 0 < t.rows.length := by cases t <;> simp [rows]
    have total : (entryRows ((name, t) :: rest)).length =
        t.rows.length + (entryRows rest).length := by simp [entryRows]
    have leaves : leavesOf here (entryRows ((name, t) :: rest)) =
        leavesOf (here ++ [name]) t.rows ++ leavesOf here (entryRows rest) := by
      rw [entryRows, leavesOf_append, leavesOf_cons]
    rw [visitEntries, total, leaves]
    by_cases room : count < V.limit
    · rw [if_pos ⟨room, passes⟩, visitTree_eq first found (count + 1) room]
      by_cases fits : count + t.rows.length ≤ V.limit
      · have counted : count + 1 + t.rows.length - 1 = count + t.rows.length := by omega
        rw [if_pos (by omega), Option.bind_some, counted, visitEntries_eq later _ _ fits,
          List.append_assoc, Nat.add_assoc]
      · rw [if_neg (by omega), Option.bind_none, if_neg (by omega)]
    · rw [if_neg fun passed => room passed.1, if_neg (by omega)]

end

mutual

/-- What is refused is refused at some path. -/
lemma clean_of_find [LinearOrder ν] : ∀ {t : Tree ν δ α} {here : List ν}, t.Sorted →
    (∀ path u, t.find path = some u → (path ≠ [] → V.passes (here ++ path)) ∧
      (∀ d entries, u = node d entries → V.opens (here ++ path) d) ∧
      ∀ a, u = leaf a → V.reads a) → Clean V here t
  | leaf a, here, _, checks => (checks [] (leaf a) find_nil).2.2 a rfl
  | node d entries, here, sorted, checks => by
    have ⟨names, below⟩ := sorted_node.mp sorted
    have opens := (checks [] (node d entries) find_nil).2.1 d entries rfl
    rw [List.append_nil] at opens
    refine ⟨opens, cleanEntries_of_find (fun entry there => ?_) fun name t there path u found => ?_⟩
    · exact below entry.1 entry.2 ((mem_keys names).mpr there)
    · refine checks (name :: path) u ?_
      rw [find_node_cons, (mem_keys names).mpr there]
      exact found

lemma cleanEntries_of_find [LinearOrder ν] : ∀ {entries : List (ν × Tree ν δ α)} {here : List ν},
    (∀ entry ∈ entries, entry.2.Sorted) →
    (∀ name t, (name, t) ∈ entries → ∀ path u, t.find path = some u →
      (name :: path ≠ [] → V.passes (here ++ name :: path)) ∧
      (∀ d below, u = node d below → V.opens (here ++ name :: path) d) ∧
      ∀ a, u = leaf a → V.reads a) → CleanEntries V here entries
  | [], _, _, _ => trivial
  | (name, t) :: rest, here, sorted, checks => by
    have first := checks name t List.mem_cons_self
    refine ⟨?_, clean_of_find (sorted (name, t) List.mem_cons_self) fun path u found => ?_,
      cleanEntries_of_find (fun entry there => sorted entry (List.mem_cons_of_mem _ there))
        fun other u there => checks other u (List.mem_cons_of_mem _ there)⟩
    · exact (first [] t find_nil).1 (by simp)
    · have ⟨passes, opens, reads⟩ := first path u found
      rw [List.append_assoc]
      exact ⟨fun _ => passes (by simp), opens, reads⟩

end

/-- **A traversal with a budget.** Where nothing else is refused, it ends well exactly when the entries
are within the budget, and then it finds the leaves. -/
theorem visit_eq (clean : Clean V [] t) :
    visit V t = if t.rows.length ≤ V.limit + 1 then some t.leafPaths else none := by
  have leaves : leavesOf [] t.rows = t.leafPaths := by simp [leavesOf, leafPaths]
  rw [visit, visitTree_eq clean [] 0 (Nat.zero_le _), leaves, Nat.zero_add]
  split_ifs <;> simp

end Visit

end Tree

end ExperimentControl
