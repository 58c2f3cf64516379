import ExperimentControl.Library.Fallible
import ExperimentControl.Library.Text
import ExperimentControl.Library.Traversal

/-!
# Source topologies

`TreePlan::new` of `core/src/sources.rs`: an observed source topology is checked entry by entry,
every parent has to be an observed directory, and the entries are put in the one order in which a
tree is hashed.

* `relative` — the normal form of a member path.
* `TreePlan.new` — the checks and the depth-first order.
* **`TreePlan.new_perm`** — an accepted plan lists exactly the entries it was given.
* `TreePlan.walk_fuel` — the bound on the turns of the ordering loop is never the reason it ends.
-/

namespace ExperimentControl

namespace Sources

/-! ## Bounds, policy and errors -/

def chunkBytes : ℕ := 1024 * 1024
def maxArchiveBytes : ℕ := 512 * 1024 * 1024
def maxSourceBytes : ℕ := 1024 * 1024 * 1024
def maxSourceFiles : ℕ := 100000
def maxPathBytes : ℕ := 4096
def maxDepth : ℕ := 128
def maxTopologyEntries : ℕ := 100000
def maxTopologyBytes : ℕ := 16 * 1024 * 1024

inductive Error
  | policy
  | path
  | duplicate
  | unsupported
  | limit
  | topology
  | chunk
  | incomplete
  | identity
  | metadata
  deriving DecidableEq, Repr

/-- `checked_add` of the 64-bit `usize` and `u64`, with the overflow reported as `Limit`. -/
def checkedAdd (a b : ℕ) : Except Error ℕ :=
  if a + b < 2 ^ 64 then .ok (a + b) else .error .limit

/-- The finite bounds a caller reads a source under. -/
structure Policy where
  maxArchiveBytes : ℕ := 64 * 1024 * 1024
  maxSourceBytes : ℕ := 256 * 1024 * 1024
  maxSourceFiles : ℕ := 20000
  deriving DecidableEq, Repr

def Policy.validate (policy : Policy) : Except Error Unit :=
  reject (policy.maxArchiveBytes = 0 ∨ policy.maxArchiveBytes > Sources.maxArchiveBytes ∨
    policy.maxSourceBytes = 0 ∨ policy.maxSourceBytes > Sources.maxSourceBytes ∨
    policy.maxSourceFiles = 0 ∨ policy.maxSourceFiles > Sources.maxSourceFiles) .policy

/-! ## Paths -/

/-- The components of a path, without the empty ones and `.`. -/
def parts (raw : String) : List String :=
  ((raw.toList.splitOn '/').map String.ofList).filter fun part => part ≠ "" ∧ part ≠ "."

/-- The normal form of a relative path, or the refusal of one that could escape. -/
def relative (raw : String) : Except Error String :=
  if raw = "" ∨ raw.toList.head? = some '/' ∨ raw.toList.contains '\\' ∨
      raw.toList.contains (Char.ofNat 0) ∨ (utf8 raw).length > maxPathBytes then
    .error .path
  else
    let components := parts raw
    if components = [] ∨ components.length > maxDepth ∨ components.contains ".." then
      .error .path
    else
      .ok ("/".intercalate components)

/-- `rsplit_once('/')`, with the empty text as the parent of a top-level path. -/
def parentOf (path : String) : String :=
  String.ofList ((path.toList.reverse.dropWhile (· ≠ '/')).tail.reverse)

/-! ## Entries and the plan -/

inductive TreeKind
  | directory
  | file (size : ℕ) (executable : Bool)
  deriving DecidableEq, Repr

structure TreeEntry where
  path : String
  kind : TreeKind
  deriving DecidableEq, Repr

/-- An accepted topology in hashing order. -/
structure TreePlan where
  entries : List TreeEntry
  bytes : ℕ
  files : ℕ
  deriving DecidableEq, Repr

/-- What the first loop of `TreePlan::new` carries from entry to entry. -/
structure Scan where
  table : Std.TreeMap String TreeKind := ∅
  pathBytes : ℕ := 0
  bytes : ℕ := 0
  files : ℕ := 0

/-- The file part of the first loop: sizes and counts against the policy. -/
def Scan.account (policy : Policy) (scan : Scan) : TreeKind → Except Error Scan
  | .directory => .ok scan
  | .file size _ => do
      let bytes ← checkedAdd scan.bytes size
      reject (bytes > policy.maxSourceBytes ∨ scan.files + 1 > policy.maxSourceFiles) .limit
      .ok { scan with bytes, files := scan.files + 1 }

/-- One turn of the first loop. -/
def Scan.accept (policy : Policy) (scan : Scan) (entry : TreeEntry) : Except Error Scan := do
  let normalized ← relative entry.path
  reject (normalized ≠ entry.path) .topology
  let pathBytes ← checkedAdd scan.pathBytes (utf8 entry.path).length
  reject (pathBytes > maxTopologyBytes) .limit
  let scan ← Scan.account policy { scan with pathBytes } entry.kind
  reject (scan.table.contains entry.path) .duplicate
  .ok { scan with table := scan.table.insert entry.path entry.kind }

/-- The paths below each parent, in the order of the table. -/
abbrev Children := Std.TreeMap String (List String)

/-- One turn of the second loop: the parent is an observed directory and lists its child. -/
def link (table : Std.TreeMap String TreeKind) (children : Children) (path : String) :
    Except Error Children :=
  let parent := parentOf path
  if parent ≠ "" ∧ table[parent]? ≠ some .directory then
    .error .topology
  else
    .ok (children.insert parent (children.getD parent [] ++ [path]))

/-- The entries below one parent. -/
def listing (table : Std.TreeMap String TreeKind) (children : Children) (parent : String) :
    List TreeEntry :=
  (children.getD parent []).filterMap fun path => table[path]?.map (TreeEntry.mk path)

/-- The directories among them, which the walk still has to enter. -/
def subdirectories (table : Std.TreeMap String TreeKind) (children : Children) (parent : String) :
    List String :=
  ((listing table children parent).filter (·.kind = .directory)).map (·.path)

/-- The ordering loop.  `pending` is the stack with its top first: the source pushes the
subdirectories in reverse, so the first of them is on top. -/
def walk (table : Std.TreeMap String TreeKind) (children : Children) :
    ℕ → List String → List TreeEntry → List TreeEntry
  | 0, _, ordered => ordered
  | _ + 1, [], ordered => ordered
  | fuel + 1, parent :: pending, ordered =>
      walk table children fuel (subdirectories table children parent ++ pending)
        (ordered ++ listing table children parent)

/-- **`TreePlan::new`.**  Every directory is entered at most once, so the ordering loop gets one
turn for the root and one for each entry (`walk_fuel`). -/
def TreePlan.new (entries : List TreeEntry) (policy : Policy) : Except Error TreePlan := do
  policy.validate
  reject (entries.length > maxTopologyEntries) .limit
  let scan ← entries.foldlM (Scan.accept policy) {}
  let children ← scan.table.keys.foldlM (link scan.table) ∅
  let ordered := walk scan.table children (scan.table.size + 1) [""] []
  reject (ordered.length ≠ scan.table.size) .topology
  .ok { entries := ordered, bytes := scan.bytes, files := scan.files }

/-! ## What the scan accepts -/

/-- The bytes an entry contributes. -/
def TreeKind.size : TreeKind → ℕ
  | .directory => 0
  | .file size _ => size

/-- The entries of a table, in path order. -/
def tableEntries (table : Std.TreeMap String TreeKind) : List TreeEntry :=
  table.toList.map fun p => ⟨p.1, p.2⟩

lemma mem_tableEntries {table : Std.TreeMap String TreeKind} {e : TreeEntry} :
    e ∈ tableEntries table ↔ table[e.path]? = some e.kind := by
  obtain ⟨path, kind⟩ := e
  simp only [tableEntries, List.mem_map, Prod.exists, TreeEntry.mk.injEq]
  constructor
  · rintro ⟨p, k, hmem, rfl, rfl⟩
    exact Std.TreeMap.mem_toList_iff_getElem?_eq_some.mp hmem
  · intro h
    exact ⟨path, kind, Std.TreeMap.mem_toList_iff_getElem?_eq_some.mpr h, rfl, rfl⟩

@[simp] lemma length_tableEntries (table : Std.TreeMap String TreeKind) :
    (tableEntries table).length = table.size := by
  simp [tableEntries, Std.TreeMap.length_toList]

/-- A new path adds its own entry and leaves the others. -/
lemma tableEntries_insert {table : Std.TreeMap String TreeKind} {entry : TreeEntry}
    (hnew : entry.path ∉ table) :
    (tableEntries (table.insert entry.path entry.kind)).Perm (entry :: tableEntries table) := by
  have hfilter : table.toList.filter (fun p => ¬entry.path == p.1) = table.toList := by
    refine List.filter_eq_self.mpr fun p hp => ?_
    have hmem : p.1 ∈ table := by
      have hget := Std.TreeMap.mem_toList_iff_getElem?_eq_some.mp hp
      exact Std.TreeMap.mem_iff_isSome_getElem?.mpr (by rw [hget]; rfl)
    have hne : entry.path ≠ p.1 := fun heq => hnew (heq ▸ hmem)
    simpa using hne
  have hperm := Std.TreeMap.toList_insert_perm (t := table) (k := entry.path) (v := entry.kind)
  rw [hfilter] at hperm
  exact hperm.map _

/-- A normal path is a non-empty text of at most 4096 bytes. -/
lemma relative_ok {raw path : String} (h : relative raw = .ok path) :
    raw ≠ "" ∧ (utf8 raw).length ≤ maxPathBytes := by
  unfold relative at h
  split_ifs at h with hraw
  push Not at hraw
  exact ⟨hraw.1, hraw.2.2.2.2⟩

lemma checkedAdd_ok {a b c : ℕ} (h : checkedAdd a b = .ok c) : c = a + b := by
  unfold checkedAdd at h
  split_ifs at h
  exact (Except.ok.inj h).symm

lemma Scan.account_ok {policy : Policy} {scan scan' : Scan} {kind : TreeKind}
    (h : Scan.account policy scan kind = .ok scan') :
    scan'.table = scan.table ∧ scan'.bytes = scan.bytes + kind.size := by
  cases kind with
  | directory =>
    cases h
    exact ⟨rfl, rfl⟩
  | file size executable =>
    obtain ⟨bytes, hbytes, h⟩ := bind_eq_ok.mp h
    obtain ⟨_, _, h⟩ := bind_eq_ok.mp h
    cases h
    exact ⟨rfl, checkedAdd_ok hbytes⟩

/-- **One accepted entry**: its path is normal and new, and it is all that is added. -/
lemma Scan.accept_ok {policy : Policy} {scan scan' : Scan} {entry : TreeEntry}
    (h : Scan.accept policy scan entry = .ok scan') :
    relative entry.path = .ok entry.path ∧ entry.path ∉ scan.table ∧
      scan'.table = scan.table.insert entry.path entry.kind ∧
      scan'.bytes = scan.bytes + entry.kind.size := by
  unfold Scan.accept at h
  obtain ⟨normalized, hrel, h⟩ := bind_eq_ok.mp h
  obtain ⟨_, hnormal, h⟩ := bind_eq_ok.mp h
  obtain ⟨pathBytes, _, h⟩ := bind_eq_ok.mp h
  obtain ⟨_, _, h⟩ := bind_eq_ok.mp h
  obtain ⟨scan₁, hacc, h⟩ := bind_eq_ok.mp h
  obtain ⟨_, hdup, h⟩ := bind_eq_ok.mp h
  cases h
  obtain ⟨htable, hbytes⟩ := Scan.account_ok hacc
  rw [reject_eq_ok, not_not] at hnormal
  rw [reject_eq_ok, htable] at hdup
  rw [htable]
  exact ⟨hnormal ▸ hrel, by simpa using hdup, rfl, hbytes⟩

/-- **The first loop** collects exactly the entries it reads. -/
lemma Scan.accept_foldlM {policy : Policy} :
    ∀ {entries : List TreeEntry} {scan scan' : Scan},
      entries.foldlM (Scan.accept policy) scan = .ok scan' →
        (∀ e ∈ entries, relative e.path = .ok e.path) ∧
          (tableEntries scan'.table).Perm (entries ++ tableEntries scan.table) ∧
          scan'.bytes = scan.bytes + (entries.map (·.kind.size)).sum
  | [], scan, scan', h => by
      cases h
      exact ⟨by simp, by simp, by simp⟩
  | e :: entries, scan, scan', h => by
      obtain ⟨scan₁, haccept, h⟩ := foldlM_cons_eq_ok.mp h
      obtain ⟨hrel, hnew, htable, hbytes⟩ := Scan.accept_ok haccept
      obtain ⟨hrels, hperm, hsum⟩ := Scan.accept_foldlM h
      refine ⟨by simpa using ⟨hrel, hrels⟩, ?_, ?_⟩
      · have hinsert : (tableEntries scan₁.table).Perm (e :: tableEntries scan.table) := by
          rw [htable]
          exact tableEntries_insert hnew
        exact hperm.trans ((hinsert.append_left entries).trans (by simp))
      · simp only [List.map_cons, List.sum_cons]
        omega

/-! ## What the second loop builds -/

/-- **The second loop** lists every path under its parent, which is the root or a directory. -/
lemma link_foldlM {table : Std.TreeMap String TreeKind} :
    ∀ {paths : List String} {children children' : Children},
      paths.foldlM (link table) children = .ok children' →
        (∀ p ∈ paths, parentOf p = "" ∨ table[parentOf p]? = some .directory) ∧
          ∀ parent, children'.getD parent [] =
            children.getD parent [] ++ paths.filter (parentOf · = parent)
  | [], children, children', h => by
      cases h
      exact ⟨by simp, by simp⟩
  | p :: paths, children, children', h => by
      obtain ⟨children₁, hlink, h⟩ := foldlM_cons_eq_ok.mp h
      obtain ⟨hparents, hgetD⟩ := link_foldlM h
      simp only [link] at hlink
      split_ifs at hlink with hbad
      cases hlink
      refine ⟨?_, ?_⟩
      · intro q hq
        rcases List.mem_cons.mp hq with rfl | hq
        · by_cases hroot : parentOf q = ""
          · exact .inl hroot
          · exact .inr (by_contra fun hdir => hbad ⟨hroot, hdir⟩)
        · exact hparents q hq
      · intro parent
        rw [hgetD parent, Std.TreeMap.getD_insert]
        by_cases hp : parentOf p = parent
        · subst hp
          simp
        · have hcmp : compare (parentOf p) parent ≠ .eq := by
            simpa using hp
          simp [hcmp, hp]

/-- Each parent lists its own paths, in table order. -/
def Linked (table : Std.TreeMap String TreeKind) (children : Children) : Prop :=
  ∀ parent, children.getD parent [] = table.keys.filter (parentOf · = parent)

section Listing

variable {table : Std.TreeMap String TreeKind} {children : Children}

lemma mem_listing (hlinked : Linked table children) {parent : String} {e : TreeEntry} :
    e ∈ listing table children parent ↔
      table[e.path]? = some e.kind ∧ parentOf e.path = parent := by
  obtain ⟨path, kind⟩ := e
  simp only [listing, hlinked parent, List.mem_filterMap, List.mem_filter, decide_eq_true_eq,
    Option.map_eq_some_iff, TreeEntry.mk.injEq]
  constructor
  · rintro ⟨p, ⟨_, hparent⟩, k, hk, rfl, rfl⟩
    exact ⟨hk, hparent⟩
  · rintro ⟨hk, hparent⟩
    have hmem : path ∈ table := Std.TreeMap.mem_iff_isSome_getElem?.mpr (by rw [hk]; rfl)
    exact ⟨path, ⟨Std.TreeMap.mem_keys.mpr hmem, hparent⟩, kind, hk, rfl, rfl⟩

/-- The paths of a listing are distinct. -/
lemma nodup_listing (hlinked : Linked table children) (parent : String) :
    ((listing table children parent).map (·.path)).Nodup := by
  have hkeys : (table.keys.filter (parentOf · = parent)).Nodup := by
    refine List.Nodup.filter _ (table.distinct_keys.imp ?_)
    intro a b hab heq
    exact hab (by simp [heq])
  refine hkeys.sublist ?_
  rw [listing, hlinked parent, List.map_filterMap]
  induction table.keys.filter (parentOf · = parent) with
  | nil => simp
  | cons p paths ih =>
    cases hp : table[p]? with
    | none => simpa [hp] using ih.cons p
    | some kind => simpa [hp] using ih

/-- The directories of an accepted table form a forest below the empty path. -/
lemma subdirectories_forest (hlinked : Linked table children)
    (hpaths : ∀ e ∈ tableEntries table, e.path ≠ "") :
    Forest (subdirectories table children) parentOf "" where
  nodup_children parent := by
    refine (nodup_listing hlinked parent).sublist ?_
    exact List.Sublist.map _ List.filter_sublist
  parent_eq parent path hpath := by
    simp only [subdirectories, List.mem_map, List.mem_filter] at hpath
    obtain ⟨e, ⟨he, _⟩, rfl⟩ := hpath
    exact ((mem_listing hlinked).mp he).2
  root_notMem parent hroot := by
    simp only [subdirectories, List.mem_map, List.mem_filter] at hroot
    obtain ⟨e, ⟨he, _⟩, hpath⟩ := hroot
    exact hpaths e (mem_tableEntries.mpr ((mem_listing hlinked).mp he).1) hpath

end Listing

/-! ## The ordering loop -/

/-- The loop lists the directories in the order in which it visits them. -/
lemma walk_eq (table : Std.TreeMap String TreeKind) (children : Children) :
    ∀ (fuel : ℕ) (pending : List String) (ordered : List TreeEntry),
      walk table children fuel pending ordered =
        ordered ++ (visits (subdirectories table children) fuel pending).flatMap
          (listing table children)
  | 0, _, _ => by simp [walk, visits]
  | fuel + 1, [], _ => by simp [walk, visits]
  | fuel + 1, parent :: pending, ordered => by
      rw [walk, walk_eq table children fuel]
      simp [visits, List.append_assoc]

/-- **The bound on the ordering loop is no restriction.**  Any larger bound gives the same order. -/
theorem walk_fuel {table : Std.TreeMap String TreeKind} {children : Children}
    (hlinked : Linked table children) (hpaths : ∀ e ∈ tableEntries table, e.path ≠ "") (k : ℕ) :
    walk table children (table.size + 1 + k) [""] [] =
      walk table children (table.size + 1) [""] [] := by
  have hnodes : ∀ a, ∀ b ∈ subdirectories table children a,
      b ∈ (tableEntries table).map (·.path) := by
    intro a b hb
    simp only [subdirectories, List.mem_map, List.mem_filter] at hb
    obtain ⟨e, ⟨he, _⟩, rfl⟩ := hb
    exact List.mem_map_of_mem (mem_tableEntries.mpr ((mem_listing hlinked).mp he).1)
  rw [walk_eq, walk_eq,
    (subdirectories_forest hlinked hpaths).visits_fuel hnodes (by simp) k]

/-- The ordered entries are distinct: no directory is entered twice, and different directories list
different entries. -/
lemma nodup_walk {table : Std.TreeMap String TreeKind} {children : Children}
    (hlinked : Linked table children) (hpaths : ∀ e ∈ tableEntries table, e.path ≠ "")
    (fuel : ℕ) : (walk table children fuel [""] []).Nodup := by
  rw [walk_eq, List.nil_append, List.nodup_flatMap]
  refine ⟨fun parent _ => (nodup_listing hlinked parent).of_map, ?_⟩
  refine ((subdirectories_forest hlinked hpaths).nodup_visits fuel).imp ?_
  intro a b hab e hea heb
  exact hab (((mem_listing hlinked).mp hea).2.symm.trans ((mem_listing hlinked).mp heb).2)

/-- Only entries of the table are ordered. -/
lemma walk_subset {table : Std.TreeMap String TreeKind} {children : Children}
    (hlinked : Linked table children) (fuel : ℕ) :
    walk table children fuel [""] [] ⊆ tableEntries table := by
  intro e he
  rw [walk_eq, List.nil_append, List.mem_flatMap] at he
  obtain ⟨parent, _, hmem⟩ := he
  exact mem_tableEntries.mpr ((mem_listing hlinked).mp hmem).1

/-! ## Accepted plans -/

/-- **An accepted plan lists exactly the entries it was given.**  Their paths are distinct and
normal, and the plan's byte count is the sum of their sizes. -/
theorem TreePlan.new_perm {entries : List TreeEntry} {policy : Policy} {plan : TreePlan}
    (h : TreePlan.new entries policy = .ok plan) :
    plan.entries.Perm entries ∧ (plan.entries.map (·.path)).Nodup ∧
      (∀ e ∈ entries, relative e.path = .ok e.path) ∧
      plan.bytes = (entries.map (·.kind.size)).sum := by
  unfold TreePlan.new at h
  obtain ⟨_, _, h⟩ := bind_eq_ok.mp h
  obtain ⟨_, _, h⟩ := bind_eq_ok.mp h
  obtain ⟨scan, hscan, h⟩ := bind_eq_ok.mp h
  obtain ⟨children, hchildren, h⟩ := bind_eq_ok.mp h
  obtain ⟨_, hlen, h⟩ := bind_eq_ok.mp h
  cases h
  rw [reject_eq_ok, not_not] at hlen
  obtain ⟨hrel, hperm, hbytes⟩ := Scan.accept_foldlM hscan
  have hperm' : (tableEntries scan.table).Perm entries := by
    have hempty : tableEntries ∅ = [] := rfl
    simpa [hempty] using hperm
  have hlinked : Linked scan.table children := by
    intro parent
    simpa using (link_foldlM hchildren).2 parent
  have hpaths : ∀ e ∈ tableEntries scan.table, e.path ≠ "" := fun e he =>
    (relative_ok (hrel e (hperm'.mem_iff.mp he))).1
  have hkeys : ((tableEntries scan.table).map (·.path)).Nodup := by
    have hmap : (tableEntries scan.table).map (·.path) = scan.table.keys := by
      simp [tableEntries, Std.TreeMap.map_fst_toList_eq_keys, Function.comp_def]
    rw [hmap]
    refine scan.table.distinct_keys.imp fun hab heq => hab (by simp [heq])
  have hnodup := nodup_walk hlinked hpaths (scan.table.size + 1)
  have hsub := List.subperm_of_subset hnodup (walk_subset hlinked (scan.table.size + 1))
  have hordered := hsub.perm_of_length_le (by simp [hlen])
  exact ⟨hordered.trans hperm', (hordered.map _).nodup_iff.mpr hkeys, hrel, by simpa using hbytes⟩

end Sources

end ExperimentControl
