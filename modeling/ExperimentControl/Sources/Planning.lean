import ExperimentControl.Library.Rows
import ExperimentControl.Sources.Tree

/-!
# Which topologies are accepted

The exact conditions of `TreePlan::new`, and the order of an accepted plan.

* `NormalPath` — a path that is its own normal form.
* `Accepted` — the paths are normal and distinct, parents are directories, the limits hold.
* `new_eq_ok` — those topologies have a plan, and no others.
* **`TreePlan.new_exact`** — with it: the plan lists the given entries, everything behind the
  directory it lies in, whatever order they are given in.
-/

namespace ExperimentControl

namespace Sources

/-! ## Normal paths -/

/-- A path of plain components that is not too long and not too deep. -/
structure NormalPath (path : String) : Prop where
  bytes : (utf8 path).length ≤ maxPathBytes
  backslash : '\\' ∉ path.toList
  nul : Char.ofNat 0 ∉ path.toList
  depth : (split '/' path).length ≤ maxDepth
  plain : ∀ part ∈ split '/' path, part ≠ "" ∧ part ≠ "." ∧ part ≠ ".."

lemma split_ne_nil (path : String) : split '/' path ≠ [] := by
  rw [split, Ne, List.map_eq_nil_iff]
  exact List.splitOn_ne_nil _ _

lemma join_split (path : String) : "/".intercalate (split '/' path) = path := by
  apply String.toList_inj.mp
  have hsame : String.toList ∘ String.ofList = id := funext fun l => String.toList_ofList
  rw [String.toList_intercalate, split, List.map_map, hsame, List.map_id]
  exact List.intercalate_splitOn '/'

lemma parts_eq (path : String) :
    parts path = (split '/' path).filter fun part => part ≠ "" ∧ part ≠ "." := rfl

/-- A text that its plain components make up has no others. -/
lemma split_of_join {path : String} (hne : parts path ≠ [])
    (h : "/".intercalate (parts path) = path) : parts path = split '/' path := by
  have hsplit := @split_join '/' _ hne fun part hpart =>
    not_mem_of_mem_split (List.mem_filter.mp (parts_eq path ▸ hpart)).1
  have hjoin : join '/' (parts path) = path := by
    apply String.toList_inj.mp
    rw [join, String.toList_ofList]
    exact (String.toList_intercalate (s := "/")).symm.trans (congrArg String.toList h)
  rw [hjoin] at hsplit
  exact hsplit.symm

/-- **The normal paths** are those that are their own normal form. -/
theorem relative_eq_self_iff {path : String} : relative path = .ok path ↔ NormalPath path := by
  constructor
  · intro h
    unfold relative at h
    split_ifs at h with hraw
    dsimp only at h
    split_ifs at h with hparts
    simp only [not_or, not_lt, List.contains_iff_mem] at hraw hparts
    obtain ⟨hempty, -, hback, hnul, hbytes⟩ := hraw
    obtain ⟨hne, hdepth, hup⟩ := hparts
    have hsplit := split_of_join hne (Except.ok.inj h)
    rw [hsplit] at hdepth hup
    refine ⟨hbytes, hback, hnul, hdepth, fun part hpart => ?_⟩
    have hplain := List.mem_filter.mp (parts_eq path ▸ hsplit ▸ hpart)
    obtain ⟨hsome, hdot⟩ := of_decide_eq_true hplain.2
    refine ⟨hsome, hdot, ?_⟩
    rintro rfl
    exact hup hpart
  · intro h
    have hparts : parts path = split '/' path := by
      rw [parts_eq, List.filter_eq_self]
      exact fun part hpart => decide_eq_true ⟨(h.plain part hpart).1, (h.plain part hpart).2.1⟩
    have hempty : path ≠ "" := by
      rintro rfl
      exact (h.plain "" (by decide)).1 rfl
    have hslash : path.toList.head? ≠ some '/' := by
      intro hhead
      obtain ⟨rest, hrest⟩ : ∃ rest, path.toList = '/' :: rest := List.head?_eq_some_iff.mp hhead
      refine (h.plain "" ?_).1 rfl
      rw [split, hrest, List.splitOn_cons_eq_if_modifyHead, if_pos (beq_self_eq_true '/')]
      exact List.mem_map.mpr ⟨[], List.mem_cons_self, rfl⟩
    unfold relative
    rw [if_neg, hparts]
    · simp only
      rw [if_neg, join_split]
      simp only [not_or, not_lt, List.contains_iff_mem]
      exact ⟨split_ne_nil path, h.depth, fun hup => (h.plain ".." hup).2.2 rfl⟩
    · simp only [not_or, not_lt, List.contains_iff_mem]
      exact ⟨hempty, hslash, h.backslash, h.nul, h.bytes⟩

/-! ## The first loop -/

/-- How many files an entry is. -/
def TreeKind.files : TreeKind → ℕ
  | .directory => 0
  | .file _ _ => 1

/-- The scan with one more entry. -/
def Scan.next (scan : Scan) (entry : TreeEntry) : Scan where
  table := scan.table.insert entry.path entry.kind
  pathBytes := scan.pathBytes + (utf8 entry.path).length
  bytes := scan.bytes + entry.kind.size
  files := scan.files + entry.kind.files

/-- The counts are within their limits. -/
structure Scan.Fits (policy : Policy) (scan : Scan) : Prop where
  pathBytes : scan.pathBytes ≤ maxTopologyBytes
  bytes : scan.bytes ≤ policy.maxSourceBytes
  files : scan.files ≤ policy.maxSourceFiles

lemma checkedAdd_eq_ok {a b c : ℕ} : checkedAdd a b = .ok c ↔ a + b < 2 ^ 64 ∧ c = a + b := by
  unfold checkedAdd
  split_ifs with h
  · exact ⟨fun hok => ⟨h, (Except.ok.inj hok).symm⟩, fun hok => congrArg _ hok.2.symm⟩
  · exact ⟨nofun, fun hok => absurd hok.1 h⟩

section Scanning

variable {policy : Policy} {scan scan' : Scan}

lemma Scan.account_eq_ok (scan : Scan) (hpolicy : policy.validate = .ok ())
    (hbytes : scan.bytes ≤ policy.maxSourceBytes) (hfiles : scan.files ≤ policy.maxSourceFiles)
    {kind : TreeKind} :
    Scan.account policy scan kind = .ok scan' ↔
      scan.bytes + kind.size ≤ policy.maxSourceBytes ∧
        scan.files + kind.files ≤ policy.maxSourceFiles ∧
        scan' = { scan with bytes := scan.bytes + kind.size, files := scan.files + kind.files } := by
  cases kind with
  | directory =>
    refine ⟨fun h => ⟨hbytes, hfiles, (Except.ok.inj h).symm⟩, fun h => congrArg _ h.2.2.symm⟩
  | file size executable =>
    have hmax : policy.maxSourceBytes ≤ maxSourceBytes := by
      rw [Policy.validate, reject_eq_ok] at hpolicy
      omega
    have hlimit : maxSourceBytes < 2 ^ 64 := by decide
    constructor
    · intro h
      obtain ⟨bytes, hadd, h⟩ := bind_eq_ok.mp h
      obtain ⟨_, hbounds, h⟩ := bind_eq_ok.mp h
      obtain ⟨-, rfl⟩ := checkedAdd_eq_ok.mp hadd
      rw [reject_eq_ok, not_or, not_lt, not_lt] at hbounds
      exact ⟨hbounds.1, hbounds.2, (Except.ok.inj h).symm⟩
    · rintro ⟨hbytes', hfiles', rfl⟩
      change scan.bytes + size ≤ _ at hbytes'
      change scan.files + 1 ≤ _ at hfiles'
      refine bind_eq_ok.mpr ⟨_, checkedAdd_eq_ok.mpr ⟨by omega, rfl⟩, ?_⟩
      exact bind_eq_ok.mpr ⟨(), reject_eq_ok.mpr (by omega), rfl⟩

/-- **One entry is accepted** when its path is normal and new and the counts stay within limits. -/
lemma Scan.accept_eq_ok (hpolicy : policy.validate = .ok ()) (hfits : scan.Fits policy)
    {entry : TreeEntry} :
    Scan.accept policy scan entry = .ok scan' ↔
      NormalPath entry.path ∧ entry.path ∉ scan.table ∧ (scan.next entry).Fits policy ∧
        scan' = scan.next entry := by
  have hlimit : maxTopologyBytes < 2 ^ 64 := by decide
  constructor
  · intro h
    obtain ⟨normalized, hrel, h⟩ := bind_eq_ok.mp h
    obtain ⟨_, hnormal, h⟩ := bind_eq_ok.mp h
    obtain ⟨pathBytes, hadd, h⟩ := bind_eq_ok.mp h
    obtain ⟨_, hpath, h⟩ := bind_eq_ok.mp h
    obtain ⟨scan₁, hacc, h⟩ := bind_eq_ok.mp h
    obtain ⟨_, hdup, h⟩ := bind_eq_ok.mp h
    obtain ⟨-, rfl⟩ := checkedAdd_eq_ok.mp hadd
    obtain ⟨hbytes, hfiles, rfl⟩ := (Scan.account_eq_ok { scan with
      pathBytes := scan.pathBytes + (utf8 entry.path).length } hpolicy hfits.bytes
      hfits.files).mp hacc
    rw [reject_eq_ok, not_not] at hnormal
    rw [reject_eq_ok, not_lt] at hpath
    rw [reject_eq_ok, Std.TreeMap.contains_iff_mem] at hdup
    exact ⟨relative_eq_self_iff.mp (hnormal ▸ hrel), hdup, ⟨hpath, hbytes, hfiles⟩,
      (Except.ok.inj h).symm⟩
  · rintro ⟨hnormal, hnew, hnext, rfl⟩
    have hpath : scan.pathBytes + (utf8 entry.path).length ≤ maxTopologyBytes := hnext.pathBytes
    refine bind_eq_ok.mpr ⟨_, relative_eq_self_iff.mpr hnormal, ?_⟩
    refine bind_eq_ok.mpr ⟨(), reject_eq_ok.mpr (not_not.mpr rfl), ?_⟩
    refine bind_eq_ok.mpr ⟨_, checkedAdd_eq_ok.mpr ⟨by omega, rfl⟩, ?_⟩
    refine bind_eq_ok.mpr ⟨(), reject_eq_ok.mpr (not_lt.mpr hpath), ?_⟩
    refine bind_eq_ok.mpr ⟨_, (Scan.account_eq_ok { scan with
      pathBytes := scan.pathBytes + (utf8 entry.path).length } hpolicy hfits.bytes
      hfits.files).mpr ⟨hnext.bytes, hnext.files, rfl⟩, ?_⟩
    exact bind_eq_ok.mpr ⟨(), reject_eq_ok.mpr (Std.TreeMap.contains_iff_mem.not.mpr hnew), rfl⟩

/-- The counts behind some entries. -/
lemma foldl_next (entries : List TreeEntry) (scan : Scan) :
    (entries.foldl Scan.next scan).pathBytes =
        scan.pathBytes + (entries.map fun e => (utf8 e.path).length).sum ∧
      (entries.foldl Scan.next scan).bytes = scan.bytes + (entries.map (·.kind.size)).sum ∧
      (entries.foldl Scan.next scan).files = scan.files + (entries.map (·.kind.files)).sum := by
  induction entries generalizing scan with
  | nil => exact ⟨rfl, rfl, rfl⟩
  | cons e entries ih =>
    obtain ⟨hpath, hbytes, hfiles⟩ := ih (scan.next e)
    rw [List.foldl_cons, hpath, hbytes, hfiles]
    simp only [Scan.next, List.map_cons, List.sum_cons, Nat.add_assoc, and_self]

/-- **The first loop** accepts normal paths that are new and distinct, within the limits. -/
lemma accept_foldlM_eq_ok (hpolicy : policy.validate = .ok ()) : ∀ {entries : List TreeEntry}
    {scan scan' : Scan}, scan.Fits policy →
      (entries.foldlM (Scan.accept policy) scan = .ok scan' ↔
        (∀ e ∈ entries, NormalPath e.path) ∧ (entries.map (·.path)).Nodup ∧
          (∀ e ∈ entries, e.path ∉ scan.table) ∧ (entries.foldl Scan.next scan).Fits policy ∧
          scan' = entries.foldl Scan.next scan)
  | [], scan, scan', hfits => by
      refine ⟨fun h => ?_, fun h => congrArg _ h.2.2.2.2.symm⟩
      exact ⟨by simp, by simp, by simp, hfits, (Except.ok.inj h).symm⟩
  | e :: entries, scan, scan', hfits => by
      rw [foldlM_cons_eq_ok]
      constructor
      · rintro ⟨scan₁, haccept, h⟩
        obtain ⟨hnormal, hnew, hnext, rfl⟩ := (Scan.accept_eq_ok hpolicy hfits).mp haccept
        obtain ⟨hnormals, hnodup, hfresh, hend, hscan⟩ := (accept_foldlM_eq_ok hpolicy hnext).mp h
        have habsent : ∀ other ∈ entries, other.path ≠ e.path ∧ other.path ∉ scan.table := by
          intro other hother
          have hnot := hfresh other hother
          simp only [Scan.next, Std.TreeMap.mem_insert, not_or] at hnot
          exact ⟨fun hsame => hnot.1 (by simp [hsame]), hnot.2⟩
        refine ⟨by simpa using ⟨hnormal, hnormals⟩, ?_, ?_, hend, hscan⟩
        · rw [List.map_cons, List.nodup_cons]
          refine ⟨fun hmem => ?_, hnodup⟩
          obtain ⟨other, hother, hsame⟩ := List.mem_map.mp hmem
          exact (habsent other hother).1 hsame
        · exact List.forall_mem_cons.mpr ⟨hnew, fun other hother => (habsent other hother).2⟩
      · rintro ⟨hnormals, hnodup, hfresh, hend, hscan⟩
        rw [List.map_cons, List.nodup_cons] at hnodup
        have hnext : (scan.next e).Fits policy := by
          obtain ⟨hpath, hbytes, hfiles⟩ := foldl_next entries (scan.next e)
          rw [List.foldl_cons] at hend
          exact ⟨by have := hend.pathBytes; omega, by have := hend.bytes; omega,
            by have := hend.files; omega⟩
        refine ⟨scan.next e, (Scan.accept_eq_ok hpolicy hfits).mpr
          ⟨hnormals e (by simp), hfresh e (by simp), hnext, rfl⟩, ?_⟩
        refine (accept_foldlM_eq_ok hpolicy hnext).mpr
          ⟨fun other hother => hnormals other (by simp [hother]), hnodup.2, ?_, hend, hscan⟩
        intro other hother
        simp only [Scan.next, Std.TreeMap.mem_insert, not_or]
        refine ⟨fun hsame => hnodup.1 ?_, hfresh other (by simp [hother])⟩
        have heq : e.path = other.path := by simpa using hsame
        exact List.mem_map.mpr ⟨other, hother, heq.symm⟩

end Scanning

/-! ## Parents -/

/-- A path lies below a directory. -/
def Below (path dir : String) : Prop := ∃ rest, path.toList = dir.toList ++ '/' :: rest

lemma length_parentOf_lt {path : String} (h : path ≠ "") :
    (parentOf path).toList.length < path.toList.length := by
  have hpos : 0 < path.toList.length :=
    List.length_pos_iff.mpr fun hnil => h (String.toList_inj.mp hnil)
  have hle := (List.dropWhile_suffix (· ≠ '/') (l := path.toList.reverse)).length_le
  rw [List.length_reverse] at hle
  rw [parentOf, String.toList_ofList, List.length_reverse, List.length_tail]
  omega

/-- The parent of what lies below a directory is that directory or lies below it. -/
lemma parentOf_below {path dir : String} (h : Below path dir) :
    parentOf path = dir ∨ Below (parentOf path) dir := by
  obtain ⟨rest, hrest⟩ := h
  have hreverse : path.toList.reverse = rest.reverse ++ '/' :: dir.toList.reverse := by
    rw [hrest, List.reverse_append, List.reverse_cons, List.append_assoc, List.singleton_append]
  have hparent : (parentOf path).toList =
      ((rest.reverse ++ '/' :: dir.toList.reverse).dropWhile (· ≠ '/')).tail.reverse := by
    rw [parentOf, hreverse, String.toList_ofList]
  by_cases hslash : '/' ∈ rest
  · right
    have hne : rest.reverse.dropWhile (· ≠ '/') ≠ [] := by
      rw [Ne, List.dropWhile_eq_nil_iff]
      intro hall
      simpa using hall '/' (List.mem_reverse.mpr hslash)
    obtain ⟨first, front, hfront⟩ := List.exists_cons_of_ne_nil hne
    refine ⟨front.reverse, ?_⟩
    rw [hparent, List.dropWhile_append, if_neg (by simpa using hne), hfront]
    simp
  · left
    apply String.toList_inj.mp
    have hnone : rest.reverse.dropWhile (fun c => decide (c ≠ '/')) = [] := by
      rw [List.dropWhile_eq_nil_iff]
      intro c hc
      refine decide_eq_true fun heq => hslash ?_
      exact List.mem_reverse.mp (heq ▸ hc)
    rw [hparent, List.dropWhile_append, hnone]
    simp

/-- A directory is an ancestor of what lies below it. -/
lemma ancestor_of_below {path dir : String} (h : Below path dir) :
    ∃ n, parentOf^[n + 1] path = dir := by
  induction hlength : path.toList.length using Nat.strong_induction_on generalizing path with
  | h length ih =>
    rcases parentOf_below h with hparent | hbelow
    · exact ⟨0, hparent⟩
    · have hne : path ≠ "" := by
        rintro rfl
        obtain ⟨rest, hrest⟩ := h
        simp at hrest
      obtain ⟨n, hn⟩ := ih _ (hlength ▸ length_parentOf_lt hne) hbelow rfl
      exact ⟨n + 1, hn⟩

lemma length_lt_of_below {path dir : String} (h : Below path dir) :
    dir.toList.length < path.toList.length := by
  obtain ⟨rest, hrest⟩ := h
  rw [hrest, List.length_append, List.length_cons]
  omega

/-! ## The order of a plan -/

section Order

variable {table : Std.TreeMap String TreeKind} {children : Children}

/-- Nothing in a listing lies below something else in it. -/
lemma pairwise_listing (hlinked : Linked table children)
    (hpaths : ∀ e ∈ tableEntries table, e.path ≠ "") (parent : String) :
    (listing table children parent).Pairwise fun first second => ¬Below first.path second.path := by
  refine List.pairwise_of_forall_mem_list fun first hfirst second hsecond hbelow => ?_
  have hsame : parentOf first.path = parentOf second.path :=
    ((mem_listing hlinked).mp hfirst).2.trans ((mem_listing hlinked).mp hsecond).2.symm
  have hshort := length_parentOf_lt
    (hpaths second (mem_tableEntries.mpr ((mem_listing hlinked).mp hsecond).1))
  rcases parentOf_below hbelow with hparent | hbelow
  · rw [← hsame, hparent] at hshort
    omega
  · have hlong := length_lt_of_below hbelow
    rw [hsame] at hlong
    omega

/-- **Nothing precedes the directory it lies in.** -/
lemma pairwise_walk (hlinked : Linked table children)
    (hpaths : ∀ e ∈ tableEntries table, e.path ≠ "") (fuel : ℕ) :
    (walk table children fuel [""] []).Pairwise fun first second =>
      ¬Below first.path second.path := by
  rw [walk_eq, List.nil_append, List.pairwise_flatMap]
  refine ⟨fun parent _ => pairwise_listing hlinked hpaths parent, ?_⟩
  have hforest := subdirectories_forest hlinked hpaths
  refine (hforest.ancestors_first (by decide) fuel).imp ?_
  -- an entry of an earlier directory lies below one of a later directory
  intro earlier later hancestors first hfirst second hsecond hbelow
  obtain ⟨n, hn⟩ := ancestor_of_below hbelow
  refine hancestors (n + 1) ?_
  rw [Function.iterate_succ_apply, ((mem_listing hlinked).mp hfirst).2] at hn
  rw [Function.iterate_succ_apply', hn]
  exact ((mem_listing hlinked).mp hsecond).2

/-- The nodes of the forest are paths of the table. -/
lemma mem_subdirectories (hlinked : Linked table children) {parent path : String} :
    path ∈ subdirectories table children parent ↔
      table[path]? = some .directory ∧ parentOf path = parent := by
  simp only [subdirectories, List.mem_map, List.mem_filter, decide_eq_true_eq]
  constructor
  · rintro ⟨e, ⟨he, hkind⟩, rfl⟩
    rw [← hkind]
    exact (mem_listing hlinked).mp he
  · intro h
    exact ⟨⟨path, .directory⟩, ⟨(mem_listing hlinked).mpr h, rfl⟩, rfl⟩

/-- **Every entry is reached** where all parents are directories. -/
lemma walk_complete (hlinked : Linked table children)
    (hpaths : ∀ e ∈ tableEntries table, e.path ≠ "")
    (hparents : ∀ e ∈ tableEntries table,
      parentOf e.path = "" ∨ table[parentOf e.path]? = some .directory) :
    tableEntries table ⊆ walk table children (table.size + 1) [""] [] := by
  have hnodes : ∀ a, ∀ b ∈ subdirectories table children a,
      b ∈ (tableEntries table).map (·.path) := by
    intro a b hb
    exact List.mem_map.mpr
      ⟨⟨b, .directory⟩, mem_tableEntries.mpr ((mem_subdirectories hlinked).mp hb).1, rfl⟩
  have hfuel : ((tableEntries table).map (·.path)).length < table.size + 1 := by simp
  obtain ⟨hroot, hclosed⟩ := (subdirectories_forest hlinked hpaths).visits_closed hnodes hfuel
  have hvisited : ∀ n, ∀ e ∈ tableEntries table, e.path.toList.length = n →
      parentOf e.path ∈ visits (subdirectories table children) (table.size + 1) [""] := by
    intro n
    induction n using Nat.strong_induction_on with
    | h n ih =>
      intro e he hlength
      rcases hparents e he with htop | hdir
      · rw [htop]
        exact hroot
      · have hmem : ⟨parentOf e.path, .directory⟩ ∈ tableEntries table := mem_tableEntries.mpr hdir
        have hshort := length_parentOf_lt (hpaths e he)
        have hparent := ih _ (hlength ▸ hshort) _ hmem rfl
        exact hclosed _ hparent ((mem_subdirectories hlinked).mpr ⟨hdir, rfl⟩)
  intro e he
  rw [walk_eq, List.nil_append, List.mem_flatMap]
  exact ⟨parentOf e.path, hvisited _ e he rfl,
    (mem_listing hlinked).mpr ⟨mem_tableEntries.mp he, rfl⟩⟩

end Order

/-! ## Accepted topologies -/

/-- The topologies that have a plan. -/
structure Accepted (policy : Policy) (entries : List TreeEntry) : Prop where
  bounds : policy.validate = .ok ()
  count : entries.length ≤ maxTopologyEntries
  normal : ∀ e ∈ entries, NormalPath e.path
  distinct : (entries.map (·.path)).Nodup
  parents : ∀ e ∈ entries, parentOf e.path = "" ∨ ⟨parentOf e.path, .directory⟩ ∈ entries
  pathBytes : (entries.map fun e => (utf8 e.path).length).sum ≤ maxTopologyBytes
  bytes : (entries.map (·.kind.size)).sum ≤ policy.maxSourceBytes
  files : (entries.map (·.kind.files)).sum ≤ policy.maxSourceFiles

/-- The scan of all entries. -/
def scanOf (entries : List TreeEntry) : Scan := entries.foldl Scan.next {}

section Accepting

variable {policy : Policy} {entries : List TreeEntry}

lemma fits_scanOf : (scanOf entries).Fits policy ↔
    (entries.map fun e => (utf8 e.path).length).sum ≤ maxTopologyBytes ∧
      (entries.map (·.kind.size)).sum ≤ policy.maxSourceBytes ∧
      (entries.map (·.kind.files)).sum ≤ policy.maxSourceFiles := by
  obtain ⟨hpath, hbytes, hfiles⟩ := foldl_next entries {}
  simp only [Nat.zero_add] at hpath hbytes hfiles
  constructor
  · rintro ⟨h, h', h''⟩
    exact ⟨hpath ▸ h, hbytes ▸ h', hfiles ▸ h''⟩
  · rintro ⟨h, h', h''⟩
    exact ⟨hpath.trans_le h, hbytes.trans_le h', hfiles.trans_le h''⟩

lemma fits_empty : ({} : Scan).Fits policy := ⟨Nat.zero_le _, Nat.zero_le _, Nat.zero_le _⟩

/-- The first loop on a topology that starts from nothing. -/
lemma scan_eq_ok (hpolicy : policy.validate = .ok ()) {scan : Scan} :
    entries.foldlM (Scan.accept policy) {} = .ok scan ↔
      (∀ e ∈ entries, NormalPath e.path) ∧ (entries.map (·.path)).Nodup ∧
        (scanOf entries).Fits policy ∧ scan = scanOf entries := by
  rw [accept_foldlM_eq_ok hpolicy fits_empty]
  constructor
  · rintro ⟨hnormal, hnodup, -, hfits, hscan⟩
    exact ⟨hnormal, hnodup, hfits, hscan⟩
  · rintro ⟨hnormal, hnodup, hfits, hscan⟩
    exact ⟨hnormal, hnodup, fun e _ => by simp, hfits, hscan⟩

/-- The table of a scanned topology holds its entries. -/
lemma perm_scanOf (hpolicy : policy.validate = .ok ()) (hnormal : ∀ e ∈ entries, NormalPath e.path)
    (hnodup : (entries.map (·.path)).Nodup) (hfits : (scanOf entries).Fits policy) :
    (tableEntries (scanOf entries).table).Perm entries := by
  obtain ⟨-, hperm, -⟩ := Scan.accept_foldlM ((scan_eq_ok hpolicy).mpr ⟨hnormal, hnodup, hfits, rfl⟩)
  have hempty : tableEntries ∅ = [] := rfl
  simpa [hempty] using hperm

/-- The second loop succeeds where all parents are directories. -/
lemma link_ok {table : Std.TreeMap String TreeKind} : ∀ {paths : List String} {children : Children},
    (∀ p ∈ paths, parentOf p = "" ∨ table[parentOf p]? = some .directory) →
      ∃ children', paths.foldlM (link table) children = .ok children'
  | [], children, _ => ⟨children, rfl⟩
  | p :: paths, children, h => by
      obtain ⟨children', hrest⟩ := @link_ok table paths
        (children.insert (parentOf p) (children.getD (parentOf p) [] ++ [p]))
        fun q hq => h q (List.mem_cons_of_mem p hq)
      refine ⟨children', foldlM_cons_eq_ok.mpr ⟨_, ?_, hrest⟩⟩
      refine if_neg fun hbad => ?_
      exact (h p List.mem_cons_self).elim hbad.1 hbad.2

/-- The plan that an order of the entries makes. -/
def planOf (scan : Scan) (children : Children) : TreePlan where
  entries := walk scan.table children (scan.table.size + 1) [""] []
  bytes := scan.bytes
  files := scan.files

/-- **The accepted topologies.** They are those whose paths are normal and distinct, with directories
as parents and within the limits. -/
theorem new_eq_ok {plan : TreePlan} : TreePlan.new entries policy = .ok plan ↔
    Accepted policy entries ∧ ∃ children,
      (scanOf entries).table.keys.foldlM (link (scanOf entries).table) ∅ = .ok children ∧
        plan = planOf (scanOf entries) children := by
  constructor
  · intro h
    obtain ⟨_, hpolicy, h⟩ := bind_eq_ok.mp h
    obtain ⟨_, hcount, h⟩ := bind_eq_ok.mp h
    obtain ⟨scan, hscan, h⟩ := bind_eq_ok.mp h
    obtain ⟨children, hchildren, h⟩ := bind_eq_ok.mp h
    obtain ⟨_, hlength, h⟩ := bind_eq_ok.mp h
    obtain ⟨hnormal, hnodup, hfits, rfl⟩ := (scan_eq_ok hpolicy).mp hscan
    have hperm := perm_scanOf hpolicy hnormal hnodup hfits
    rw [reject_eq_ok, gt_iff_lt, not_lt] at hcount
    obtain ⟨hpath, hbytes, hfiles⟩ := fits_scanOf.mp hfits
    refine ⟨⟨hpolicy, hcount, hnormal, hnodup, fun e he => ?_, hpath, hbytes, hfiles⟩,
      children, hchildren, (Except.ok.inj h).symm⟩
    have hkey : e.path ∈ (scanOf entries).table.keys := by
      have hget := mem_tableEntries.mp (hperm.mem_iff.mpr he)
      exact Std.TreeMap.mem_keys.mpr (Std.TreeMap.mem_iff_isSome_getElem?.mpr (by rw [hget]; rfl))
    refine ((link_foldlM hchildren).1 e.path hkey).imp_right fun hdir => ?_
    have hmem : ⟨parentOf e.path, .directory⟩ ∈ tableEntries (scanOf entries).table :=
      mem_tableEntries.mpr hdir
    exact hperm.mem_iff.mp hmem
  · rintro ⟨haccepted, children, hchildren, rfl⟩
    have hfits : (scanOf entries).Fits policy :=
      fits_scanOf.mpr ⟨haccepted.pathBytes, haccepted.bytes, haccepted.files⟩
    have hperm := perm_scanOf haccepted.bounds haccepted.normal haccepted.distinct hfits
    have hlinked : Linked (scanOf entries).table children := by
      intro parent
      simpa using (link_foldlM hchildren).2 parent
    have hpaths : ∀ e ∈ tableEntries (scanOf entries).table, e.path ≠ "" := fun e he =>
      (relative_ok (relative_eq_self_iff.mpr (haccepted.normal e (hperm.mem_iff.mp he)))).1
    have hparents : ∀ e ∈ tableEntries (scanOf entries).table,
        parentOf e.path = "" ∨ (scanOf entries).table[parentOf e.path]? = some .directory := by
      intro e he
      refine (haccepted.parents e (hperm.mem_iff.mp he)).imp_right fun hdir => ?_
      have hmem := hperm.mem_iff.mpr hdir
      exact mem_tableEntries.mp hmem
    have hlength : (planOf (scanOf entries) children).entries.length =
        (scanOf entries).table.size := by
      have hle := (List.subperm_of_subset (nodup_walk hlinked hpaths _)
        (walk_subset hlinked ((scanOf entries).table.size + 1))).length_le
      have hkeys : (tableEntries (scanOf entries).table).Nodup :=
        ((hperm.map _).nodup_iff.mpr haccepted.distinct).of_map
      have hge := (List.subperm_of_subset hkeys (walk_complete hlinked hpaths hparents)).length_le
      rw [length_tableEntries] at hle hge
      exact le_antisymm hle hge
    refine bind_eq_ok.mpr ⟨(), haccepted.bounds, ?_⟩
    refine bind_eq_ok.mpr ⟨(), reject_eq_ok.mpr (not_lt.mpr haccepted.count), ?_⟩
    refine bind_eq_ok.mpr ⟨_, (scan_eq_ok haccepted.bounds).mpr
      ⟨haccepted.normal, haccepted.distinct, hfits, rfl⟩, ?_⟩
    refine bind_eq_ok.mpr ⟨children, hchildren, ?_⟩
    exact bind_eq_ok.mpr ⟨(), reject_eq_ok.mpr (not_not.mpr hlength), rfl⟩

/-- The conditions do not depend on the order. -/
lemma Accepted.perm {other : List TreeEntry} (h : Accepted policy entries)
    (hperm : other.Perm entries) : Accepted policy other where
  bounds := h.bounds
  count := hperm.length_eq.trans_le h.count
  normal e he := h.normal e (hperm.mem_iff.mp he)
  distinct := (hperm.map _).nodup_iff.mpr h.distinct
  parents e he := (h.parents e (hperm.mem_iff.mp he)).imp_right hperm.mem_iff.mpr
  pathBytes := (hperm.map _).sum_eq.trans_le h.pathBytes
  bytes := (hperm.map _).sum_eq.trans_le h.bytes
  files := (hperm.map _).sum_eq.trans_le h.files

lemma Accepted.perm_scanOf (h : Accepted policy entries) :
    (tableEntries (scanOf entries).table).Perm entries :=
  Sources.perm_scanOf h.bounds h.normal h.distinct
    (fits_scanOf.mpr ⟨h.pathBytes, h.bytes, h.files⟩)

/-- The loops behind the scan read a table by its keys and values only. -/
lemma link_congr {table table' : Std.TreeMap String TreeKind}
    (h : ∀ path : String, table[path]? = table'[path]?) : link table = link table' := by
  funext children path
  rw [link, link, h]

lemma walk_congr {table table' : Std.TreeMap String TreeKind} {children : Children}
    (h : ∀ path : String, table[path]? = table'[path]?) :
    walk table children = walk table' children := by
  have hlisting : listing table children = listing table' children := by
    funext parent
    simp only [listing, h]
  funext fuel
  induction fuel with
  | zero => rfl
  | succ fuel ih =>
    funext pending ordered
    cases pending with
    | nil => rfl
    | cons parent pending => rw [walk, walk, ih, subdirectories, subdirectories, hlisting]

/-- **The order of the entries does not matter.** -/
lemma new_perm_eq {other : List TreeEntry} {plan : TreePlan}
    (h : TreePlan.new entries policy = .ok plan) (hperm : other.Perm entries) :
    TreePlan.new other policy = .ok plan := by
  obtain ⟨haccepted, children, hchildren, rfl⟩ := new_eq_ok.mp h
  have hother := haccepted.perm hperm
  have hget : ∀ path : String, (scanOf entries).table[path]? = (scanOf other).table[path]? := by
    intro path
    have hentries := haccepted.perm_scanOf
    have hothers := hother.perm_scanOf
    refine Option.ext fun kind => ?_
    have hleft : ⟨path, kind⟩ ∈ tableEntries _ ↔ (scanOf entries).table[path]? = some kind :=
      mem_tableEntries
    have hright : ⟨path, kind⟩ ∈ tableEntries _ ↔ (scanOf other).table[path]? = some kind :=
      mem_tableEntries
    rw [← hleft, ← hright, hentries.mem_iff, hothers.mem_iff, hperm.mem_iff]
  have hequiv := Std.TreeMap.Equiv.of_forall_constGet?_eq hget
  obtain ⟨-, hbytes, hfiles⟩ := foldl_next entries {}
  obtain ⟨-, hbytes', hfiles'⟩ := foldl_next other {}
  refine new_eq_ok.mpr ⟨hother, children, ?_, ?_⟩
  · rw [← hequiv.keys_eq, ← link_congr hget]
    exact hchildren
  · have hsize : (scanOf entries).table.size = (scanOf other).table.size := hequiv.size_eq
    have hsame : (scanOf entries).bytes = (scanOf other).bytes := by
      rw [scanOf, scanOf, hbytes, hbytes', (hperm.map _).sum_eq]
    have hcount : (scanOf entries).files = (scanOf other).files := by
      rw [scanOf, scanOf, hfiles, hfiles', (hperm.map _).sum_eq]
    rw [planOf, planOf, walk_congr hget, hsize, hsame, hcount]

/-- **A plan for exactly the accepted topologies.** It lists the entries it was given, none of them
before the directory it lies in, and it is the same plan for every order of them. -/
theorem TreePlan.new_exact (policy : Policy) (entries : List TreeEntry) :
    ((∃ plan, TreePlan.new entries policy = .ok plan) ↔ Accepted policy entries) ∧
      ∀ plan, TreePlan.new entries policy = .ok plan →
        plan.entries.Perm entries ∧
          plan.entries.Pairwise (fun first second => ¬Below first.path second.path) ∧
          ∀ other, other.Perm entries → TreePlan.new other policy = .ok plan := by
  refine ⟨⟨fun ⟨plan, h⟩ => (new_eq_ok.mp h).1, fun h => ?_⟩, fun plan h => ?_⟩
  · have hparents : ∀ p ∈ (scanOf entries).table.keys,
        parentOf p = "" ∨ (scanOf entries).table[parentOf p]? = some .directory := by
      intro p hp
      have hsome := Std.TreeMap.mem_iff_isSome_getElem?.mp (Std.TreeMap.mem_keys.mp hp)
      obtain ⟨kind, hkind⟩ := Option.isSome_iff_exists.mp hsome
      have hmem : ⟨p, kind⟩ ∈ tableEntries (scanOf entries).table := mem_tableEntries.mpr hkind
      refine (h.parents _ (h.perm_scanOf.mem_iff.mp hmem)).imp_right fun hdir => ?_
      have hback := h.perm_scanOf.mem_iff.mpr hdir
      exact mem_tableEntries.mp hback
    obtain ⟨children, hchildren⟩ := link_ok hparents
    exact ⟨_, new_eq_ok.mpr ⟨h, children, hchildren, rfl⟩⟩
  · refine ⟨(TreePlan.new_perm h).1, ?_, fun other hperm => new_perm_eq h hperm⟩
    obtain ⟨haccepted, children, hchildren, rfl⟩ := new_eq_ok.mp h
    have hlinked : Linked (scanOf entries).table children := by
      intro parent
      simpa using (link_foldlM hchildren).2 parent
    refine pairwise_walk hlinked (fun e he => ?_) _
    have hnormal := haccepted.normal e (haccepted.perm_scanOf.mem_iff.mp he)
    exact (relative_ok (relative_eq_self_iff.mpr hnormal)).1

/-- A policy that is out of its own bounds refuses every topology, the empty one too. -/
theorem invalid_policy_refused :
    TreePlan.new [] { maxSourceBytes := 0 } = .error .policy ∧
      ([] : List TreeEntry).length ≤ maxTopologyEntries ∧
      (([] : List TreeEntry).map fun e => (utf8 e.path).length).sum ≤ maxTopologyBytes ∧
      (([] : List TreeEntry).map (·.kind.size)).sum ≤ 0 ∧
      (([] : List TreeEntry).map (·.kind.files)).sum ≤ 20000 :=
  ⟨rfl, by decide⟩

end Accepting

end Sources

end ExperimentControl
