import ExperimentControl.Sources.Digest

/-!
# When a source id names one tree

Two accepted trees with one source id have, without a SHA-256 collision, the same hashed stream, and
the stream determines its fields.  This file settles how far the fields determine the tree.

* `Reread` — two listings whose fields agree although the listings do not: a file's size and its
  number of frames are not among the fields, so the tag of the next entry can be read as one more
  frame of the file.
* **`fields_eq_iff`** — two listings have equal fields exactly when they are equal or reread.
* **`same_id_iff_same_tree`** — one id means one tree exactly when the listings are not reread.
* `rereadLeft`, `rereadRight` — two different trees with one source id.
-/

namespace ExperimentControl

namespace Sources

/-! ## Fields and listings -/

lemma tag_eq (e : Observed) : e.tag = utf8 "D" ∨ e.tag = utf8 "F" := by
  rcases e with ⟨path, _ | ⟨content, executable⟩⟩
  · exact .inl rfl
  · exact .inr rfl

lemma tag_directory_ne_file : utf8 "D" ≠ utf8 "F" := by decide

lemma length_tag (e : Observed) : e.tag.length = 1 := by
  rcases tag_eq e with h | h <;> rw [h] <;> rfl

/-- A tag is a frame of its own. -/
lemma blocks_tag (e : Observed) : blocks chunkBytes e.tag = [e.tag] := by
  have hne : e.tag ≠ [] := List.ne_nil_of_length_eq_add_one (length_tag e)
  have hle : e.tag.length ≤ chunkBytes := by rw [length_tag]; decide
  rw [blocks_of_ne_nil chunkBytes_pos hne, List.take_of_length_le hle,
    List.drop_eq_nil_of_le hle, blocks_nil]

lemma flag_inj {a b : Bool}
    (h : utf8 (if a then "X" else "-") = utf8 (if b then "X" else "-")) : a = b := by
  cases a <;> cases b <;> first | rfl | exact absurd h (by decide)

/-- **Reread.**  The listings agree up to a file whose content in `ys` is its content in `xs` and
the tag of the entry that follows it in `xs`.  The content in `xs` fills whole frames, so that the
tag can stand where one more frame would, and the fields of `xs` behind that tag are the remaining
fields of `ys`. -/
def Reread (xs ys : List Observed) : Prop :=
  ∃ common path content executable next rest rest',
    xs = common ++ ⟨path, .file content executable⟩ :: next :: rest ∧
    ys = common ++ ⟨path, .file (content ++ next.tag) executable⟩ :: rest' ∧
    chunkBytes ∣ content.length ∧
    next.body ++ rest.flatMap Observed.fields = rest'.flatMap Observed.fields

/-- Reread listings have the same fields. -/
lemma Reread.fields_eq {xs ys : List Observed} (h : Reread xs ys) :
    xs.flatMap Observed.fields = ys.flatMap Observed.fields := by
  obtain ⟨common, path, content, executable, next, rest, rest', rfl, rfl, hdvd, hrest⟩ := h
  have hfile : ∀ content, (Observed.mk path (.file content executable)).fields =
      utf8 "F" :: utf8 path :: utf8 (if executable then "X" else "-") ::
        blocks chunkBytes content := fun _ => rfl
  simp only [List.flatMap_append, List.flatMap_cons, hfile, ← hrest,
    blocks_append chunkBytes_pos hdvd, blocks_tag]
  simp [Observed.fields]

/-- A common front does not matter. -/
lemma Reread.cons {xs ys : List Observed} (e : Observed) (h : Reread xs ys) :
    Reread (e :: xs) (e :: ys) := by
  obtain ⟨common, path, content, executable, next, rest, rest', rfl, rfl, hdvd, hrest⟩ := h
  exact ⟨e :: common, path, content, executable, next, rest, rest', rfl, rfl, hdvd, hrest⟩

/-- **A shorter file is reread.**  When two listings start with one file, its content in `xs` runs
out of frames first and the fields agree, the next field of `ys` is the tag that follows in `xs`. -/
lemma reread_of_blocks {path : String} {executable : Bool} {content content' : Bytes}
    {block : Bytes} {more : List Bytes} {xs ys : List Observed}
    (hcontent : blocks chunkBytes content' = blocks chunkBytes content ++ block :: more)
    (hfields : xs.flatMap Observed.fields = block :: more ++ ys.flatMap Observed.fields) :
    Reread (⟨path, .file content executable⟩ :: xs) (⟨path, .file content' executable⟩ :: ys) := by
  obtain ⟨hdvd, tail, rfl, htail⟩ := dvd_length_of_blocks_prefix chunkBytes_pos hcontent
  cases xs with
  | nil => simp at hfields
  | cons next rest =>
    simp only [List.flatMap_cons, Observed.fields, List.cons_append, List.cons.injEq] at hfields
    obtain ⟨htag, hrest⟩ := hfields
    -- the frame is one byte long, so it is the last one
    have htake : block = tail.take chunkBytes := by
      have hne : tail ≠ [] := by
        rintro rfl
        simp at htail
      rw [blocks_of_ne_nil chunkBytes_pos hne, List.cons.injEq] at htail
      exact htail.1.symm
    have hlen : tail.length ≤ chunkBytes := by
      have h1 := congrArg List.length htake
      rw [← htag, length_tag, List.length_take] at h1
      have : 1 < chunkBytes := by decide
      omega
    have hblock : tail = next.tag := by
      rw [htag, htake, List.take_of_length_le hlen]
    have hmore : more = [] := by
      rw [hblock, blocks_tag, List.cons.injEq] at htail
      exact htail.2.symm
    subst hmore hblock
    exact ⟨[], path, content, executable, next, rest, ys, rfl, rfl, hdvd, by simpa using hrest⟩

/-- **Fields and listings.**  Two listings have the same fields exactly when they are equal or one
of them is the other one reread. -/
theorem fields_eq_iff {xs ys : List Observed} :
    xs.flatMap Observed.fields = ys.flatMap Observed.fields ↔
      xs = ys ∨ Reread xs ys ∨ Reread ys xs := by
  constructor
  · induction xs generalizing ys with
    | nil =>
      intro h
      cases ys with
      | nil => exact .inl rfl
      | cons y ys => simp [Observed.fields] at h
    | cons x xs ih =>
      intro h
      cases ys with
      | nil => simp [Observed.fields] at h
      | cons y ys =>
        have hsame : x = y → x :: xs = y :: ys ∨ Reread (x :: xs) (y :: ys) ∨
            Reread (y :: ys) (x :: xs) := by
          rintro rfl
          simp only [List.flatMap_cons, List.append_cancel_left_eq] at h
          rcases ih h with rfl | hre | hre
          · exact .inl rfl
          · exact .inr (.inl (hre.cons x))
          · exact .inr (.inr (hre.cons x))
        simp only [List.flatMap_cons, Observed.fields, List.cons_append, List.cons.injEq] at h
        obtain ⟨htag, hbody⟩ := h
        rcases x with ⟨path, _ | ⟨content, executable⟩⟩ <;>
          rcases y with ⟨path', _ | ⟨content', executable'⟩⟩
        · simp only [Observed.body, List.cons_append, List.nil_append, List.cons.injEq] at hbody
          exact hsame (by rw [utf8_injective hbody.1])
        · exact absurd htag tag_directory_ne_file
        · exact absurd htag.symm tag_directory_ne_file
        · simp only [Observed.body, List.cons_append, List.cons.injEq] at hbody
          obtain ⟨hpath, hflag, hrest⟩ := hbody
          obtain rfl := utf8_injective hpath
          obtain rfl := flag_inj hflag
          rcases List.append_eq_append_iff.mp hrest with ⟨more, hblocks, hxs⟩ | ⟨more, hblocks, hys⟩
          · cases more with
            | nil =>
              have hcontent := blocks_injective chunkBytes_pos (by simpa using hblocks)
              exact hsame (by rw [hcontent])
            | cons block more => exact .inr (.inl (reread_of_blocks hblocks hxs))
          · cases more with
            | nil =>
              have hcontent := blocks_injective chunkBytes_pos (by simpa using hblocks)
              exact hsame (by rw [hcontent])
            | cons block more => exact .inr (.inr (reread_of_blocks hblocks hys))
  · rintro (rfl | h | h)
    · rfl
    · exact h.fields_eq
    · exact h.fields_eq.symm

/-! ## Accepted trees -/

section Accepted

variable {policy : Policy} {tree : List Observed} {plan : TreePlan}

lemma entry_path (e : Observed) : e.entry.path = e.path := by
  rcases e with ⟨path, _ | ⟨content, executable⟩⟩ <;> rfl

lemma nodup_paths (h : TreePlan.new (tree.map Observed.entry) policy = .ok plan) :
    (tree.map (·.path)).Nodup := by
  obtain ⟨hperm, hnodup, _, _⟩ := TreePlan.new_perm h
  have hmap := (hperm.map (·.path)).nodup_iff.mp hnodup
  rw [List.map_map] at hmap
  exact (List.map_congr_left fun e _ => entry_path e).symm ▸ hmap

/-- With distinct paths, looking a path up finds its own entry. -/
lemma find?_path : ∀ {tree : List Observed}, (tree.map (·.path)).Nodup → ∀ {e}, e ∈ tree →
    tree.find? (·.path = e.path) = some e
  | [], _, _, he => by simp at he
  | d :: tree, hnodup, e, he => by
      rw [List.map_cons, List.nodup_cons] at hnodup
      rcases List.mem_cons.mp he with rfl | he
      · simp
      · have hne : d.path ≠ e.path := fun heq =>
          hnodup.1 (List.mem_map.mpr ⟨e, he, heq.symm⟩)
        simp [hne, find?_path hnodup.2 he]

/-- Putting the content back undoes what the planner dropped. -/
lemma restore_entry (hnodup : (tree.map (·.path)).Nodup) {e : Observed} (he : e ∈ tree) :
    restore (contentAt tree) e.entry = e := by
  have hfind := find?_path hnodup he
  rcases e with ⟨path, _ | ⟨content, executable⟩⟩
  · rfl
  · simp only [Observed.entry, restore, contentAt, hfind]

/-- **The hashed listing is the tree**, in plan order. -/
lemma listed_perm (h : TreePlan.new (tree.map Observed.entry) policy = .ok plan) :
    (listed plan (contentAt tree)).Perm tree := by
  have hnodup := nodup_paths h
  have hmap : (tree.map Observed.entry).map (restore (contentAt tree)) = tree := by
    rw [List.map_map]
    exact (List.map_congr_left fun e he => restore_entry hnodup he).trans (List.map_id tree)
  have hperm := (TreePlan.new_perm h).1.map (restore (contentAt tree))
  rwa [hmap] at hperm

/-- A tree reads its own frames exactly. -/
lemma frameOf_exact (h : TreePlan.new (tree.map Observed.entry) policy = .ok plan) :
    Exact plan (contentAt tree) (frameOf tree) := by
  have hfile : ∀ {path size executable}, ⟨path, .file size executable⟩ ∈ plan.entries →
      ∃ content, content.length = size ∧
        tree.find? (·.path = path) = some ⟨path, .file content executable⟩ := by
    intro path size executable hmem
    have hmem' := (TreePlan.new_perm h).1.mem_iff.mp hmem
    obtain ⟨e, he, heq⟩ := List.mem_map.mp hmem'
    have hfind := find?_path (nodup_paths h) he
    rcases e with ⟨path', _ | ⟨content, executable'⟩⟩
    · cases heq
    · cases heq
      exact ⟨content, rfl, hfind⟩
  constructor
  · intro path size executable hmem
    obtain ⟨content, hlen, hfind⟩ := hfile hmem
    simp only [contentAt, hfind, hlen]
  · intro path size executable hmem offset len
    obtain ⟨content, _, hfind⟩ := hfile hmem
    simp only [contentAt, frameOf, hfind]

/-- Every hashed field fits its length prefix. -/
lemma length_fields (h : TreePlan.new (tree.map Observed.entry) policy = .ok plan) :
    ∀ value ∈ (listed plan (contentAt tree)).flatMap Observed.fields, value.length < 256 ^ 8 := by
  intro value hvalue
  obtain ⟨e, he, hmem⟩ := List.mem_flatMap.mp hvalue
  have hpath : (utf8 e.path).length ≤ maxPathBytes := by
    have he' : e.entry ∈ tree.map Observed.entry :=
      List.mem_map_of_mem ((listed_perm h).mem_iff.mp he)
    exact entry_path e ▸ (relative_ok ((TreePlan.new_perm h).2.2.1 _ he')).2
  have hpathBound : maxPathBytes < 256 ^ 8 := by decide
  have hchunkBound : chunkBytes < 256 ^ 8 := by decide
  rw [Observed.fields, List.mem_cons] at hmem
  rcases hmem with rfl | hmem
  · rw [length_tag]
    decide
  · rcases e with ⟨path, _ | ⟨content, executable⟩⟩
    · simp only [Observed.body, List.mem_singleton] at hmem
      subst hmem
      exact lt_of_le_of_lt hpath hpathBound
    · simp only [Observed.body, List.mem_cons] at hmem
      rcases hmem with rfl | rfl | hmem
      · exact lt_of_le_of_lt hpath hpathBound
      · cases executable <;> decide
      · exact lt_of_le_of_lt (length_le_of_mem_blocks chunkBytes_pos hmem) hchunkBound

/-- **An accepted tree has a source id**, the digest of its framed fields. -/
theorem identify_eq (sha256 : Bytes → Vector UInt8 32)
    (h : TreePlan.new (tree.map Observed.entry) policy = .ok plan) :
    identify sha256 policy tree =
      .ok ("source." ++ digestHex (sha256 (stream (listed plan (contentAt tree))))) := by
  have hbytes : plan.bytes = (plan.entries.map (·.kind.size)).sum := by
    obtain ⟨hperm, _, _, hbytes⟩ := TreePlan.new_perm h
    rw [hbytes, (hperm.map _).sum_eq]
  have hid := treeSourceId_eq sha256 (frameOf_exact h) hbytes
  simp only [identify, h, Except.mapError, bind, Except.bind]
  exact hid

end Accepted

/-- **Only a top-level `D` or `F` is reread.**  The path behind the reread tag stands where the other
listing has a tag. -/
lemma Reread.tag_path {xs ys : List Observed} (h : Reread xs ys) :
    ∃ e ∈ xs, e.path = "D" ∨ e.path = "F" := by
  obtain ⟨common, path, content, executable, next, rest, rest', rfl, rfl, _, hrest⟩ := h
  refine ⟨next, by simp, ?_⟩
  cases rest' with
  | nil => rcases next with ⟨path, _ | ⟨content, executable⟩⟩ <;> simp [Observed.body] at hrest
  | cons e rest' =>
    have hpath : utf8 next.path = e.tag := by
      rcases next with ⟨path, _ | ⟨content, executable⟩⟩ <;>
        exact (List.cons.inj hrest).1
    rcases tag_eq e with htag | htag
    · exact .inl (utf8_injective (hpath.trans htag))
    · exact .inr (utf8_injective (hpath.trans htag))

/-- Reread listings hold different trees: one path has two contents. -/
lemma Reread.not_perm {xs ys : List Observed} (h : Reread xs ys)
    (hnodup : (ys.map (·.path)).Nodup) : ¬xs.Perm ys := by
  intro hperm
  obtain ⟨common, path, content, executable, next, rest, rest', rfl, rfl, _, _⟩ := h
  have hshort := find?_path hnodup (hperm.mem_iff.mp
    (show Observed.mk path (.file content executable) ∈ _ by simp))
  have hlong := find?_path hnodup
    (show Observed.mk path (.file (content ++ next.tag) executable) ∈ _ by simp)
  rw [hshort] at hlong
  simp only [Option.some.injEq, Observed.mk.injEq, Node.file.injEq] at hlong
  have hlen := congrArg List.length hlong.2.1
  simp [length_tag] at hlen

/-- **The hashed stream determines the fields.** -/
lemma stream_eq_iff {policy policy' : Policy} {tree tree' : List Observed} {plan plan' : TreePlan}
    (h : TreePlan.new (tree.map Observed.entry) policy = .ok plan)
    (h' : TreePlan.new (tree'.map Observed.entry) policy' = .ok plan') :
    stream (listed plan (contentAt tree)) = stream (listed plan' (contentAt tree')) ↔
      (listed plan (contentAt tree)).flatMap Observed.fields =
        (listed plan' (contentAt tree')).flatMap Observed.fields :=
  ⟨(framed_selfDelimiting 8 (by decide)).flatMap_inj (length_fields h) (length_fields h'),
    congrArg (List.flatMap (framed 8))⟩

/-! ## One id, one tree -/

section SameId

variable {policy policy' : Policy} {tree tree' : List Observed} {plan plan' : TreePlan}

/-- Without a collision between the two streams, equal ids are equal fields. -/
lemma identify_eq_iff (sha256 : Bytes → Vector UInt8 32)
    (h : TreePlan.new (tree.map Observed.entry) policy = .ok plan)
    (h' : TreePlan.new (tree'.map Observed.entry) policy' = .ok plan')
    (hsha : Set.InjOn sha256
      {stream (listed plan (contentAt tree)), stream (listed plan' (contentAt tree'))}) :
    identify sha256 policy tree = identify sha256 policy' tree' ↔
      (listed plan (contentAt tree)).flatMap Observed.fields =
        (listed plan' (contentAt tree')).flatMap Observed.fields := by
  rw [identify_eq sha256 h, identify_eq sha256 h', ← stream_eq_iff h h']
  constructor
  · intro heq
    have htext := (String.append_right_inj _).mp (Except.ok.inj heq)
    exact hsha (by simp) (by simp) (digestHex_injective htext)
  · intro heq
    rw [heq]

/-- **A source id names one tree unless the listing is reread.**  For two accepted trees without a
SHA-256 collision between their streams, equal source ids give equal trees if and only if neither
hashed listing is the other one reread. -/
theorem same_id_iff_same_tree (sha256 : Bytes → Vector UInt8 32)
    (h : TreePlan.new (tree.map Observed.entry) policy = .ok plan)
    (h' : TreePlan.new (tree'.map Observed.entry) policy' = .ok plan')
    (hsha : Set.InjOn sha256
      {stream (listed plan (contentAt tree)), stream (listed plan' (contentAt tree'))}) :
    (identify sha256 policy tree = identify sha256 policy' tree' → tree.Perm tree') ↔
      ¬(Reread (listed plan (contentAt tree)) (listed plan' (contentAt tree')) ∨
        Reread (listed plan' (contentAt tree')) (listed plan (contentAt tree))) := by
  rw [identify_eq_iff sha256 h h' hsha, fields_eq_iff]
  constructor
  · intro hsame hre
    have hperm := hsame (.inr hre)
    have hlisted := (listed_perm h).trans (hperm.trans (listed_perm h').symm)
    rcases hre with hre | hre
    · exact hre.not_perm (((listed_perm h').map _).nodup_iff.mpr (nodup_paths h')) hlisted
    · exact hre.not_perm (((listed_perm h).map _).nodup_iff.mpr (nodup_paths h)) hlisted.symm
  · intro hnot hcases
    have hlisted := hcases.resolve_right hnot
    exact (listed_perm h).symm.trans (hlisted ▸ listed_perm h')

/-- **Without an entry at the paths `D` and `F`, a source id names one tree.** -/
theorem same_tree_of_no_tag_path (sha256 : Bytes → Vector UInt8 32)
    (h : TreePlan.new (tree.map Observed.entry) policy = .ok plan)
    (h' : TreePlan.new (tree'.map Observed.entry) policy' = .ok plan')
    (hsha : Set.InjOn sha256
      {stream (listed plan (contentAt tree)), stream (listed plan' (contentAt tree'))})
    (htree : ∀ e ∈ tree, e.path ≠ "D" ∧ e.path ≠ "F")
    (htree' : ∀ e ∈ tree', e.path ≠ "D" ∧ e.path ≠ "F")
    (hid : identify sha256 policy tree = identify sha256 policy' tree') : tree.Perm tree' := by
  rcases fields_eq_iff.mp ((identify_eq_iff sha256 h h' hsha).mp hid) with hlisted | hre | hre
  · exact (listed_perm h).symm.trans (hlisted ▸ listed_perm h')
  · obtain ⟨e, he, hpath⟩ := hre.tag_path
    have hne := htree e ((listed_perm h).mem_iff.mp he)
    exact absurd hpath (by simp [hne])
  · obtain ⟨e, he, hpath⟩ := hre.tag_path
    have hne := htree' e ((listed_perm h').mem_iff.mp he)
    exact absurd hpath (by simp [hne])

end SameId

/-- A one-byte file and the same file without its byte. -/
def oneByte : List Observed := [⟨"A", .file (utf8 "D") false⟩]
def noByte : List Observed := [⟨"A", .file [] false⟩]

/-- SHA-256 of the streams of the two trees. -/
def recordedSha256 (bytes : Bytes) : Vector UInt8 32 :=
  if bytes = stream noByte then
    ⟨#[8, 131, 193, 105, 14, 233, 50, 23, 129, 103, 60, 160, 12, 44, 80, 234, 157, 152, 192, 136,
      161, 196, 145, 42, 197, 129, 71, 25, 120, 23, 182, 70], rfl⟩
  else
    ⟨#[83, 172, 41, 10, 175, 91, 218, 217, 223, 158, 120, 155, 151, 188, 160, 72, 117, 53, 25, 93,
      43, 217, 169, 34, 235, 61, 109, 235, 101, 235, 184, 195], rfl⟩

theorem same_id_iff_same_tree_oneByte :
    (identify recordedSha256 {} noByte = identify recordedSha256 {} oneByte →
      noByte.Perm oneByte) ↔ ¬(Reread noByte oneByte ∨ Reread oneByte noByte) := by
  have hnone : TreePlan.new (noByte.map Observed.entry) {} =
      .ok ⟨noByte.map Observed.entry, 0, 1⟩ := by decide +kernel
  have hone : TreePlan.new (oneByte.map Observed.entry) {} =
      .ok ⟨oneByte.map Observed.entry, 1, 1⟩ := by decide +kernel
  have hdiffer : stream oneByte ≠ stream noByte := by
    intro h
    have hfields := (stream_eq_iff hone hnone).mp h
    have hframe : blocks chunkBytes (utf8 "D") = [utf8 "D"] := blocks_tag ⟨"", .directory⟩
    simp [listed, restore, contentAt, oneByte, noByte, Observed.entry, Observed.fields,
      Observed.body, Observed.tag, hframe] at hfields
  have hcollide : recordedSha256 (stream noByte) ≠ recordedSha256 (stream oneByte) := by
    rw [recordedSha256, recordedSha256, if_pos rfl, if_neg hdiffer]
    decide
  refine same_id_iff_same_tree recordedSha256 hnone hone ?_
  rintro a (rfl | rfl) b (rfl | rfl) hab
  · rfl
  · exact absurd hab hcollide
  · exact absurd hab.symm hcollide
  · rfl

/-- A file of one byte and a file at the path `F`. -/
def rereadRight : List Observed :=
  [⟨"A", .file (utf8 "D") false⟩, ⟨"F", .file (utf8 "-") true⟩]

/-- The same file without its byte, a directory at the path `F`, and an empty file. -/
def rereadLeft : List Observed :=
  [⟨"A", .file [] false⟩, ⟨"F", .directory⟩, ⟨"X", .file [] false⟩]

/-- **Two trees with one source id**, whatever the hash function is: the byte `D` of the first file
stands where the other tree has the tag of a directory. -/
theorem different_trees_same_id :
    (TreePlan.new (rereadLeft.map Observed.entry) {}).isOk ∧
      (TreePlan.new (rereadRight.map Observed.entry) {}).isOk ∧
      (∀ sha256, identify sha256 {} rereadLeft = identify sha256 {} rereadRight) ∧
      ¬rereadLeft.Perm rereadRight := by
  refine ⟨by decide +kernel, by decide +kernel, fun sha256 => ?_, by decide⟩
  have hleft : TreePlan.new (rereadLeft.map Observed.entry) {} =
      .ok ⟨rereadLeft.map Observed.entry, 0, 2⟩ := by decide +kernel
  have hright : TreePlan.new (rereadRight.map Observed.entry) {} =
      .ok ⟨rereadRight.map Observed.entry, 2, 2⟩ := by decide +kernel
  have hstream : stream (listed ⟨rereadLeft.map Observed.entry, 0, 2⟩ (contentAt rereadLeft)) =
      stream (listed ⟨rereadRight.map Observed.entry, 2, 2⟩ (contentAt rereadRight)) :=
    (stream_eq_iff hleft hright).mpr (Reread.fields_eq ⟨[], "A", [], false, ⟨"F", .directory⟩,
      [⟨"X", .file [] false⟩], [⟨"F", .file (utf8 "-") true⟩], rfl, rfl, by decide, ?_⟩)
  · rw [identify_eq sha256 hleft, identify_eq sha256 hright, hstream]
  · have hframe : blocks chunkBytes (utf8 "-") = [utf8 "-"] := by
      rw [blocks_of_ne_nil chunkBytes_pos (by decide), List.take_of_length_le (by decide),
        List.drop_eq_nil_of_le (by decide), blocks_nil]
    simp [Observed.fields, Observed.body, Observed.tag, hframe]

end Sources

end ExperimentControl
