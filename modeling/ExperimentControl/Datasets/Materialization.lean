import ExperimentControl.Datasets.Frames
import ExperimentControl.Library.Trees
import Mathlib

/-!
# From an archive to a tree

What the admitting side checks of the archive of a dataset (`verify_data_stream` of
`io/src/artifacts.rs`), and what the worker makes of it: extraction, sealing and verification of
`io/src/datasets.rs`.

The reader of archives is a parameter; both sides see what it gives for the same bytes.

* `verifyDataStream` — the admitting side.
* `extract`, `walk`, `sealTree`, `verify`, `verifyFileSizes`, `materialize` — the worker's side.
* `Built` — the tree of some records: their paths with the directories above, and their contents.
* **`admitted_materializes`** — an accepted archive is materialized exactly when files and directories
  together are no more than `MAX_FILES`, the file system takes the names, and zeros end the archive.
* `deep_trees_refused` — an accepted archive with too many directories.
-/

namespace ExperimentControl

namespace Datasets

open Artifacts (FileReceipt MAX_FILES MAX_PATH)

/-! ## Archives -/

/-- A member of an archive: its header, and what can be read of its content. -/
structure Member where
  regular : Bool
  path : Option String
  size : ℕ
  content : Bytes

/-- What the reader gives for an archive: members, or none where a header cannot be read, and what is
left behind the end. -/
structure Unpacked where
  members : List (Option Member)
  rest : Bytes

section Admission

variable (tar : Bytes → Unpacked) (sha256 : Bytes → String)

/-- One turn of `verify_members`, which keeps the paths it has seen. -/
def verifyMember (files : List FileReceipt) (proofs : List String) (member : Option Member) :
    Except Error (List String) :=
  match member.bind fun member => member.path.map fun path => (member, path) with
  | none => .error .invalid
  | some (member, path) =>
      match files.find? fun file => file.path = path with
      | none => .error .invalid
      | some expected => do
          reject (¬member.regular ∨ path ∈ proofs ∨ member.size ≠ expected.bytes.toNat) .invalid
          reject (sha256 member.content ≠ expected.sha256 ∨
            member.content.length ≠ expected.bytes.toNat) .invalid
          .ok (path :: proofs)

def verifyDataStream (stream : Bytes) (definition : Definition) : Except Error Unit := do
  definition.validate
  reject (2 ^ 64 ≤ definition.archiveBytes.toNat + 1) .invalid
  let bytes := stream.take (definition.archiveBytes.toNat + 1)
  let proofs ← (tar bytes).members.foldlM (verifyMember sha256 definition.files) []
  reject (sha256 bytes ≠ definition.sha256 ∨ bytes.length ≠ definition.archiveBytes.toNat ∨
    proofs.length ≠ definition.files.length) .invalid

end Admission

/-! ## Trees of files -/

/-- A regular file, and whether it is read-only. -/
structure File where
  content : Bytes
  readOnly : Bool
  deriving DecidableEq

/-- A directory: entries under their names, each directory read-only or not. -/
abbrev Directory := Tree (List Char) Bool File

/-- The path of the components. -/
def joinParts (parts : List (List Char)) : String := String.ofList (['/'].intercalate parts)

/-- `artifacts::walk`: the budget counts files and directories. -/
def walkVisitor : Tree.Visitor (List Char) Bool File where
  limit := MAX_FILES
  opens here _ := byteLen (joinParts here) ≤ MAX_PATH ∧ (pathParts (joinParts here)).length ≤ 128
  passes here := path (joinParts here)
  reads _ := true

def walk (root : Directory) : Except Error (List String) :=
  match root.visit walkVisitor with
  | none => .error .invalid
  | some found => .ok (found.map joinParts)

/-- `verify_sealed_directories`. -/
def sealedVisitor : Tree.Visitor (List Char) Bool File where
  limit := MAX_FILES
  opens here readOnly := here.length ≤ 128 ∧ readOnly
  passes _ := true
  reads _ := true

/-- `visit` of `seal_tree`, for files that are sealed already. -/
def sealVisitor : Tree.Visitor (List Char) Bool File where
  limit := MAX_FILES
  opens here _ := here.length ≤ 128
  passes _ := true
  reads file := file.readOnly

def sealTree (root : Directory) : Except Error Directory :=
  if (root.visit sealVisitor).isSome then .ok (root.mapNodes fun _ => true) else .error .invalid

/-- `artifacts::open`. -/
def openFile (root : Directory) (file : String) : Except Error File :=
  match if path file then root.find (pathParts file) else none with
  | some (.leaf file) => .ok file
  | _ => .error .invalid

section Verification

variable (enc : Encoding) (sha256 : Bytes → String)

/-- `content_hash` of `core/src/data_preparation.rs`. -/
def contentHash (files : List FileReceipt) : Except Error String := do
  reject (files = [] ∨ files.length > MAX_FILES) .invalid
  reject ((files.any fun file => ¬path file.path ∨ ¬isSha256 file.sha256) ∨
    ¬Definition.Ordered files ∨ 2 ^ 64 ≤ (files.map fun file => file.bytes.toNat).sum) .invalid
  let value := Json.array (files.map (·.document))
  reject (value.size > 4 * 1024 * 1024) .invalid
  (enc.digest value).mapError fun _ => .invalid

def requireFileSet (root : Directory) (files : List FileReceipt) (sealed : Bool) :
    Except Error Unit := do
  reject (sealed ∧ ¬(root.visit sealedVisitor).isSome) .invalid
  let paths ← walk root
  reject (paths.mergeSort (· ≤ ·) ≠ files.map (·.path)) .invalid

def verifyFile (root : Directory) (sealed : Bool) (record : FileReceipt) : Except Error Unit := do
  let file ← openFile root record.path
  reject (sealed ∧ ¬file.readOnly) .invalid
  reject (file.content.length ≠ record.bytes.toNat ∨ sha256 file.content ≠ record.sha256) .invalid

def verifyInventory (root : Directory) (files : List FileReceipt) (sealed : Bool) :
    Except Error Unit := do
  let _ ← contentHash enc files
  requireFileSet root files sealed
  files.forM (verifyFile sha256 root sealed)

def verify (root : Directory) (definition : Definition) (sealed : Bool) : Except Error Unit := do
  definition.validate
  verifyInventory enc sha256 root definition.files sealed

/-- Sizes of sealed files, without their content. -/
def verifySize (root : Directory) (record : FileReceipt) : Except Error Unit := do
  let file ← openFile root record.path
  reject (¬file.readOnly ∨ file.content.length ≠ record.bytes.toNat) .invalid

def verifyFileSizes (root : Directory) (definition : Definition) : Except Error Unit := do
  definition.validate
  requireFileSet root definition.files true
  definition.files.forM (verifySize root)

/-! ## The worker -/

/-- A new file with the directories above it, sealed once it is written.  The file system takes names of
up to `nameMax` bytes. -/
def create (nameMax : ℕ) (root : Directory) (file : String) (content : Bytes) :
    Except Error Directory :=
  if (pathParts file).all fun part => byteLen (String.ofList part) ≤ nameMax then
    match root.put false ⟨content, true⟩ (pathParts file) with
    | some root => .ok root
    | none => .error .invalid
  else .error .invalid

/-- One turn of `extract`, which keeps the paths it has seen. -/
def extractMember (nameMax : ℕ) (files : List FileReceipt) (state : Directory × List String)
    (member : Option Member) : Except Error (Directory × List String) :=
  match member.bind fun member => member.path.map fun path => (member, path) with
  | none => .error .invalid
  | some (member, file) =>
      match files.find? fun record => record.path = file with
      | none => .error .invalid
      | some expected => do
          reject (¬member.regular ∨ ¬path file ∨ file ∈ state.2) .invalid
          reject (member.size ≠ expected.bytes.toNat ∨
            member.content.length < expected.bytes.toNat) .invalid
          let root ← create nameMax state.1 file (member.content.take expected.bytes.toNat)
          .ok (root, file :: state.2)

def extract (tar : Bytes → Unpacked) (nameMax : ℕ) (archive : Bytes) (definition : Definition) :
    Except Error Directory := do
  definition.validate
  let unpacked := tar archive
  let (root, _) ← unpacked.members.foldlM (extractMember nameMax definition.files)
    (.node false [], [])
  reject (unpacked.rest.any fun byte => byte ≠ 0) .invalid
  verify enc sha256 root definition false
  .ok root

/-- The part of `rebuild` behind the archive: extraction, sealing, and the check of what is there. -/
def materialize (tar : Bytes → Unpacked) (nameMax : ℕ) (archive : Bytes) (definition : Definition) :
    Except Error Directory := do
  let root ← extract enc sha256 tar nameMax archive definition
  let tree ← sealTree root
  verifyFileSizes tree definition
  .ok tree

end Verification

/-- The paths of some files, with the directories above them. -/
def entries (files : List FileReceipt) : Finset (List (List Char)) :=
  (files.flatMap fun file => (pathParts file.path).inits.tail).toFinset

/-! ## Paths and their components -/

@[simp] lemma joinParts_pathParts (p : String) : joinParts (pathParts p) = p := by
  rw [joinParts, pathParts, List.intercalate_splitOn, String.ofList_toList]

lemma toList_joinParts (parts : List (List Char)) :
    (joinParts parts).toList = ['/'].intercalate parts := String.toList_ofList

lemma intercalate_append {q r : List (List Char)} (nonempty : q ≠ []) (more : r ≠ []) :
    ['/'].intercalate (q ++ r) = ['/'].intercalate q ++ '/' :: ['/'].intercalate r := by
  induction q with
  | nil => exact absurd rfl nonempty
  | cons part q ih =>
    cases q with
    | nil => simp [List.intercalate_cons_of_ne_nil more]
    | cons next q =>
      have rest := ih (by simp)
      rw [List.cons_append, List.cons_append, List.intercalate_cons_cons,
        List.intercalate_cons_cons, ← List.cons_append, rest]
      simp

lemma slash_notMem_splitOn {chars part : List Char} (there : part ∈ chars.splitOn '/') :
    '/' ∉ part := by
  induction chars generalizing part with
  | nil =>
    rw [List.splitOn_nil, List.mem_singleton] at there
    rw [there]
    exact List.not_mem_nil
  | cons c chars ih =>
    rw [List.splitOn_cons_eq_if_modifyHead] at there
    split at there
    · rcases List.mem_cons.mp there with rfl | later
      · exact List.not_mem_nil
      · exact ih later
    · rename_i other
      cases parts : chars.splitOn '/' with
      | nil => exact absurd parts (List.splitOn_ne_nil _ _)
      | cons first rest =>
        rw [parts, List.modifyHead_cons] at there
        rcases List.mem_cons.mp there with rfl | later
        · have clear := @ih first (by rw [parts]; exact List.mem_cons_self)
          simp only [List.mem_cons, not_or]
          exact ⟨fun same => other (beq_iff_eq.mpr same.symm), clear⟩
        · exact ih (by rw [parts]; exact List.mem_cons_of_mem _ later)

lemma pathParts_ne_nil (p : String) : pathParts p ≠ [] := List.splitOn_ne_nil _ _

/-- Some components of a path are the components of their own path. -/
lemma pathParts_joinParts {p : String} {q : List (List Char)} (nonempty : q ≠ [])
    (among : ∀ part ∈ q, part ∈ pathParts p) : pathParts (joinParts q) = q := by
  rw [pathParts, toList_joinParts]
  exact List.splitOn_intercalate _ (fun part there => slash_notMem_splitOn (among part there)) nonempty

/-- A path goes on behind its first components with a slash. -/
lemma toList_split {p : String} {q r : List (List Char)} (whole : pathParts p = q ++ r)
    (nonempty : q ≠ []) (more : r ≠ []) :
    p.toList = (joinParts q).toList ++ '/' :: (joinParts r).toList := by
  rw [toList_joinParts, toList_joinParts, ← intercalate_append nonempty more, ← whole,
    ← toList_joinParts, joinParts_pathParts]

lemma byteLen_joinParts_le {p : String} {q : List (List Char)} (first : q <+: pathParts p)
    (nonempty : q ≠ []) : byteLen (joinParts q) ≤ byteLen p := by
  have ⟨r, whole⟩ := first
  cases r with
  | nil =>
    rw [List.append_nil] at whole
    rw [whole, joinParts_pathParts]
  | cons part r =>
    have chars := toList_split whole.symm nonempty (by simp)
    have same : p = joinParts q ++ String.ofList ('/' :: (joinParts (part :: r)).toList) := by
      rw [← String.ofList_toList (s := p), chars, String.ofList_append, String.ofList_toList]
    rw [same, byteLen_append]
    omega

lemma mem_joinParts {p : String} {q : List (List Char)} (first : q <+: pathParts p) (nonempty : q ≠ [])
    {c : Char} (there : c ∈ (joinParts q).toList) : c ∈ p.toList := by
  have ⟨r, whole⟩ := first
  cases r with
  | nil =>
    rw [List.append_nil] at whole
    rwa [whole, joinParts_pathParts] at there
  | cons part r =>
    rw [toList_split whole.symm nonempty (by simp)]
    exact List.mem_append_left _ there

/-- The directories above an admitted path are admitted. -/
lemma path_above {p : String} {q : List (List Char)} (valid : path p = true)
    (first : q <+: pathParts p) (nonempty : q ≠ []) : path (joinParts q) = true := by
  have parts := pathParts_joinParts nonempty fun part there => first.subset there
  simp only [path, decide_eq_true_eq, List.any_eq_true, not_exists, not_and, List.all_eq_true,
    parts] at valid ⊢
  obtain ⟨_, short, plain, named, few, shown⟩ := valid
  refine ⟨fun empty => ?_, (byteLen_joinParts_le first nonempty).trans short,
    fun c there => plain c (mem_joinParts first nonempty there),
    fun part there => named part (first.subset there), first.length_le.trans few,
    fun c there => shown c (mem_joinParts first nonempty there)⟩
  -- the empty path has one component, which is empty
  rw [empty] at parts
  have listed : [] ∈ q := by
    rw [← parts]
    decide
  exact (named [] (first.subset listed)).1 rfl

/-- The directories above a path are those that `rsplit_once` finds. -/
lemma joinParts_mem_parents {p : String} {q : List (List Char)} (first : q <+: pathParts p)
    (nonempty : q ≠ []) (proper : q ≠ pathParts p) : joinParts q ∈ Definition.parents p.toList := by
  have ⟨r, whole⟩ := first
  have more : r ≠ [] := by
    intro none
    rw [none, List.append_nil] at whole
    exact proper whole
  have chars := toList_split whole.symm nonempty more
  refine List.mem_map.mpr ⟨(joinParts q).toList.length, List.mem_filter.mpr ⟨?_, ?_⟩, ?_⟩
  · rw [List.mem_range, chars]
    simp
  · rw [decide_eq_true_eq, chars, List.getElem?_append_right le_rfl]
    simp
  · rw [chars, List.take_left, String.ofList_toList]

/-! ## Definitions -/

/-- What an accepted list of files keeps to. -/
structure Listing (files : List FileReceipt) : Prop where
  nonempty : files ≠ []
  few : files.length ≤ MAX_FILES
  paths : ∀ file ∈ files, path file.path = true
  digests : ∀ file ∈ files, isSha256 file.sha256 = true
  ordered : Definition.Ordered files
  bounded : (files.map fun file => file.bytes.toNat).sum < 2 ^ 64
  apart : ∀ file ∈ files, ∀ name ∈ Definition.parents file.path.toList,
    name ∉ files.map (·.path)
  small : (Json.array (files.map (·.document))).size ≤ MAX_METADATA / 2

lemma listing_of_validate {definition : Definition} (h : definition.validate = .ok ()) :
    Listing definition.files := by
  unfold Definition.validate at h
  simp only [bind_eq_ok, reject_eq_ok, not_or, not_not] at h
  have ⟨_, _, _, _, _, ⟨nonempty, few⟩, _, ⟨named, ordered, bounded⟩, _, apart, small⟩ := h
  have checks : ∀ file ∈ definition.files, path file.path = true ∧ isSha256 file.sha256 = true := by
    intro file there
    by_contra bad
    refine named (List.any_eq_true.mpr ⟨file, there, decide_eq_true ?_⟩)
    rwa [not_and_or] at bad
  have fits : (Json.array (definition.files.map (·.document))).size ≤ definition.document.size := by
    simp only [Definition.document, Json.size, Json.sizeFields, Json.joinedSize]
    omega
  exact
    { nonempty := nonempty
      few := not_lt.mp few
      paths := fun file there => (checks file there).1
      digests := fun file there => (checks file there).2
      ordered := ordered
      bounded := not_le.mp bounded
      apart := fun file there name above listed => apart (List.any_eq_true.mpr
        ⟨file, there, List.any_eq_true.mpr ⟨name, above, decide_eq_true listed⟩⟩)
      small := fits.trans (not_lt.mp small.2) }

variable {files : List FileReceipt}

namespace Listing

lemma pairwise (h : Listing files) : (files.map (·.path)).Pairwise (· < ·) := by
  have chain : (files.map (·.path)).IsChain (· < ·) := List.isChain_map _ |>.mpr h.ordered
  exact List.isChain_iff_pairwise.mp chain

lemma nodup_paths (h : Listing files) : (files.map (·.path)).Nodup :=
  h.pairwise.imp fun less => less.ne

lemma eq_of_path (h : Listing files) {file other : FileReceipt} (here : file ∈ files)
    (there : other ∈ files) (same : file.path = other.path) : file = other :=
  List.inj_on_of_nodup_map h.nodup_paths here there same

lemma find_eq (h : Listing files) {file : FileReceipt} (there : file ∈ files) :
    files.find? (fun other => other.path = file.path) = some file := by
  have found : (files.find? fun other => other.path = file.path).isSome :=
    List.find?_isSome.mpr ⟨file, there, decide_eq_true rfl⟩
  have ⟨other, is⟩ := Option.isSome_iff_exists.mp found
  have same : other.path = file.path := by simpa using List.find?_some is
  rw [is, h.eq_of_path (List.mem_of_find?_eq_some is) there same]

/-- No file is above another. -/
lemma prefix_free (h : Listing files) {file other : FileReceipt} (here : file ∈ files)
    (there : other ∈ files) (above : pathParts file.path <+: pathParts other.path) :
    file = other := by
  by_contra different
  have proper : pathParts file.path ≠ pathParts other.path := by
    intro same
    refine different (h.eq_of_path here there ?_)
    rw [← joinParts_pathParts file.path, same, joinParts_pathParts]
  have parent := joinParts_mem_parents above (pathParts_ne_nil _) proper
  rw [joinParts_pathParts] at parent
  exact h.apart other there _ parent (List.mem_map_of_mem here)

end Listing

/-! ## The members of an accepted archive -/

/-- The member of a file. -/
def fileMember (record : FileReceipt × Bytes) : Option Member :=
  some ⟨true, some record.1.path, record.1.bytes.toNat, record.2⟩

/-- A file of the definition with its content. -/
structure Taken (sha256 : Bytes → String) (files : List FileReceipt)
    (record : FileReceipt × Bytes) : Prop where
  found : files.find? (fun file => file.path = record.1.path) = some record.1
  digest : sha256 record.2 = record.1.sha256
  length : record.2.length = record.1.bytes.toNat

variable {sha256 : Bytes → String}

lemma Taken.mem {record : FileReceipt × Bytes} (h : Taken sha256 files record) :
    record.1 ∈ files := List.mem_of_find?_eq_some h.found

lemma verifyMember_eq_ok {proofs seen : List String} {member : Option Member} :
    verifyMember sha256 files proofs member = .ok seen ↔
      ∃ record, member = fileMember record ∧ Taken sha256 files record ∧
        record.1.path ∉ proofs ∧ seen = record.1.path :: proofs := by
  constructor
  · intro h
    unfold verifyMember at h
    split at h
    · cases h
    · rename_i member' path read
      split at h
      · cases h
      · rename_i expected found
        simp only [bind_eq_ok, reject_eq_ok, not_or, not_not, Except.ok.injEq] at h
        obtain ⟨_, ⟨regular, new, size⟩, _, ⟨digest, length⟩, same⟩ := h
        have named : expected.path = path := by simpa using List.find?_some found
        simp only [Option.bind_eq_some_iff, Option.map_eq_some_iff, Prod.mk.injEq] at read
        obtain ⟨row, here, text, there, equal, last⟩ := read
        subst equal last named
        refine ⟨(expected, row.content), ?_, ⟨found, digest, length⟩, new, same.symm⟩
        rw [here, fileMember, ← there, ← size, ← regular]
  · rintro ⟨record, rfl, taken, new, rfl⟩
    unfold verifyMember fileMember
    simp only [Option.bind_some, Option.map_some, taken.found]
    simp [bind_eq_ok, reject_eq_ok, new, taken.digest, taken.length]

/-- The members of an accepted archive are files of the definition, each of them once. -/
lemma foldlM_verifyMember {members : List (Option Member)} :
    ∀ {proofs seen : List String}, members.foldlM (verifyMember sha256 files) proofs = .ok seen →
      ∃ records : List (FileReceipt × Bytes), members = records.map fileMember ∧
        (∀ record ∈ records, Taken sha256 files record) ∧
        (records.map fun record => record.1.path).Nodup ∧
        (∀ record ∈ records, record.1.path ∉ proofs) ∧
        seen.length = proofs.length + records.length := by
  induction members with
  | nil =>
    intro proofs seen h
    cases h
    exact ⟨[], rfl, by simp, by simp, by simp, rfl⟩
  | cons member members ih =>
    intro proofs seen h
    rw [List.foldlM_cons, bind_eq_ok] at h
    have ⟨next, here, later⟩ := h
    have ⟨record, is, taken, new, same⟩ := verifyMember_eq_ok.mp here
    have ⟨records, are, all, nodup, fresh, count⟩ := ih later
    subst same
    refine ⟨record :: records, by rw [is, are]; rfl, ?_, ?_, ?_, ?_⟩
    · rintro other (_ | ⟨_, there⟩)
      · exact taken
      · exact all other there
    · refine List.nodup_cons.mpr ⟨fun there => ?_, nodup⟩
      have ⟨other, listed, equal⟩ := List.mem_map.mp there
      exact fresh other listed (by rw [equal]; exact List.mem_cons_self)
    · rintro other (_ | ⟨_, there⟩)
      · exact new
      · exact fun old => fresh other there (List.mem_cons_of_mem _ old)
    · rw [count]
      simp only [List.length_cons]
      omega

lemma foldlM_verifyMember_ok {records : List (FileReceipt × Bytes)} {proofs : List String}
    (taken : ∀ record ∈ records, Taken sha256 files record)
    (nodup : (records.map fun record => record.1.path).Nodup)
    (fresh : ∀ record ∈ records, record.1.path ∉ proofs) :
    (records.map fileMember).foldlM (verifyMember sha256 files) proofs =
      .ok ((records.map fun record => record.1.path).reverse ++ proofs) := by
  induction records generalizing proofs with
  | nil => rfl
  | cons record records ih =>
    have ⟨first, rest⟩ := List.nodup_cons.mp nodup
    have here := verifyMember_eq_ok.mpr ⟨record, rfl, taken record List.mem_cons_self,
      fresh record List.mem_cons_self, rfl⟩
    have later := @ih (record.1.path :: proofs)
      (fun other there => taken other (List.mem_cons_of_mem _ there)) rest fun other there old => by
        rcases List.mem_cons.mp old with same | old
        · exact first (List.mem_map.mpr ⟨other, there, same⟩)
        · exact fresh other (List.mem_cons_of_mem _ there) old
    rw [List.map_cons, List.foldlM_cons, here]
    refine later.trans ?_
    rw [List.map_cons, List.reverse_cons, List.append_assoc]
    rfl

/-! ## The tree of some records -/

/-- A tree that holds some records, and the directories above them. -/
structure Built (records : List (FileReceipt × Bytes)) (root : Directory) : Prop where
  sorted : root.Sorted
  there : ∀ q, (root.find q).isSome ↔
    q = [] ∨ ∃ record ∈ records, q <+: pathParts record.1.path
  leaves : ∀ q file, root.find q = some (.leaf file) ↔
    ∃ record ∈ records, q = pathParts record.1.path ∧ file = ⟨record.2, true⟩

lemma built_empty : Built [] (.node false []) where
  sorted := Tree.sorted_node.mpr ⟨by simp, by simp⟩
  there q := by cases q <;> simp [Tree.find_node_cons]
  leaves q file := by cases q <;> simp [Tree.find_node_cons]

/-- **A file that is neither above nor below another is created.** -/
lemma Built.put {records : List (FileReceipt × Bytes)} {root : Directory} (built : Built records root)
    {record : FileReceipt × Bytes}
    (free : ∀ other ∈ records, ¬pathParts other.1.path <+: pathParts record.1.path ∧
      ¬pathParts record.1.path <+: pathParts other.1.path) :
    ∃ next, root.put false ⟨record.2, true⟩ (pathParts record.1.path) = some next ∧
      Built (record :: records) next := by
  have absent : root.find (pathParts record.1.path) = none := by
    rw [← Option.not_isSome_iff_eq_none, built.there]
    rintro (empty | ⟨other, listed, below⟩)
    · exact pathParts_ne_nil _ empty
    · exact (free other listed).2 below
  have clear : ∀ q, q <+: pathParts record.1.path → ∀ file, root.find q ≠ some (.leaf file) := by
    intro q above file found
    have ⟨other, listed, same, _⟩ := (built.leaves q file).mp found
    exact (free other listed).1 (same ▸ above)
  have possible : (root.put false ⟨record.2, true⟩ (pathParts record.1.path)).isSome :=
    Tree.isSome_put.mpr ⟨pathParts_ne_nil _, absent, clear⟩
  have ⟨next, made⟩ := Option.isSome_iff_exists.mp possible
  refine ⟨next, made, Tree.sorted_put built.sorted made, fun q => ?_, fun q file => ?_⟩
  · rw [Tree.isSome_find_put made, built.there, List.exists_mem_cons_iff, or_assoc]
    exact or_congr_right or_comm
  · rw [Tree.find_leaf_put made, built.leaves, List.exists_mem_cons_iff]
    exact or_comm

/-- The file system takes the names of some files. -/
def Named (nameMax : ℕ) (files : List FileReceipt) : Prop :=
  ∀ file ∈ files, ∀ part ∈ pathParts file.path, byteLen (String.ofList part) ≤ nameMax

variable {nameMax : ℕ} {records : List (FileReceipt × Bytes)}

lemma create_eq {root : Directory} {file : String} {content : Bytes}
    (named : ∀ part ∈ pathParts file, byteLen (String.ofList part) ≤ nameMax) :
    create nameMax root file content =
      match root.put false ⟨content, true⟩ (pathParts file) with
      | some root => .ok root
      | none => .error .invalid := by
  rw [create, if_pos (List.all_eq_true.mpr fun part there => decide_eq_true (named part there))]

/-- Where its names are taken, a member of an accepted archive is extracted. -/
lemma extractMember_eq (listing : Listing files) {root : Directory} {seen : List String}
    {record : FileReceipt × Bytes} (taken : Taken sha256 files record)
    (new : record.1.path ∉ seen) :
    extractMember nameMax files (root, seen) (fileMember record) =
      (create nameMax root record.1.path record.2).map fun next =>
        (next, record.1.path :: seen) := by
  have whole : record.2.take record.1.bytes.toNat = record.2 :=
    List.take_of_length_le taken.length.le
  have valid := listing.paths record.1 taken.mem
  unfold extractMember fileMember
  simp only [Option.bind_some, Option.map_some, taken.found, whole]
  cases create nameMax root record.1.path record.2 with
  | ok next => simp [reject, valid, new, taken.length, bind, Except.bind, Except.map]
  | error error => simp [reject, valid, new, taken.length, bind, Except.bind, Except.map]

/-- **Extraction of the members of an accepted archive** into a tree that holds some of them. -/
lemma foldlM_extractMember (listing : Listing files)
    (taken : ∀ record ∈ records, Taken sha256 files record)
    (nodup : (records.map fun record => record.1.path).Nodup) :
    ∀ {done : List (FileReceipt × Bytes)} {root : Directory} {seen : List String},
      Built done root → (∀ record ∈ done, Taken sha256 files record) →
      (∀ record ∈ records, record.1.path ∉ seen ∧ ∀ other ∈ done, other.1.path ≠ record.1.path) →
      (Named nameMax (records.map Prod.fst) ∧ ∃ last seen',
        (records.map fileMember).foldlM (extractMember nameMax files) (root, seen) =
            .ok (last, seen') ∧ Built (records.reverse ++ done) last) ∨
        (¬Named nameMax (records.map Prod.fst) ∧
          (records.map fileMember).foldlM (extractMember nameMax files) (root, seen) =
            .error .invalid) := by
  induction records with
  | nil =>
    intro done root seen built _ _
    exact .inl ⟨by simp [Named], root, seen, rfl, built⟩
  | cons record records ih =>
    intro done root seen built before fresh
    have here := taken record List.mem_cons_self
    have ⟨new, other⟩ := fresh record List.mem_cons_self
    rw [List.map_cons, List.nodup_cons] at nodup
    have ⟨first, nodup⟩ := nodup
    have step := @extractMember_eq _ _ nameMax listing root _ _ here new
    rw [List.map_cons, List.map_cons, List.foldlM_cons, step]
    by_cases named : ∀ part ∈ pathParts record.1.path, byteLen (String.ofList part) ≤ nameMax
    · have free : ∀ old ∈ done, ¬pathParts old.1.path <+: pathParts record.1.path ∧
          ¬pathParts record.1.path <+: pathParts old.1.path := by
        intro old there
        have differ := other old there
        constructor
        · intro above
          exact differ (congrArg _ (listing.prefix_free (before old there).mem here.mem above))
        · intro above
          exact differ (congrArg _ (listing.prefix_free here.mem (before old there).mem above)).symm
      have ⟨next, made, built⟩ := built.put free
      have later := @ih (fun other there => taken other (List.mem_cons_of_mem _ there)) nodup _ _
        (record.1.path :: seen) built (by simpa [here] using before) ?_
      · rw [create_eq named, made]
        rcases later with ⟨rest, last, seen', extracted, whole⟩ | ⟨rest, refused⟩
        · refine .inl ⟨?_, last, seen', extracted, ?_⟩
          · exact List.forall_mem_cons.mpr ⟨named, rest⟩
          · simpa using whole
        · exact .inr ⟨fun all => rest (List.forall_mem_cons.mp all).2, refused⟩
      · intro old there
        have ⟨unseen, apart⟩ := fresh old (List.mem_cons_of_mem _ there)
        have differ : record.1.path ≠ old.1.path :=
          fun same => first (List.mem_map.mpr ⟨old, there, same.symm⟩)
        exact ⟨by simp [unseen, differ.symm], by simpa [differ] using apart⟩
    · refine .inr ⟨fun all => named (List.forall_mem_cons.mp all).1, ?_⟩
      have refused : create nameMax root record.1.path record.2 = .error .invalid := by
        rw [create, if_neg]
        simpa [List.all_eq_true] using named
      rw [refused]
      rfl

/-! ## Verification -/

/-- The records are the files of a definition, in some order. -/
def Covers (records : List (FileReceipt × Bytes)) (files : List FileReceipt) : Prop :=
  (records.map Prod.fst).Perm files

/-- Records of distinct files of a definition, as many as it has, are its files. -/
lemma covers_of_taken (taken : ∀ record ∈ records, Taken sha256 files record)
    (nodup : (records.map fun record => record.1.path).Nodup)
    (count : records.length = files.length) : Covers records files := by
  have distinct : (records.map Prod.fst).Nodup := by
    refine List.Nodup.of_map (fun file : FileReceipt => file.path) ?_
    rw [List.map_map]
    exact nodup
  have among : records.map Prod.fst ⊆ files := by
    intro file there
    have ⟨record, listed, same⟩ := List.mem_map.mp there
    rw [← same]
    exact (taken record listed).mem
  refine (List.subperm_of_subset distinct among).perm_of_length_le ?_
  rw [List.length_map, count]

lemma mem_entries {q : List (List Char)} :
    q ∈ entries files ↔ q ≠ [] ∧ ∃ file ∈ files, q <+: pathParts file.path := by
  have tail : ∀ parts : List (List Char), q ∈ parts.inits.tail ↔ q ≠ [] ∧ q <+: parts := by
    intro parts
    cases parts with
    | nil => simp
    | cons part parts =>
      rw [List.inits, List.tail_cons, List.mem_map]
      cases q with
      | nil => simp
      | cons other q => simp [List.cons_prefix_cons, eq_comm, and_comm]
  rw [entries, List.mem_toFinset, List.mem_flatMap]
  simp only [tail]
  constructor
  · rintro ⟨file, there, nonempty, above⟩
    exact ⟨nonempty, file, there, above⟩
  · rintro ⟨nonempty, file, there, above⟩
    exact ⟨file, there, nonempty, above⟩

namespace Built

variable {root : Directory}

lemma exists_file (covers : Covers records files) {p : FileReceipt → Prop} :
    (∃ record ∈ records, p record.1) ↔ ∃ file ∈ files, p file := by
  constructor
  · rintro ⟨record, there, holds⟩
    exact ⟨record.1, covers.mem_iff.mp (List.mem_map_of_mem there), holds⟩
  · rintro ⟨file, there, holds⟩
    have ⟨record, listed, same⟩ := List.mem_map.mp (covers.mem_iff.mpr there)
    exact ⟨record, listed, same ▸ holds⟩

/-- **The entries of the tree** are those of the definition, and the root. -/
lemma length_rows (built : Built records root) (covers : Covers records files) :
    root.rows.length = (entries files).card + 1 := by
  have members : (root.rows.map Prod.fst).toFinset = insert [] (entries files) := by
    ext q
    rw [List.mem_toFinset, Finset.mem_insert, mem_entries]
    have listed : q ∈ root.rows.map Prod.fst ↔ (root.find q).isSome := by
      rw [Option.isSome_iff_exists, List.mem_map]
      constructor
      · rintro ⟨⟨path, x⟩, there, rfl⟩
        have ⟨u, found, _⟩ := (Tree.mem_rows built.sorted).mp there
        exact ⟨u, found⟩
      · rintro ⟨u, found⟩
        exact ⟨(q, u.kind), (Tree.mem_rows built.sorted).mpr ⟨u, found, rfl⟩, rfl⟩
    rw [listed, built.there, exists_file (p := fun file => q <+: pathParts file.path) covers]
    by_cases empty : q = []
    · simp [empty]
    · simp [empty]
  have notMem : [] ∉ entries files := by simp [mem_entries]
  rw [← List.length_map (f := Prod.fst),
    ← List.toFinset_card_of_nodup (Tree.nodup_rows built.sorted), members,
    Finset.card_insert_of_notMem notMem]

/-- The leaves of the tree are the files of the definition. -/
lemma sort_leafPaths (built : Built records root) (listing : Listing files)
    (covers : Covers records files) :
    (root.leafPaths.map joinParts).mergeSort (· ≤ ·) = files.map (·.path) := by
  have parts_nodup : (files.map fun file => pathParts file.path).Nodup := by
    refine List.Nodup.of_map joinParts ?_
    rw [List.map_map]
    simpa [Function.comp_def] using listing.nodup_paths
  have same : root.leafPaths.Perm (files.map fun file => pathParts file.path) := by
    refine (List.perm_ext_iff_of_nodup (Tree.nodup_leafPaths built.sorted) parts_nodup).mpr
      fun q => ?_
    rw [Tree.mem_leafPaths built.sorted, List.mem_map]
    simp only [built.leaves]
    constructor
    · rintro ⟨file, record, there, rfl, _⟩
      exact ⟨record.1, covers.mem_iff.mp (List.mem_map_of_mem there), rfl⟩
    · rintro ⟨file, there, rfl⟩
      have ⟨record, listed, same⟩ := List.mem_map.mp (covers.mem_iff.mpr there)
      exact ⟨⟨record.2, true⟩, record, listed, by rw [same], rfl⟩
  have paths : (root.leafPaths.map joinParts).Perm (files.map (·.path)) := by
    have mapped := same.map joinParts
    rw [List.map_map] at mapped
    simpa [Function.comp_def] using mapped
  refine ((List.mergeSort_perm _ _).trans paths).eq_of_pairwise'
    (List.pairwise_mergeSort' (r := (· ≤ ·)) _) ?_
  exact listing.pairwise.imp fun less => less.le

lemma openFile_eq (built : Built records root) (listing : Listing files)
    (covers : Covers records files) {record : FileReceipt × Bytes} (there : record ∈ records) :
    openFile root record.1.path = .ok ⟨record.2, true⟩ := by
  have valid := listing.paths record.1 (covers.mem_iff.mp (List.mem_map_of_mem there))
  have found := (built.leaves (pathParts record.1.path) ⟨record.2, true⟩).mpr
    ⟨record, there, rfl, rfl⟩
  rw [openFile, if_pos valid, found]

/-- Where the traversals find nothing to refuse. -/
lemma find_cases (built : Built records root) (covers : Covers records files)
    {q : List (List Char)} {u : Directory} (found : root.find q = some u) :
    q = [] ∨ ∃ file ∈ files, q <+: pathParts file.path := by
  have there := (built.there q).mp (by rw [found]; rfl)
  exact there.imp_right (exists_file (p := fun file => q <+: pathParts file.path) covers).mp

lemma clean_walk (built : Built records root) (listing : Listing files)
    (covers : Covers records files) : Tree.Clean walkVisitor [] root := by
  have top : ∀ readOnly, walkVisitor.opens [] readOnly = true := by decide
  refine Tree.clean_of_find built.sorted fun q u found => ⟨fun nonempty => ?_, fun _ _ _ => ?_,
    fun _ _ => rfl⟩
  · rcases built.find_cases covers found with rfl | ⟨file, there, above⟩
    · exact absurd rfl nonempty
    · exact path_above (listing.paths file there) above nonempty
  · rcases built.find_cases covers found with rfl | ⟨file, there, above⟩
    · exact top _
    by_cases empty : q = []
    · subst empty
      exact top _
    have valid := path_above (listing.paths file there) above empty
    simp only [path, decide_eq_true_eq] at valid
    exact decide_eq_true ⟨valid.2.1, valid.2.2.2.2.1⟩

/-- No directory is deeper than a path of the definition. -/
lemma length_le (built : Built records root) (listing : Listing files)
    (covers : Covers records files) {q : List (List Char)} {u : Directory}
    (found : root.find q = some u) : q.length ≤ 128 := by
  rcases built.find_cases covers found with rfl | ⟨file, there, above⟩
  · simp
  · have valid := listing.paths file there
    simp only [path, decide_eq_true_eq] at valid
    exact above.length_le.trans valid.2.2.2.2.1

lemma clean_seal (built : Built records root) (listing : Listing files)
    (covers : Covers records files) : Tree.Clean sealVisitor [] root := by
  refine Tree.clean_of_find built.sorted fun q u found => ⟨fun _ => rfl, fun _ _ _ => ?_,
    fun file leaf => ?_⟩
  · exact decide_eq_true (built.length_le listing covers found)
  · rw [leaf] at found
    have ⟨_, _, _, same⟩ := (built.leaves q file).mp found
    rw [same]
    rfl

/-- The sealed tree holds the same records, and all its directories are read-only. -/
lemma mapNodes (built : Built records root) : Built records (root.mapNodes fun _ => true) where
  sorted := Tree.sorted_mapNodes built.sorted
  there q := by rw [Tree.find_mapNodes, Option.isSome_map, built.there]
  leaves q file := by
    rw [Tree.find_mapNodes, ← built.leaves]
    cases root.find q with
    | none => simp
    | some u => cases u <;> simp [Tree.mapNodes]

lemma clean_sealed (built : Built records root) (listing : Listing files)
    (covers : Covers records files) :
    Tree.Clean sealedVisitor [] (root.mapNodes fun _ => true) := by
  refine Tree.clean_of_find built.mapNodes.sorted fun q u found => ⟨fun _ => rfl, ?_,
    fun _ _ => rfl⟩
  intro readOnly below is
  have deep := built.mapNodes.length_le listing covers found
  rw [Tree.find_mapNodes, Option.map_eq_some_iff] at found
  have ⟨v, _, same⟩ := found
  rw [is] at same
  cases v with
  | leaf file => cases same
  | node e others =>
    cases same
    exact decide_eq_true ⟨deep, rfl⟩

/-- **The file set is verified** exactly when the walk has the budget for the entries. -/
lemma requireFileSet_eq (built : Built records root) (listing : Listing files)
    (covers : Covers records files) {sealed : Bool}
    (marked : sealed = true → Tree.Clean sealedVisitor [] root) :
    requireFileSet root files sealed =
      if (entries files).card ≤ MAX_FILES then .ok () else .error .invalid := by
  have walked := Tree.visit_eq (built.clean_walk listing covers)
  have room : root.rows.length ≤ MAX_FILES + 1 ↔ (entries files).card ≤ MAX_FILES := by
    rw [built.length_rows covers]
    omega
  have sealedRoom : ∀ _ : sealed = true, root.visit sealedVisitor =
      if root.rows.length ≤ MAX_FILES + 1 then some root.leafPaths else none :=
    fun is => Tree.visit_eq (marked is)
  have limit : walkVisitor.limit = MAX_FILES := rfl
  rw [limit] at walked
  by_cases fits : (entries files).card ≤ MAX_FILES
  · rw [if_pos (room.mpr fits)] at walked
    rw [if_pos fits]
    have listed : walk root = .ok (root.leafPaths.map joinParts) := by rw [walk, walked]
    refine bind_eq_ok.mpr ⟨(), reject_eq_ok.mpr ?_, bind_eq_ok.mpr ⟨_, listed, reject_eq_ok.mpr ?_⟩⟩
    · rintro ⟨is, refused⟩
      rw [sealedRoom is, if_pos (room.mpr fits)] at refused
      exact refused rfl
    · rw [built.sort_leafPaths listing covers]
      exact fun different => different rfl
  · rw [if_neg fun enough => fits (room.mp enough)] at walked
    rw [if_neg fits]
    have refused : walk root = .error .invalid := by rw [walk, walked]
    rw [requireFileSet, refused]
    unfold reject
    split_ifs <;> rfl

end Built

/-- The files of an accepted definition have a content hash. -/
lemma contentHash_ok (enc : Encoding) (listing : Listing files) :
    ∃ digest, contentHash enc files = .ok digest := by
  have fits : ∀ item ∈ files.map (·.document), Fits (fun _ => false) item 2 7 := by
    intro item there
    have ⟨file, _, same⟩ := List.mem_map.mp there
    rw [← same]
    exact fits_file file
  have readable : (Json.array (files.map (·.document))).readable (fun _ => false) = true :=
    (fits_items fits).1
  have ⟨written, canonical⟩ := @Encoding.canonical_of_readable enc (fun _ => false)
    (fun _ never => by cases never) _ readable
  have digest : enc.digest (Json.array (files.map (·.document))) = .ok (enc.sha256 written) := by
    rw [Encoding.digest, canonical]
    rfl
  have checks : ¬((files.any fun file => ¬path file.path ∨ ¬isSha256 file.sha256) ∨
      ¬Definition.Ordered files ∨ 2 ^ 64 ≤ (files.map fun file => file.bytes.toNat).sum) := by
    simp only [not_or, not_not, List.any_eq_true, not_exists, not_and, decide_eq_true_eq]
    exact ⟨fun file there => ⟨listing.paths file there, listing.digests file there⟩,
      listing.ordered, not_le.mpr listing.bounded⟩
  have small := listing.small
  unfold MAX_METADATA at small
  refine ⟨enc.sha256 written, bind_eq_ok.mpr ⟨(), reject_eq_ok.mpr ?_, bind_eq_ok.mpr
    ⟨(), reject_eq_ok.mpr checks, bind_eq_ok.mpr ⟨(), reject_eq_ok.mpr (by omega), ?_⟩⟩⟩⟩
  · exact not_or.mpr ⟨listing.nonempty, not_lt.mpr listing.few⟩
  · rw [digest]
    rfl

namespace Built

variable {root : Directory} {enc : Encoding}

lemma taken_of_mem (covers : Covers records files)
    (taken : ∀ record ∈ records, Taken sha256 files record) {file : FileReceipt}
    (there : file ∈ files) : ∃ record ∈ records, record.1 = file ∧ Taken sha256 files record := by
  have ⟨record, listed, same⟩ := List.mem_map.mp (covers.mem_iff.mpr there)
  exact ⟨record, listed, same, taken record listed⟩

/-- The content of every file is that of its record. -/
lemma verifyFile_ok (built : Built records root) (listing : Listing files)
    (covers : Covers records files) (taken : ∀ record ∈ records, Taken sha256 files record)
    {sealed : Bool} : files.forM (verifyFile sha256 root sealed) = .ok () := by
  refine forM_eq_ok.mpr fun file there => ?_
  have ⟨record, listed, same, holds⟩ := taken_of_mem covers taken there
  subst same
  refine bind_eq_ok.mpr ⟨_, built.openFile_eq listing covers listed, bind_eq_ok.mpr
    ⟨(), reject_eq_ok.mpr ?_, reject_eq_ok.mpr ?_⟩⟩
  · simp
  · simp [holds.length, holds.digest]

lemma verifySize_ok (built : Built records root) (listing : Listing files)
    (covers : Covers records files) (taken : ∀ record ∈ records, Taken sha256 files record) :
    files.forM (verifySize root) = .ok () := by
  refine forM_eq_ok.mpr fun file there => ?_
  have ⟨record, listed, same, holds⟩ := taken_of_mem covers taken there
  subst same
  refine bind_eq_ok.mpr ⟨_, built.openFile_eq listing covers listed, reject_eq_ok.mpr ?_⟩
  simp [holds.length]

/-- **Verification** of the tree of an accepted archive. -/
lemma verify_eq {definition : Definition} (built : Built records root)
    (valid : definition.validate = .ok ()) (covers : Covers records definition.files)
    (taken : ∀ record ∈ records, Taken sha256 definition.files record) {sealed : Bool}
    (marked : sealed = true → Tree.Clean sealedVisitor [] root) :
    verify enc sha256 root definition sealed =
      if (entries definition.files).card ≤ MAX_FILES then .ok () else .error .invalid := by
  have listing := listing_of_validate valid
  have ⟨digest, hashed⟩ := contentHash_ok enc listing
  rw [verify, verifyInventory, valid, hashed, built.requireFileSet_eq listing covers marked]
  split_ifs with fits
  · exact built.verifyFile_ok listing covers taken
  · rfl

end Built

/-! ## An accepted archive -/

variable {tar : Bytes → Unpacked} {stream : Bytes} {definition : Definition}

/-- What an accepted archive is. -/
lemma accepted_records (accepted : verifyDataStream tar sha256 stream definition = .ok ()) :
    definition.validate = .ok () ∧ ∃ records : List (FileReceipt × Bytes),
      (tar stream).members = records.map fileMember ∧
      (∀ record ∈ records, Taken sha256 definition.files record) ∧
      (records.map fun record => record.1.path).Nodup ∧ Covers records definition.files := by
  simp only [verifyDataStream, bind_eq_ok, reject_eq_ok, not_or, not_not] at accepted
  have ⟨_, valid, _, _, seen, proved, _, length, count⟩ := accepted
  have whole : stream.take (definition.archiveBytes.toNat + 1) = stream := by
    rw [List.length_take] at length
    exact List.take_of_length_le (by omega)
  rw [whole] at proved
  have ⟨records, members, taken, nodup, _, total⟩ := foldlM_verifyMember proved
  rw [List.length_nil, Nat.zero_add] at total
  exact ⟨valid, records, members, taken, nodup, covers_of_taken taken nodup (total ▸ count)⟩

/-- What becomes of an accepted archive whose names are taken. -/
lemma materialize_eq (enc : Encoding) {all : List (FileReceipt × Bytes)} {root : Directory}
    {seen : List String} (valid : definition.validate = .ok ())
    (extracted : (tar stream).members.foldlM (extractMember nameMax definition.files)
      (.node false [], []) = .ok (root, seen))
    (built : Built all root) (covers : Covers all definition.files)
    (taken : ∀ record ∈ all, Taken sha256 definition.files record) :
    materialize enc sha256 tar nameMax stream definition =
      if (∀ byte ∈ (tar stream).rest, byte = 0) ∧ (entries definition.files).card ≤ MAX_FILES then
        .ok (root.mapNodes fun _ => true)
      else .error .invalid := by
  have listing := listing_of_validate valid
  have unpacked : extract enc sha256 tar nameMax stream definition =
      if (∀ byte ∈ (tar stream).rest, byte = 0) ∧ (entries definition.files).card ≤ MAX_FILES then
        .ok root
      else .error .invalid := by
    have unfolded : extract enc sha256 tar nameMax stream definition =
        (do
          reject ((tar stream).rest.any fun byte => byte ≠ 0) .invalid
          verify enc sha256 root definition false
          .ok root) := by
      unfold extract
      simp only [valid, extracted]
      rfl
    rw [unfolded, built.verify_eq valid covers taken (fun never => by cases never)]
    by_cases zero : ∀ byte ∈ (tar stream).rest, byte = 0
    · have clear : ¬((tar stream).rest.any fun byte => byte ≠ 0) = true := by
        simpa using zero
      rw [reject, if_neg clear]
      by_cases fits : (entries definition.files).card ≤ MAX_FILES
      · rw [if_pos fits, if_pos ⟨zero, fits⟩]
        rfl
      · rw [if_neg fits]
        exact (if_neg fun both => fits both.2).symm
    · have dirty : ((tar stream).rest.any fun byte => byte ≠ 0) = true := by
        simpa using zero
      rw [reject, if_pos dirty]
      exact (if_neg fun both => zero both.1).symm
  rw [materialize, unpacked]
  split_ifs with both
  · have room : root.rows.length ≤ sealVisitor.limit + 1 := by
      rw [built.length_rows covers]
      exact Nat.add_le_add_right both.2 1
    have marked : sealTree root = .ok (root.mapNodes fun _ => true) := by
      rw [sealTree, Tree.visit_eq (built.clean_seal listing covers), if_pos room]
      rfl
    have checked : verifyFileSizes (root.mapNodes fun _ => true) definition = .ok () := by
      rw [verifyFileSizes, valid, built.mapNodes.requireFileSet_eq listing covers
        fun _ => built.clean_sealed listing covers, if_pos both.2]
      exact built.mapNodes.verifySize_ok listing covers taken
    show (sealTree root >>= fun tree => _) = _
    rw [marked]
    show (verifyFileSizes _ definition >>= fun _ => _) = _
    rw [checked]
    rfl
  · rfl

/-- What becomes of an accepted archive. -/
lemma materialize_cases (enc : Encoding) (nameMax : ℕ)
    (accepted : verifyDataStream tar sha256 stream definition = .ok ()) :
    (Named nameMax definition.files ∧ ∃ tree,
      verify enc sha256 tree definition true =
        (if (entries definition.files).card ≤ MAX_FILES then .ok () else .error .invalid) ∧
      materialize enc sha256 tar nameMax stream definition =
        if (∀ byte ∈ (tar stream).rest, byte = 0) ∧ (entries definition.files).card ≤ MAX_FILES then
          .ok tree
        else .error .invalid) ∨
    (¬Named nameMax definition.files ∧
      materialize enc sha256 tar nameMax stream definition = .error .invalid) := by
  have ⟨valid, records, members, taken, nodup, covers⟩ := accepted_records accepted
  have listing := listing_of_validate valid
  have names : Named nameMax (records.map Prod.fst) ↔ Named nameMax definition.files := by
    unfold Named
    simp only [covers.mem_iff]
  have extraction := @foldlM_extractMember _ _ nameMax _ listing taken nodup _ _ [] built_empty
    (by simp) (by simp)
  rw [List.append_nil] at extraction
  rcases extraction with ⟨named, root, seen, extracted, built⟩ | ⟨unnamed, refused⟩
  · have covers' : Covers records.reverse definition.files := by
      unfold Covers
      rw [List.map_reverse]
      exact (List.reverse_perm _).trans covers
    have taken' : ∀ record ∈ records.reverse, Taken sha256 definition.files record :=
      fun record there => taken record (List.mem_reverse.mp there)
    rw [← members] at extracted
    exact Or.inl ⟨names.mp named, _, built.mapNodes.verify_eq valid covers' taken'
      fun _ => built.clean_sealed listing covers', materialize_eq enc valid extracted built covers' taken'⟩
  · refine Or.inr ⟨fun named => unnamed (names.mpr named), ?_⟩
    unfold materialize extract
    simp only [valid, members, refused]
    rfl

lemma isOk_materialize (enc : Encoding) (nameMax : ℕ)
    (accepted : verifyDataStream tar sha256 stream definition = .ok ()) :
    (materialize enc sha256 tar nameMax stream definition).isOk ↔
      (entries definition.files).card ≤ MAX_FILES ∧ Named nameMax definition.files ∧
        ∀ byte ∈ (tar stream).rest, byte = 0 := by
  rcases materialize_cases enc nameMax accepted with ⟨named, tree, _, made⟩ | ⟨unnamed, failed⟩
  · rw [made]
    split_ifs with both
    · exact ⟨fun _ => ⟨both.2, named, both.1⟩, fun _ => rfl⟩
    · refine ⟨fun never => ?_, fun ⟨fits, _, zero⟩ => absurd ⟨zero, fits⟩ both⟩
      cases never
  · rw [failed]
    refine ⟨fun never => ?_, fun conditions => absurd conditions.2.1 unnamed⟩
    cases never

/-- A tree that is left is verified. -/
lemma verify_of_materialize {enc : Encoding} {nameMax : ℕ} {root : Directory}
    (accepted : verifyDataStream tar sha256 stream definition = .ok ())
    (made : materialize enc sha256 tar nameMax stream definition = .ok root) :
    verify enc sha256 root definition true = .ok () := by
  rcases materialize_cases enc nameMax accepted with ⟨_, tree, verified, is⟩ | ⟨_, failed⟩
  · rw [is] at made
    split_ifs at made with both
    cases made
    rw [verified, if_pos both.2]
  · rw [failed] at made
    cases made

/-- **An accepted archive is materialized** exactly when its files and the directories above them are no
more than `MAX_FILES`, the file system takes their names, and only zeros are left behind its end.  The
tree that is left then is verified. -/
theorem admitted_materializes (enc : Encoding) (nameMax : ℕ)
    (accepted : verifyDataStream tar sha256 stream definition = .ok ()) :
    ((materialize enc sha256 tar nameMax stream definition).isOk ↔
      (entries definition.files).card ≤ MAX_FILES ∧ Named nameMax definition.files ∧
        ∀ byte ∈ (tar stream).rest, byte = 0) ∧
    ∀ root, materialize enc sha256 tar nameMax stream definition = .ok root →
      verify enc sha256 root definition true = .ok () :=
  ⟨isOk_materialize enc nameMax accepted, fun _ made => verify_of_materialize accepted made⟩

/-! ## Deep trees -/

/-- The name of a directory at the top: two hexadecimal digits. -/
def deepName (i : ℕ) : List Char := [Nat.digitChar (i / 16), Nat.digitChar (i % 16)]

def deepParts (i : ℕ) : List (List Char) := deepName i :: List.replicate 126 ['a']

def emptyDigest : String := "e3b0c44298fc1c149afbf4c8996fb92427ae41e4649b934ca495991b7852b855"

/-- An empty file below 126 directories. -/
def deepFile (i : ℕ) : FileReceipt := ⟨joinParts (deepParts i), 0, emptyDigest⟩

def deepFiles (count : ℕ) : List FileReceipt := (List.range count).map deepFile

def deepDefinition (count : ℕ) (digest : String) : Definition where
  sha256 := digest
  archiveBytes := UInt64.ofNat (512 * count + 1024)
  files := deepFiles count

/-- A field of a header, filled up with zeros. -/
def field (width : ℕ) (chars : List Char) : Bytes :=
  ((chars.map fun c : Char => UInt8.ofNat c.toNat) ++ List.replicate width 0).take width

/-- The `ustar` header of an empty file: the checksum counts its own field as blanks. -/
def deepHeader (i : ℕ) : Bytes :=
  let chars := (deepFile i).path.toList
  let front := field 100 (chars.drop 155) ++ field 8 "0000644".toList ++ field 8 "0000000".toList ++
    field 8 "0000000".toList ++ field 12 "00000000000".toList ++ field 12 "00000000000".toList
  let back := field 1 ['0'] ++ field 100 [] ++ field 6 "ustar".toList ++ field 2 "00".toList ++
    field 32 [] ++ field 32 [] ++ field 8 "0000000".toList ++ field 8 "0000000".toList ++
    field 155 (chars.take 154) ++ field 12 []
  let sum := ((front ++ back).map UInt8.toNat).sum + 8 * 32
  let digits := [5, 4, 3, 2, 1, 0].map fun k => Nat.digitChar (sum / 8 ^ k % 8)
  front ++ field 6 digits ++ field 2 [Char.ofNat 0, ' '] ++ back

/-- The headers, and two blocks of zeros. -/
def deepArchive (count : ℕ) : Bytes :=
  (List.range count).flatMap deepHeader ++ List.replicate 1024 0

/-- What the reader gives for the archive, and only for it. -/
def deepReader (count : ℕ) (bytes : Bytes) : Unpacked :=
  if bytes = deepArchive count then ⟨(deepFiles count).map fun file => fileMember (file, []), []⟩
  else ⟨[none], []⟩

def deepHash (digest : String) (bytes : Bytes) : String :=
  if bytes = [] then emptyDigest else digest

section Deep

variable {count : ℕ} {digest : String}

/-- What the characters of the names have in common. -/
lemma deepName_all {ok : Char → Bool} (hex : ∀ n < 16, ok (Nat.digitChar n) = true) {i : ℕ}
    (h : i < 158) : (deepName i).all ok = true := by
  have first := hex (i / 16) (by omega)
  have second := hex (i % 16) (Nat.mod_lt _ (by decide))
  simp [deepName, first, second]

lemma joinParts_replicate (first : List Char) (more : ℕ) :
    (joinParts (first :: List.replicate more ['a'])).toList =
      first ++ (List.replicate more ['/', 'a']).flatten := by
  rw [toList_joinParts]
  induction more generalizing first with
  | zero => simp
  | succ more ih =>
    rw [List.replicate_succ, List.intercalate_cons_cons, ih, List.replicate_succ,
      List.flatten_cons]
    simp

lemma toList_deepPath (i : ℕ) : (deepFile i).path.toList =
    deepName i ++ (List.replicate 126 ['/', 'a']).flatten := joinParts_replicate _ _

lemma length_deepPath (i : ℕ) : (deepFile i).path.toList.length = 254 := by
  rw [toList_deepPath, List.length_append, List.length_flatten, List.map_replicate,
    List.sum_replicate]
  rfl

lemma deepPath_all {ok : Char → Bool} (hex : ∀ n < 16, ok (Nat.digitChar n) = true)
    (slash : ok '/' = true) {i : ℕ} (h : i < 158) : (deepFile i).path.toList.all ok = true := by
  have letter : ok 'a' = true := hex 10 (by decide)
  have rest : (List.replicate 126 ['/', 'a']).flatten.all ok = true := by
    rw [List.all_eq_true]
    intro c there
    have ⟨part, listed, among⟩ := List.mem_flatten.mp there
    rw [List.eq_of_mem_replicate listed] at among
    rcases List.mem_cons.mp among with rfl | last
    · exact slash
    · rw [List.mem_singleton.mp last]
      exact letter
  rw [toList_deepPath, List.all_append, deepName_all hex h, rest]
  rfl

lemma deepPath_any {bad : Char → Bool} (hex : ∀ n < 16, bad (Nat.digitChar n) = false)
    (slash : bad '/' = false) {i : ℕ} (h : i < 158) :
    ¬(deepFile i).path.toList.any bad = true := by
  have clear := @deepPath_all (fun c => !bad c) (by simpa using hex) (by simpa using slash) i h
  intro found
  have ⟨c, there, is⟩ := List.any_eq_true.mp found
  have other := List.all_eq_true.mp clear c there
  rw [is] at other
  cases other

lemma pathParts_deepPath {i : ℕ} (h : i < 158) : pathParts (deepFile i).path = deepParts i := by
  have clear := @deepName_all (fun c => c ≠ '/') (by decide) i h
  have plain : ∀ part ∈ deepParts i, '/' ∉ part := by
    intro part there slash
    rcases List.mem_cons.mp there with rfl | later
    · have other := List.all_eq_true.mp clear _ slash
      simp at other
    · rw [List.eq_of_mem_replicate later] at slash
      simp at slash
  rw [pathParts, deepFile, toList_joinParts]
  exact List.splitOn_intercalate _ plain (by simp [deepParts])

lemma byteLen_deepPath {i : ℕ} (h : i < 158) : byteLen (deepFile i).path = 254 := by
  have narrow := @deepPath_all (fun c => c.utf8Size = 1) (by decide) (by decide) i h
  rw [byteLen, length_utf8_of_ascii, ← String.length_toList, length_deepPath]
  intro c there
  simpa using List.all_eq_true.mp narrow c there

lemma path_deepPath {i : ℕ} (h : i < 158) : path (deepFile i).path = true := by
  simp only [path, decide_eq_true_eq, pathParts_deepPath h, byteLen_deepPath h]
  refine ⟨fun empty => ?_, by decide, deepPath_any (by decide) (by decide) h, ?_, by simp [deepParts],
    deepPath_any (by decide) (by decide) h⟩
  · have length := length_deepPath i
    rw [empty] at length
    cases length
  · rw [deepParts, List.all_cons, Bool.and_eq_true, List.all_eq_true]
    refine ⟨by simp [deepName], fun part there => ?_⟩
    rw [List.eq_of_mem_replicate there]
    decide

lemma isSha256_emptyDigest : isSha256 emptyDigest = true := isSha256_ofList rfl (by decide)

lemma deepFile_lt {i : ℕ} (h : i + 1 < 158) : (deepFile i).path < (deepFile (i + 1)).path := by
  have names : ∀ i < 157, deepName i < deepName (i + 1) := by decide +kernel
  have less := names i (by omega)
  rw [String.lt_iff, toList_deepPath, toList_deepPath]
  simpa [deepName, List.cons_lt_cons_iff] using less

/-- The text of a file of the list. -/
lemma size_deepFile {i : ℕ} (h : i < 158) : (deepFile i).document.size = 351 := by
  have clear : Clear (deepFile i).path := by
    unfold Clear
    refine deepPath_all (fun n small => ?_) (by decide) h
    revert n
    decide
  have wide : textSize (deepFile i).path = 256 := by
    rw [clear.textSize_eq, byteLen_deepPath h]
  have digest : textSize emptyDigest = 66 := textSize_ofList (by decide)
  have h₁ : textSize "path" = 6 := textSize_ofList (by decide)
  have h₂ : textSize "bytes" = 7 := textSize_ofList (by decide)
  have h₃ : textSize "sha256" = 8 := textSize_ofList (by decide)
  have h₄ : (Json.ofNat (0 : UInt64).toNat).size = 1 := by decide
  simp only [deepFile] at wide
  simp only [deepFile, Artifacts.FileReceipt.document, Json.size, Json.sizeFields, Json.joinedSize,
    wide, digest, h₁, h₂, h₃, h₄]

lemma joinedSize_replicate (size rows : ℕ) :
    Json.joinedSize (List.replicate rows size) ≤ (size + 1) * rows := by
  induction rows with
  | zero => exact Nat.zero_le _
  | succ rows ih =>
    cases rows with
    | zero => simp [Json.joinedSize]
    | succ rows =>
      have split : Json.joinedSize (List.replicate (rows + 1 + 1) size) =
          size + 1 + Json.joinedSize (List.replicate (rows + 1) size) := rfl
      rw [split, Nat.mul_succ]
      omega

lemma mem_deepFiles {file : FileReceipt} : file ∈ deepFiles count ↔ ∃ i < count, deepFile i = file := by
  simp [deepFiles]

lemma ordered_deepFiles (h : count ≤ 158) : Definition.Ordered (deepFiles count) := by
  unfold Definition.Ordered deepFiles
  rw [List.isChain_map]
  exact (List.isChain_range _ count).mpr fun i below => deepFile_lt (by omega)

lemma parents_deepPath {i : ℕ} {name : String}
    (above : name ∈ Definition.parents (deepFile i).path.toList) : name.toList.length < 254 := by
  have ⟨n, inside, same⟩ := List.mem_map.mp above
  have short := List.mem_range.mp (List.mem_filter.mp inside).1
  rw [← same, String.toList_ofList, List.length_take]
  rw [length_deepPath] at short ⊢
  omega

lemma size_deepDefinition (h : count ≤ 158) (is : isSha256 digest = true) :
    (deepDefinition count digest).document.size ≤ 352 * count + 125 := by
  have ⟨clear, wide⟩ := clear_of_isSha256 is
  have rows : (deepFiles count).map (fun file => file.document.size) = List.replicate count 351 := by
    rw [List.eq_replicate_iff]
    refine ⟨by simp [deepFiles], fun size there => ?_⟩
    have ⟨file, listed, same⟩ := List.mem_map.mp there
    have ⟨i, below, is⟩ := mem_deepFiles.mp listed
    rw [← same, ← is, size_deepFile (by omega)]
  have joined := joinedSize_replicate 351 count
  have number := size_ofNat_le (deepDefinition count digest).archiveBytes
  have whole := (deepDefinition count digest).size_eq
  have text : textSize (deepDefinition count digest).sha256 = 66 := by
    change textSize digest = _
    rw [clear.textSize_eq, wide]
  change _ = _ + _ + Json.joinedSize ((deepFiles count).map fun file => file.document.size) + _ at whole
  rw [rows, text] at whole
  omega

lemma archiveBytes_deepDefinition (h : count ≤ 158) :
    (deepDefinition count digest).archiveBytes.toNat = 512 * count + 1024 :=
  (UInt64.toNat_ofNat').trans (Nat.mod_eq_of_lt (by omega))

lemma validate_deepDefinition (some : 0 < count) (h : count ≤ 158) (is : isSha256 digest = true) :
    (deepDefinition count digest).validate = .ok () := by
  have bytes := @archiveBytes_deepDefinition _ digest h
  have size := size_deepDefinition h is
  have length : (deepDefinition count digest).files.length = count := by
    simp [deepDefinition, deepFiles]
  have expanded : (deepDefinition count digest).expandedBytes = 0 := by
    unfold Definition.expandedBytes
    refine List.sum_eq_zero fun size there => ?_
    obtain ⟨file, listed, same⟩ := List.mem_map.mp there
    obtain ⟨i, _, is⟩ := mem_deepFiles.mp listed
    rw [← same, ← is]
    rfl
  have parts : partCount (512 * count + 1024) = .ok 1 := by
    have few : (512 * count + 1024 + PART_BYTES - 1) / PART_BYTES = 1 := by
      unfold PART_BYTES
      omega
    simp only [partCount, few]
    rw [reject, if_neg (by omega), reject, if_neg (by decide)]
    rfl
  unfold Definition.validate
  simp only [bind_eq_ok, reject_eq_ok, not_or, not_not, gt_iff_lt, not_lt, not_le, expanded, bytes,
    length]
  refine ⟨(), is, 1, parts, (), ⟨?_, by unfold MAX_FILES; omega⟩, (),
    ⟨?_, ordered_deepFiles h, by decide⟩, (), ?_, by omega, ?_⟩
  · intro none
    rw [none] at length
    exact absurd length.symm some.ne'
  · intro bad
    obtain ⟨file, listed, refused⟩ := List.any_eq_true.mp bad
    obtain ⟨i, below, same⟩ := mem_deepFiles.mp listed
    rw [← same] at refused
    rcases of_decide_eq_true refused with bad | bad
    · exact bad (path_deepPath (by omega))
    · exact bad isSha256_emptyDigest
  · intro bad
    obtain ⟨file, listed, refused⟩ := List.any_eq_true.mp bad
    obtain ⟨name, above, among⟩ := List.any_eq_true.mp refused
    obtain ⟨i, _, same⟩ := mem_deepFiles.mp listed
    obtain ⟨other, listed', equal⟩ := List.mem_map.mp (of_decide_eq_true among)
    obtain ⟨j, _, same'⟩ := mem_deepFiles.mp listed'
    rw [← same] at above
    have short := parents_deepPath above
    rw [← equal, ← same', length_deepPath] at short
    exact absurd short (lt_irrefl _)
  · unfold MAX_METADATA
    omega

lemma manifestBudget_deepDefinition (h : count ≤ 158) (is : isSha256 digest = true) :
    (deepDefinition count digest).manifestBudget = true := by
  refine decide_eq_true ((size_deepDefinition h is).trans ?_)
  unfold MAX_DEFINITION_BYTES MAX_MANIFEST_BYTES MOUNT_ENVELOPE_BYTES
  omega

lemma length_field (width : ℕ) (chars : List Char) : (field width chars).length = width := by
  simp [field]

lemma length_deepHeader (i : ℕ) : (deepHeader i).length = 512 := by
  simp only [deepHeader, List.length_append, length_field]

lemma length_deepArchive (count : ℕ) : (deepArchive count).length = 512 * count + 1024 := by
  have headers : ((List.range count).map fun i => (deepHeader i).length) =
      List.replicate count 512 := by
    simp [length_deepHeader]
  rw [deepArchive, List.length_append, List.length_flatMap, headers, List.sum_replicate,
    List.length_replicate, smul_eq_mul, Nat.mul_comm]

lemma taken_deepFile (some : 0 < count) (h : count ≤ 158) (is : isSha256 digest = true)
    {file : FileReceipt} (there : file ∈ deepFiles count) :
    Taken (deepHash digest) (deepFiles count) (file, []) where
  found := (listing_of_validate (validate_deepDefinition some h is)).find_eq there
  digest := by
    have ⟨i, _, same⟩ := mem_deepFiles.mp there
    rw [← same]
    rfl
  length := by
    have ⟨i, _, same⟩ := mem_deepFiles.mp there
    rw [← same]
    rfl

/-- **The archive is accepted** with its definition. -/
lemma accepted_deepArchive (some : 0 < count) (h : count ≤ 158) (is : isSha256 digest = true) :
    verifyDataStream (deepReader count) (deepHash digest) (deepArchive count)
      (deepDefinition count digest) = .ok () := by
  have valid := validate_deepDefinition some h is
  have listing := listing_of_validate valid
  have bytes := @archiveBytes_deepDefinition _ digest h
  have length := length_deepArchive count
  have whole : (deepArchive count).take (512 * count + 1024 + 1) = deepArchive count :=
    List.take_of_length_le (by omega)
  have filled : deepArchive count ≠ [] := by
    intro empty
    rw [empty] at length
    simp at length
  have members : (deepReader count (deepArchive count)).members =
      ((deepFiles count).map fun file => (file, [])).map fileMember := by
    rw [deepReader, if_pos rfl, List.map_map]
    rfl
  have names : ((deepFiles count).map fun file => (file, ([] : Bytes))).map
      (fun record => record.1.path) = (deepFiles count).map (·.path) := by
    rw [List.map_map]
    rfl
  have taken : ∀ record ∈ (deepFiles count).map fun file => (file, ([] : Bytes)),
      Taken (deepHash digest) (deepFiles count) record := by
    intro record there
    have ⟨file, listed, same⟩ := List.mem_map.mp there
    rw [← same]
    exact taken_deepFile some h is listed
  have proved := @foldlM_verifyMember_ok _ _ _ [] taken (names ▸ listing.nodup_paths) (by simp)
  have hashed : deepHash digest (deepArchive count) = digest := if_neg filled
  unfold verifyDataStream
  simp only [bind_eq_ok, reject_eq_ok, valid, bytes, whole, members, hashed, length]
  refine ⟨(), trivial, (), by omega, _, proved, ?_⟩
  rw [names]
  simp [deepDefinition]

/-- The paths and the directories above them, 127 for each file. -/
lemma card_entries_deepFiles (h : count ≤ 158) : (entries (deepFiles count)).card = 127 * count := by
  have digits : ∀ d < 16, ∀ e < 16, Nat.digitChar d = Nat.digitChar e → d = e := by decide
  have numbered : ∀ i < 158, ∀ j < 158, deepName i = deepName j → i = j := by
    intro i below j below' same
    simp only [deepName, List.cons.injEq, and_true] at same
    have high := digits _ (by omega) _ (by omega) same.1
    have low := digits _ (Nat.mod_lt _ (by decide)) _ (Nat.mod_lt _ (by decide)) same.2
    omega
  have image : entries (deepFiles count) =
      (Finset.range count ×ˢ Finset.range 127).image fun place =>
        (deepParts place.1).take (place.2 + 1) := by
    ext q
    simp only [mem_entries, Finset.mem_image, Finset.mem_product, Finset.mem_range, Prod.exists,
      mem_deepFiles]
    constructor
    · rintro ⟨filled, _, ⟨i, below, rfl⟩, above⟩
      rw [pathParts_deepPath (by omega)] at above
      have short := above.length_le
      have long := List.length_pos_iff.mpr filled
      have total : (deepParts i).length = 127 := by simp [deepParts]
      refine ⟨i, q.length - 1, ⟨below, by omega⟩, ?_⟩
      rw [Nat.sub_add_cancel long]
      exact (List.prefix_iff_eq_take.mp above).symm
    · rintro ⟨i, n, ⟨below, _⟩, rfl⟩
      refine ⟨by simp [deepParts], _, ⟨i, below, rfl⟩, ?_⟩
      rw [pathParts_deepPath (by omega)]
      exact List.take_prefix _ _
  rw [image, Finset.card_image_of_injOn, Finset.card_product, Finset.card_range, Finset.card_range,
    Nat.mul_comm]
  rintro ⟨i, n⟩ there ⟨j, m⟩ there' same
  simp only [Finset.coe_product, Finset.coe_range, Set.mem_prod, Set.mem_Iio] at there there'
  simp only [deepParts, List.take_succ_cons, List.cons.injEq] at same
  have lengths := congrArg List.length same.2
  simp only [List.length_take, List.length_replicate] at lengths
  rw [Prod.mk.injEq]
  exact ⟨numbered i (by omega) j (by omega) same.1, by omega⟩

end Deep

/-- The digests of the archive with one file, and of the one with 158 files. -/
def flatDigest : String := "3f82fa96384243b3af280331553935c4b0f58a706675e2bc68bcf0fad97112e4"

def deepDigest : String := "48b1efed2dfda989810a14907fa149ac6919b10316b659fdb48fc75bb3898e15"

/-- Text of no float, and the digests of the archives. -/
def deepEncoding (digest : String) : Encoding where
  floatText := fun _ => none
  sha256 := deepHash digest

/-- **One deep file is materialized** by a file system that takes names of 255 bytes. -/
theorem admitted_materializes_deep :
    (materialize (deepEncoding flatDigest) (deepHash flatDigest) (deepReader 1) 255 (deepArchive 1)
      (deepDefinition 1 flatDigest)).isOk = true := by
  have accepted := @accepted_deepArchive 1 flatDigest one_pos (by decide)
    (isSha256_ofList rfl (by decide))
  refine (admitted_materializes (deepEncoding flatDigest) 255 accepted).1.mpr ⟨?_, ?_, ?_⟩
  · change (entries (deepFiles 1)).card ≤ _
    rw [card_entries_deepFiles (by decide)]
    decide
  · intro file there part among
    have ⟨i, below, same⟩ := mem_deepFiles.mp there
    obtain rfl : i = 0 := by omega
    rw [← same, pathParts_deepPath (by decide)] at among
    rcases List.mem_cons.mp among with rfl | later
    · decide +kernel
    · rw [List.eq_of_mem_replicate later]
      decide +kernel
  · rw [deepReader, if_pos rfl]
    simp

/-- **A tree with too many directories is refused.**  The definition is admitted and the archive is
accepted, and 158 files below 126 directories each are 20066 entries. -/
theorem deep_trees_refused :
    (deepDefinition 158 deepDigest).validate = .ok () ∧
      (deepDefinition 158 deepDigest).manifestBudget = true ∧
      verifyDataStream (deepReader 158) (deepHash deepDigest) (deepArchive 158)
        (deepDefinition 158 deepDigest) = .ok () ∧
      (materialize (deepEncoding deepDigest) (deepHash deepDigest) (deepReader 158) 255
        (deepArchive 158) (deepDefinition 158 deepDigest)).isOk = false := by
  have digest : isSha256 deepDigest = true := isSha256_ofList rfl (by decide)
  have accepted := accepted_deepArchive (by decide : 0 < 158) le_rfl digest
  refine ⟨validate_deepDefinition (by decide) le_rfl digest,
    manifestBudget_deepDefinition le_rfl digest, accepted, ?_⟩
  refine Bool.eq_false_iff.mpr fun made => ?_
  have ⟨fits, _⟩ := (isOk_materialize (deepEncoding deepDigest) 255 accepted).mp made
  change (entries (deepFiles 158)).card ≤ _ at fits
  rw [card_entries_deepFiles le_rfl] at fits
  exact absurd fits (by decide)

end Datasets

end ExperimentControl
