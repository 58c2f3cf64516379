import ExperimentControl.Datasets.Materialization

/-!
# Archives that are checked as they come in

`verify_members` of `io/src/artifacts.rs` checks the members of an archive while its bytes are read.
The reader of archives is a parameter: a machine that goes on with each byte, so that it cannot tell
where one read ends and the next begins.

* `Tar` — the reader of archives, and the events it gives.
* `Proofs.check` — one event of `verify_members`: the header of a member before its content.
* `membersOf`, `Tar.unpack` — the members that the events of an input make.
* `foldlM_check` — the events are accepted exactly when the members are.
* `Holds` — an archive that holds exactly the declared files.
* `verifyDataStream_eq_ok` — what `verifyDataStream` accepts.
-/

namespace ExperimentControl

namespace Datasets

open Artifacts (FileReceipt)

/-! ## The reader of archives -/

/-- What the reader of archives comes to: a header, content of its member, the end of the member, or
something that cannot be read. -/
inductive Event
  | row (regular : Bool) (path : Option String) (size : ℕ)
  | content (byte : UInt8)
  | closed
  | failed

structure Tar where
  State : Type
  start : State
  step : State → UInt8 → State × List Event
  finish : State → List Event

namespace Tar

variable (tar : Tar)

def run (state : tar.State) : Bytes → tar.State × List Event
  | [] => (state, [])
  | byte :: rest =>
      let next := tar.step state byte
      let others := run next.1 rest
      (others.1, next.2 ++ others.2)

/-- All that the reader comes to in an input. -/
def events (input : Bytes) : List Event :=
  let whole := tar.run tar.start input
  whole.2 ++ tar.finish whole.1

lemma run_cons (state : tar.State) (byte : UInt8) (rest : Bytes) :
    tar.run state (byte :: rest) =
      ((tar.run (tar.step state byte).1 rest).1,
        (tar.step state byte).2 ++ (tar.run (tar.step state byte).1 rest).2) := rfl

/-- The reader does not tell the pieces of its input apart. -/
lemma run_append (state : tar.State) (first second : Bytes) :
    tar.run state (first ++ second) =
      ((tar.run (tar.run state first).1 second).1,
        (tar.run state first).2 ++ (tar.run (tar.run state first).1 second).2) := by
  induction first generalizing state with
  | nil => rfl
  | cons byte first ih =>
    simp only [List.cons_append, run_cons, ih, List.append_assoc]

end Tar

/-! ## Members -/

/-- The members that some events make, behind the member that is read. -/
def membersOf : Option Member → List Event → List (Option Member)
  | none, [] => []
  | none, .row regular path size :: events => membersOf (some ⟨regular, path, size, []⟩) events
  | some member, .content byte :: events =>
      membersOf (some { member with content := member.content ++ [byte] }) events
  | some member, .closed :: events => some member :: membersOf none events
  | _, _ => [none]

/-- The archive in an input. -/
def Tar.unpack (tar : Tar) (input : Bytes) : Unpacked := ⟨membersOf none (tar.events input), []⟩

/-! ## Checks -/

/-- The paths that are proved, and the file that is read with what there is of it. -/
structure Proofs where
  paths : List String
  opened : Option (FileReceipt × Bytes)

namespace Proofs

variable (sha256 : Bytes → String) (files : List FileReceipt)

/-- The header of a member. -/
def openRow (proofs : Proofs) (regular : Bool) (path : Option String) (size : ℕ) :
    Except Error Proofs :=
  match path with
  | none => .error .invalid
  | some path =>
      match files.find? fun file => file.path = path with
      | none => .error .invalid
      | some expected => do
          reject (¬regular ∨ path ∈ proofs.paths ∨ size ≠ expected.bytes.toNat) .invalid
          .ok { proofs with opened := some (expected, []) }

/-- The end of a member. -/
def closeRow (proofs : Proofs) (expected : FileReceipt) (content : Bytes) : Except Error Proofs := do
  reject (sha256 content ≠ expected.sha256 ∨ content.length ≠ expected.bytes.toNat) .invalid
  .ok ⟨expected.path :: proofs.paths, none⟩

def check (proofs : Proofs) (event : Event) : Except Error Proofs :=
  match proofs.opened, event with
  | none, .row regular path size => openRow files proofs regular path size
  | some (expected, content), .content byte =>
      .ok { proofs with opened := some (expected, content ++ [byte]) }
  | some (expected, content), .closed => closeRow sha256 proofs expected content
  | _, _ => .error .invalid

/-- The proofs at the end of the archive. -/
def close (proofs : Proofs) : Except Error (List String) :=
  if proofs.opened.isNone then .ok proofs.paths else .error .invalid

end Proofs

/-- A header that is refused makes a member that is refused. -/
lemma foldlM_membersOf_refused {sha256 : Bytes → String} {files : List FileReceipt}
    {proofs seen : List String} : ∀ {events : List Event} {member : Member},
      (∀ content, ∀ seen, verifyMember sha256 files proofs (some { member with content := content }) ≠
        .ok seen) →
      (membersOf (some member) events).foldlM (verifyMember sha256 files) proofs ≠ .ok seen := by
  intro events
  have hnone : ([none] : List (Option Member)).foldlM (verifyMember sha256 files) proofs ≠ .ok seen := by
    intro h
    cases h
  induction events with
  | nil => exact fun _ => hnone
  | cons event events ih =>
    intro member hrefused
    cases event with
    | row regular path size => exact hnone
    | content byte => exact ih hrefused
    | closed =>
      intro h
      obtain ⟨next, hnext, -⟩ := foldlM_cons_eq_ok.mp h
      exact hrefused member.content next hnext
    | failed => exact hnone

namespace Proofs

variable {sha256 : Bytes → String} {files : List FileReceipt} {proofs : Proofs} {seen : List String}

/-- The member that is read. -/
def member (proofs : Proofs) : Option Member :=
  proofs.opened.map fun opened => ⟨true, some opened.1.path, opened.1.bytes.toNat, opened.2⟩

/-- The file that is read is declared, and not proved yet. -/
def Opened (files : List FileReceipt) (proofs : Proofs) : Prop :=
  ∀ opened ∈ proofs.opened,
    files.find? (fun file => file.path = opened.1.path) = some opened.1 ∧
      opened.1.path ∉ proofs.paths

lemma openRow_eq_ok {regular : Bool} {path : Option String} {size : ℕ} {next : Proofs} :
    openRow files proofs regular path size = .ok next ↔
      ∃ expected, regular = true ∧ path = some expected.path ∧ size = expected.bytes.toNat ∧
        files.find? (fun file => file.path = expected.path) = some expected ∧
        expected.path ∉ proofs.paths ∧ next = ⟨proofs.paths, some (expected, [])⟩ := by
  constructor
  · intro h
    unfold openRow at h
    split at h
    · cases h
    · rename_i path
      split at h
      · cases h
      · rename_i expected hfound
        simp only [bind_eq_ok, reject_eq_ok, not_or, not_not, Except.ok.injEq] at h
        obtain ⟨_, ⟨hregular, hnew, hsize⟩, rfl⟩ := h
        have hnamed : expected.path = path := by simpa using List.find?_some hfound
        subst hnamed
        exact ⟨expected, hregular, rfl, hsize, hfound, hnew, rfl⟩
  · rintro ⟨expected, rfl, rfl, rfl, hfound, hnew, rfl⟩
    simp [openRow, hfound, bind_eq_ok, reject_eq_ok, hnew]

lemma closeRow_eq_ok {expected : FileReceipt} {content : Bytes} {next : Proofs} :
    closeRow sha256 proofs expected content = .ok next ↔
      sha256 content = expected.sha256 ∧ content.length = expected.bytes.toNat ∧
        next = ⟨expected.path :: proofs.paths, none⟩ := by
  simp only [closeRow, bind_eq_ok, reject_eq_ok, not_or, not_not, Except.ok.injEq]
  constructor
  · rintro ⟨_, ⟨hdigest, hlength⟩, rfl⟩
    exact ⟨hdigest, hlength, rfl⟩
  · rintro ⟨hdigest, hlength, rfl⟩
    exact ⟨(), ⟨hdigest, hlength⟩, rfl⟩

/-- A header is refused where every member with it is. -/
lemma verifyMember_of_openRow {regular : Bool} {path : Option String} {size : ℕ} {content : Bytes}
    (h : verifyMember sha256 files proofs.paths (some ⟨regular, path, size, content⟩) = .ok seen) :
    ∃ next, openRow files proofs regular path size = .ok next := by
  obtain ⟨record, hmember, htaken, hnew, -⟩ := verifyMember_eq_ok.mp h
  have hsame := Option.some.inj hmember
  rw [Member.mk.injEq] at hsame
  obtain ⟨hregular, hpath, hsize, -⟩ := hsame
  exact ⟨_, openRow_eq_ok.mpr ⟨record.1, hregular, hpath, hsize, htaken.found, hnew, rfl⟩⟩

/-- The end of a member is accepted exactly when the member is. -/
lemma verifyMember_of_closeRow {expected : FileReceipt} {content : Bytes}
    (hfound : files.find? (fun file => file.path = expected.path) = some expected)
    (hnew : expected.path ∉ proofs.paths) :
    verifyMember sha256 files proofs.paths
        (some ⟨true, some expected.path, expected.bytes.toNat, content⟩) = .ok seen ↔
      closeRow sha256 proofs expected content = .ok ⟨seen, none⟩ := by
  rw [closeRow_eq_ok, verifyMember_eq_ok]
  constructor
  · rintro ⟨record, hmember, htaken, -, rfl⟩
    have hsame := Option.some.inj hmember
    rw [Member.mk.injEq, Option.some.injEq] at hsame
    obtain ⟨-, hpath, -, hcontent⟩ := hsame
    have hrecord : expected = record.1 := by
      have hother := htaken.found
      rw [← hpath, hfound] at hother
      exact Option.some.inj hother
    rw [hrecord, hcontent]
    exact ⟨htaken.digest, htaken.length, rfl⟩
  · rintro ⟨hdigest, hlength, hnext⟩
    exact ⟨(expected, content), rfl, ⟨hfound, hdigest, hlength⟩, hnew, (Proofs.mk.inj hnext).1⟩

/-- **The events of an archive are accepted exactly when its members are.** -/
theorem foldlM_check {events : List Event} (hopened : proofs.Opened files) :
    (events.foldlM (check sha256 files) proofs >>= close) = .ok seen ↔
      (membersOf proofs.member events).foldlM (verifyMember sha256 files) proofs.paths = .ok seen := by
  induction events generalizing proofs with
  | nil =>
    obtain ⟨paths, opened⟩ := proofs
    cases opened with
    | none => exact Iff.rfl
    | some opened => exact ⟨fun h => (by cases h), fun h => (by cases h)⟩
  | cons event events ih =>
    have hbind : ((event :: events).foldlM (check sha256 files) proofs >>= close) = .ok seen ↔
        ∃ next, check sha256 files proofs event = .ok next ∧
          (events.foldlM (check sha256 files) next >>= close) = .ok seen := by
      rw [List.foldlM_cons, bind_assoc, bind_eq_ok]
    rw [hbind]
    obtain ⟨paths, opened⟩ := proofs
    cases opened with
    | none =>
      cases event with
      | row regular path size =>
        constructor
        · rintro ⟨next, hnext, hrest⟩
          obtain ⟨expected, rfl, rfl, rfl, hfound, hnew, rfl⟩ := openRow_eq_ok.mp hnext
          refine (ih ?_).mp hrest
          rintro opened hopen
          cases hopen
          exact ⟨hfound, hnew⟩
        · intro h
          by_contra hnone
          refine foldlM_membersOf_refused (fun content seen hmember => hnone ?_) h
          obtain ⟨next, hnext⟩ := @verifyMember_of_openRow sha256 files ⟨paths, none⟩ _ _ _ _ _ hmember
          refine ⟨next, hnext, ?_⟩
          obtain ⟨expected, rfl, rfl, rfl, hfound, hnew, rfl⟩ := openRow_eq_ok.mp hnext
          refine (ih ?_).mpr h
          rintro opened hopen
          cases hopen
          exact ⟨hfound, hnew⟩
      | content byte => exact ⟨fun ⟨_, h, _⟩ => (by cases h), fun h => (by cases h)⟩
      | closed => exact ⟨fun ⟨_, h, _⟩ => (by cases h), fun h => (by cases h)⟩
      | failed => exact ⟨fun ⟨_, h, _⟩ => (by cases h), fun h => (by cases h)⟩
    | some opened =>
      obtain ⟨expected, content⟩ := opened
      obtain ⟨hfound, hnew⟩ := hopened _ rfl
      cases event with
      | row regular path size => exact ⟨fun ⟨_, h, _⟩ => (by cases h), fun h => (by cases h)⟩
      | content byte =>
        have hnext : Opened files ⟨paths, some (expected, content ++ [byte])⟩ := by
          rintro opened hopen
          cases hopen
          exact ⟨hfound, hnew⟩
        constructor
        · rintro ⟨next, hcheck, hrest⟩
          cases hcheck
          exact (ih hnext).mp hrest
        · exact fun h => ⟨_, rfl, (ih hnext).mpr h⟩
      | closed =>
        have hclosed : ∀ paths, Opened files ⟨paths, none⟩ := fun _ _ hopen => by cases hopen
        constructor
        · rintro ⟨next, hclose, hrest⟩
          obtain ⟨-, -, rfl⟩ := closeRow_eq_ok.mp hclose
          exact foldlM_cons_eq_ok.mpr ⟨_, (verifyMember_of_closeRow hfound hnew).mpr hclose,
            (ih (hclosed _)).mp hrest⟩
        · intro h
          obtain ⟨next, hmember, hrest⟩ := foldlM_cons_eq_ok.mp h
          exact ⟨_, (verifyMember_of_closeRow hfound hnew).mp hmember, (ih (hclosed _)).mpr hrest⟩
      | failed => exact ⟨fun ⟨_, h, _⟩ => (by cases h), fun h => (by cases h)⟩

end Proofs

/-! ## What is accepted -/

/-- An archive that holds exactly the declared files: each of its members is a regular file that can be
read, and their paths, sizes and digests are the declared ones. -/
def Holds (sha256 : Bytes → String) (files : List FileReceipt) (members : List (Option Member)) :
    Prop :=
  ∃ held : List Member, members = held.map some ∧ (∀ member ∈ held, member.regular = true) ∧
    (held.map fun member => (member.path, member.size, member.content.length,
      sha256 member.content)).Perm
      (files.map fun file => (some file.path, file.bytes.toNat, file.bytes.toNat, file.sha256))

section Acceptance

variable {sha256 : Bytes → String} {files : List FileReceipt}

lemma holds_of_covers {records : List (FileReceipt × Bytes)}
    (htaken : ∀ record ∈ records, Taken sha256 files record) (hcovers : Covers records files) :
    Holds sha256 files (records.map fileMember) := by
  refine ⟨records.map fun record => ⟨true, some record.1.path, record.1.bytes.toNat, record.2⟩,
    by rw [List.map_map]; rfl, ?_, ?_⟩
  · intro member hmember
    obtain ⟨record, -, rfl⟩ := List.mem_map.mp hmember
    rfl
  · rw [List.map_map]
    have hrows : records.map ((fun member : Member => (member.path, member.size,
        member.content.length, sha256 member.content)) ∘
        fun record => ⟨true, some record.1.path, record.1.bytes.toNat, record.2⟩) =
        (records.map Prod.fst).map fun file : FileReceipt =>
          (some file.path, file.bytes.toNat, file.bytes.toNat, file.sha256) := by
      rw [List.map_map]
      refine List.map_congr_left fun record hrecord => ?_
      simp only [Function.comp_apply, (htaken record hrecord).length, (htaken record hrecord).digest]
    rw [hrows]
    exact hcovers.map _

/-- The members of an archive that holds the declared files are those files with their contents. -/
lemma exists_records (hlisting : Listing files) {members : List (Option Member)}
    (h : Holds sha256 files members) : ∃ records : List (FileReceipt × Bytes),
      members = records.map fileMember ∧ (∀ record ∈ records, Taken sha256 files record) ∧
        (records.map fun record => record.1.path).Nodup ∧ records.length = files.length := by
  obtain ⟨held, rfl, hregular, hperm⟩ := h
  have hrow : ∀ member ∈ held, ∃ file ∈ files, member = ⟨true, some file.path, file.bytes.toNat,
      member.content⟩ ∧ member.content.length = file.bytes.toNat ∧
      sha256 member.content = file.sha256 := by
    intro member hmember
    obtain ⟨file, hfile, hsame⟩ := List.mem_map.mp (hperm.subset (List.mem_map_of_mem hmember))
    simp only [Prod.mk.injEq] at hsame
    obtain ⟨hpath, hsize, hlength, hdigest⟩ := hsame
    refine ⟨file, hfile, ?_, hlength.symm, hdigest.symm⟩
    rw [Member.mk.injEq]
    exact ⟨hregular member hmember, hpath.symm, hsize.symm, rfl⟩
  have : Nonempty FileReceipt := ⟨⟨"", 0, ""⟩⟩
  choose! fileOf hfileOf using hrow
  refine ⟨held.map fun member => (fileOf member, member.content), ?_, ?_, ?_, ?_⟩
  · rw [List.map_map]
    refine List.map_congr_left fun member hmember => ?_
    exact congrArg some (hfileOf member hmember).2.1
  · intro record hrecord
    obtain ⟨member, hmember, rfl⟩ := List.mem_map.mp hrecord
    obtain ⟨hfile, -, hlength, hdigest⟩ := hfileOf member hmember
    exact ⟨hlisting.find_eq hfile, hdigest, hlength⟩
  · have hpaths : (held.map fun member => member.path).Perm (files.map fun file => some file.path) := by
      have hfirst := hperm.map Prod.fst
      rwa [List.map_map, List.map_map] at hfirst
    have hnodup : (files.map fun file => some file.path).Nodup := by
      have hsome := hlisting.nodup_paths.map (Option.some_injective _)
      rwa [List.map_map] at hsome
    refine List.Nodup.of_map some ?_
    rw [List.map_map, List.map_map]
    have hsame : held.map ((some ∘ fun record : FileReceipt × Bytes => record.1.path) ∘
        fun member => (fileOf member, member.content)) = held.map fun member => member.path :=
      List.map_congr_left fun member hmember => (congrArg Member.path (hfileOf member hmember).2.1).symm
    rw [hsame]
    exact hpaths.nodup_iff.mpr hnodup
  · rw [List.length_map]
    simpa using hperm.length_eq

variable {tar : Bytes → Unpacked} {stream : Bytes} {definition : Definition}

/-- A definition that is admitted tells its parts, and its archive is far shorter than a machine word
could count. -/
lemma partCount_of_validate (hvalid : definition.validate = .ok ()) :
    ∃ count, partCount definition.archiveBytes.toNat = .ok count := by
  unfold Definition.validate at hvalid
  simp only [bind_eq_ok] at hvalid
  obtain ⟨_, _, count, hcount, _⟩ := hvalid
  exact ⟨count, hcount⟩

lemma partCount_eq_ok {size count : ℕ} : partCount size = .ok count ↔
    size ≠ 0 ∧ count = (size + 16777215) / 16777216 ∧ count ≤ 65536 := by
  have hceil : (size + PART_BYTES - 1) / PART_BYTES = (size + 16777215) / 16777216 := by
    unfold PART_BYTES
    omega
  have hlimit : MAX_PARTS = 65536 := rfl
  unfold partCount
  simp only [bind_eq_ok, reject_eq_ok, gt_iff_lt, not_lt, Except.ok.injEq, hceil, hlimit]
  constructor
  · rintro ⟨_, hsome, _, hfew, rfl⟩
    exact ⟨hsome, rfl, hfew⟩
  · rintro ⟨hsome, rfl, hfew⟩
    exact ⟨(), hsome, (), hfew, rfl⟩

lemma not_le_of_validate (hvalid : definition.validate = .ok ()) :
    ¬2 ^ 64 ≤ definition.archiveBytes.toNat + 1 := by
  obtain ⟨count, hcount⟩ := partCount_of_validate hvalid
  obtain ⟨-, hcount, hlimit⟩ := partCount_eq_ok.mp hcount
  omega

/-- **What is accepted**: an archive of the length and the digest of its definition, which holds exactly
the declared files. -/
theorem verifyDataStream_eq_ok (hvalid : definition.validate = .ok ()) :
    verifyDataStream tar sha256 stream definition = .ok () ↔
      stream.length = definition.archiveBytes.toNat ∧ sha256 stream = definition.sha256 ∧
        Holds sha256 definition.files (tar stream).members := by
  have hlisting := listing_of_validate hvalid
  constructor
  · intro h
    obtain ⟨-, records, hmembers, htaken, -, hcovers⟩ := accepted_records h
    simp only [verifyDataStream, bind_eq_ok, reject_eq_ok, not_or, not_not] at h
    obtain ⟨_, _, _, _, _, _, hdigest, hlength, _⟩ := h
    have hwhole : stream.take (definition.archiveBytes.toNat + 1) = stream := by
      rw [List.length_take] at hlength
      exact List.take_of_length_le (by omega)
    rw [hwhole] at hdigest hlength
    exact ⟨hlength, hdigest, hmembers ▸ holds_of_covers htaken hcovers⟩
  · rintro ⟨hlength, hdigest, hholds⟩
    obtain ⟨records, hmembers, htaken, hnodup, hcount⟩ := exists_records hlisting hholds
    have hwhole : stream.take (definition.archiveBytes.toNat + 1) = stream :=
      List.take_of_length_le (by omega)
    have hproofs := @foldlM_verifyMember_ok _ _ _ [] htaken hnodup fun _ _ => List.not_mem_nil
    simp only [verifyDataStream, hwhole, hmembers, bind_eq_ok, reject_eq_ok, not_or, not_not]
    refine ⟨(), hvalid, (), not_le_of_validate hvalid, _, hproofs, hdigest, hlength, ?_⟩
    simpa using hcount

end Acceptance

end Datasets

end ExperimentControl
