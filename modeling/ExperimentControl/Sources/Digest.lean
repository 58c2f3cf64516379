import ExperimentControl.Sources.Tree

/-!
# Tree digests

`TreeDigest` of `core/src/sources.rs` hashes an accepted plan entry by entry and each file frame by
frame, every field behind its length.  The hash function is a parameter: `sha256` maps the bytes a
digest has absorbed to 32 bytes.

* `TreeDigest.new`, `nextChunk`, `consume`, `finish`, `treeSourceId` — the code.
* **`treeSourceId_eq`** — driving the digest over exact frames hashes the framed fields of the
  entries in plan order, and never fails.
* `Waiting` — what is still to be hashed between two frames.
-/

namespace ExperimentControl

namespace Sources

/-! ## The digest state machine -/

structure ChunkRequest where
  path : String
  offset : ℕ
  len : ℕ
  deriving DecidableEq, Repr

/-- The hashing state.  `digest` holds the bytes given to SHA-256 so far. -/
structure TreeDigest where
  plan : TreePlan
  index : ℕ
  offset : ℕ
  digest : Bytes
  deriving DecidableEq, Repr

/-- `field`: the length in eight bytes, then the value. -/
def field (digest value : Bytes) : Bytes := digest ++ framed 8 value

/-- The loop of `advance_headers` over the entries that are left. -/
def advanceHeaders : List TreeEntry → ℕ → Bytes → ℕ × Bytes
  | [], index, digest => (index, digest)
  | ⟨path, .directory⟩ :: rest, index, digest =>
      advanceHeaders rest (index + 1) (field (field digest (utf8 "D")) (utf8 path))
  | ⟨path, .file size executable⟩ :: rest, index, digest =>
      let digest := field (field (field digest (utf8 "F")) (utf8 path))
        (utf8 (if executable then "X" else "-"))
      if size > 0 then (index, digest) else advanceHeaders rest (index + 1) digest

def TreeDigest.advance (state : TreeDigest) : TreeDigest :=
  let (index, digest) :=
    advanceHeaders (state.plan.entries.drop state.index) state.index state.digest
  { state with index, digest }

def TreeDigest.new (plan : TreePlan) : TreeDigest :=
  TreeDigest.advance { plan, index := 0, offset := 0, digest := [] }

def TreeDigest.nextChunk (state : TreeDigest) : Option ChunkRequest :=
  match state.plan.entries[state.index]? with
  | some ⟨path, .file size _⟩ =>
      some { path, offset := state.offset, len := min (size - state.offset) chunkBytes }
  | _ => none

def TreeDigest.consume (state : TreeDigest) (bytes : Bytes) : Except Error TreeDigest := do
  match state.nextChunk with
  | none => .error .chunk
  | some expected => do
      reject (bytes.length ≠ expected.len) .chunk
      let state : TreeDigest :=
        { state with digest := field state.digest bytes, offset := state.offset + bytes.length }
      match state.plan.entries[state.index]? with
      | some ⟨_, .file size _⟩ =>
          if state.offset = size then
            .ok (TreeDigest.advance { state with index := state.index + 1, offset := 0 })
          else
            .ok state
      | _ => .error .topology

/-- `{:x}` of a digest. -/
def digestHex (digest : Vector UInt8 32) : String := String.ofList (lowerHex digest.toList)

def TreeDigest.finish (sha256 : Bytes → Vector UInt8 32) (state : TreeDigest) :
    Except Error String := do
  reject (state.index ≠ state.plan.entries.length) .incomplete
  .ok ("sha256:" ++ digestHex (sha256 state.digest))

/-- `str::strip_prefix`. -/
def stripPrefix (text start : String) : Option String :=
  if start.toList <+: text.toList then some (String.ofList (text.toList.drop start.length))
  else none

def validateArchiveDigest (value : String) : Except Error Unit :=
  reject ((utf8 value).length ≠ 64 ∨
    ¬value.toList.all fun c => ('0' ≤ c ∧ c ≤ '9') ∨ ('a' ≤ c ∧ c ≤ 'f')) .identity

def sourceId (treeDigest : String) : Except Error String :=
  match stripPrefix treeDigest "sha256:" with
  | none => .error .identity
  | some value => do
      validateArchiveDigest value
      .ok ("source." ++ value)

/-- What reading a tree can fail with. -/
inductive IoError
  | read
  | other (error : Error)
  deriving DecidableEq, Repr

/-- The loop of `tree_source_id`.  Every turn hashes at least one byte (`drive_exact`). -/
def drive (frame : String → ℕ → ℕ → Except IoError Bytes) :
    ℕ → TreeDigest → Except IoError TreeDigest
  | 0, digest => .ok digest
  | fuel + 1, digest =>
      match digest.nextChunk with
      | none => .ok digest
      | some request => do
          let bytes ← frame request.path request.offset request.len
          let digest ← (digest.consume bytes).mapError .other
          drive frame fuel digest

/-- **`tree_source_id`**: the source identity of a tree, given a way to read each exact frame. -/
def treeSourceId (sha256 : Bytes → Vector UInt8 32) (plan : TreePlan)
    (frame : String → ℕ → ℕ → Except IoError Bytes) : Except IoError String := do
  let digest ← drive frame plan.bytes (TreeDigest.new plan)
  let treeDigest ← (digest.finish sha256).mapError .other
  (sourceId treeDigest).mapError .other

/-! ## Trees and their fields -/

inductive Node
  | directory
  | file (content : Bytes) (executable : Bool)
  deriving DecidableEq, Repr

/-- An entry of a tree with its content. -/
structure Observed where
  path : String
  node : Node
  deriving DecidableEq, Repr

/-- What the planner sees of an entry. -/
def Observed.entry : Observed → TreeEntry
  | ⟨path, .directory⟩ => ⟨path, .directory⟩
  | ⟨path, .file content executable⟩ => ⟨path, .file content.length executable⟩

/-- The content of a tree at a path. -/
def contentAt (tree : List Observed) (path : String) : Bytes :=
  match tree.find? (·.path = path) with
  | some ⟨_, .file content _⟩ => content
  | _ => []

/-- An exact reader of a tree: it answers with the requested frame of a file. -/
def frameOf (tree : List Observed) (path : String) (offset len : ℕ) : Except IoError Bytes :=
  match tree.find? (·.path = path) with
  | some ⟨_, .file content _⟩ => .ok ((content.drop offset).take len)
  | _ => .error .read

/-- **The source id of a tree**: plan its topology and drive the digest over its own frames. -/
def identify (sha256 : Bytes → Vector UInt8 32) (policy : Policy) (tree : List Observed) :
    Except IoError String := do
  let plan ← (TreePlan.new (tree.map Observed.entry) policy).mapError .other
  treeSourceId sha256 plan (frameOf tree)

/-- The tag an entry starts with. -/
def Observed.tag : Observed → Bytes
  | ⟨_, .directory⟩ => utf8 "D"
  | ⟨_, .file _ _⟩ => utf8 "F"

/-- The fields after the tag: the path, and for a file its flag and its frames. -/
def Observed.body : Observed → List Bytes
  | ⟨path, .directory⟩ => [utf8 path]
  | ⟨path, .file content executable⟩ =>
      utf8 path :: utf8 (if executable then "X" else "-") :: blocks chunkBytes content

def Observed.fields (e : Observed) : List Bytes := e.tag :: e.body

/-- A planned entry with its content put back. -/
def restore (content : String → Bytes) : TreeEntry → Observed
  | ⟨path, .directory⟩ => ⟨path, .directory⟩
  | ⟨path, .file _ executable⟩ => ⟨path, .file (content path) executable⟩

/-- The tree in the order in which it is hashed. -/
def listed (plan : TreePlan) (content : String → Bytes) : List Observed :=
  plan.entries.map (restore content)

/-- The bytes hashed for a listing. -/
def stream (listing : List Observed) : Bytes :=
  (listing.flatMap Observed.fields).flatMap (framed 8)

/-! ## Driving the digest -/

/-- The reader answers every frame of the plan's files with their content. -/
structure Exact (plan : TreePlan) (content : String → Bytes)
    (frame : String → ℕ → ℕ → Except IoError Bytes) : Prop where
  size : ∀ {path size executable}, ⟨path, .file size executable⟩ ∈ plan.entries →
    (content path).length = size
  read : ∀ {path size executable}, ⟨path, .file size executable⟩ ∈ plan.entries →
    ∀ offset len, frame path offset len = .ok (((content path).drop offset).take len)

/-- **Between two frames.**  The state either waits for the next frame of a file that has bytes
left, or is past the last entry; `todo` are the fields that are still to be hashed. -/
inductive Waiting (content : String → Bytes) : TreeDigest → List Bytes → Prop
  | done {state : TreeDigest} (h : state.index = state.plan.entries.length) :
      Waiting content state []
  | file {state : TreeDigest} {path : String} {size : ℕ} {executable : Bool}
      {rest : List TreeEntry}
      (hdrop : state.plan.entries.drop state.index = ⟨path, .file size executable⟩ :: rest)
      (hoffset : state.offset < size) :
      Waiting content state (blocks chunkBytes ((content path).drop state.offset) ++
        (rest.map (restore content)).flatMap Observed.fields)

/-- The bytes that are still to be read. -/
def remaining (state : TreeDigest) : ℕ :=
  ((state.plan.entries.drop state.index).map (·.kind.size)).sum - state.offset

lemma chunkBytes_pos : 0 < chunkBytes := by decide

lemma field_eq (digest value : Bytes) : field digest value = digest ++ [value].flatMap (framed 8) := by
  simp [field]

/-- Headers are hashed up to the next frame, and the bytes to be read stay the same. -/
lemma advanceHeaders_spec (content : String → Bytes) (state : TreeDigest)
    (hoffset : state.offset = 0)
    (hsize : ∀ {path size executable}, ⟨path, .file size executable⟩ ∈ state.plan.entries →
      (content path).length = size) :
    ∀ (rest : List TreeEntry) (index : ℕ) (digest : Bytes),
      state.plan.entries.drop index = rest → index ≤ state.plan.entries.length →
      ∃ todo, Waiting content
          { state with index := (advanceHeaders rest index digest).1,
                       digest := (advanceHeaders rest index digest).2 } todo ∧
        (advanceHeaders rest index digest).2 ++ todo.flatMap (framed 8) =
          digest ++ stream (rest.map (restore content)) ∧
        remaining { state with index := (advanceHeaders rest index digest).1,
                               digest := (advanceHeaders rest index digest).2 } ≤
          (rest.map (·.kind.size)).sum
  | [], index, digest, hdrop, hle => by
      have hlen : index = state.plan.entries.length := by
        have := List.drop_eq_nil_iff.mp hdrop
        omega
      refine ⟨[], .done (by simpa [advanceHeaders] using hlen), by simp [advanceHeaders, stream], ?_⟩
      simp [advanceHeaders, remaining, hlen]
  | ⟨path, .directory⟩ :: rest, index, digest, hdrop, hle => by
      have hlt : index < state.plan.entries.length := by
        by_contra hge
        simp [List.drop_eq_nil_of_le (Nat.le_of_not_lt hge)] at hdrop
      have hdrop' : state.plan.entries.drop (index + 1) = rest := by
        rw [← List.drop_drop, hdrop]
        rfl
      obtain ⟨todo, hwait, hstream, hrem⟩ := advanceHeaders_spec content state hoffset hsize rest
        (index + 1) (field (field digest (utf8 "D")) (utf8 path)) hdrop' hlt
      refine ⟨todo, hwait, ?_, by simpa [advanceHeaders, TreeKind.size] using hrem⟩
      rw [advanceHeaders, hstream]
      simp [field_eq, stream, restore, Observed.fields, Observed.tag, Observed.body]
  | ⟨path, .file size executable⟩ :: rest, index, digest, hdrop, hle => by
      have hlt : index < state.plan.entries.length := by
        by_contra hge
        simp [List.drop_eq_nil_of_le (Nat.le_of_not_lt hge)] at hdrop
      have hdrop' : state.plan.entries.drop (index + 1) = rest := by
        rw [← List.drop_drop, hdrop]
        rfl
      have hmem : ⟨path, .file size executable⟩ ∈ state.plan.entries := by
        have hmem' : ⟨path, .file size executable⟩ ∈ state.plan.entries.drop index := by
          simp [hdrop]
        exact List.mem_of_mem_drop hmem'
      have hlen := hsize hmem
      by_cases hpos : size > 0
      · simp only [advanceHeaders, hpos, if_true]
        refine ⟨_, .file hdrop (by simpa [hoffset] using hpos), ?_, ?_⟩
        · simp [field_eq, stream, restore, Observed.fields, Observed.tag, Observed.body, hoffset]
        · simp [remaining, hdrop]
      · have hnil : content path = [] := List.length_eq_zero_iff.mp (by omega)
        simp only [advanceHeaders, hpos, if_false]
        obtain ⟨todo, hwait, hstream, hrem⟩ := advanceHeaders_spec content state hoffset hsize rest
          (index + 1) (field (field (field digest (utf8 "F")) (utf8 path))
            (utf8 (if executable then "X" else "-"))) hdrop' hlt
        refine ⟨todo, hwait, ?_, hrem.trans (by simp)⟩
        rw [hstream]
        simp [field_eq, stream, restore, Observed.fields, Observed.tag, Observed.body, hnil]

@[simp] lemma TreeDigest.advance_plan (state : TreeDigest) : state.advance.plan = state.plan := rfl

/-- `advance_headers` stops at the next frame or at the end. -/
lemma TreeDigest.advance_spec {content : String → Bytes} (state : TreeDigest)
    (hoffset : state.offset = 0) (hle : state.index ≤ state.plan.entries.length)
    (hsize : ∀ {path size executable}, ⟨path, .file size executable⟩ ∈ state.plan.entries →
      (content path).length = size) :
    ∃ todo, Waiting content state.advance todo ∧
      state.advance.digest ++ todo.flatMap (framed 8) =
        state.digest ++ stream ((state.plan.entries.drop state.index).map (restore content)) ∧
      remaining state.advance ≤ ((state.plan.entries.drop state.index).map (·.kind.size)).sum :=
  advanceHeaders_spec content state hoffset hsize _ state.index state.digest rfl hle

/-- A frame of the requested length is hashed; the last frame of a file moves on to the next. -/
lemma TreeDigest.consume_eq {state : TreeDigest} {path : String} {size : ℕ} {executable : Bool}
    {bytes : Bytes} (hget : state.plan.entries[state.index]? = some ⟨path, .file size executable⟩)
    (hlen : bytes.length = min (size - state.offset) chunkBytes) :
    state.consume bytes =
      if state.offset + bytes.length = size then
        .ok (TreeDigest.advance { state with
          digest := field state.digest bytes, index := state.index + 1, offset := 0 })
      else
        .ok { state with
          digest := field state.digest bytes, offset := state.offset + bytes.length } := by
  have hnext : state.nextChunk =
      some ⟨path, state.offset, min (size - state.offset) chunkBytes⟩ := by
    simp [TreeDigest.nextChunk, hget]
  have haccept : reject (bytes.length ≠ min (size - state.offset) chunkBytes) Error.chunk =
      .ok () := by
    simp [hlen]
  simp only [TreeDigest.consume, hnext, haccept, hget, bind, Except.bind]

/-- **One frame.**  While a file has bytes left, the requested frame is the next field to be hashed
and `consume` accepts it; otherwise nothing is left to hash. -/
lemma Waiting.step {content : String → Bytes} {frame : String → ℕ → ℕ → Except IoError Bytes}
    {state : TreeDigest} {todo : List Bytes} (hexact : Exact state.plan content frame)
    (h : Waiting content state todo) :
    (state.nextChunk = none ∧ todo = [] ∧ state.index = state.plan.entries.length) ∨
      ∃ request bytes state' todo', state.nextChunk = some request ∧
        frame request.path request.offset request.len = .ok bytes ∧
        state.consume bytes = .ok state' ∧ state'.plan = state.plan ∧
        Waiting content state' todo' ∧
        state'.digest ++ todo'.flatMap (framed 8) = state.digest ++ todo.flatMap (framed 8) ∧
        remaining state' < remaining state := by
  cases h with
  | done h =>
    refine .inl ⟨?_, rfl, h⟩
    simp [TreeDigest.nextChunk, h]
  | @file path size executable rest hdrop hoffset =>
    refine .inr ?_
    have hget : state.plan.entries[state.index]? = some ⟨path, .file size executable⟩ := by
      rw [← List.head?_drop, hdrop]
      rfl
    have hmem := List.mem_of_getElem? hget
    have hlen := hexact.size hmem
    have hrem : ((state.plan.entries.drop state.index).map (·.kind.size)).sum =
        size + (rest.map (·.kind.size)).sum := by
      simp [hdrop, TreeKind.size]
    set block := ((content path).drop state.offset).take chunkBytes with hblock
    have hblocklen : block.length = min (size - state.offset) chunkBytes := by
      simp only [hblock, List.length_take, List.length_drop, hlen]
      exact Nat.min_comm _ _
    have hpos : 0 < block.length := by
      have := chunkBytes_pos
      omega
    have hle : block.length ≤ size - state.offset := by omega
    -- the reader answers the whole rest of a short last frame
    have hread : ((content path).drop state.offset).take (min (size - state.offset) chunkBytes) =
        block := by
      rw [hblock, ← hlen, ← List.length_drop, Nat.min_comm, List.take_eq_take_min]
      simp
    have hblocks : blocks chunkBytes ((content path).drop state.offset) =
        block :: blocks chunkBytes ((content path).drop (state.offset + block.length)) := by
      have hne : (content path).drop state.offset ≠ [] := by
        intro hnil
        have := congrArg List.length hnil
        simp only [List.length_drop, hlen, List.length_nil] at this
        omega
      rw [blocks_of_ne_nil chunkBytes_pos hne, ← hblock, List.drop_drop]
      by_cases hfull : chunkBytes ≤ size - state.offset
      · rw [hblocklen, Nat.min_eq_right hfull]
      · rw [List.drop_eq_nil_of_le (by omega), List.drop_eq_nil_of_le (by omega)]
    have hnext : state.nextChunk =
        some ⟨path, state.offset, min (size - state.offset) chunkBytes⟩ := by
      simp [TreeDigest.nextChunk, hget]
    have hconsume := TreeDigest.consume_eq hget hblocklen
    have hframe := (hexact.read hmem state.offset (min (size - state.offset) chunkBytes)).trans
      (congrArg Except.ok hread)
    have hdrop' : state.plan.entries.drop (state.index + 1) = rest := by
      rw [← List.drop_drop, hdrop]
      rfl
    by_cases hlast : state.offset + block.length = size
    · -- the last frame of the file: the headers up to the next file follow
      rw [if_pos hlast] at hconsume
      have hlt : state.index < state.plan.entries.length := (List.getElem?_eq_some_iff.mp hget).1
      obtain ⟨todo', hwait, hstream, hle'⟩ := TreeDigest.advance_spec
        { state with digest := field state.digest block, index := state.index + 1, offset := 0 }
        rfl hlt hexact.size
      simp only [hdrop'] at hstream hle'
      have hend : (content path).drop (state.offset + block.length) = [] :=
        List.drop_eq_nil_of_le (by omega)
      refine ⟨_, block, _, todo', hnext, hframe, hconsume, rfl, hwait, ?_, ?_⟩
      · rw [hstream, hblocks, hend]
        simp [field_eq, stream]
      · have hrem' : remaining state = size + (rest.map (·.kind.size)).sum - state.offset := by
          rw [remaining, hrem]
        omega
    · rw [if_neg hlast] at hconsume
      refine ⟨_, block, _, _, hnext, hframe, hconsume, rfl, .file hdrop (by simp only; omega), ?_, ?_⟩
      · rw [hblocks]
        simp [field_eq]
      · simp only [remaining, hrem]
        omega

/-- **The driving loop** ends after the last frame with every field hashed. -/
lemma drive_exact {content : String → Bytes} {frame : String → ℕ → ℕ → Except IoError Bytes} :
    ∀ (fuel : ℕ) {state : TreeDigest} {todo : List Bytes}, Exact state.plan content frame →
      Waiting content state todo → remaining state ≤ fuel →
      ∃ state', drive frame fuel state = .ok state' ∧ state'.plan = state.plan ∧
        state'.index = state'.plan.entries.length ∧
        state'.digest = state.digest ++ todo.flatMap (framed 8)
  | fuel, state, todo, hexact, hwait, hfuel => by
      rcases hwait.step hexact with ⟨hnone, rfl, hend⟩ |
        ⟨request, bytes, state', todo', hnext, hframe, hconsume, hplan, hwait', hdigest, hrem⟩
      · refine ⟨state, ?_, rfl, hend, by simp⟩
        cases fuel <;> simp [drive, hnone]
      · cases fuel with
        | zero => omega
        | succ fuel =>
          obtain ⟨last, hdrive, hlplan, hlend, hldigest⟩ :=
            drive_exact fuel (hplan ▸ hexact) hwait' (by omega)
          refine ⟨last, ?_, hlplan.trans hplan, hlend, hldigest.trans hdigest⟩
          simp [drive, hnext, hframe, hconsume, Except.mapError, bind, Except.bind, hdrive]

/-! ## The source id of a plan -/

lemma digestHex_injective : Function.Injective digestHex := by
  intro a b h
  have hlist := congrArg String.toList h
  simp only [digestHex, String.toList_ofList] at hlist
  exact Vector.toList_inj.mp (lowerHex_injective hlist)

lemma stripPrefix_append (start text : String) : stripPrefix (start ++ text) start = some text := by
  have hdrop : (start.toList ++ text.toList).drop start.length = text.toList :=
    List.drop_left' String.length_toList
  rw [stripPrefix, String.toList_append, if_pos (List.prefix_append _ _), hdrop, String.ofList_toList]

/-- 64 lower-case hexadecimal digits are a digest. -/
lemma validateArchiveDigest_ofList {chars : List Char} (hlength : chars.length = 64)
    (hchars : ∀ c ∈ chars, ∃ n < 16, c = hexDigit n) :
    validateArchiveDigest (String.ofList chars) = .ok () := by
  have hdigit : ∀ n < 16, (hexDigit n).utf8Size = 1 ∧
      (('0' ≤ hexDigit n ∧ hexDigit n ≤ '9') ∨ ('a' ≤ hexDigit n ∧ hexDigit n ≤ 'f')) := by
    decide
  have hlen : (utf8 (String.ofList chars)).length = 64 := by
    rw [length_utf8_of_ascii]
    · simp [hlength]
    · intro c hc
      rw [String.toList_ofList] at hc
      obtain ⟨n, hn, rfl⟩ := hchars c hc
      exact (hdigit n hn).1
  rw [validateArchiveDigest, reject_eq_ok, String.toList_ofList]
  simp only [hlen, ne_eq, not_true_eq_false, false_or, not_not, List.all_eq_true]
  intro c hc
  obtain ⟨n, hn, rfl⟩ := hchars c hc
  exact decide_eq_true (hdigit n hn).2

/-- A digest in its textual form is a valid tree digest, and its source id carries the same text. -/
lemma sourceId_digestHex (digest : Vector UInt8 32) :
    sourceId ("sha256:" ++ digestHex digest) = .ok ("source." ++ digestHex digest) := by
  have hvalid : validateArchiveDigest (digestHex digest) = .ok () :=
    validateArchiveDigest_ofList (by simp) fun _ => mem_lowerHex
  simp only [sourceId, stripPrefix_append, hvalid, bind, Except.bind]

/-- **Driving the digest over exact frames never fails**, and the source id is the digest of the
framed fields in plan order. -/
theorem treeSourceId_eq (sha256 : Bytes → Vector UInt8 32) {plan : TreePlan}
    {content : String → Bytes} {frame : String → ℕ → ℕ → Except IoError Bytes}
    (hexact : Exact plan content frame)
    (hbytes : plan.bytes = (plan.entries.map (·.kind.size)).sum) :
    treeSourceId sha256 plan frame =
      .ok ("source." ++ digestHex (sha256 (stream (listed plan content)))) := by
  obtain ⟨todo, hwait, hstream, hrem⟩ := TreeDigest.advance_spec
    { plan, index := 0, offset := 0, digest := [] } rfl (Nat.zero_le _) hexact.size
  obtain ⟨last, hdrive, hplan, hend, hdigest⟩ :=
    drive_exact plan.bytes hexact hwait (by rw [hbytes]; exact hrem)
  have hstream' : last.digest = stream (listed plan content) := by
    rw [hdigest, hstream]
    simp [listed]
  have hfinish : last.finish sha256 =
      .ok ("sha256:" ++ digestHex (sha256 (stream (listed plan content)))) := by
    have hindex : reject (last.index ≠ last.plan.entries.length) Error.incomplete = .ok () := by
      simp [hend]
    simp only [TreeDigest.finish, hindex, hstream', bind, Except.bind]
  have hnew : drive frame plan.bytes (TreeDigest.new plan) = .ok last := hdrive
  simp only [treeSourceId, hnew, hfinish, sourceId_digestHex, Except.mapError, bind, Except.bind]

end Sources

end ExperimentControl
