import ExperimentControl.Datasets.Streaming
import ExperimentControl.Library.Decimal
import ExperimentControl.Library.Transfers

/-!
# Datasets that are read back from the object store

`Store::verify_data` and its reader `DataReader` in `server/src/objects.rs`. The parts of a dataset are
objects of the store; one reader gives them as one stream, checks each part against its record, and
remembers a read that failed. The archive is checked while the stream is read, in reads of any size.

* `Response`, `Store` — what the object store answers, each body in any pieces.
* `DataReader.read` — one read of the stream.
* `verifyMembers`, `verifyData` — the archive in the stream, and the answer.
* `arrive` — the same parts as whole bodies, one after another: what comes in, and how it stops.
* `read_rest`, `verifyMembers_eq` — the reads give what arrives, wherever they are cut.
* **`verifyData_eq`** — the answer is a function of what arrives.
-/

namespace ExperimentControl

namespace Datasets

/-! ## The object store -/

/-- What comes back for a request: nothing, or a status with the length it states and the body. -/
inductive Response
  | failed
  | answered (status : ℕ) (length : Option ℕ) (body : Transfer)

/-- The bucket under the prefix of the settings, for signed reads. -/
structure Store where
  keyPrefix : String
  get : String → Response

/-- The name of the object of a part. -/
def objectKey (store : Store) (project executor : String) (definition : Definition) (part : ℕ) :
    String :=
  store.keyPrefix ++ "datasets/" ++ project ++ "/" ++ executor ++ "/" ++ definition.sha256 ++
    "/parts/" ++ String.ofList (padded 5 part)

def dataKey (store : Store) (project executor : String) (definition : Definition) (part : ℕ) :
    Except Error String := do
  (validateId project).mapError fun _ => .invalid
  (validateId executor).mapError fun _ => .invalid
  let count ← definition.partCount
  reject (part ≥ count) .invalid
  .ok (objectKey store project executor definition part)

/-! ## One read -/

/-- The reader: the next part, the response that is read, what is left of its part and what went into
the hash of it, and whether a read failed. -/
structure DataReader where
  part : ℕ
  current : Option Transfer
  remaining : ℕ
  hash : Bytes
  unreachable : Bool

/-- A turn of the loop in `read`: what it returns, or that it goes round. -/
abbrev Turn := Option (Except Error Bytes) × DataReader

namespace DataReader

def new : DataReader := ⟨0, none, 0, [], false⟩

/-- The read itself failed, so nothing is known about the bytes. -/
def fail (reader : DataReader) : Turn := (some (.error .invalid), { reader with unreachable := true })

def refuse (reader : DataReader) : Turn := (some (.error .invalid), reader)

section Reading

variable (store : Store) (sha256 : Bytes → String) (project executor : String) (state : State)

/-- A part's own hash, against its record, as soon as its last byte is read. -/
def finishPart (reader : DataReader) (chunk : Bytes) : Turn :=
  if state.parts[reader.part - 1]?.map (·.sha256) ≠ some (sha256 reader.hash) then
    { reader with hash := [] }.refuse
  else (some (.ok chunk), { reader with hash := [] })

def readCurrent (reader : DataReader) (response : Transfer) (size : ℕ) : Turn :=
  match response.take (min size (reader.remaining + 1)) with
  | none => reader.fail
  | some (chunk, rest) =>
      if reader.remaining < chunk.length then { reader with current := some rest }.refuse
      else if chunk ≠ [] then
        let next :=
          { reader with
            current := some rest
            hash := reader.hash ++ chunk
            remaining := reader.remaining - chunk.length }
        if next.remaining = 0 then finishPart sha256 state next chunk else (some (.ok chunk), next)
      else if reader.remaining ≠ 0 then reader.fail
      else (none, { reader with current := none })

/-- An object that is gone or the wrong size is a fact about the bytes. -/
def openReply (reader : DataReader) (status : ℕ) (length : Option ℕ) (body : Transfer) : Turn :=
  if status = 404 then reader.refuse
  else if status = 200 then
    if length ≠ some reader.remaining then reader.refuse
    else (none, { reader with current := some body, part := reader.part + 1 })
  else reader.fail

def openPart (reader : DataReader) : Turn :=
  match state.definition.partCount with
  | .error e => (some (.error e), reader)
  | .ok count =>
      if count ≤ reader.part then (some (.ok []), reader)
      else
        match dataKey store project executor state.definition reader.part with
        | .error e => (some (.error e), reader)
        | .ok key =>
            match store.get key with
            | .failed => reader.fail
            | .answered status length body =>
                match state.definition.partSize reader.part with
                | .error e => (some (.error e), reader)
                | .ok size => openReply { reader with remaining := size } status length body

def turn (size : ℕ) (reader : DataReader) : Turn :=
  match reader.current with
  | none => openPart store project executor state reader
  | some response =>
      match readCurrent sha256 state reader response size with
      | (none, next) => openPart store project executor state next
      | done => done

variable {store sha256 project executor state}

lemma part_openReply {reader next : DataReader} {status : ℕ} {length : Option ℕ} {body : Transfer}
    (h : openReply reader status length body = (none, next)) :
    next = { reader with current := some body, part := reader.part + 1 } := by
  unfold openReply at h
  split_ifs at h
  · cases h
  · cases h
  · exact (Prod.mk.inj h).2.symm
  · cases h

/-- A turn that goes round has opened a part of the definition. -/
lemma part_openPart {reader next : DataReader}
    (h : openPart store project executor state reader = (none, next)) :
    next.part = reader.part + 1 ∧ reader.part < MAX_PARTS := by
  unfold openPart at h
  split at h
  · cases h
  · rename_i count hcount
    split_ifs at h with hmore
    · cases h
    · repeat' split at h
      all_goals try cases h
      rw [part_openReply h]
      unfold Definition.partCount at hcount
      obtain ⟨_, -, hcount⟩ := bind_eq_ok.mp hcount
      obtain ⟨-, -, hfew⟩ := partCount_eq_ok.mp hcount
      exact ⟨rfl, by unfold MAX_PARTS; omega⟩

lemma turn_none {size : ℕ} {reader next : DataReader}
    (h : turn store sha256 project executor state size reader = (none, next)) :
    MAX_PARTS - next.part < MAX_PARTS - reader.part := by
  have hstep : ∀ {first : DataReader}, first.part = reader.part →
      openPart store project executor state first = (none, next) →
      MAX_PARTS - next.part < MAX_PARTS - reader.part := by
    intro first hfirst hopen
    obtain ⟨hpart, hfew⟩ := part_openPart hopen
    omega
  unfold turn at h
  split at h
  · exact hstep rfl h
  · rename_i response _
    split at h
    · rename_i closed hclosed
      refine hstep ?_ h
      unfold readCurrent finishPart at hclosed
      split at hclosed
      · cases hclosed
      · dsimp only at hclosed
        split_ifs at hclosed <;> try cases hclosed
        rfl
    · rename_i hgoes
      exact absurd h (hgoes next)

variable (store sha256 project executor state)

/-- A read into a buffer that is not empty. -/
def read (size : ℕ) (reader : DataReader) : Except Error Bytes × DataReader :=
  match _h : turn store sha256 project executor state size reader with
  | (some answer, next) => (answer, next)
  | (none, next) => read size next
termination_by MAX_PARTS - reader.part
decreasing_by exact turn_none (by assumption)

end Reading

end DataReader

/-! ## The archive in the stream -/

section Verification

variable (store : Store) (tar : Tar) (sha256 : Bytes → String) (project executor : String)
  (state : State)

/-- What the reader of archives and the checks make of a piece of the stream. -/
def feed (walk : tar.State × Proofs) (chunk : Bytes) : Except Error (tar.State × Proofs) := do
  let next := tar.run walk.1 chunk
  let proofs ← next.2.foldlM (Proofs.check sha256 state.definition.files) walk.2
  .ok (next.1, proofs)

/-- What `verify_members` compares behind the last byte. -/
def finishArchive (walk : tar.State × Proofs) (seen : Bytes) : Except Error Unit := do
  let proofs ← (tar.finish walk.1).foldlM (Proofs.check sha256 state.definition.files) walk.2
  let paths ← proofs.close
  reject (sha256 seen ≠ state.definition.sha256 ∨
    seen.length ≠ state.definition.archiveBytes.toNat ∨
    paths.length ≠ state.definition.files.length) .invalid

/-- The loop of `verify_members` over the stream, with the limit of its `take`.  The sizes of its reads
are those of the reader of archives, of the hash of a member and of the copy behind the last member. -/
def verifyMembers (sizes : ℕ → ℕ) (count limit : ℕ) (reader : DataReader)
    (walk : tar.State × Proofs) (seen : Bytes) : Except Error Unit × DataReader :=
  if limit = 0 then (finishArchive tar sha256 state walk seen, reader)
  else
    match reader.read store sha256 project executor state (min (sizes count + 1) limit) with
    | (.error e, next) => (.error e, next)
    | (.ok [], next) => (finishArchive tar sha256 state walk seen, next)
    | (.ok (byte :: rest), next) =>
        match feed tar sha256 state walk (byte :: rest) with
        | .error e => (.error e, next)
        | .ok walk =>
            verifyMembers sizes (count + 1) (limit - (rest.length + 1)) next walk
              (seen ++ byte :: rest)
termination_by limit

/-- `verify_data_stream` of the reader. -/
def readDataStream (sizes : ℕ → ℕ) (reader : DataReader) : Except Error Unit × DataReader :=
  match state.definition.validate with
  | .error e => (.error e, reader)
  | .ok () =>
      if 2 ^ 64 ≤ state.definition.archiveBytes.toNat + 1 then (.error .invalid, reader)
      else
        verifyMembers store tar sha256 project executor state sizes 0
          (state.definition.archiveBytes.toNat + 1) reader (tar.start, ⟨[], none⟩) []

/-- An error of the reader that is not about the bytes says nothing about them. -/
def answerOf : Except Error Unit × DataReader → Except Error Bool
  | (.ok (), _) => .ok true
  | (.error _, reader) => if reader.unreachable then .error .invalid else .ok false

/-- True when the archive, every member and every part's record all hold.  False when the bytes are
refused.  An error says nothing about them. -/
def verifyData (sizes : ℕ → ℕ) : Except Error Bool :=
  answerOf (readDataStream store tar sha256 project executor state sizes .new)

end Verification

/-! ## What arrives -/

/-- How a stream stops: behind the last part, with bytes that are refused, or with a read that failed. -/
inductive Stop
  | ended
  | refused
  | unreachable
  deriving DecidableEq

/-- A part and what follows it, where it does not stop the stream. -/
def follow (first : Bytes × Option Stop) (later : Bytes × Stop) : Bytes × Stop :=
  match first.2 with
  | some stop => (first.1, stop)
  | none => (first.1 ++ later.1, later.2)

lemma follow_of_none {first : Bytes × Option Stop} {later : Bytes × Stop} (h : first.2 = none) :
    follow first later = (first.1 ++ later.1, later.2) := by
  rw [follow, h]

lemma follow_of_some {first : Bytes × Option Stop} {later : Bytes × Stop} {stop : Stop}
    (h : first.2 = some stop) : follow first later = (first.1, stop) := by
  rw [follow, h]

lemma follow_append (front : Bytes) (first : Bytes × Option Stop) (later : Bytes × Stop) :
    follow (front ++ first.1, first.2) later =
      (front ++ (follow first later).1, (follow first later).2) := by
  obtain ⟨bytes, stop⟩ := first
  cases stop with
  | none => simp [follow]
  | some stop => rfl

section Arrival

variable (store : Store) (sha256 : Bytes → String) (project executor : String) (state : State)

def recordOf (part : ℕ) : Option String := state.parts[part]?.map (·.sha256)

def sizeOf (part : ℕ) : ℕ :=
  min PART_BYTES (state.definition.archiveBytes.toNat - part * PART_BYTES)

def responseOf (part : ℕ) : Response :=
  store.get (objectKey store project executor state.definition part)

/-- The rest of a body, behind what went into the hash already. -/
def arriveBody (record : Option String) (hashed : Bytes) (remaining : ℕ) (body : Transfer) :
    Bytes × Option Stop :=
  if body.bytes.length < remaining then (body.bytes, some .unreachable)
  else if 0 < remaining ∧ record ≠ some (sha256 (hashed ++ body.bytes.take remaining)) then
    (body.bytes.take remaining, some .refused)
  else if remaining < body.bytes.length then (body.bytes.take remaining, some .refused)
  else if body.fails then (body.bytes, some .unreachable)
  else (body.bytes, none)

/-- Some parts, from a number on. -/
def arrive : ℕ → ℕ → Bytes × Stop
  | 0, _ => ([], .ended)
  | left + 1, part =>
      match responseOf store project executor state part with
      | .failed => ([], .unreachable)
      | .answered status length body =>
          if status = 404 then ([], .refused)
          else if status = 200 then
            if length ≠ some (sizeOf state part) then ([], .refused)
            else
              follow (arriveBody sha256 (recordOf state part) [] (sizeOf state part) body)
                (arrive left (part + 1))
          else ([], .unreachable)

/-- What a reader has before it. -/
def DataReader.rest (count : ℕ) (reader : DataReader) : Bytes × Stop :=
  match reader.current with
  | none => arrive store sha256 project executor state (count - reader.part) reader.part
  | some body =>
      follow (arriveBody sha256 (recordOf state (reader.part - 1)) reader.hash reader.remaining body)
        (arrive store sha256 project executor state (count - reader.part) reader.part)

end Arrival

/-- A dataset that is complete: identifiers and a definition that are admitted. -/
structure Ready (project executor : String) (state : State) (count : ℕ) : Prop where
  project : validateId project = .ok ()
  executor : validateId executor = .ok ()
  definition : state.definition.validate = .ok ()
  count : partCount state.definition.archiveBytes.toNat = .ok count

namespace Ready

variable {project executor : String} {state : State} {count part : ℕ}

lemma partCount (h : Ready project executor state count) :
    state.definition.partCount = .ok count :=
  bind_eq_ok.mpr ⟨(), h.definition, h.count⟩

lemma dataKey (h : Ready project executor state count) (store : Store) (hpart : part < count) :
    dataKey store project executor state.definition part =
      .ok (objectKey store project executor state.definition part) := by
  refine bind_eq_ok.mpr ⟨(), mapError_eq_ok.mpr h.project, bind_eq_ok.mpr
    ⟨(), mapError_eq_ok.mpr h.executor, bind_eq_ok.mpr ⟨count, h.partCount, bind_eq_ok.mpr
      ⟨(), reject_eq_ok.mpr ?_, rfl⟩⟩⟩⟩
  omega

lemma partSize (h : Ready project executor state count) (hpart : part < count) :
    state.definition.partSize part = .ok (sizeOf state part) := by
  refine bind_eq_ok.mpr ⟨count, h.count, bind_eq_ok.mpr ⟨(), reject_eq_ok.mpr ?_, rfl⟩⟩
  omega

lemma sizeOf_pos (h : Ready project executor state count) (hpart : part < count) :
    0 < sizeOf state part := by
  obtain ⟨-, hcount, -⟩ := partCount_eq_ok.mp h.count
  unfold sizeOf PART_BYTES
  omega

end Ready

/-! ## One read of what arrives -/

section Body

variable {sha256 : Bytes → String} {record : Option String} {hashed chunk : Bytes} {remaining : ℕ}
  {body more : Transfer}

/-- A piece off the front of a body that has more of its part to come. -/
lemma arriveBody_read (hbytes : body.bytes = chunk ++ more.bytes) (hfails : more.fails = body.fails)
    (hlt : chunk.length < remaining) :
    arriveBody sha256 record hashed remaining body =
      (chunk ++ (arriveBody sha256 record (hashed ++ chunk) (remaining - chunk.length) more).1,
        (arriveBody sha256 record (hashed ++ chunk) (remaining - chunk.length) more).2) := by
  have htake : (chunk ++ more.bytes).take remaining =
      chunk ++ more.bytes.take (remaining - chunk.length) := by
    rw [List.take_append, List.take_of_length_le hlt.le]
  have hshort : (chunk ++ more.bytes).length < remaining ↔
      more.bytes.length < remaining - chunk.length := by
    rw [List.length_append]
    omega
  have hlong : remaining < (chunk ++ more.bytes).length ↔
      remaining - chunk.length < more.bytes.length := by
    rw [List.length_append]
    omega
  have hsome : 0 < remaining ↔ 0 < remaining - chunk.length := by omega
  unfold arriveBody
  simp only [hbytes, htake, hshort, hlong, hsome, ← List.append_assoc, hfails]
  split_ifs <;> rfl

/-- The last piece of a part whose record holds. -/
lemma arriveBody_finish (hbytes : body.bytes = chunk ++ more.bytes)
    (hfails : more.fails = body.fails) (hlength : chunk.length = remaining)
    (hrecord : record = some (sha256 (hashed ++ chunk))) :
    arriveBody sha256 record hashed remaining body =
      (chunk ++ (arriveBody sha256 record [] 0 more).1, (arriveBody sha256 record [] 0 more).2) := by
  have htake : (chunk ++ more.bytes).take remaining = chunk := List.take_left' hlength
  have hshort : ¬(chunk ++ more.bytes).length < remaining := by
    rw [List.length_append]
    omega
  have hlong : remaining < (chunk ++ more.bytes).length ↔ 0 < more.bytes.length := by
    rw [List.length_append]
    omega
  unfold arriveBody
  simp only [hbytes, htake, hshort, hlong, hrecord, hfails, Nat.not_lt_zero, lt_irrefl, false_and,
    ne_eq, not_true_eq_false, and_false, if_false, List.take_zero, List.append_nil]
  split_ifs <;> simp

end Body

namespace DataReader

variable {store : Store} {sha256 : Bytes → String} {project executor : String} {state : State}
  {count : ℕ}

/-- What holds of the reader between two reads. -/
structure Keeps (count : ℕ) (reader : DataReader) : Prop where
  part : reader.part ≤ count
  fresh : reader.current = none ∨ reader.remaining = 0 → reader.hash = []
  reachable : reader.unreachable = false

variable (store sha256 project executor state count)

/-- What a read may return of the bytes before it. -/
def Gives (size : ℕ) (rest : Bytes × Stop) : Except Error Bytes × DataReader → Prop
  | (.ok [], next) => rest = ([], .ended) ∧ next.unreachable = false
  | (.ok (byte :: chunk), next) =>
      chunk.length < size ∧ Keeps count next ∧
        rest = (byte :: chunk ++ (next.rest store sha256 project executor state count).1,
          (next.rest store sha256 project executor state count).2)
  | (.error _, next) =>
      next.unreachable = true ∧ rest = ([], .unreachable) ∨
        next.unreachable = false ∧ rest.2 = .refused

/-- What a turn may do: it returns, or it leaves all that is before it. -/
def Turns (size : ℕ) (rest : Bytes × Stop) : Turn → Prop
  | (some answer, next) => Gives store sha256 project executor state count size rest (answer, next)
  | (none, next) =>
      Keeps count next ∧ next.rest store sha256 project executor state count = rest

variable {store sha256 project executor state count}

/-- A response that is wrong is refused, one that failed says nothing, and the others are read. -/
lemma turns_openPart (hready : Ready project executor state count) {reader : DataReader} {size : ℕ}
    (hkeeps : Keeps count reader) (hcurrent : reader.current = none) :
    Turns store sha256 project executor state count size
      (reader.rest store sha256 project executor state count)
      (openPart store project executor state reader) := by
  have hrest : reader.rest store sha256 project executor state count =
      arrive store sha256 project executor state (count - reader.part) reader.part := by
    rw [rest, hcurrent]
  unfold openPart
  rw [hready.partCount, hrest]
  dsimp only
  split_ifs with hpart
  · have hnone : count - reader.part = 0 := by omega
    rw [hnone]
    exact ⟨rfl, hkeeps.reachable⟩
  · have hlt : reader.part < count := by omega
    obtain ⟨left, hleft⟩ : ∃ left, count - reader.part = left + 1 := ⟨count - reader.part - 1, by omega⟩
    have hresponse : store.get (objectKey store project executor state.definition reader.part) =
        responseOf store project executor state reader.part := rfl
    rw [hready.dataKey store hlt, hready.partSize hlt, hleft, arrive]
    dsimp only
    rw [hresponse]
    cases responseOf store project executor state reader.part with
    | failed => exact Or.inl ⟨rfl, rfl⟩
    | answered status length body =>
      dsimp only
      unfold openReply
      split_ifs with hgone hfound hlength
      · exact Or.inr ⟨hkeeps.reachable, rfl⟩
      · exact Or.inr ⟨hkeeps.reachable, rfl⟩
      · refine ⟨⟨hlt, ?_, hkeeps.reachable⟩, ?_⟩
        · rintro -
          exact hkeeps.fresh (Or.inl hcurrent)
        · have hnext : count - (reader.part + 1) = left := by omega
          rw [rest]
          dsimp only
          rw [hkeeps.fresh (Or.inl hcurrent), hnext, Nat.add_sub_cancel]
      · exact Or.inl ⟨rfl, rfl⟩

/-- A piece of the response that is read. -/
lemma turns_readCurrent {reader : DataReader} {response : Transfer} {size : ℕ} (hsize : 0 < size)
    (hkeeps : Keeps count reader) (hcurrent : reader.current = some response) :
    Turns store sha256 project executor state count size
        (reader.rest store sha256 project executor state count)
        (readCurrent sha256 state reader response size) ∧
      ∀ next, readCurrent sha256 state reader response size = (none, next) → next.current = none := by
  have hrest : reader.rest store sha256 project executor state count =
      follow (arriveBody sha256 (recordOf state (reader.part - 1)) reader.hash reader.remaining response)
        (arrive store sha256 project executor state (count - reader.part) reader.part) := by
    rw [rest, hcurrent]
  rw [hrest]
  unfold readCurrent
  cases htake : response.take (min size (reader.remaining + 1)) with
  | none =>
    obtain ⟨hbytes, hfails⟩ := Transfer.take_eq_none htake
    refine ⟨Or.inl ⟨rfl, ?_⟩, fun next h => by cases h⟩
    unfold arriveBody
    rw [hbytes, hfails]
    by_cases hremaining : 0 < reader.remaining
    · simp [follow, hremaining]
    · simp [follow, hremaining]
  | some taken =>
    obtain ⟨chunk, more⟩ := taken
    obtain ⟨hbytes, hfails, hchunk⟩ := Transfer.take_eq_some htake
    dsimp only
    have hlength : response.bytes.length = chunk.length + more.bytes.length := by
      rw [hbytes, List.length_append]
    split_ifs with hlong hsome hlast hremaining
    · refine ⟨Or.inr ⟨hkeeps.reachable, ?_⟩, fun next h => by cases h⟩
      unfold arriveBody
      rw [if_neg (by omega)]
      split_ifs with hrecord
      · rfl
      · rfl
      · omega
      · omega
    · have hwhole : chunk.length = reader.remaining := by omega
      have hpositive : 0 < reader.remaining := by
        have := List.length_pos_of_ne_nil hsome
        omega
      refine ⟨?_, fun next h => ?_⟩
      · unfold finishPart
        split_ifs with hrecord
        · refine Or.inr ⟨hkeeps.reachable, ?_⟩
          have htaken : response.bytes.take reader.remaining = chunk := by
            rw [hbytes, List.take_left' hwhole]
          have hrefused : 0 < reader.remaining ∧ recordOf state (reader.part - 1) ≠
              some (sha256 (reader.hash ++ response.bytes.take reader.remaining)) :=
            ⟨hpositive, htaken ▸ hrecord⟩
          unfold arriveBody
          rw [if_neg (by omega), if_pos hrefused]
          rfl
        · obtain ⟨byte, others, rfl⟩ := List.exists_cons_of_ne_nil hsome
          rw [List.length_cons] at hchunk
          refine ⟨by omega, ⟨hkeeps.part, fun _ => rfl, hkeeps.reachable⟩, ?_⟩
          have hsame : recordOf state (reader.part - 1) =
              some (sha256 (reader.hash ++ byte :: others)) := not_not.mp hrecord
          rw [arriveBody_finish hbytes hfails hwhole hsame, follow_append, rest]
          dsimp only
          rw [hlast]
      · unfold finishPart at h
        split_ifs at h <;> cases h
    · refine ⟨?_, fun next h => by cases h⟩
      obtain ⟨byte, others, rfl⟩ := List.exists_cons_of_ne_nil hsome
      have hlt : (byte :: others).length < reader.remaining := by omega
      rw [List.length_cons] at hchunk
      refine ⟨by omega, ⟨hkeeps.part, ?_, hkeeps.reachable⟩, ?_⟩
      · rintro (hnone | hzero)
        · cases hnone
        · exact absurd hzero hlast
      · rw [arriveBody_read hbytes hfails hlt, rest, follow_append]
    · obtain rfl := not_not.mp hsome
      obtain ⟨hnil, hended⟩ := Transfer.take_eq_nil (by omega) htake
      refine ⟨Or.inl ⟨rfl, ?_⟩, fun next h => by cases h⟩
      have hshort : ([] : Bytes).length < reader.remaining := Nat.pos_of_ne_zero hremaining
      unfold arriveBody
      rw [hnil, if_pos hshort]
      rfl
    · obtain rfl := not_not.mp hsome
      obtain ⟨hnil, hended⟩ := Transfer.take_eq_nil (by omega) htake
      have hzero : reader.remaining = 0 := not_not.mp hremaining
      refine ⟨⟨⟨hkeeps.part, fun _ => hkeeps.fresh (Or.inr hzero), hkeeps.reachable⟩, ?_⟩, ?_⟩
      · unfold arriveBody
        simp [rest, follow, hnil, hended, hzero]
      · intro next h
        cases h
        rfl

/-- **A turn** leaves what is before the reader, or returns the front of it. -/
lemma turns_turn (hready : Ready project executor state count) {reader : DataReader} {size : ℕ}
    (hsize : 0 < size) (hkeeps : Keeps count reader) :
    Turns store sha256 project executor state count size
      (reader.rest store sha256 project executor state count)
      (turn store sha256 project executor state size reader) := by
  unfold turn
  cases hcurrent : reader.current with
  | none => exact turns_openPart hready hkeeps hcurrent
  | some response =>
    obtain ⟨hturns, hclosed⟩ := @turns_readCurrent store sha256 project executor state count reader
      response size hsize hkeeps hcurrent
    dsimp only
    cases hread : readCurrent sha256 state reader response size with
    | mk answer next =>
      rw [hread] at hturns
      cases answer with
      | some answer => exact hturns
      | none =>
        have hopen := @turns_openPart store sha256 _ _ _ _ hready _ size hturns.1
          (hclosed next hread)
        rw [hturns.2] at hopen
        exact hopen

/-- **A read gives the front of what is before the reader**, wherever the responses are cut. -/
theorem read_rest (hready : Ready project executor state count) {size : ℕ} (hsize : 0 < size)
    (reader : DataReader) (hkeeps : Keeps count reader) :
    Gives store sha256 project executor state count size
      (reader.rest store sha256 project executor state count)
      (reader.read store sha256 project executor state size) := by
  fun_induction DataReader.read store sha256 project executor state size reader with
  | case1 reader answer next hturn =>
    have hturns := @turns_turn store sha256 _ _ _ _ hready _ _ hsize hkeeps
    rw [hturn] at hturns
    exact hturns
  | case2 reader next hturn ih =>
    have hturns := @turns_turn store sha256 _ _ _ _ hready _ _ hsize hkeeps
    rw [hturn] at hturns
    have hread := ih hturns.1
    rw [hturns.2] at hread
    exact hread

end DataReader

/-! ## The answer -/

section Answers

variable {store : Store} {tar : Tar} {sha256 : Bytes → String} {project executor : String}
  {state : State} {count : ℕ}

/-- The pieces of a stream are checked as the whole of them is. -/
lemma feed_append (walk : tar.State × Proofs) (first second : Bytes) :
    feed tar sha256 state walk (first ++ second) =
      (feed tar sha256 state walk first >>= fun next => feed tar sha256 state next second) := by
  simp only [feed, Tar.run_append, List.foldlM_append, bind_assoc, ok_bind]

/-- No more arrives than the parts of the definition hold. -/
lemma length_arrive (left part : ℕ) :
    (arrive store sha256 project executor state left part).1.length ≤
      state.definition.archiveBytes.toNat - part * PART_BYTES := by
  induction left generalizing part with
  | zero => exact Nat.zero_le _
  | succ left ih =>
    have hlater := ih (part + 1)
    have hsize : sizeOf state part =
        min PART_BYTES (state.definition.archiveBytes.toNat - part * PART_BYTES) := rfl
    unfold PART_BYTES at hlater hsize ⊢
    rw [arrive]
    cases responseOf store project executor state part with
    | failed => exact Nat.zero_le _
    | answered status length body =>
      dsimp only
      split_ifs
      · exact Nat.zero_le _
      · exact Nat.zero_le _
      · unfold arriveBody
        split_ifs <;> simp only [follow, List.length_append, List.length_take] <;> omega
      · exact Nat.zero_le _

/-- **What the answer is**, by what arrives: bytes that are refused, or whose checks fail, are the wrong
ones, and a failed read behind bytes that may be right says nothing. -/
def judge (tar : Tar) (sha256 : Bytes → String) (state : State) (walk : tar.State × Proofs)
    (seen : Bytes) (rest : Bytes × Stop) : Except Error Bool :=
  match feed tar sha256 state walk rest.1, rest.2 with
  | .error _, _ => .ok false
  | .ok last, .ended => .ok (finishArchive tar sha256 state last (seen ++ rest.1)).isOk
  | .ok _, .refused => .ok false
  | .ok _, .unreachable => .error .invalid

lemma judge_ended (walk : tar.State × Proofs) (seen : Bytes) {reader : DataReader}
    (hreachable : reader.unreachable = false) :
    answerOf (finishArchive tar sha256 state walk seen, reader) =
      judge tar sha256 state walk seen ([], .ended) := by
  have hfeed : feed tar sha256 state walk [] = .ok walk := rfl
  rw [judge, hfeed, List.append_nil]
  dsimp only
  cases finishArchive tar sha256 state walk seen with
  | ok u => rfl
  | error e =>
    rw [answerOf, hreachable]
    rfl

/-- **The loop of `verify_members`** answers as what is before its reader tells. -/
theorem verifyMembers_eq (hready : Ready project executor state count) (sizes : ℕ → ℕ)
    (turn limit : ℕ) (reader : DataReader) (walk : tar.State × Proofs) (seen : Bytes)
    (hkeeps : reader.Keeps count)
    (hlimit : (reader.rest store sha256 project executor state count).1.length < limit) :
    answerOf (verifyMembers store tar sha256 project executor state sizes turn limit reader walk seen) =
      judge tar sha256 state walk seen (reader.rest store sha256 project executor state count) := by
  induction limit using Nat.strong_induction_on generalizing turn reader walk seen with
  | _ limit ih =>
    have hpositive : 0 < min (sizes turn + 1) limit := by omega
    have hread := @DataReader.read_rest store sha256 _ _ _ _ hready _ hpositive reader hkeeps
    rw [verifyMembers, if_neg (by omega)]
    generalize reader.rest store sha256 project executor state count = rest at hread hlimit ⊢
    cases hresult : reader.read store sha256 project executor state (min (sizes turn + 1) limit) with
    | mk result next =>
      rw [hresult] at hread
      cases result with
      | error e =>
        rcases hread with ⟨hfailed, rfl⟩ | ⟨hreachable, hrefused⟩
        · have hfeed : feed tar sha256 state walk [] = .ok walk := rfl
          dsimp only [answerOf]
          rw [judge, hfeed, hfailed]
          rfl
        · dsimp only [answerOf]
          rw [judge, hrefused, hreachable]
          cases feed tar sha256 state walk rest.1 <;> rfl
      | ok chunk =>
        cases chunk with
        | nil =>
          obtain ⟨rfl, hreachable⟩ := hread
          exact judge_ended walk seen hreachable
        | cons byte others =>
          obtain ⟨hchunk, hnext, rfl⟩ := hread
          dsimp only at hlimit ⊢
          rw [List.length_append, List.length_cons] at hlimit
          rw [judge, feed_append]
          cases hfeed : feed tar sha256 state walk (byte :: others) with
          | error e =>
            dsimp only [answerOf]
            rw [hnext.reachable]
            rfl
          | ok walk' =>
            dsimp only
            rw [ok_bind, ih (limit - (others.length + 1)) (by omega) (turn + 1) next walk'
              (seen ++ byte :: others) hnext (by omega), judge, List.append_assoc]

variable (store tar sha256)

/-- **The answer is a function of what arrives**: neither where the responses are cut nor how much the
reader of archives takes at once makes a difference. -/
theorem verifyData_eq (hready : Ready project executor state count) (sizes : ℕ → ℕ) :
    verifyData store tar sha256 project executor state sizes =
      judge tar sha256 state (tar.start, ⟨[], none⟩) []
        (arrive store sha256 project executor state count 0) := by
  obtain ⟨-, hcount, hfew⟩ := partCount_eq_ok.mp hready.count
  have hlength := @length_arrive store sha256 project executor state count 0
  rw [verifyData, readDataStream, hready.definition]
  dsimp only
  rw [if_neg (by omega)]
  refine verifyMembers_eq hready sizes 0 _ .new (tar.start, ⟨[], none⟩) []
    ⟨Nat.zero_le _, fun _ => rfl, rfl⟩ ?_
  change (arrive store sha256 project executor state (count - 0) 0).1.length < _
  rw [Nat.sub_zero]
  omega

end Answers

end Datasets

end ExperimentControl
