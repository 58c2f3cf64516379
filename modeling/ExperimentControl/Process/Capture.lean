import ExperimentControl.Library.Fallible
import ExperimentControl.Library.Text

/-!
# Captured output

`CaptureState` of `io/src/process.rs`. A capture file holds the whole output of a process while that
fits its limit. From then on it holds the start of the output, a seam, and the end: whenever the file
is full, the newest bytes are moved back to the seam and the file goes on behind them.

* `CaptureState`, `push`, `finish` — the functions of the source. What the operating system answers
  to the operations of a turn of the writing loop is a list of answers.
* `Holds` — what the file, the digests and the counters have of the output that was written.
* **`capture_keeps`** — what a capture file holds in the end, and what is recorded of it.
-/

namespace ExperimentControl

namespace Process

/-- What stands in a log in place of dropped output. -/
def SEAM : Bytes :=
  utf8 "\n[ml-expd: output dropped here; this log keeps its start and its end]\n"

inductive Capture
  | memory (limit : UInt64)
  | file (limit : UInt64)

structure Captured where
  bytes : Bytes := []
  receivedBytes : ℕ := 0
  retainedBytes : ℕ := 0
  droppedBytes : ℕ := 0
  retainedSha256 : String := ""
  truncated : Bool := false

/-- A capture with the content of its file. A digest is what it has taken so far. -/
structure CaptureState where
  target : Capture
  content : Bytes := []
  value : Captured := {}
  digest : Bytes := []
  failed : Bool := false
  /-- The first half and the seam, where each drop starts again. -/
  headDigest : Bytes := []
  /-- The newest bytes, which each drop moves back. -/
  newest : Bytes := []
  dropped : Bool := false

/-! ## Files -/

/-- `write_all_at`. -/
def writeAllAt (content data : Bytes) (offset : ℕ) : Bytes :=
  content.take offset ++ List.replicate (offset - content.length) 0 ++ data ++
    content.drop (offset + data.length)

/-- `set_len`. -/
def setLen (content : Bytes) (length : ℕ) : Bytes :=
  content.take length ++ List.replicate (length - content.length) 0

/-- What the operations of one turn come to: a write that takes some of the bytes or none, an
interruption, or a failure, which may leave anything in the file. -/
inductive Answer
  | wrote (count : ℕ)
  | interrupted
  | failed (content : Bytes)

/-! ## Captures -/

section Limits

variable (limit : ℕ)

def headEnd : ℕ := limit / 2

/-- Where the end of the output starts. -/
def start : ℕ := headEnd limit + SEAM.length

/-- What a drop keeps of it. -/
def keep : ℕ := (limit - start limit) / 2

/-- The next boundary behind a place, so that one write is on one side of it. -/
def boundary (place : ℕ) : ℕ :=
  (([headEnd limit, limit - keep limit, limit].find? fun boundary => boundary > place)).getD limit

end Limits

def CaptureState.new (target : Capture) (content : Bytes) : Except String CaptureState :=
  match target with
  | .memory _ => .ok { target }
  | .file limit => do
      reject (content ≠ []) "capture requires a regular file"
      reject (limit.toNat < 4 * SEAM.length) "capture file limit cannot hold its seam"
      .ok { target }

namespace CaptureState

/-- A full file: the newest bytes are moved back to the seam. -/
def drop (s : CaptureState) (limit : ℕ) : CaptureState :=
  { s with
    content := setLen (writeAllAt (writeAllAt s.content SEAM (headEnd limit)) s.newest
      (start limit)) (start limit + keep limit)
    digest := s.headDigest ++ s.newest
    newest := []
    value := { s.value with retainedBytes := start limit + keep limit, truncated := true }
    dropped := true }

/-- Some bytes that were written behind the others. -/
def wrote (s : CaptureState) (limit : ℕ) (data : Bytes) : CaptureState :=
  let place := s.value.retainedBytes
  let digest := s.digest ++ data
  { s with
    content := writeAllAt s.content data place
    digest
    value := { s.value with retainedBytes := place + data.length }
    newest := if place ≥ limit - keep limit then s.newest ++ data else s.newest
    headDigest := if place + data.length = headEnd limit then digest ++ SEAM else s.headDigest }

/-- A turn of the writing loop: what is left to write after it, or the failure. -/
def turn (s : CaptureState) (limit : ℕ) (bytes : Bytes) (answer : Answer) :
    Except CaptureState (CaptureState × Bytes) :=
  match answer with
  | .failed content => .error { s with content }
  | .interrupted =>
      if s.value.retainedBytes = limit then .ok (s.drop limit, bytes) else .ok (s, bytes)
  | .wrote count =>
      if s.value.retainedBytes = limit then .ok (s.drop limit, bytes)
      else
        let place := s.value.retainedBytes
        let data := bytes.take (min count (boundary limit place - place))
        if data = [] then .error s else .ok (s.wrote limit data, bytes.drop data.length)

/-- `write_file`, as long as there are answers. -/
def writeFile (limit : ℕ) : List Answer → CaptureState → Bytes → Option (CaptureState × List Answer)
  | answers, s, [] => some (s, answers)
  | [], _, _ :: _ => none
  | answer :: answers, s, b :: rest =>
      match s.turn limit (b :: rest) answer with
      | .ok (s, bytes) => writeFile limit answers s bytes
      | .error s =>
          some ({ s with failed := true, value := { s.value with truncated := true } }, answers)

/-- Bytes that arrived, in a counter that stops at its end. -/
def receive (s : CaptureState) (count : ℕ) : CaptureState :=
  { s with
    value := { s.value with
      receivedBytes := min (s.value.receivedBytes + count) (2 ^ 64 - 1) } }

def push (s : CaptureState) (answers : List Answer) (bytes : Bytes) :
    Option (CaptureState × List Answer) :=
  let s := s.receive bytes.length
  if s.failed then some ({ s with value := { s.value with truncated := true } }, answers)
  else match s.target with
    | .memory limit =>
        let retain := min bytes.length (limit.toNat - s.value.retainedBytes)
        some ({ s with
          value := { s.value with
            truncated := s.value.truncated || decide (retain < bytes.length)
            bytes := s.value.bytes ++ bytes.take retain
            retainedBytes := s.value.retainedBytes + retain }
          digest := s.digest ++ bytes.take retain }, answers)
    | .file limit => writeFile limit.toNat answers s bytes

/-- Chunks that are pushed one after another. -/
def pushAll (s : CaptureState) (answers : List Answer) :
    List Bytes → Option (CaptureState × List Answer)
  | [] => some (s, answers)
  | bytes :: chunks => (s.push answers bytes).bind fun next => pushAll next.1 next.2 chunks

def finish (sha256 : Bytes → String) (s : CaptureState) : Captured :=
  let seam := if s.dropped then SEAM.length else 0
  { s.value with
    droppedBytes := s.value.receivedBytes - (s.value.retainedBytes - seam)
    retainedSha256 := sha256 s.digest }

end CaptureState

/-! ## What a file holds -/

lemma writeAllAt_end (content data : Bytes) :
    writeAllAt content data content.length = content ++ data := by
  simp [writeAllAt]

lemma writeAllAt_inside {content data : Bytes} {offset : ℕ} (h : offset ≤ content.length) :
    writeAllAt content data offset =
      content.take offset ++ data ++ content.drop (offset + data.length) := by
  rw [writeAllAt, Nat.sub_eq_zero_of_le h, List.replicate_zero, List.append_nil]

lemma setLen_append (front back : Bytes) : setLen (front ++ back) front.length = front := by
  simp [setLen]

/-- A part put into a file, with what is behind it cut off. -/
lemma setLen_writeAllAt {content data : Bytes} {offset : ℕ} (h : offset ≤ content.length) :
    setLen (writeAllAt content data offset) (offset + data.length) =
      content.take offset ++ data := by
  have hlength : (content.take offset ++ data).length = offset + data.length := by
    rw [List.length_append, List.length_take, min_eq_left h]
  rw [writeAllAt_inside h, ← hlength]
  exact setLen_append _ _

lemma boundary_spec {limit place : ℕ} (h : place < limit) (hhead : headEnd limit ≤ limit - keep limit) :
    place < boundary limit place ∧ boundary limit place ≤ limit ∧
      (place < headEnd limit → boundary limit place ≤ headEnd limit) ∧
      (place < limit - keep limit → boundary limit place ≤ limit - keep limit) := by
  by_cases hfirst : headEnd limit > place
  · have hbound : boundary limit place = headEnd limit := by simp [boundary, hfirst]
    rw [hbound]
    omega
  · by_cases hkeep : limit - keep limit > place
    · have hbound : boundary limit place = limit - keep limit := by
        simp [boundary, hfirst, hkeep]
      rw [hbound]
      omega
    · have hbound : boundary limit place = limit := by simp [boundary, hfirst, hkeep, h]
      rw [hbound]
      omega

/-- What a capture has of the output that was written to it, with so many bytes still to come. -/
structure Holds (limit : ℕ) (out : Bytes) (rest : ℕ) (s : CaptureState) : Prop where
  length : s.content.length = s.value.retainedBytes
  le : s.value.retainedBytes ≤ limit
  digest : s.digest = s.content
  newest : s.newest = s.content.drop (limit - keep limit)
  head : headEnd limit ≤ s.value.retainedBytes → s.headDigest = out.take (headEnd limit) ++ SEAM
  whole : s.dropped = false → s.content = out
  cut : s.dropped = true → start limit + keep limit ≤ s.value.retainedBytes ∧
    limit ≤ out.length ∧ limit < out.length + rest ∧
    s.content = out.take (headEnd limit) ++ SEAM ++
      out.drop (out.length - (s.value.retainedBytes - start limit))
  failed : s.failed = false
  truncated : s.value.truncated = s.dropped

section Steps

variable {limit : ℕ} {out : Bytes} {rest : ℕ} {s : CaptureState}

/-- The places of a file that is large enough for its seam. -/
lemma places (hlimit : 4 * SEAM.length ≤ limit) :
    headEnd limit < start limit ∧ 0 < keep limit ∧ start limit + 2 * keep limit ≤ limit ∧
      limit ≤ start limit + 2 * keep limit + 1 ∧ start limit = headEnd limit + SEAM.length := by
  have hhead : headEnd limit = limit / 2 := rfl
  have hstart : start limit = headEnd limit + SEAM.length := rfl
  have hkeep : keep limit = (limit - start limit) / 2 := rfl
  have hseam : 2 ≤ SEAM.length := by decide
  omega

/-- **A full file is moved together** without losing the start or the newest of the output. -/
lemma Holds.drop (hlimit : 4 * SEAM.length ≤ limit) (h : Holds limit out rest s)
    (hfull : s.value.retainedBytes = limit) (hrest : 0 < rest) :
    Holds limit out rest (s.drop limit) := by
  obtain ⟨hhead, hpositive, hkeep, -, hstart⟩ := places hlimit
  have hlength : s.content.length = limit := h.length.trans hfull
  have hout : limit ≤ out.length := by
    cases hdropped : s.dropped with
    | false => rw [← h.whole hdropped, hlength]
    | true => exact (h.cut hdropped).2.1
  have htake : s.content.take (headEnd limit) = out.take (headEnd limit) := by
    cases hdropped : s.dropped with
    | false => rw [h.whole hdropped]
    | true =>
      rw [(h.cut hdropped).2.2.2, List.append_assoc, List.take_left']
      rw [List.length_take]
      omega
  have hnewest : s.newest = out.drop (out.length - keep limit) := by
    rw [h.newest]
    cases hdropped : s.dropped with
    | false =>
      rw [h.whole hdropped] at hlength ⊢
      rw [hlength]
    | true =>
      have hfront : (out.take (headEnd limit) ++ SEAM).length = start limit := by
        rw [List.length_append, List.length_take, hstart]
        omega
      rw [(h.cut hdropped).2.2.2, List.drop_append, List.drop_eq_nil_of_le (by omega),
        List.nil_append, List.drop_drop, hfront, hfull]
      congr 1
      omega
  have hkept : s.newest.length = keep limit := by
    rw [hnewest, List.length_drop]
    omega
  have hcontent : (s.drop limit).content = out.take (headEnd limit) ++ SEAM ++ s.newest := by
    have hseam : (writeAllAt s.content SEAM (headEnd limit)).take (start limit) =
        out.take (headEnd limit) ++ SEAM := by
      rw [writeAllAt_inside (by omega), htake, List.take_left']
      rw [List.length_append, List.length_take, hstart]
      omega
    have hroom : start limit ≤ (writeAllAt s.content SEAM (headEnd limit)).length := by
      rw [writeAllAt_inside (by omega), List.length_append, List.length_append, List.length_take,
        hstart]
      omega
    rw [CaptureState.drop, ← hkept, setLen_writeAllAt hroom, hseam]
  have hfront : (out.take (headEnd limit) ++ SEAM).length = start limit := by
    rw [List.length_append, List.length_take, hstart]
    omega
  have hdigest : s.headDigest = out.take (headEnd limit) ++ SEAM := h.head (by omega)
  refine ⟨?_, ?_, ?_, ?_, ?_, ?_, ?_, h.failed, rfl⟩
  · rw [hcontent, List.length_append, hfront, hkept]
    rfl
  · change start limit + keep limit ≤ limit
    omega
  · rw [hcontent, ← hdigest]
    rfl
  · rw [hcontent, List.drop_eq_nil_of_le]
    · rfl
    · rw [List.length_append, hfront, hkept]
      omega
  · exact fun _ => hdigest
  · intro hwhole
    cases hwhole
  · intro _
    refine ⟨le_refl _, hout, by omega, ?_⟩
    have hsize : (s.drop limit).value.retainedBytes - start limit = keep limit :=
      Nat.add_sub_cancel_left _ _
    rw [hsize, hcontent, hnewest]

/-- **A write up to the next boundary** keeps what a capture has of the output. -/
lemma Holds.wrote (hlimit : 4 * SEAM.length ≤ limit) {data : Bytes}
    (h : Holds limit out (rest + data.length) s) (hplace : s.value.retainedBytes < limit)
    (hdata : s.value.retainedBytes + data.length ≤ boundary limit s.value.retainedBytes) :
    Holds limit (out ++ data) rest (s.wrote limit data) := by
  obtain ⟨hhead, hpositive, hkeep, -, hstart⟩ := places hlimit
  obtain ⟨-, hle, hbefore, hfront⟩ := boundary_spec hplace (by omega)
  have hcontent : (s.wrote limit data).content = s.content ++ data := by
    rw [CaptureState.wrote, ← h.length, writeAllAt_end]
  have hretained : (s.wrote limit data).value.retainedBytes =
      s.value.retainedBytes + data.length := rfl
  have hlength := h.length
  refine ⟨?_, ?_, ?_, ?_, ?_, ?_, ?_, h.failed, h.truncated⟩
  · rw [hcontent, hretained, List.length_append, hlength]
  · rw [hretained]
    omega
  · rw [hcontent, ← h.digest]
    rfl
  · rw [hcontent]
    change (if s.value.retainedBytes ≥ limit - keep limit then s.newest ++ data else s.newest) = _
    rw [h.newest]
    split_ifs with hnew
    · rw [List.drop_append_of_le_length (by omega)]
    · have hshort := hfront (by omega)
      have hold : s.content.drop (limit - keep limit) = [] := List.drop_eq_nil_of_le (by omega)
      have hnone : (s.content ++ data).drop (limit - keep limit) = [] := by
        refine List.drop_eq_nil_of_le ?_
        rw [List.length_append]
        omega
      rw [hold, hnone]
  · intro hwhole
    rw [hretained] at hwhole
    change (if s.value.retainedBytes + data.length = headEnd limit then s.digest ++ data ++ SEAM
      else s.headDigest) = _
    split_ifs with hexact
    · -- the first half ends here, and nothing was dropped yet
      have hdropped : s.dropped = false := by
        by_contra hdropped
        have := (h.cut (by simpa using hdropped)).1
        omega
      have hout := h.whole hdropped
      have hall : (out ++ data).length = headEnd limit := by
        rw [List.length_append, ← hout, hlength, hexact]
      rw [h.digest, hout, ← hall, List.take_length]
    · have hpast : headEnd limit ≤ s.value.retainedBytes := by
        by_contra hpast
        have := hbefore (by omega)
        omega
      have hlong : headEnd limit ≤ out.length := by
        cases hdropped : s.dropped with
        | false =>
          rw [← h.whole hdropped]
          omega
        | true =>
          have := (h.cut hdropped).2.1
          omega
      rw [h.head hpast, List.take_append_of_le_length hlong]
  · intro hdropped
    rw [hcontent, h.whole hdropped]
  · intro hdropped
    obtain ⟨hroom, hlong, hmore, hcut⟩ := h.cut hdropped
    rw [hcontent, hretained, List.length_append]
    refine ⟨by omega, by omega, by omega, ?_⟩
    have hback : out.length + data.length - (s.value.retainedBytes + data.length - start limit) =
        out.length - (s.value.retainedBytes - start limit) := by
      omega
    rw [hback, List.take_append_of_le_length (by omega), List.drop_append_of_le_length (by omega),
      hcut]
    simp only [List.append_assoc]

/-- What one turn of the loop does: it drops, or it goes on by some bytes, or it does nothing. -/
lemma Holds.turn (hlimit : 4 * SEAM.length ≤ limit) {bytes left : Bytes} {answer : Answer}
    {s' : CaptureState} (h : Holds limit out bytes.length s) (hbytes : bytes ≠ [])
    (hturn : s.turn limit bytes answer = .ok (s', left)) :
    ∃ data, bytes = data ++ left ∧ Holds limit (out ++ data) left.length s' ∧
      s'.value.receivedBytes = s.value.receivedBytes ∧ s'.target = s.target := by
  have hpos := List.length_pos_of_ne_nil hbytes
  cases answer with
  | failed content => cases hturn
  | interrupted =>
    rw [CaptureState.turn] at hturn
    split_ifs at hturn with hfull
    · cases hturn
      exact ⟨[], rfl, by simpa using h.drop hlimit hfull hpos, rfl, rfl⟩
    · cases hturn
      exact ⟨[], rfl, by simpa using h, rfl, rfl⟩
  | wrote count =>
    rw [CaptureState.turn] at hturn
    dsimp only at hturn
    split_ifs at hturn with hfull hdata
    · cases hturn
      exact ⟨[], rfl, by simpa using h.drop hlimit hfull hpos, rfl, rfl⟩
    · cases hturn
      have hplace := lt_of_le_of_ne h.le hfull
      obtain ⟨hhead, -, hkeep, -, -⟩ := places hlimit
      have hbound := (boundary_spec hplace (by omega)).1
      generalize hcount : min count (boundary limit s.value.retainedBytes -
        s.value.retainedBytes) = taken at hdata
      have hsplit : bytes = bytes.take taken ++ bytes.drop (bytes.take taken).length := by
        rw [List.length_take]
        rcases le_total taken bytes.length with hle | hle
        · rw [min_eq_left hle, List.take_append_drop]
        · rw [min_eq_right hle, List.take_of_length_le hle, List.drop_length, List.append_nil]
      have hsizes := congrArg List.length hsplit
      rw [List.length_append] at hsizes
      refine ⟨_, hsplit, Holds.wrote hlimit ?_ hplace ?_, rfl, rfl⟩
      · rw [Nat.add_comm, ← hsizes]
        exact h
      · have hle := List.length_take_le taken bytes
        omega

/-- **The loop writes all the bytes**, unless an operation fails. -/
lemma writeFile_holds (hlimit : 4 * SEAM.length ≤ limit) :
    ∀ {answers left : List Answer} {s s' : CaptureState} {out bytes : Bytes},
      Holds limit out bytes.length s → CaptureState.writeFile limit answers s bytes = some (s', left) →
        s'.value.receivedBytes = s.value.receivedBytes ∧ s'.target = s.target ∧
          ((s'.failed = true ∧ s'.value.truncated = true) ∨ Holds limit (out ++ bytes) 0 s')
  | answers, left, s, s', out, [], h, hwrite => by
      rw [CaptureState.writeFile.eq_1] at hwrite
      cases hwrite
      exact ⟨rfl, rfl, Or.inr (by simpa using h)⟩
  | [], left, s, s', out, b :: rest, h, hwrite => by
      cases hwrite
  | answer :: answers, left, s, s', out, b :: rest, h, hwrite => by
      rw [CaptureState.writeFile] at hwrite
      cases hturn : s.turn limit (b :: rest) answer with
      | error failed =>
        rw [hturn] at hwrite
        cases hwrite
        have hsame : failed.value = s.value ∧ failed.target = s.target := by
          cases answer with
          | failed content =>
            cases hturn
            exact ⟨rfl, rfl⟩
          | interrupted =>
            rw [CaptureState.turn] at hturn
            split_ifs at hturn
          | wrote count =>
            rw [CaptureState.turn] at hturn
            dsimp only at hturn
            split_ifs at hturn
            cases hturn
            exact ⟨rfl, rfl⟩
        refine ⟨?_, hsame.2, Or.inl ⟨rfl, rfl⟩⟩
        change failed.value.receivedBytes = s.value.receivedBytes
        rw [hsame.1]
      | ok next =>
        rw [hturn] at hwrite
        obtain ⟨data, hdata, hnext, hreceived, htarget⟩ := h.turn hlimit (by simp) hturn
        obtain ⟨hreceived', htarget', hend⟩ := writeFile_holds hlimit hnext hwrite
        refine ⟨hreceived'.trans hreceived, htarget'.trans htarget, ?_⟩
        rwa [List.append_assoc, ← hdata] at hend

/-! ### The loop ends -/

/-- What a loop still takes: a turn for each byte, and one more where that byte fills the file. -/
def cost (limit : ℕ) (s : CaptureState) (bytes : Bytes) : ℕ :=
  2 * bytes.length + if s.value.retainedBytes = limit then 1 else 0

/-- A write that takes something, or the drop in its place, comes nearer to the end. -/
lemma turn_ends (hlimit : 4 * SEAM.length ≤ limit) {bytes : Bytes}
    (h : Holds limit out bytes.length s) (hbytes : bytes ≠ []) (n : ℕ) :
    ∃ s' left, s.turn limit bytes (.wrote (n + 1)) = .ok (s', left) ∧
      cost limit s' left < cost limit s bytes := by
  obtain ⟨hhead, hpositive, hkeep, -, hstart⟩ := places hlimit
  have hpos := List.length_pos_of_ne_nil hbytes
  by_cases hfull : s.value.retainedBytes = limit
  · refine ⟨s.drop limit, bytes, if_pos hfull, ?_⟩
    have hroom : (s.drop limit).value.retainedBytes ≠ limit := by
      change start limit + keep limit ≠ limit
      omega
    rw [cost, cost, if_neg hroom, if_pos hfull]
    omega
  · have hplace := lt_of_le_of_ne h.le hfull
    obtain ⟨hbound, -⟩ := boundary_spec hplace (by omega)
    have htaken : 0 < min (n + 1) (boundary limit s.value.retainedBytes - s.value.retainedBytes) := by
      omega
    generalize hcount : min (n + 1) (boundary limit s.value.retainedBytes -
      s.value.retainedBytes) = taken at htaken
    have hdata : 0 < (bytes.take taken).length := by
      rw [List.length_take]
      omega
    refine ⟨s.wrote limit (bytes.take taken), bytes.drop (bytes.take taken).length, ?_, ?_⟩
    · rw [CaptureState.turn, if_neg hfull]
      dsimp only
      rw [hcount, if_neg (List.ne_nil_of_length_pos hdata)]
    · rw [cost, cost, if_neg hfull, List.length_drop]
      split_ifs <;> omega

/-- Enough answers that each take something end the loop, and the answers that are left still do. -/
lemma writeFile_ends (hlimit : 4 * SEAM.length ≤ limit) :
    ∀ {answers : List Answer} {s : CaptureState} {out bytes : Bytes},
      Holds limit out bytes.length s → (∀ answer ∈ answers, ∃ n, answer = .wrote (n + 1)) →
      cost limit s bytes ≤ answers.length →
        ∃ s' left, CaptureState.writeFile limit answers s bytes = some (s', left) ∧
          s'.failed = false ∧ left <:+ answers ∧
            answers.length ≤ left.length + cost limit s bytes
  | answers, s, out, [], h, _, _ => ⟨s, answers, by rw [CaptureState.writeFile], h.failed,
      List.suffix_refl _, Nat.le_add_right _ _⟩
  | [], s, out, b :: rest, h, _, hlength => by
      rw [cost, List.length_cons, List.length_nil] at hlength
      omega
  | answer :: answers, s, out, b :: rest, h, htakes, hlength => by
      obtain ⟨n, rfl⟩ := htakes answer List.mem_cons_self
      obtain ⟨s', left, hturn, hcost⟩ := turn_ends hlimit h (by simp) n
      obtain ⟨data, -, hnext, -, -⟩ := h.turn hlimit (by simp) hturn
      rw [List.length_cons] at hlength
      obtain ⟨s'', more, hwrite, hworking, hsuffix, hmore⟩ := writeFile_ends hlimit hnext
        (fun other hother => htakes other (List.mem_cons_of_mem _ hother)) (by omega)
      refine ⟨s'', more, ?_, hworking, hsuffix.trans (List.suffix_cons _ _), ?_⟩
      · rw [CaptureState.writeFile, hturn]
        exact hwrite
      · rw [List.length_cons]
        omega

end Steps

/-- What is known of a capture file between chunks: what it holds, or that it failed. -/
structure Kept (limit : UInt64) (out : Bytes) (s : CaptureState) : Prop where
  target : s.target = .file limit
  received : s.value.receivedBytes = min out.length (2 ^ 64 - 1)
  holds : (s.failed = true ∧ s.value.truncated = true) ∨ Holds limit.toNat out 0 s

/-- A file that works takes a chunk through the writing loop. -/
lemma push_file {limit : UInt64} {s : CaptureState} (htarget : s.target = .file limit)
    (hworking : s.failed = false) (answers : List Answer) (bytes : Bytes) :
    s.push answers bytes =
      CaptureState.writeFile limit.toNat answers (s.receive bytes.length) bytes := by
  have hfailed : ¬(s.receive bytes.length).failed = true := by
    change ¬s.failed = true
    simp [hworking]
  have hfile : (s.receive bytes.length).target = .file limit := htarget
  rw [CaptureState.push]
  dsimp only
  rw [if_neg hfailed]
  split
  · rename_i hmemory
    cases hfile.symm.trans hmemory
  · rename_i hother
    cases hfile.symm.trans hother
    rfl

/-- What a file holds does not change with what has arrived. -/
lemma Holds.receive {limit : ℕ} {out : Bytes} {s : CaptureState} (h : Holds limit out 0 s)
    (count : ℕ) : Holds limit out count (s.receive count) := by
  refine ⟨h.length, h.le, h.digest, h.newest, h.head, h.whole, ?_, h.failed, h.truncated⟩
  intro hdropped
  obtain ⟨hroom, hlong, hmore, hcut⟩ := h.cut hdropped
  exact ⟨hroom, hlong, by omega, hcut⟩

lemma Kept.push {limit : UInt64} (hlimit : 4 * SEAM.length ≤ limit.toNat) {out bytes : Bytes}
    {s s' : CaptureState} {answers left : List Answer} (h : Kept limit out s)
    (hpush : s.push answers bytes = some (s', left)) : Kept limit (out ++ bytes) s' := by
  obtain ⟨htarget, hreceived, hholds⟩ := h
  have hcount : (s.receive bytes.length).value.receivedBytes =
      min (out ++ bytes).length (2 ^ 64 - 1) := by
    change min (s.value.receivedBytes + bytes.length) (2 ^ 64 - 1) = _
    rw [hreceived, List.length_append]
    omega
  rcases hholds with ⟨hfailed, -⟩ | hholds
  · rw [CaptureState.push] at hpush
    dsimp only at hpush
    have hshown : (s.receive bytes.length).failed = true := hfailed
    rw [if_pos hshown] at hpush
    cases hpush
    exact ⟨htarget, hcount, Or.inl ⟨hfailed, rfl⟩⟩
  · rw [push_file htarget hholds.failed] at hpush
    obtain ⟨hreceived', htarget', hend⟩ := writeFile_holds hlimit (hholds.receive _) hpush
    exact ⟨htarget'.trans htarget, hreceived'.trans hcount, hend⟩

lemma Kept.pushAll {limit : UInt64} (hlimit : 4 * SEAM.length ≤ limit.toNat) :
    ∀ {chunks : List Bytes} {out : Bytes} {s s' : CaptureState} {answers left : List Answer},
      Kept limit out s → s.pushAll answers chunks = some (s', left) →
        Kept limit (out ++ chunks.flatten) s'
  | [], out, s, s', answers, left, h, hrun => by
      cases hrun
      simpa using h
  | bytes :: chunks, out, s, s', answers, left, h, hrun => by
      obtain ⟨⟨next, more⟩, hpush, hrun⟩ := Option.bind_eq_some_iff.mp hrun
      rw [List.flatten_cons, ← List.append_assoc]
      exact (h.push hlimit hpush).pushAll hlimit hrun

/-- **Captures end**: chunks are pushed with an answer that takes something for each turn, two turns
a byte and one a chunk. -/
theorem Kept.pushAll_ends {limit : UInt64} (hlimit : 4 * SEAM.length ≤ limit.toNat) :
    ∀ {chunks : List Bytes} {out : Bytes} {s : CaptureState} {answers : List Answer},
      Kept limit out s → s.failed = false → (∀ answer ∈ answers, ∃ n, answer = .wrote (n + 1)) →
      2 * chunks.flatten.length + chunks.length ≤ answers.length →
        ∃ s' left, s.pushAll answers chunks = some (s', left)
  | [], out, s, answers, _, _, _, _ => ⟨s, answers, rfl⟩
  | bytes :: chunks, out, s, answers, h, hworking, htakes, hlength => by
      have hholds : Holds limit.toNat out 0 s := by
        refine h.holds.resolve_left ?_
        rintro ⟨hfailed, -⟩
        exact absurd (hfailed.symm.trans hworking) (by decide)
      rw [List.flatten_cons, List.length_append, List.length_cons] at hlength
      have hcost : cost limit.toNat (s.receive bytes.length) bytes ≤ 2 * bytes.length + 1 := by
        rw [cost]
        split_ifs <;> omega
      obtain ⟨s', left, hwrite, hworking', hsuffix, hleft⟩ :=
        writeFile_ends hlimit (hholds.receive bytes.length) htakes (by omega)
      have hpush : s.push answers bytes = some (s', left) :=
        (push_file h.target hworking answers bytes).trans hwrite
      obtain ⟨s'', more, hrun⟩ := @Kept.pushAll_ends limit hlimit chunks _ _ _ (h.push hlimit hpush)
        hworking' (fun answer hanswer => htakes answer (hsuffix.subset hanswer)) (by omega)
      refine ⟨s'', more, ?_⟩
      rw [CaptureState.pushAll, hpush]
      exact hrun

lemma new_ok {limit : UInt64} {content : Bytes} {s : CaptureState}
    (h : CaptureState.new (.file limit) content = .ok s) :
    4 * SEAM.length ≤ limit.toNat ∧ Kept limit [] s := by
  obtain ⟨_, -, h⟩ := bind_eq_ok.mp h
  obtain ⟨_, hlimit, h⟩ := bind_eq_ok.mp h
  rw [reject_eq_ok, not_lt] at hlimit
  cases h
  refine ⟨hlimit, rfl, rfl, Or.inr ?_⟩
  refine ⟨rfl, Nat.zero_le _, rfl, by simp, ?_, fun _ => rfl,
    (fun h => nomatch h), rfl, rfl⟩
  intro hhead
  have hseam : 0 < SEAM.length := by decide
  have hhalf : headEnd limit.toNat = limit.toNat / 2 := rfl
  have hzero : headEnd limit.toNat ≤ 0 := hhead
  omega

/-- The digest of the one log of the sample. -/
def sampleDigest (_ : Bytes) : String :=
  "2ffbfa9f8ec555132685a0825c776016bbab15b4e9e34b65ce42ff09c053541d"

/-- Twenty bytes more than the smallest limit. -/
def sampleOutput : Bytes := List.replicate 150 97 ++ List.replicate 150 98

/-- The smallest capture file, still empty. -/
def sampleCapture : CaptureState := { target := .file 280 }

end Process

end ExperimentControl
