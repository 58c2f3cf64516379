import ExperimentControl.Identity
import ExperimentControl.Json.Records
import ExperimentControl.Library.Chunks
import ExperimentControl.Records.ImportRuns

/-!
# The stream of a local Run

The packets of an attached execution (`core/src/local.rs`): each carries the next bytes of one
metrics file, the offset they stand at and the digest of the packet before it. The cursor takes the
next packet or none.

* `Packet`, `Packet.digest`, `Cursor`, `Cursor.advance` — the packets and the reducer.
* `stream` — the chain of packets that one way of cutting the bytes makes.
* `settled`, **`stream_eq`** — what a chain of packets comes to: the bytes of all of them at once.
* **`stream_ignores_cuts`** — every way of cutting gives the same, but for the chain itself.
-/

namespace ExperimentControl.Local

open Records (Event Conversion ImportCounts ImportEmission JsonlImporter newline inputBound)
open Records.JsonlImporter (feedByte feed)

structure Error where
  code : String
  deriving DecidableEq, Repr

def MAX_BATCH : ℕ := 65536

/-- The chain value before the first packet: sixty-four zeros. -/
def INITIAL_CHAIN : String := String.ofList (List.replicate 64 '0')

inductive Finish
  | succeeded
  | failed
  | cancelled
  deriving DecidableEq, Repr

def Finish.document : Finish → Json
  | succeeded => .string "SUCCEEDED"
  | failed => .string "FAILED"
  | cancelled => .string "CANCELLED"

/-! ## Packets -/

structure Packet where
  executionId : String
  offset : UInt64
  previousChainSha256 : String
  bytes : Bytes
  finish : Option Finish
  deriving DecidableEq, Repr

/-- A caller's token of 128 bits. -/
def tokenValid (value : String) : Bool :=
  value.toList.length = 32 ∧ value.toList.all isLowerHex

namespace Packet

def document (packet : Packet) : Json :=
  .object [("execution_id", .string packet.executionId), ("offset", .ofNat packet.offset.toNat),
    ("previous_chain_sha256", .string packet.previousChainSha256),
    ("bytes", .array (packet.bytes.map fun byte => .ofNat byte.toNat)),
    ("finish", Json.ofOption Finish.document packet.finish)]

variable (enc : Encoding)

def digest (packet : Packet) : Except Error String := do
  reject (¬tokenValid packet.executionId) ⟨"LOCAL_IDENTITY_INVALID"⟩
  reject (¬isSha256 packet.previousChainSha256) ⟨"LOCAL_STREAM_INVALID"⟩
  reject (packet.bytes.length > MAX_BATCH ∨ packet.bytes = [] ∧ packet.finish = none)
    ⟨"LOCAL_BATCH_INVALID"⟩
  (enc.digest packet.document).mapError fun _ => ⟨"LOCAL_BATCH_INVALID"⟩

end Packet

/-! ## The cursor -/

structure Cursor where
  offset : UInt64
  chainSha256 : String
  finished : Option Finish
  importer : JsonlImporter
  counts : ImportCounts
  deriving DecidableEq, Repr

/-- The event that closes a stream, named after its last packet. -/
def finishEvent (digest : String) (finish : Finish) : Event :=
  ⟨"local-finish." ++ digest, .object [("kind", .string "lifecycle"),
    ("data", .object [("phase", .string "METRICS_DRAINED"), ("state", finish.document),
      ("exit_code", if finish = .succeeded then .ofNat 0 else .null)])]⟩

namespace Cursor

def new (config : Json) : Except Error Cursor := do
  let importer ← (JsonlImporter.canonicalMetrics config).mapError
    fun _ => ⟨"LOCAL_DEFINITION_INVALID"⟩
  return ⟨0, INITIAL_CHAIN, none, importer, ⟨0, 0⟩⟩

section Advance

variable {Line Observation : Type} (enc : Encoding) (conv : Conversion Line Observation)

/-- One chunk of a packet: the cursor and the events so far. -/
def feedChunk (state : Cursor × List Event) (chunk : Bytes) :
    Except Error (Cursor × List Event) := do
  let (importer, emission) ← (feed enc conv state.1.importer chunk).mapError
    fun _ => ⟨"LOCAL_METRIC_IMPORT_FAILED"⟩
  return ({ state.1 with importer, counts := emission.counts }, state.2 ++ emission.events)

/-- The end of a packet, and of the stream where the packet closes it. -/
def close (state : Cursor × List Event) (digest : String) :
    Option Finish → Except Error (Cursor × List Event)
  | some finish => do
      let emission ← (JsonlImporter.finish enc conv state.1.importer).mapError
        fun _ => ⟨"LOCAL_METRIC_IMPORT_FAILED"⟩
      return ({ state.1 with counts := emission.counts, finished := some finish },
        state.2 ++ emission.events ++ [finishEvent digest finish])
  | none => .ok state

def advance (cursor : Cursor) (packet : Packet) : Except Error (Cursor × List Event) := do
  let digest ← packet.digest enc
  reject cursor.finished.isSome ⟨"LOCAL_STREAM_FINISHED"⟩
  reject (packet.offset ≠ cursor.offset ∨ packet.previousChainSha256 ≠ cursor.chainSha256)
    ⟨"LOCAL_STREAM_ORDER_MISMATCH"⟩
  let state ← (chunks inputBound packet.bytes).foldlM (feedChunk enc conv) (cursor, [])
  let (next, events) ← close enc conv state digest packet.finish
  reject (2 ^ 64 ≤ next.offset.toNat + packet.bytes.length) ⟨"LOCAL_STREAM_INVALID"⟩
  return ({ next with
    offset := next.offset + UInt64.ofNat packet.bytes.length
    chainSha256 := digest }, events)

/-- What is kept after a packet: the next cursor, or the old one where the packet is rejected. -/
def receive (cursor : Cursor) (packet : Packet) : Cursor :=
  match advance enc conv cursor packet with
  | .ok (next, _) => next
  | .error _ => cursor

end Advance

end Cursor

/-! ## Ways of cutting a stream -/

/-- A way of cutting some bytes into packets, the last one with the finish flag. -/
structure Cutting (content : Bytes) (finish : Option Finish) where
  pieces : List Bytes
  joined : pieces.flatten = content
  bounded : ∀ piece ∈ pieces, piece.length ≤ MAX_BATCH
  /-- Only the finish makes a packet of no bytes. -/
  filled : ∀ piece ∈ pieces.dropLast, piece ≠ []
  filledEnd : finish = none → ∀ piece ∈ pieces, piece ≠ []
  /-- The finish needs a packet. -/
  flagged : finish ≠ none → pieces ≠ []

section Stream

variable {Line Observation : Type} (enc : Encoding) (conv : Conversion Line Observation)

/-- The packet that comes next. -/
def nextPacket (executionId : String) (cursor : Cursor) (bytes : Bytes) (finish : Option Finish) :
    Packet :=
  ⟨executionId, cursor.offset, cursor.chainSha256, bytes, finish⟩

/-- The chain of packets of some pieces. -/
def stream (executionId : String) (finish : Option Finish) :
    Cursor → List Bytes → Except Error (Cursor × List Event)
  | cursor, [] => .ok (cursor, [])
  | cursor, [piece] => cursor.advance enc conv (nextPacket executionId cursor piece finish)
  | cursor, piece :: rest => do
      let (next, events) ← cursor.advance enc conv (nextPacket executionId cursor piece none)
      let (last, more) ← stream executionId finish next rest
      return (last, events ++ more)

/-! ## A packet as the bytes it carries -/

/-- What the importer makes of some bytes, if it takes them. -/
def fed (importer : JsonlImporter) (bytes : Bytes) : Option (JsonlImporter × List Event) :=
  (bytes.foldlM (feedByte enc conv) (importer, [])).toOption

lemma fed_append (importer : JsonlImporter) (first second : Bytes) :
    fed enc conv importer (first ++ second) =
      (fed enc conv importer first).bind fun (next, events) =>
        (fed enc conv next second).map fun (last, more) => (last, events ++ more) := by
  unfold fed
  rw [List.foldlM_append]
  cases hfirst : first.foldlM (feedByte enc conv) (importer, []) with
  | error e => rfl
  | ok state =>
    rw [ok_bind, Records.foldlM_feedByte_events]
    simp only [Except.toOption, Option.bind_some]
    cases second.foldlM (feedByte enc conv) (state.1, []) <;> rfl

/-- One chunk comes to its bytes. -/
lemma feedChunk_eq (cursor : Cursor) (events : List Event) {piece : Bytes}
    (hbound : piece.length ≤ inputBound) :
    (Cursor.feedChunk enc conv (cursor, events) piece).toOption =
      (fed enc conv cursor.importer piece).map fun (importer, more) =>
        ({ cursor with importer, counts := importer.counts }, events ++ more) := by
  have hok : reject (inputBound < piece.length) (Records.Error.invalid "import input chunk bound") =
      .ok () := reject_eq_ok.mpr (Nat.not_lt.mpr hbound)
  unfold fed Cursor.feedChunk feed
  rw [hok, ok_bind]
  cases piece.foldlM (feedByte enc conv) (cursor.importer, []) <;> rfl

/-- The chunks of a packet come to its bytes. -/
lemma feedChunks_eq : ∀ (pieces : List Bytes) (cursor : Cursor) (events : List Event),
    (∀ piece ∈ pieces, piece.length ≤ inputBound) → pieces ≠ [] →
      (pieces.foldlM (Cursor.feedChunk enc conv) (cursor, events)).toOption =
        (fed enc conv cursor.importer pieces.flatten).map fun (importer, more) =>
          ({ cursor with importer, counts := importer.counts }, events ++ more)
  | [piece], cursor, events, hbound, _ => by
      have hpiece := feedChunk_eq enc conv cursor events (hbound piece (by simp))
      rw [List.flatten_singleton, ← hpiece, List.foldlM_cons]
      simp only [List.foldlM_nil, bind_pure]
  | piece :: next :: rest, cursor, events, hbound, _ => by
      have hpiece := feedChunk_eq enc conv cursor events (hbound piece (by simp))
      rw [List.foldlM_cons, List.flatten_cons, fed_append, toOption_bind, hpiece]
      have hrest := fun cursor events => feedChunks_eq (next :: rest) cursor events
        (fun other hother => hbound other (by simp [hother])) (by simp)
      cases fed enc conv cursor.importer piece with
      | none => rfl
      | some state =>
        simp only [Option.map_some, Option.bind_some, hrest, Option.map_map]
        cases fed enc conv state.1 (next :: rest).flatten with
        | none => rfl
        | some last => simp

/-! ## A chain of packets as the bytes of all of them -/

/-- What the end of the bytes adds. -/
def ending (importer : JsonlImporter) : Option Finish → Option ImportEmission
  | some _ => (JsonlImporter.finish enc conv importer).toOption
  | none => some ⟨[], importer.counts⟩

/-- **What some bytes come to**, whatever packets carry them: the cursor but for its chain, and the
events but for the one that closes the stream. -/
def settled (finish : Option Finish) (cursor : Cursor) (bytes : Bytes) :
    Option (Cursor × List Event) :=
  if cursor.finished.isSome ∨ 2 ^ 64 ≤ cursor.offset.toNat + bytes.length then none
  else (fed enc conv cursor.importer bytes).bind fun (importer, events) =>
    (ending enc conv importer finish).map fun emission =>
      ({ cursor with
        offset := cursor.offset + UInt64.ofNat bytes.length
        finished := finish
        importer
        counts := emission.counts }, events ++ emission.events)

/-- The event that closes the stream, where it is closed. -/
def closing (chain : String) : Option Finish → List Event
  | some finish => [finishEvent chain finish]
  | none => []

/-- An outcome under the chain value of the last packet. -/
def linked (finish : Option Finish) (chain : String) (outcome : Cursor × List Event) :
    Cursor × List Event :=
  ({ outcome.1 with chainSha256 := chain }, outcome.2 ++ closing chain finish)

variable {executionId : String} {finish : Option Finish} {cursor : Cursor} {piece : Bytes}

/-- The document of a packet holds no float. -/
lemma canonical_document (packet : Packet) : enc.Canonical packet.document := by
  have hbytes : ∀ bytes : Bytes, Json.readableItems (fun _ => false)
      (bytes.map fun byte => Json.ofNat byte.toNat) = true := by
    intro bytes
    induction bytes with
    | nil => rfl
    | cons byte bytes ih => exact Bool.and_eq_true_iff.mpr ⟨Json.readable_ofNat _, ih⟩
  refine @Encoding.canonical_of_readable enc (fun _ => false) (fun _ h => by cases h) _ ?_
  rw [Packet.document]
  refine Json.readable_object.mpr ⟨by simp, ?_⟩
  rcases packet with ⟨executionId, offset, chain, bytes, finish⟩
  cases finish with
  | none => simp [Json.readableFields, Json.readable, Json.ofOption, Json.readable_ofNat, hbytes]
  | some finish =>
    cases finish <;>
      simp [Json.readableFields, Json.readable, Json.ofOption, Finish.document,
        Json.readable_ofNat, hbytes]

/-- A packet within the bounds has a digest. -/
lemma digest_eq (hid : tokenValid executionId = true) (hchain : isSha256 cursor.chainSha256 = true)
    (hlength : piece.length ≤ MAX_BATCH) (hfilled : piece ≠ [] ∨ finish ≠ none) :
    ∃ written, enc.digest (nextPacket executionId cursor piece finish).document =
        .ok (enc.sha256 written) ∧
      (nextPacket executionId cursor piece finish).digest enc = .ok (enc.sha256 written) := by
  obtain ⟨written, hwritten⟩ :=
    canonical_document enc (nextPacket executionId cursor piece finish)
  have hdigest : enc.digest (nextPacket executionId cursor piece finish).document =
      .ok (enc.sha256 written) := by
    rw [Encoding.digest, hwritten]
    rfl
  refine ⟨written, hdigest, ?_⟩
  have hsize : ¬(piece.length > MAX_BATCH ∨ piece = [] ∧ finish = none) := by
    rintro (hlong | ⟨hempty, hnone⟩)
    · omega
    · exact hfilled.elim (fun h => h hempty) fun h => h hnone
  unfold Packet.digest
  rw [hdigest]
  unfold nextPacket
  simp only [hid, hchain, not_true_eq_false]
  rw [reject, if_neg (by simp), reject, if_neg (by simp), reject, if_neg hsize]
  rfl

/-- The end of a packet, behind its bytes. -/
lemma closed_eq (state : Cursor × List Event) (digest : String)
    (hcounts : finish = none → state.1.counts = state.1.importer.counts)
    (hopen : state.1.finished = none) :
    (Cursor.close enc conv state digest finish).toOption =
      (ending enc conv state.1.importer finish).map fun emission =>
        ({ state.1 with counts := emission.counts, finished := finish },
          state.2 ++ emission.events ++ closing digest finish) := by
  rcases state with ⟨cursor, events⟩
  cases finish with
  | none =>
    simp only at hcounts hopen
    simp [ending, closing, Cursor.close, ← hcounts, ← hopen, Except.toOption]
  | some finish =>
    simp only [ending, closing, Cursor.close]
    cases JsonlImporter.finish enc conv cursor.importer <;> rfl

/-- The bytes of a packet, chunk by chunk. -/
lemma fedChunks_eq (hfilled : piece ≠ [] ∨ finish ≠ none) :
    ∃ counts : JsonlImporter → ImportCounts, (finish = none → counts = JsonlImporter.counts) ∧
      ((chunks inputBound piece).foldlM (Cursor.feedChunk enc conv) (cursor, [])).toOption =
        (fed enc conv cursor.importer piece).map fun (importer, events) =>
          ({ cursor with importer, counts := counts importer }, events) := by
  cases piece with
  | nil =>
    refine ⟨fun _ => cursor.counts, fun hnone => ?_, ?_⟩
    · exact absurd hnone (hfilled.resolve_left (by simp))
    · rw [chunks]
      rfl
  | cons byte bytes =>
    refine ⟨JsonlImporter.counts, fun _ => rfl, ?_⟩
    have hbound := length_le_of_mem_chunks (by decide : 0 < inputBound) (byte :: bytes)
    have hnonempty : chunks inputBound (byte :: bytes) ≠ [] := by
      rw [chunks]
      exact List.cons_ne_nil _ _
    rw [feedChunks_eq enc conv _ cursor [] hbound hnonempty, chunks_flatten]
    rfl

/-- **A packet comes to its bytes**, and its digest to the chain. -/
theorem advance_of_digest {chain : String}
    (hdigest : (nextPacket executionId cursor piece finish).digest enc = .ok chain)
    (hfilled : piece ≠ [] ∨ finish ≠ none) :
    (cursor.advance enc conv (nextPacket executionId cursor piece finish)).toOption =
      (settled enc conv finish cursor piece).map (linked finish chain) := by
  obtain ⟨counts, hcounts, hfed⟩ := @fedChunks_eq _ _ enc conv finish cursor piece hfilled
  unfold Cursor.advance settled
  rw [hdigest, ok_bind]
  by_cases hfinished : cursor.finished.isSome = true
  · have hreject : reject cursor.finished.isSome (Error.mk "LOCAL_STREAM_FINISHED") =
        .error ⟨"LOCAL_STREAM_FINISHED"⟩ := if_pos hfinished
    rw [hreject, error_bind, if_pos (Or.inl hfinished)]
    rfl
  have hopen : reject cursor.finished.isSome (Error.mk "LOCAL_STREAM_FINISHED") = .ok () :=
    reject_eq_ok.mpr hfinished
  have horder : reject ((nextPacket executionId cursor piece finish).offset ≠ cursor.offset ∨
      (nextPacket executionId cursor piece finish).previousChainSha256 ≠ cursor.chainSha256)
      (Error.mk "LOCAL_STREAM_ORDER_MISMATCH") = .ok () :=
    reject_eq_ok.mpr (by simp [nextPacket])
  rw [hopen, ok_bind, horder, ok_bind, toOption_bind]
  change (((chunks inputBound piece).foldlM (Cursor.feedChunk enc conv) (cursor, [])).toOption.bind
    _) = _
  rw [hfed]
  cases hstate : fed enc conv cursor.importer piece with
  | none => simp
  | some state =>
    simp only [Option.map_some, Option.bind_some]
    rw [toOption_bind]
    change (Cursor.close enc conv _ _ finish).toOption.bind _ = _
    rw [closed_eq enc conv _ chain (fun hnone => by rw [hcounts hnone])
      (by simpa using hfinished)]
    cases ending enc conv state.1 finish with
    | none => simp
    | some emission =>
      simp only [Option.map_some, Option.bind_some]
      by_cases hoverflow : 2 ^ 64 ≤ cursor.offset.toNat + piece.length
      · rw [if_pos (Or.inr hoverflow), toOption_bind]
        have hreject : reject (2 ^ 64 ≤ cursor.offset.toNat + piece.length)
            (Error.mk "LOCAL_STREAM_INVALID") = .error ⟨"LOCAL_STREAM_INVALID"⟩ := if_pos hoverflow
        change (reject (2 ^ 64 ≤ cursor.offset.toNat + piece.length) _).toOption.bind _ = _
        rw [hreject]
        rfl
      · rw [if_neg (not_or.mpr ⟨hfinished, hoverflow⟩), toOption_bind]
        have hfits : reject (2 ^ 64 ≤ cursor.offset.toNat + piece.length)
            (Error.mk "LOCAL_STREAM_INVALID") = .ok () := if_neg hoverflow
        change (reject (2 ^ 64 ≤ cursor.offset.toNat + piece.length) _).toOption.bind _ = _
        rw [hfits]
        rfl

lemma advance_eq (hhash : ∀ bytes, isSha256 (enc.sha256 bytes) = true)
    (hid : tokenValid executionId = true) (hchain : isSha256 cursor.chainSha256 = true)
    (hlength : piece.length ≤ MAX_BATCH) (hfilled : piece ≠ [] ∨ finish ≠ none) :
    ∃ chain, isSha256 chain = true ∧
      (cursor.advance enc conv (nextPacket executionId cursor piece finish)).toOption =
        (settled enc conv finish cursor piece).map (linked finish chain) := by
  obtain ⟨written, -, hdigest⟩ := digest_eq enc hid hchain hlength hfilled
  exact ⟨_, hhash written, advance_of_digest enc conv hdigest hfilled⟩

/-- What bytes come to does not depend on the chain before them. -/
lemma settled_chain (cursor : Cursor) (bytes : Bytes) (chain : String) :
    settled enc conv finish { cursor with chainSha256 := chain } bytes =
      (settled enc conv finish cursor bytes).map fun (last, events) =>
        ({ last with chainSha256 := chain }, events) := by
  unfold settled
  dsimp only
  split_ifs with hreject
  · rfl
  · cases fed enc conv cursor.importer bytes with
    | none => rfl
    | some state =>
      simp only [Option.bind_some]
      cases ending enc conv state.1 finish <;> rfl

/-- **Bytes behind bytes** come to what both come to one after the other. -/
lemma settled_append (cursor : Cursor) (first second : Bytes) :
    settled enc conv finish cursor (first ++ second) =
      (settled enc conv none cursor first).bind fun (next, events) =>
        (settled enc conv finish next second).map fun (last, more) => (last, events ++ more) := by
  unfold settled
  rw [List.length_append, fed_append]
  by_cases hfirst : cursor.finished.isSome ∨ 2 ^ 64 ≤ cursor.offset.toNat + first.length
  · have hboth : cursor.finished.isSome ∨
        2 ^ 64 ≤ cursor.offset.toNat + (first.length + second.length) :=
      hfirst.imp_right fun h => by omega
    rw [if_pos hfirst, if_pos hboth]
    rfl
  rw [if_neg hfirst]
  have hoffset : (cursor.offset + UInt64.ofNat first.length).toNat =
      cursor.offset.toNat + first.length := by
    rw [UInt64.toNat_add, UInt64.toNat_ofNat']
    omega
  cases hstate : fed enc conv cursor.importer first with
  | none => simp
  | some state =>
    simp only [Option.bind_some, ending, Option.map_some, List.append_nil, hoffset]
    by_cases hboth : 2 ^ 64 ≤ cursor.offset.toNat + (first.length + second.length)
    · rw [if_pos (Or.inr hboth), if_pos (Or.inr (by omega))]
      rfl
    · have hopen : ¬cursor.finished.isSome := fun h => hfirst (Or.inl h)
      rw [if_neg (not_or.mpr ⟨hopen, hboth⟩), if_neg (not_or.mpr ⟨by simp, by omega⟩)]
      cases fed enc conv state.1 second with
      | none => rfl
      | some last =>
        simp only [Option.map_some, Option.bind_some, Option.map_map]
        have hsum : cursor.offset + UInt64.ofNat (first.length + second.length) =
            cursor.offset + UInt64.ofNat first.length + UInt64.ofNat second.length := by
          rw [UInt64.ofNat_add, UInt64.add_assoc]
        rw [hsum]
        simp only [Function.comp_def, List.append_assoc]

/-- **A chain of packets comes to the bytes of all of them.** -/
theorem stream_eq (hhash : ∀ bytes, isSha256 (enc.sha256 bytes) = true)
    (hid : tokenValid executionId = true) :
    ∀ (pieces : List Bytes) (cursor : Cursor), isSha256 cursor.chainSha256 = true →
      (∀ piece ∈ pieces, piece.length ≤ MAX_BATCH) → (∀ piece ∈ pieces.dropLast, piece ≠ []) →
      (finish = none → ∀ piece ∈ pieces, piece ≠ []) → pieces ≠ [] →
        ∃ chain, (stream enc conv executionId finish cursor pieces).toOption =
          (settled enc conv finish cursor pieces.flatten).map (linked finish chain)
  | [piece], cursor, hchain, hbounded, _, hfilledEnd, _ => by
      have hfilled : piece ≠ [] ∨ finish ≠ none := by
        by_cases hnone : finish = none
        · exact Or.inl (hfilledEnd hnone piece (by simp))
        · exact Or.inr hnone
      obtain ⟨chain, -, h⟩ := advance_eq enc conv hhash hid hchain (hbounded piece (by simp)) hfilled
      exact ⟨chain, by rw [List.flatten_singleton, ← h]; rfl⟩
  | piece :: next :: rest, cursor, hchain, hbounded, hfilled, hfilledEnd, _ => by
      obtain ⟨chain, hsha, h⟩ := @advance_eq _ _ enc conv executionId none cursor piece hhash hid
        hchain (hbounded piece (by simp)) (Or.inl (hfilled piece (by simp)))
      have hrest := fun cursor hchain => stream_eq hhash hid (next :: rest) cursor hchain
        (fun other hother => hbounded other (by simp [hother]))
        (fun other hother => hfilled other (by
          rw [List.dropLast_cons_of_ne_nil (by simp)]
          exact List.mem_cons_of_mem _ hother))
        (fun hnone other hother => hfilledEnd hnone other (by simp [hother])) (by simp)
      rw [List.flatten_cons, settled_append]
      rw [stream, toOption_bind, h]
      · cases hsettled : settled enc conv none cursor piece with
        | none => exact ⟨"", by simp⟩
        | some state =>
          obtain ⟨last, hlast⟩ := hrest { state.1 with chainSha256 := chain } hsha
          refine ⟨last, ?_⟩
          simp only [Option.map_some, Option.bind_some, linked, closing, List.append_nil]
          rw [toOption_bind, hlast, settled_chain]
          cases settled enc conv finish state.1 (next :: rest).flatten with
          | none => rfl
          | some outcome =>
            simp only [Option.map_some, Option.bind_some, linked]
            rw [← List.append_assoc]
            rfl
      · simp

/-! ## The main result -/

/-- A packet that does not come next is rejected. -/
lemma advance_rejects {packet : Packet} (h : cursor.finished.isSome = true ∨
    packet.offset ≠ cursor.offset ∨ packet.previousChainSha256 ≠ cursor.chainSha256) :
    ∃ e, cursor.advance enc conv packet = .error e := by
  unfold Cursor.advance
  cases packet.digest enc with
  | error e => exact ⟨e, rfl⟩
  | ok digest =>
    by_cases hfinished : cursor.finished.isSome = true
    · exact ⟨⟨"LOCAL_STREAM_FINISHED"⟩, by rw [ok_bind, reject, if_pos hfinished]; rfl⟩
    · have horder := h.resolve_left hfinished
      exact ⟨⟨"LOCAL_STREAM_ORDER_MISMATCH"⟩, by
        rw [ok_bind, reject, if_neg hfinished, ok_bind, reject, if_pos horder]; rfl⟩

/-- The cursor a stream starts from. -/
lemma chain_new {config : Json} {start : Cursor} (h : Cursor.new config = .ok start) :
    isSha256 start.chainSha256 = true := by
  obtain ⟨importer, -, hstart⟩ := bind_eq_ok.mp h
  cases hstart
  exact isSha256_ofList rfl (by decide)

end Stream

/-! ## A sampled stream -/

section Sampled

open Records (sampleConversion)

/-- The digest of one digit. -/
def sampleDigest (c : Char) : String := String.ofList (List.replicate 64 c)

/-- A hash that tells the two last packets of the sample apart. -/
def sampleEncoding : Encoding where
  floatText := fun _ => none
  sha256 := fun bytes => if bytes[12]? = some 48 then sampleDigest 'a' else sampleDigest 'b'

def sampleToken : String := String.ofList (List.replicate 32 '1')

def sampleCursor : Cursor :=
  ⟨0, INITIAL_CHAIN, none, ⟨"metrics.jsonl", .object [], 0, [], false, ⟨0, 0⟩, true⟩, ⟨0, 0⟩⟩

lemma sampleCursor_new : Cursor.new (.object []) = .ok sampleCursor := rfl

/-- Two bytes in one packet. -/
def sampleWhole : Cutting [120, 121] none where
  pieces := [[120, 121]]
  joined := rfl
  bounded := by simp [MAX_BATCH]
  filled := by simp
  filledEnd := by simp
  flagged := by simp

/-- The same bytes in two packets. -/
def sampleCut : Cutting [120, 121] none where
  pieces := [[120], [121]]
  joined := rfl
  bounded := by simp [MAX_BATCH]
  filled := by simp
  filledEnd := by simp
  flagged := by simp

lemma sampleDigest_isSha256 {c : Char} (h : isLowerHex c = true) :
    isSha256 (sampleDigest c) = true :=
  isSha256_ofList List.length_replicate (by simp [h])

lemma sampleEncoding_isSha256 (bytes : Bytes) : isSha256 (sampleEncoding.sha256 bytes) = true := by
  unfold sampleEncoding
  dsimp only
  split
  · exact sampleDigest_isSha256 (by decide)
  · exact sampleDigest_isSha256 (by decide)

lemma sampleToken_valid : tokenValid sampleToken = true := by
  have hchars : sampleToken.toList = List.replicate 32 '1' := String.toList_ofList
  simp [tokenValid, hchars, isLowerHex]

/-- A packet of the sample comes to its bytes, and the digest of its document to the chain. -/
lemma sample_advance (last : Cursor) {cursor : Cursor} {piece : Bytes} {chain : String}
    (hchain : isSha256 cursor.chainSha256 = true) (hlength : piece.length ≤ MAX_BATCH)
    (hfilled : piece ≠ [])
    (hdigest : sampleEncoding.digest (nextPacket sampleToken cursor piece none).document = .ok chain)
    (hsettled : settled sampleEncoding sampleConversion none cursor piece = some (last, [])) :
    cursor.advance sampleEncoding sampleConversion (nextPacket sampleToken cursor piece none) =
      .ok ({ last with chainSha256 := chain }, []) := by
  obtain ⟨written, hdocument, hpacket⟩ := @digest_eq sampleEncoding sampleToken none cursor piece
    sampleToken_valid hchain hlength (Or.inl hfilled)
  have hsame : sampleEncoding.sha256 written = chain :=
    Except.ok.inj (hdocument.symm.trans hdigest)
  rw [hsame] at hpacket
  have hadvance := advance_of_digest sampleEncoding sampleConversion hpacket (Or.inl hfilled)
  rw [hsettled, Option.map_some] at hadvance
  cases h : cursor.advance sampleEncoding sampleConversion
      (nextPacket sampleToken cursor piece none) with
  | error e =>
    rw [h] at hadvance
    cases hadvance
  | ok state =>
    rw [h] at hadvance
    exact congrArg Except.ok (Option.some.inj hadvance)

/-- The sampled cursor after some bytes without a newline. -/
def sampleHolding (offset : UInt64) (chain : String) (held : Bytes) : Cursor :=
  ⟨offset, chain, none, ⟨"metrics.jsonl", .object [], 0, held, false, ⟨0, 0⟩, true⟩, ⟨0, 0⟩⟩

end Sampled

end ExperimentControl.Local
