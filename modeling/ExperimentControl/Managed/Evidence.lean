import ExperimentControl.Slurm.Helper

/-!
# Worker evidence

The bounded observations of a supervised worker (`core/src/managed/evidence.rs`,
`core/src/managed/remote.rs`) and the window of a file they carry (`io/src/observations.rs`).

* `Observation`, `Window`, `Evidence` — what is observed.
* `Evidence.follows` — whether evidence may come after the evidence accepted before it.
* `window` — the window a worker reads of one of its files, and `endOf_stable`: what it holds of
  a file that did not change while it was read.
-/

namespace ExperimentControl

namespace Managed

open Slurm

/-! ## The supervised process -/

inductive Phase
  | prepared
  | started
  | finished
  deriving DecidableEq, Repr

structure Diagnostic where
  stage : String
  code : String
  deriving DecidableEq, Repr

structure ProcessEvidence where
  exitCode : Option ℤ
  terminationSignal : Option ℤ
  timedOut : Bool
  cancelled : Bool
  error : Option Diagnostic
  stdoutSha256 : Option String
  stderrSha256 : Option String
  stdoutDroppedBytes : ℕ
  stderrDroppedBytes : ℕ
  deriving DecidableEq, Repr

inductive Training
  | completed
  | failed
  | timedOut
  | cancelled
  | unknown
  deriving DecidableEq, Repr

structure Identity where
  project : String
  runId : String
  attemptId : String
  deriving DecidableEq, Repr

structure Receipt where
  contract : String
  identity : Identity
  manifestSha256 : String
  process : ProcessEvidence
  training : Training
  downloadAvailable : Bool
  runtimeEnvironmentSha256 : Option String
  deriving DecidableEq, Repr

structure Observation where
  contract : String
  identity : Identity
  manifestSha256 : String
  phase : Phase
  safeToRetry : Bool
  receipt : Option Receipt
  runtimeEnvironmentSha256 : Option String
  deriving DecidableEq, Repr

/-! ## Windows -/

def WINDOW_BYTES : ℕ := 128 * 1024

inductive Problem
  | missing
  | truncated
  | invalidUtf8
  | changed
  | unavailable
  | hashMismatch
  deriving DecidableEq, Repr

structure Window where
  text : String
  offsetBytes : ℕ
  totalBytes : ℕ
  problem : Option Problem
  deriving DecidableEq, Repr

namespace Window

def bytes (window : Window) : Bytes := utf8 window.text

/-- Where the window ends in the file. -/
def last (window : Window) : ℕ := window.offsetBytes + window.bytes.length

def unavailable (problem : Problem) : Window := ⟨"", 0, 0, some problem⟩

def validate (window : Window) : Except HelperError Unit :=
  reject (window.bytes.length > WINDOW_BYTES ∨ window.offsetBytes > window.totalBytes ∨
    window.bytes.length > window.totalBytes - window.offsetBytes ∨
    window.problem = none ∧
      (window.offsetBytes ≠ 0 ∨ window.bytes.length ≠ window.totalBytes)) .metadata

/-- A window that was read of the file, the whole or its end. -/
def Read (window : Window) : Prop :=
  window.problem = none ∨ window.problem = some .truncated

instance (window : Window) : Decidable window.Read :=
  inferInstanceAs (Decidable (_ ∨ _))

/-- Where the complete lines of a window begin: behind its first newline, unless it begins with
the file. -/
def linesStart (window : Window) : ℕ :=
  if window.offsetBytes = 0 then 0
  else match window.bytes.findIdx? (· = 10) with
    | none => window.bytes.length
    | some index => index + 1

/-- Where the complete lines of a window end: behind its last newline. -/
def linesEnd (window : Window) : ℕ :=
  match window.bytes.reverse.findIdx? (· = 10) with
  | none => 0
  | some index => window.bytes.length - index

/-- The bytes of a window between two offsets of the file. -/
def slice (window : Window) (first last : ℕ) : Bytes :=
  (window.bytes.take (last - window.offsetBytes)).drop (first - window.offsetBytes)

end Window

/-! ## Evidence -/

structure Evidence where
  contract : String
  configSha256 : String
  jobId : String
  worker : Observation
  stdout : Window
  stderr : Window
  metrics : Window
  deriving DecidableEq, Repr

def Phase.rank : Phase → ℕ
  | .prepared => 0
  | .started => 1
  | .finished => 2

namespace Evidence

/-- Evidence of one worker under one configuration, its phase not going back: the same frozen
identities, and nothing about a finished worker changed. -/
def Agrees (next previous : Evidence) : Prop :=
  next.configSha256 = previous.configSha256 ∧ next.jobId = previous.jobId ∧
    next.worker.identity = previous.worker.identity ∧
    next.worker.runtimeEnvironmentSha256 = previous.worker.runtimeEnvironmentSha256 ∧
    previous.worker.phase.rank ≤ next.worker.phase.rank ∧
    (previous.worker.phase = .finished → next.worker = previous.worker)

instance (next previous : Evidence) : Decidable (next.Agrees previous) :=
  inferInstanceAs (Decidable (_ ∧ _))

/-- The comparison of two metrics windows: the complete lines of the old one, wherever the new one
overlaps them. -/
def followsMetrics (next old : Window) : Except HelperError Unit :=
  let first := old.linesStart
  let last := old.linesEnd
  if last > first then do
    let oldStart := old.offsetBytes + first
    let oldEnd := old.offsetBytes + last
    let nextEnd := next.offsetBytes + next.bytes.length
    reject (next.offsetBytes = 0 ∧ nextEnd < oldEnd) .content
    let start := max oldStart next.offsetBytes
    let finish := min oldEnd nextEnd
    reject (start < finish ∧ old.slice start finish ≠ next.slice start finish) .content
  else .ok ()

def follows (next previous : Evidence) : Except HelperError Unit := do
  next.metrics.validate
  previous.metrics.validate
  reject (next.configSha256 ≠ previous.configSha256 ∨ next.jobId ≠ previous.jobId ∨
    next.worker.identity ≠ previous.worker.identity ∨
    next.worker.runtimeEnvironmentSha256 ≠ previous.worker.runtimeEnvironmentSha256 ∨
    next.worker.phase.rank < previous.worker.phase.rank ∨
    previous.worker.phase = .finished ∧ next.worker ≠ previous.worker) .content
  if next.metrics.Read then followsMetrics next.metrics previous.metrics else .ok ()

end Evidence

/-! ## Reading a window -/

/-- What a worker finds under the name of a file. -/
inductive Sample
  | missing
  /-- An operation on the directory or the file failed. -/
  | unavailable
  /-- A regular file of a length; the bytes a read of some length gives from an offset on; and
  whether the file was seen to change meanwhile. -/
  | regular (length : ℕ) (read : ℕ → ℕ → Bytes) (changed : Bool)

/-- The continuation bytes that a cut inside a character leaves at the front. -/
def trim (bytes : Bytes) : ℕ :=
  ((bytes.take 3).takeWhile fun b => b &&& 0xc0 = 0x80).length

/-- The end of a file, at most `size` bytes of it. -/
def endOf (size : ℕ) : Sample → Window
  | .missing => .unavailable .missing
  | .unavailable => .unavailable .unavailable
  | .regular length read changed =>
      let offset := length - size
      let bytes := read offset (size + 1)
      if bytes.length ≠ length - offset ∨ changed then .unavailable .changed
      else
        let cut := if offset > 0 then trim bytes else 0
        match fromUtf8 (bytes.drop cut) with
        | some text =>
            ⟨text, offset + cut, length, if offset + cut > 0 then some .truncated else none⟩
        | none => .unavailable .invalidUtf8

/-- The window a worker reads of a file. -/
def window (sample : Sample) : Window := endOf WINDOW_BYTES sample

/-- A file that does not change while it is read. -/
def stable (file : Bytes) : Sample :=
  .regular file.length (fun offset count => (file.drop offset).take count) false

/-- What a window read of a file holds: the file's end from the window's offset on. -/
structure Window.Of (size : ℕ) (window : Window) (file : Bytes) : Prop where
  bytes : window.bytes = file.drop window.offsetBytes
  offset : window.offsetBytes ≤ file.length
  total : window.totalBytes = file.length
  bounded : window.bytes.length ≤ size
  whole : window.problem = none → window.offsetBytes = 0

lemma trim_le (bytes : Bytes) : trim bytes ≤ bytes.length := by
  have := (List.takeWhile_sublist (l := bytes.take 3) fun b => b &&& 0xc0 = 0x80).length_le
  rw [List.length_take] at this
  exact this.trans (Nat.min_le_right _ _)

/-- A read of at most one byte more than a window takes gives the whole end of the file. -/
lemma take_drop_end (file : Bytes) (size : ℕ) :
    (file.drop (file.length - size)).take (size + 1) = file.drop (file.length - size) := by
  apply List.take_of_length_le
  rw [List.length_drop]
  omega


/-- **A window that was read of a stable file holds the end of that file.** -/
theorem endOf_stable {size : ℕ} {file : Bytes} (h : (endOf size (stable file)).Read) :
    (endOf size (stable file)).Of size file := by
  unfold stable endOf at h ⊢
  simp only [take_drop_end, List.length_drop, ne_eq, not_true_eq_false, Bool.false_eq_true,
    or_self, if_false] at h ⊢
  generalize hoffset : file.length - size = offset at h ⊢
  generalize hcut : (if offset > 0 then trim (file.drop offset) else 0) = cut at h ⊢
  rcases htext : fromUtf8 ((file.drop offset).drop cut) with _ | text
  · rw [htext] at h
    simp [Window.Read, Window.unavailable] at h
  · have hbytes := fromUtf8_eq_some.mp htext
    rw [List.drop_drop] at hbytes
    have hle : cut ≤ file.length - offset := by
      rw [← hcut]
      split_ifs
      · exact (trim_le _).trans (by rw [List.length_drop])
      · omega
    refine ⟨hbytes, by dsimp only; omega, rfl, ?_, ?_⟩
    · rw [Window.bytes, hbytes, List.length_drop]
      omega
    · dsimp only
      split_ifs with hpos
      · simp
      · intro
        omega

end Managed

end ExperimentControl
