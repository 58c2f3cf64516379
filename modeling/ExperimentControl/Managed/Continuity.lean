import ExperimentControl.Managed.Evidence

/-!
# Continuity of metric evidence

Evidence that follows other evidence is compared with it on the complete lines both windows cover.
The comparison accepts whatever an append-only file gives. It also refuses a file that got shorter
than the lines already seen, but only where the new window begins with the file: a window of the
end of a file is accepted although the file was cut below them.

* `Window.SameLines`, `Window.Kept` — the complete lines of a window are still there.
* `followsMetrics_eq_ok` — what the comparison of two windows accepts.
* **`follows_continues`** — append-only files are accepted; and accepted evidence keeps every
  complete line exactly where the oversight is not met.
* `shortened_file_accepted` — a file cut from 300000 to 200000 bytes is accepted.
-/

namespace ExperimentControl

namespace Managed

open Slurm

namespace Window

/-- Every byte of the old window's complete lines that the new window covers is the same there. -/
def SameLines (next old : Window) : Prop :=
  ∀ at_, old.offsetBytes + old.linesStart ≤ at_ → at_ < old.offsetBytes + old.linesEnd →
    next.offsetBytes ≤ at_ → at_ < next.last →
    next.bytes[at_ - next.offsetBytes]? = old.bytes[at_ - old.offsetBytes]?

/-- No complete line of the old window was changed, or lost with the end of the file. -/
structure Kept (next old : Window) : Prop where
  same : next.SameLines old
  long : old.linesStart < old.linesEnd → old.offsetBytes + old.linesEnd ≤ next.totalBytes

/-- The oversight: a window that begins behind the start of a file which was cut below the old
window's complete lines, and otherwise agrees with them. -/
structure Shortened (next old : Window) : Prop where
  valid : next.validate = .ok () ∧ old.validate = .ok ()
  read : next.Read
  lines : old.linesStart < old.linesEnd
  behind : 0 < next.offsetBytes
  short : next.totalBytes < old.offsetBytes + old.linesEnd
  same : next.SameLines old

/-! ## Slices and lines -/

lemma linesEnd_le (window : Window) : window.linesEnd ≤ window.bytes.length := by
  unfold linesEnd
  split
  · exact Nat.zero_le _
  · exact Nat.sub_le _ _

lemma getElem?_slice {window : Window} {first last : ℕ} (h : window.offsetBytes ≤ first)
    (index : ℕ) :
    (window.slice first last)[index]? =
      if first + index < last then window.bytes[first + index - window.offsetBytes]? else none := by
  have hindex : first - window.offsetBytes + index = first + index - window.offsetBytes := by omega
  rw [slice, List.getElem?_drop, List.getElem?_take, hindex]
  have hiff : first + index - window.offsetBytes < last - window.offsetBytes ↔
      first + index < last := by omega
  simp only [hiff]

/-- Two slices agree when the windows agree byte by byte. -/
lemma slice_eq_iff {one other : Window} {first last : ℕ} (hone : one.offsetBytes ≤ first)
    (hother : other.offsetBytes ≤ first) :
    one.slice first last = other.slice first last ↔
      ∀ at_, first ≤ at_ → at_ < last →
        other.bytes[at_ - other.offsetBytes]? = one.bytes[at_ - one.offsetBytes]? := by
  constructor
  · rintro heq at_ hfirst hlast
    have hat := congrArg (fun bytes => bytes[at_ - first]?) heq
    rw [getElem?_slice hone, getElem?_slice hother, Nat.add_sub_cancel' hfirst, if_pos hlast,
      if_pos hlast] at hat
    exact hat.symm
  · intro hsame
    refine List.ext_getElem? fun index => ?_
    rw [getElem?_slice hone, getElem?_slice hother]
    split_ifs with hlast
    · exact (hsame _ (Nat.le_add_right _ _) hlast).symm
    · rfl

lemma last_le_total {window : Window} (h : window.validate = .ok ()) :
    window.last ≤ window.totalBytes := by
  rw [validate, reject_eq_ok] at h
  rw [last]
  omega

/-- A window of a file passes its check. -/
lemma Of.validate_eq_ok {window : Window} {file : Bytes} (h : window.Of WINDOW_BYTES file) :
    window.validate = .ok () := by
  have hlength : window.bytes.length = file.length - window.offsetBytes := by
    rw [h.bytes, List.length_drop]
  have hoffset := h.offset
  have htotal := h.total
  have hbounded := h.bounded
  rw [validate, reject_eq_ok]
  rintro (hlong | hoff | hover | ⟨hnone, hoff⟩)
  · omega
  · omega
  · omega
  · have := h.whole hnone
    omega

/-- The bytes of a window of a file are the file's. -/
lemma Of.getElem?_bytes {size : ℕ} {window : Window} {file : Bytes} (h : window.Of size file) {at_ : ℕ}
    (hat : window.offsetBytes ≤ at_) :
    window.bytes[at_ - window.offsetBytes]? = file[at_]? := by
  rw [h.bytes, List.getElem?_drop, Nat.add_sub_cancel' hat]

lemma Of.last_eq {size : ℕ} {window : Window} {file : Bytes} (h : window.Of size file) :
    window.last = file.length := by
  have hoffset := h.offset
  rw [last, h.bytes, List.length_drop]
  omega

end Window

/-! ## What is accepted -/

namespace Evidence

open Window

/-- **The comparison of two windows**: a window that begins with the file reaches behind the old
lines, and the windows agree on them wherever both cover them. -/
theorem followsMetrics_eq_ok {next old : Window} :
    followsMetrics next old = .ok () ↔
      (old.linesStart < old.linesEnd →
        (next.offsetBytes = 0 → old.offsetBytes + old.linesEnd ≤ next.last) ∧
          next.SameLines old) := by
  unfold followsMetrics
  dsimp only
  split_ifs with hlines
  · have hstart : old.offsetBytes ≤ max (old.offsetBytes + old.linesStart) next.offsetBytes := by
      omega
    have hslice := @slice_eq_iff _ _ _
      (min (old.offsetBytes + old.linesEnd) (next.offsetBytes + next.bytes.length)) hstart (Nat.le_max_right (old.offsetBytes + old.linesStart) next.offsetBytes)
    rw [bind_eq_ok]
    simp only [reject_eq_ok, not_and, not_lt, ne_eq, not_not]
    constructor
    · rintro ⟨⟨⟩, hreach, hsame⟩ -
      refine ⟨hreach, ?_⟩
      rintro at_ hold hend hnext hlast
      rw [Window.last] at hlast
      exact hslice.mp (hsame (by omega)) at_ (by omega) (by omega)
    · intro h
      obtain ⟨hreach, hsame⟩ := h hlines
      refine ⟨(), hreach, fun _ => hslice.mpr ?_⟩
      rintro at_ hfirst hlast
      exact hsame at_ (by omega) (by omega) (by omega) (by rw [Window.last]; omega)
  · exact ⟨fun _ h => absurd h hlines, fun _ => rfl⟩

/-- Evidence that agrees with the evidence before it is accepted by its windows. -/
lemma follows_eq_ok {next previous : Evidence} (h : next.Agrees previous) :
    next.follows previous = .ok () ↔
      next.metrics.validate = .ok () ∧ previous.metrics.validate = .ok () ∧
        (next.metrics.Read → followsMetrics next.metrics previous.metrics = .ok ()) := by
  obtain ⟨hconfig, hjob, hidentity, hruntime, hphase, hfinished⟩ := h
  have hguard : ¬(next.configSha256 ≠ previous.configSha256 ∨ next.jobId ≠ previous.jobId ∨
      next.worker.identity ≠ previous.worker.identity ∨
      next.worker.runtimeEnvironmentSha256 ≠ previous.worker.runtimeEnvironmentSha256 ∨
      next.worker.phase.rank < previous.worker.phase.rank ∨
      previous.worker.phase = .finished ∧ next.worker ≠ previous.worker) := by
    simp only [not_or, not_not, not_lt, not_and]
    exact ⟨hconfig, hjob, hidentity, hruntime, hphase, hfinished⟩
  unfold follows
  simp only [bind_eq_ok, reject_eq_ok, hguard, not_false_eq_true, true_and]
  constructor
  · rintro ⟨⟨⟩, hnext, ⟨⟩, hprevious, ⟨⟩, hmetrics⟩
    refine ⟨hnext, hprevious, fun hread => ?_⟩
    rwa [if_pos hread] at hmetrics
  · rintro ⟨hnext, hprevious, hmetrics⟩
    refine ⟨(), hnext, (), hprevious, (), ?_⟩
    split_ifs with hread
    · exact hmetrics hread
    · rfl

/-- What a file grown by an append gives is accepted. -/
lemma follows_of_append {next previous : Evidence} (h : next.Agrees previous)
    {file appended : Bytes} (hold : previous.metrics.Of WINDOW_BYTES file)
    (hnew : next.metrics.Of WINDOW_BYTES (file ++ appended)) : next.follows previous = .ok () := by
  rw [follows_eq_ok h]
  refine ⟨hnew.validate_eq_ok, hold.validate_eq_ok, fun _ => followsMetrics_eq_ok.mpr ?_⟩
  have hend := previous.metrics.linesEnd_le
  have holdLast := hold.last_eq
  rw [Window.last] at holdLast
  refine fun _ => ⟨fun _ => ?_, ?_⟩
  · rw [hnew.last_eq, List.length_append]
    omega
  · rintro at_ hstart hfinish hnext -
    rw [hnew.getElem?_bytes hnext, hold.getElem?_bytes (by omega),
      List.getElem?_append_left (by omega)]

/-- Accepted windows of which the new one lost lines. -/
lemma shortened_accepted {next previous : Evidence} (hagrees : next.Agrees previous)
    (h : next.metrics.Shortened previous.metrics) :
    next.follows previous = .ok () ∧ ¬next.metrics.Kept previous.metrics := by
  have hbehind := h.behind
  have hshort := h.short
  constructor
  · refine (follows_eq_ok hagrees).mpr ⟨h.valid.1, h.valid.2, fun _ => ?_⟩
    exact followsMetrics_eq_ok.mpr fun _ => ⟨fun hzero => by omega, h.same⟩
  · rintro hkept
    have hlong := hkept.long h.lines
    omega

/-- **Continuity of metric evidence.** Windows of one append-only file are accepted at any two
moments. Accepted evidence keeps every complete line of the window before it, exactly unless the
new window begins behind the start of a file that was cut below those lines. -/
theorem follows_continues (previous next : Evidence) (h : next.Agrees previous) :
    (∀ file appended, previous.metrics = window (stable file) →
      next.metrics = window (stable (file ++ appended)) →
      previous.metrics.Read → next.metrics.Read → next.follows previous = .ok ()) ∧
    ((next.follows previous = .ok () → next.metrics.Read →
        next.metrics.Kept previous.metrics) ↔
      ¬next.metrics.Shortened previous.metrics) := by
  constructor
  · rintro file appended hold hnew hreadOld hreadNew
    rw [hold] at hreadOld
    rw [hnew] at hreadNew
    exact follows_of_append h (by rw [hold]; exact endOf_stable hreadOld)
      (by rw [hnew]; exact endOf_stable hreadNew)
  · constructor
    · rintro hkept hshort
      obtain ⟨haccepted, hlost⟩ := shortened_accepted h hshort
      exact hlost (hkept haccepted hshort.read)
    · rintro hshort hfollows hread
      obtain ⟨hnext, hprevious, hmetrics⟩ := (follows_eq_ok h).mp hfollows
      have haccepted := followsMetrics_eq_ok.mp (hmetrics hread)
      have hlast := last_le_total hnext
      by_cases hlines : previous.metrics.linesStart < previous.metrics.linesEnd
      · obtain ⟨hreach, hsame⟩ := haccepted hlines
        refine ⟨hsame, fun _ => ?_⟩
        by_contra hless
        rcases Nat.eq_zero_or_pos next.metrics.offsetBytes with hzero | hpos
        · have := hreach hzero
          omega
        · exact hshort ⟨⟨hnext, hprevious⟩, hread, hlines, hpos, by omega, hsame⟩
      · exact ⟨fun at_ hstart hfinish => by omega, fun hlines' => absurd hlines' hlines⟩

/-! ## A file that was cut -/

lemma utf8_newlines (count : ℕ) :
    utf8 (String.ofList (List.replicate count '\n')) = List.replicate count 10 := by
  rw [utf8_eq, String.toList_ofList]
  induction count with
  | zero => rfl
  | succ count ih =>
    rw [List.replicate_succ, List.flatMap_cons, ih, List.replicate_succ]
    rfl

lemma trim_newlines (count : ℕ) : trim (List.replicate count 10) = 0 := by
  rw [trim, List.take_replicate]
  rcases min 3 count with _ | size
  · rfl
  · rw [List.replicate_succ, List.takeWhile_cons_of_neg (by decide), List.length_nil]

/-- The end of a file of newlines. -/
lemma endOf_newlines {size count : ℕ} (h : size < count) :
    endOf size (stable (List.replicate count 10)) =
      ⟨String.ofList (List.replicate size '\n'), count - size, count, some .truncated⟩ := by
  have htext : fromUtf8 (List.replicate size 10) =
      some (String.ofList (List.replicate size '\n')) := fromUtf8_eq_some.mpr (utf8_newlines size)
  have hdrop : (List.replicate count (10 : UInt8)).drop (count - size) =
      List.replicate size 10 := by
    rw [List.drop_replicate, Nat.sub_sub_self h.le]
  have hall := take_drop_end (List.replicate count (10 : UInt8)) size
  rw [List.length_replicate, hdrop] at hall
  have hpos : 0 < count - size := by omega
  simp only [endOf, stable, List.length_replicate, hdrop, hall, Nat.sub_sub_self h.le, ne_eq,
    not_true_eq_false, Bool.false_eq_true, or_self, if_false, gt_iff_lt, if_pos hpos,
    trim_newlines, List.drop_zero, htext, Nat.add_zero]

/-- Evidence of one running worker whose metrics file has `count` bytes, all of them newlines. -/
def sampleEvidence (count : ℕ) : Evidence where
  contract := "managed-worker-observation.v1"
  configSha256 := "c"
  jobId := "j"
  worker := ⟨"rust-managed-launch.v1", ⟨"p", "r", "attempt-001"⟩, "m", .started, false, none, none⟩
  stdout := .unavailable .missing
  stderr := .unavailable .missing
  metrics := window (stable (List.replicate count 10))

lemma sampleEvidence_agrees (count later : ℕ) :
    (sampleEvidence later).Agrees (sampleEvidence count) :=
  ⟨rfl, rfl, rfl, rfl, le_rfl, fun _ => rfl⟩

/-- The window of a long file of newlines: where it is, and where its lines are. -/
structure Newlines (size count : ℕ) (window : Window) : Prop where
  bytes : window.bytes = List.replicate size 10
  offset : window.offsetBytes = count - size
  total : window.totalBytes = count
  problem : window.problem = some .truncated
  linesStart : window.linesStart = 1
  linesEnd : window.linesEnd = size

lemma newlines_endOf {size count : ℕ} (hsize : 0 < size) (h : size < count) :
    Newlines size count (endOf size (stable (List.replicate count 10))) := by
  obtain ⟨size, rfl⟩ : ∃ n, size = n + 1 := ⟨size - 1, by omega⟩
  rw [endOf_newlines h]
  have hbytes : ∀ offset problem, (Window.mk (String.ofList (List.replicate (size + 1) '\n'))
      offset count problem).bytes = List.replicate (size + 1) 10 :=
    fun _ _ => utf8_newlines (size + 1)
  have hfind : (List.replicate (size + 1) (10 : UInt8)).findIdx? (· = 10) = some 0 := by
    rw [List.replicate_succ, List.findIdx?_cons]
    rfl
  refine ⟨hbytes _ _, rfl, rfl, rfl, ?_, ?_⟩
  · rw [linesStart, hbytes, hfind, if_neg (by dsimp only; omega)]
  · rw [linesEnd, hbytes, List.reverse_replicate, hfind]
    simp

/-- The end of a long file of newlines agrees with the end of a longer one on its lines. -/
lemma shortened_newlines {size count later : ℕ} (hsize : 1 < size) (hbound : size ≤ WINDOW_BYTES)
    (hlater : size < later) (h : later < count) :
    (endOf size (stable (List.replicate later 10))).Shortened
      (endOf size (stable (List.replicate count 10))) := by
  have hnext := newlines_endOf (by omega) hlater
  have hold := newlines_endOf (by omega) (hlater.trans h)
  generalize endOf size (stable (List.replicate later 10)) = next at hnext ⊢
  generalize endOf size (stable (List.replicate count 10)) = old at hold ⊢
  have hvalid : ∀ {window : Window} {count : ℕ}, Newlines size count window → size < count →
      window.validate = .ok () := by
    rintro window count hwindow hcount
    rw [Window.validate, reject_eq_ok, hwindow.bytes, hwindow.offset, hwindow.total,
      hwindow.problem, List.length_replicate]
    simp only [reduceCtorEq, false_and, or_false]
    omega
  refine ⟨⟨hvalid hnext hlater, hvalid hold (hlater.trans h)⟩, Or.inr hnext.problem, ?_, ?_, ?_, ?_⟩
  · rw [hold.linesStart, hold.linesEnd]
    omega
  · rw [hnext.offset]
    omega
  · rw [hnext.total, hold.offset, hold.linesEnd]
    omega
  · rintro at_ hstart hfinish hfirst hlast
    rw [Window.last, hnext.bytes, List.length_replicate] at hlast
    rw [hold.linesEnd] at hfinish
    rw [hnext.bytes, hold.bytes, List.getElem?_replicate, List.getElem?_replicate,
      if_pos (by omega), if_pos (by omega)]

lemma sampleEvidence_metrics (count : ℕ) : (sampleEvidence count).metrics =
    endOf WINDOW_BYTES (stable (List.replicate count 10)) := by
  simp only [sampleEvidence, window]

lemma sampleEvidence_shortened {count later : ℕ} (hlater : WINDOW_BYTES < later)
    (h : later < count) :
    (sampleEvidence later).metrics.Shortened (sampleEvidence count).metrics := by
  have hsize : 1 < WINDOW_BYTES := by
    unfold WINDOW_BYTES
    omega
  have hshort := @shortened_newlines WINDOW_BYTES count later hsize (Nat.le_refl _) hlater h
  rwa [sampleEvidence_metrics, sampleEvidence_metrics]

lemma sampleEvidence_cut {count later : ℕ} (hlater : WINDOW_BYTES < later) (h : later < count) :
    (sampleEvidence later).Agrees (sampleEvidence count) ∧ (sampleEvidence later).metrics.Read ∧
      (sampleEvidence later).follows (sampleEvidence count) = .ok () ∧
      ¬(sampleEvidence later).metrics.Kept (sampleEvidence count).metrics := by
  have hagrees := sampleEvidence_agrees count later
  have hshort := sampleEvidence_shortened hlater h
  exact ⟨hagrees, hshort.read, shortened_accepted hagrees hshort⟩

/-- **A file that was cut is accepted.** A metrics file of 300000 bytes is observed again with
200000 bytes: the evidence is accepted, and 100000 bytes of complete lines are gone. -/
theorem shortened_file_accepted :
    (sampleEvidence 200000).Agrees (sampleEvidence 300000) ∧
      (sampleEvidence 200000).metrics.Read ∧
      (sampleEvidence 200000).follows (sampleEvidence 300000) = .ok () ∧
      ¬(sampleEvidence 200000).metrics.Kept (sampleEvidence 300000).metrics := by
  have hlater : WINDOW_BYTES < 200000 := by
    unfold WINDOW_BYTES
    omega
  exact sampleEvidence_cut hlater (by omega)

theorem follows_continues_sampled :
    ¬((sampleEvidence 200000).follows (sampleEvidence 300000) = .ok () →
        (sampleEvidence 200000).metrics.Read →
        (sampleEvidence 200000).metrics.Kept (sampleEvidence 300000).metrics) := by
  have hshort := @sampleEvidence_shortened 300000 200000 (by unfold WINDOW_BYTES; omega) (by omega)
  exact fun hkept => (follows_continues (sampleEvidence 300000) (sampleEvidence 200000)
    (sampleEvidence_agrees 300000 200000)).2.mp hkept hshort

end Evidence

end Managed

end ExperimentControl
