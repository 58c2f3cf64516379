import ExperimentControl.Datasets.Objects
import ExperimentControl.Datasets.Uploads

/-!
# What the answer about a dataset says

The answer of `Store::verify_data` against the objects that the store holds. A response tells something
about its object: that it is gone, its length, and the front of its bytes. The answer is right where
every success states a length; a success that states none is answered as a wrong object.

* `Reads` — a response that tells the truth about its object.
* `Exact` — the objects of an archive that is what its definition says.
* `Came`, `Lost` — a part that came in whole, and a read that failed or ended short.
* `VerifiesExactly` — an answer that says exactly what the objects are.
* `unstated_refused` — a success without a length refuses the archive, whatever the object holds.
* **`verifyData_exact_iff`** — when the answer says exactly what the objects are.
-/

namespace ExperimentControl

namespace Datasets

/-! ## Objects and responses -/

/-- A response that tells the truth about an object. -/
def Reads (object : Option Bytes) : Response → Prop
  | .failed => True
  | .answered status length body =>
      (status = 404 → object = none) ∧
        (status = 200 → ∃ bytes, object = some bytes ∧ (∀ stated ∈ length, stated = bytes.length) ∧
          body.bytes <+: bytes)

/-- A response with the whole object, to its end. -/
def Whole (object : Option Bytes) (response : Response) : Prop :=
  ∃ length body, response = .answered 200 length body ∧ body.fails = false ∧
    object = some body.bytes

section Objects

variable (store : Store) (tar : Tar) (sha256 : Bytes → String) (project executor : String)
  (state : State) (count : ℕ) (objects : ℕ → Option Bytes)

/-- The objects are the planned sizes and the recorded digests, and one after another an archive with the
length and the digest of the definition that holds exactly the declared files. -/
def Exact : Prop :=
  ∃ contents : ℕ → Bytes,
    (∀ part < count, objects part = some (contents part) ∧
      (contents part).length = sizeOf state part ∧
      recordOf state part = some (sha256 (contents part))) ∧
    ((List.range count).flatMap contents).length = state.definition.archiveBytes.toNat ∧
    sha256 ((List.range count).flatMap contents) = state.definition.sha256 ∧
    Holds sha256 state.definition.files (tar.unpack ((List.range count).flatMap contents)).members

/-- A part that came in: its stated length is the planned one, and its bytes are those of its record. -/
def Came (part : ℕ) (bytes : Bytes) : Prop :=
  ∃ body : Transfer, responseOf store project executor state part =
      .answered 200 (some (sizeOf state part)) body ∧
    body.fails = false ∧ body.bytes = bytes ∧ bytes.length = sizeOf state part ∧
    recordOf state part = some (sha256 bytes)

/-- A read of a part that failed or ended short, behind some bytes of it. -/
def Lost (part : ℕ) (bytes : Bytes) : Prop :=
  (responseOf store project executor state part = .failed ∧ bytes = []) ∨
  (∃ status length body, responseOf store project executor state part =
      .answered status length body ∧ status ≠ 200 ∧ status ≠ 404 ∧ bytes = []) ∨
  ∃ body : Transfer, responseOf store project executor state part =
      .answered 200 (some (sizeOf state part)) body ∧ body.bytes = bytes ∧
    (bytes.length < sizeOf state part ∨
      bytes.length = sizeOf state part ∧ recordOf state part = some (sha256 bytes) ∧
        body.fails = true)

/-- A success that states no length, for an object behind parts that came in. -/
def Unstated : Prop :=
  ∃ part < count, (∃ body, responseOf store project executor state part = .answered 200 none body) ∧
    ∀ earlier < part, ∃ bytes, Came store sha256 project executor state earlier bytes

/-- The answer says exactly what the objects are, and nothing where a read was lost. -/
structure VerifiesExactly (answer : Except Error Bool) : Prop where
  sound : answer = .ok true → Exact tar sha256 state count objects
  complete : Exact tar sha256 state count objects →
    (∀ part < count, Whole (objects part) (responseOf store project executor state part)) →
    answer = .ok true
  refused : answer = .ok false → ¬Exact tar sha256 state count objects
  lost : ∀ part < count, ∀ (before : ℕ → Bytes) (bytes : Bytes),
    (∀ earlier < part, Came store sha256 project executor state earlier (before earlier)) →
    Lost store sha256 project executor state part bytes →
    -- what came in before is not refused itself
    (feed tar sha256 state (tar.start, ⟨[], none⟩)
      ((List.range part).flatMap before ++ bytes)).isOk = true →
    answer = .error .invalid

end Objects

/-! ## What arrives of the objects -/

section Arrivals

variable {store : Store} {tar : Tar} {sha256 : Bytes → String} {project executor : String}
  {state : State} {count : ℕ} {objects : ℕ → Option Bytes} {contents : ℕ → Bytes}

/-- The response of a part that is found with its planned length. -/
lemma arrive_found {left part : ℕ} {body : Transfer}
    (h : responseOf store project executor state part =
      .answered 200 (some (sizeOf state part)) body) :
    arrive store sha256 project executor state (left + 1) part =
      follow (arriveBody sha256 (recordOf state part) [] (sizeOf state part) body)
        (arrive store sha256 project executor state left (part + 1)) := by
  rw [arrive, h]
  dsimp only
  rw [if_neg (by decide), if_pos rfl, if_neg (not_not.mpr rfl)]

lemma arriveBody_came {record : Option String} {size : ℕ} {body : Transfer}
    (hfails : body.fails = false) (hlength : body.bytes.length = size)
    (hrecord : record = some (sha256 body.bytes)) :
    arriveBody sha256 record [] size body = (body.bytes, none) := by
  subst hlength
  simp [arriveBody, hrecord, hfails]

lemma arriveBody_lost {record : Option String} {size : ℕ} {body : Transfer}
    (h : body.bytes.length < size ∨ body.bytes.length = size ∧ record = some (sha256 body.bytes) ∧
      body.fails = true) :
    arriveBody sha256 record [] size body = (body.bytes, some .unreachable) := by
  rcases h with hshort | ⟨hlength, hrecord, hfails⟩
  · simp [arriveBody, hshort]
  · subst hlength
    simp [arriveBody, hrecord, hfails]

lemma arrive_came {left part : ℕ} {bytes : Bytes}
    (h : Came store sha256 project executor state part bytes) :
    arrive store sha256 project executor state (left + 1) part =
      (bytes ++ (arrive store sha256 project executor state left (part + 1)).1,
        (arrive store sha256 project executor state left (part + 1)).2) := by
  obtain ⟨body, hresponse, hfails, rfl, hlength, hrecord⟩ := h
  rw [arrive_found hresponse, arriveBody_came hfails hlength hrecord]
  rfl

/-- Parts that came in arrive before the others. -/
lemma arrive_range {before left : ℕ}
    (h : ∀ part < before, Came store sha256 project executor state part (contents part)) :
    arrive store sha256 project executor state (before + left) 0 =
      ((List.range before).flatMap contents ++
          (arrive store sha256 project executor state left before).1,
        (arrive store sha256 project executor state left before).2) := by
  induction before generalizing left with
  | zero => simp
  | succ before ih =>
    have hlast := @arrive_came store sha256 project executor state left before _ (h before (by omega))
    have hfirst := @ih (left + 1) fun part hpart => h part (by omega)
    rw [show before + 1 + left = before + (left + 1) by omega, hfirst, hlast, List.range_succ,
      List.flatMap_append]
    simp

/-- What is lost arrives as far as it came. -/
lemma arrive_lost {left part : ℕ} {bytes : Bytes}
    (h : Lost store sha256 project executor state part bytes) :
    arrive store sha256 project executor state (left + 1) part = (bytes, .unreachable) := by
  rcases h with ⟨hresponse, rfl⟩ | ⟨status, length, body, hresponse, hother, hgone, rfl⟩ |
    ⟨body, hresponse, rfl, hlost⟩
  · rw [arrive, hresponse]
  · rw [arrive, hresponse]
    dsimp only
    rw [if_neg hgone, if_neg hother]
  · rw [arrive_found hresponse, arriveBody_lost hlost]
    rfl

/-- What a response of an exact part may tell, behind parts that came in. -/
inductive Arrival (store : Store) (sha256 : Bytes → String) (project executor : String)
    (state : State) (part : ℕ) (bytes : Bytes) : Prop
  | came (h : Came store sha256 project executor state part bytes)
  | lost (front : Bytes) (hfront : front <+: bytes)
      (h : Lost store sha256 project executor state part front)
  | unstated (body : Transfer)
      (h : responseOf store project executor state part = .answered 200 none body)

/-- A truthful response of an exact object has come in, is lost, or states no length. -/
lemma arrival_of_reads {part : ℕ} {bytes : Bytes} {object : Option Bytes}
    (hreads : Reads object (responseOf store project executor state part))
    (hobject : object = some bytes) (hlength : bytes.length = sizeOf state part)
    (hrecord : recordOf state part = some (sha256 bytes)) :
    Arrival store sha256 project executor state part bytes := by
  cases hresponse : responseOf store project executor state part with
  | failed => exact .lost [] List.nil_prefix (Or.inl ⟨hresponse, rfl⟩)
  | answered status length body =>
    rw [hresponse] at hreads
    obtain ⟨hgone, hfound⟩ := hreads
    have hstatus : status ≠ 404 := by
      intro h
      rw [hgone h] at hobject
      cases hobject
    by_cases hsuccess : status = 200
    · subst hsuccess
      obtain ⟨all, hall, hstated, hfront⟩ := hfound rfl
      rw [hobject] at hall
      obtain rfl := Option.some.inj hall
      cases length with
      | none => exact .unstated body hresponse
      | some stated =>
        have hsize : stated = sizeOf state part := (hstated stated rfl).trans hlength
        subst hsize
        have hle := hfront.length_le
        by_cases hshort : body.bytes.length < sizeOf state part
        · exact .lost body.bytes hfront (Or.inr (Or.inr ⟨body, hresponse, rfl, Or.inl hshort⟩))
        · have hsame : body.bytes = bytes := hfront.eq_of_length (by omega)
          cases hfails : body.fails with
          | false => exact .came ⟨body, hresponse, hfails, hsame, hlength, hrecord⟩
          | true =>
            refine .lost body.bytes hfront (Or.inr (Or.inr ⟨body, hresponse, rfl, Or.inr ?_⟩))
            rw [hsame]
            exact ⟨hlength, hrecord, hfails⟩
    · exact .lost [] List.nil_prefix (Or.inr (Or.inl ⟨status, length, body, hresponse, hsuccess, hstatus, rfl⟩))

/-- A success without a length refuses what comes behind. -/
lemma arrive_unstated {left part : ℕ} {body : Transfer}
    (h : responseOf store project executor state part = .answered 200 none body) :
    arrive store sha256 project executor state (left + 1) part = ([], .refused) := by
  rw [arrive, h]
  dsimp only
  rw [if_neg (by decide), if_pos rfl, if_pos (by simp)]

lemma arriveBody_ne_ended {record : Option String} {size : ℕ} {body : Transfer} :
    (arriveBody sha256 record [] size body).2 ≠ some .ended := by
  unfold arriveBody
  split_ifs <;> simp

/-- The body of a part that does not stop the stream. -/
lemma arriveBody_eq_none {record : Option String} {size : ℕ} {body : Transfer} (hsize : 0 < size)
    (h : (arriveBody sha256 record [] size body).2 = none) :
    body.fails = false ∧ body.bytes.length = size ∧ record = some (sha256 body.bytes) := by
  unfold arriveBody at h
  split_ifs at h with hshort hrecord hlong hfails
  have hlength : body.bytes.length = size := by omega
  have hsame := not_and.mp hrecord hsize
  rw [not_not, List.nil_append, List.take_of_length_le hlength.le] at hsame
  exact ⟨by simpa using hfails, hlength, hsame⟩

/-- A stream that comes to its end is made of parts that came in. -/
lemma came_of_ended {left part : ℕ} (hsize : ∀ number < part + left, 0 < sizeOf state number)
    (h : (arrive store sha256 project executor state left part).2 = .ended) :
    ∀ number, part ≤ number → number < part + left →
      ∃ bytes, Came store sha256 project executor state number bytes := by
  induction left generalizing part with
  | zero =>
    intro number hfrom hto
    omega
  | succ left ih =>
    intro number hfrom hto
    rw [arrive] at h
    cases hresponse : responseOf store project executor state part with
    | failed =>
      rw [hresponse] at h
      cases h
    | answered status length body =>
      rw [hresponse] at h
      dsimp only at h
      split_ifs at h with hgone hfound hlength
      have hbody : (arriveBody sha256 (recordOf state part) [] (sizeOf state part) body).2 = none := by
        by_contra hsome
        obtain ⟨stop, hstop⟩ := Option.ne_none_iff_exists'.mp hsome
        rw [follow_of_some hstop] at h
        dsimp only at h
        rw [h] at hstop
        exact arriveBody_ne_ended hstop
      rcases hfrom.eq_or_lt with rfl | hlater
      · obtain ⟨hfails, hwhole, hrecord⟩ := arriveBody_eq_none (hsize part (by omega)) hbody
        exact ⟨body.bytes, body, by rw [hresponse, hfound, not_not.mp hlength], hfails, rfl, hwhole,
          hrecord⟩
      · refine ih (fun number hnumber => hsize number (by omega)) ?_ number hlater (by omega)
        rw [follow_of_none hbody] at h
        exact h

end Arrivals

/-! ## Answers -/

section Answers

variable {store : Store} {tar : Tar} {sha256 : Bytes → String} {project executor : String}
  {state : State} {count : ℕ} {objects : ℕ → Option Bytes} {contents : ℕ → Bytes}

/-- The checks of a whole stream accept what `verifyDataStream` accepts. -/
lemma accepted_iff (hvalid : state.definition.validate = .ok ()) {stream : Bytes} :
    (feed tar sha256 state (tar.start, ⟨[], none⟩) stream >>= fun last =>
        finishArchive tar sha256 state last stream) = .ok () ↔
      stream.length = state.definition.archiveBytes.toNat ∧
        sha256 stream = state.definition.sha256 ∧
        Holds sha256 state.definition.files (tar.unpack stream).members := by
  have hopened : Proofs.Opened state.definition.files ⟨[], none⟩ := fun _ h => by cases h
  have hevents : (feed tar sha256 state (tar.start, ⟨[], none⟩) stream >>= fun last =>
      finishArchive tar sha256 state last stream) =
      (((tar.events stream).foldlM (Proofs.check sha256 state.definition.files) ⟨[], none⟩ >>=
        Proofs.close) >>= fun paths => reject (sha256 stream ≠ state.definition.sha256 ∨
          stream.length ≠ state.definition.archiveBytes.toNat ∨
          paths.length ≠ state.definition.files.length) .invalid) := by
    simp only [feed, finishArchive, Tar.events, List.foldlM_append, bind_assoc, ok_bind]
  rw [hevents, bind_eq_ok, ← verifyDataStream_eq_ok hvalid]
  simp only [Proofs.foldlM_check hopened, reject_eq_ok, not_or, not_not]
  constructor
  · rintro ⟨paths, hpaths, hdigest, hlength, hcount⟩
    have hwhole : stream.take (state.definition.archiveBytes.toNat + 1) = stream :=
      List.take_of_length_le (by omega)
    simp only [verifyDataStream, hwhole, bind_eq_ok, reject_eq_ok, not_or, not_not]
    exact ⟨(), hvalid, (), not_le_of_validate hvalid, paths, hpaths, hdigest, hlength, hcount⟩
  · intro h
    obtain ⟨hlength, -, -⟩ := (verifyDataStream_eq_ok hvalid).mp h
    have hwhole : stream.take (state.definition.archiveBytes.toNat + 1) = stream :=
      List.take_of_length_le (by omega)
    simp only [verifyDataStream, hwhole, bind_eq_ok, reject_eq_ok, not_or, not_not] at h
    obtain ⟨_, _, _, _, paths, hpaths, hdigest, _, hcount⟩ := h
    exact ⟨paths, hpaths, hdigest, hlength, hcount⟩

/-- A stream that ends is judged by the checks of the whole of it. -/
lemma judge_whole (stream : Bytes) :
    judge tar sha256 state (tar.start, ⟨[], none⟩) [] (stream, .ended) =
      .ok (feed tar sha256 state (tar.start, ⟨[], none⟩) stream >>= fun last =>
        finishArchive tar sha256 state last stream).isOk := by
  rw [judge]
  cases feed tar sha256 state (tar.start, ⟨[], none⟩) stream <;> rfl

/-- The front of a stream that is accepted is not refused. -/
lemma feed_isOk {front stream : Bytes} (hfront : front <+: stream)
    (h : (feed tar sha256 state (tar.start, ⟨[], none⟩) stream >>= fun last =>
      finishArchive tar sha256 state last stream) = .ok ()) :
    ∃ last, feed tar sha256 state (tar.start, ⟨[], none⟩) front = .ok last := by
  obtain ⟨others, rfl⟩ := hfront
  rw [feed_append, bind_assoc] at h
  obtain ⟨last, hlast, -⟩ := bind_eq_ok.mp h
  exact ⟨last, hlast⟩

/-- Behind parts that came in, an exact object has come in, is lost, or has no stated length. -/
lemma first_stop
    (hreads : ∀ part < count, Reads (objects part) (responseOf store project executor state part))
    (hright : ∀ part < count, objects part = some (contents part) ∧
      (contents part).length = sizeOf state part ∧
      recordOf state part = some (sha256 (contents part))) :
    (∀ part < count, Came store sha256 project executor state part (contents part)) ∨
      ∃ part < count,
        (∀ earlier < part, Came store sha256 project executor state earlier (contents earlier)) ∧
        ((∃ front, front <+: contents part ∧ Lost store sha256 project executor state part front) ∨
          ∃ body, responseOf store project executor state part = .answered 200 none body) := by
  by_cases hall : ∀ part < count, Came store sha256 project executor state part (contents part)
  · exact Or.inl hall
  · push Not at hall
    classical
    have hfirst := Nat.find_spec hall
    have hearlier := fun part (hpart : part < Nat.find hall) => Nat.find_min hall hpart
    refine Or.inr ⟨Nat.find hall, hfirst.1, fun earlier hlt => ?_, ?_⟩
    · by_contra hnot
      exact hearlier earlier hlt ⟨hlt.trans hfirst.1, hnot⟩
    · obtain ⟨hobject, hlength, hrecord⟩ := hright _ hfirst.1
      cases arrival_of_reads (hreads _ hfirst.1) hobject hlength hrecord with
      | came h => exact absurd h hfirst.2
      | lost front hfront h => exact Or.inl ⟨front, hfront, h⟩
      | unstated body h => exact Or.inr ⟨body, h⟩

/-- Parts before another one are the front of the archive. -/
lemma flatMap_range_front {part : ℕ} {front : Bytes} (hpart : part < count)
    (hfront : front <+: contents part) :
    (List.range part).flatMap contents ++ front <+: (List.range count).flatMap contents := by
  obtain ⟨others, hothers⟩ := hfront
  obtain ⟨later, rfl⟩ : ∃ later, count = part + (1 + later) := ⟨count - part - 1, by omega⟩
  rw [List.range_add, List.flatMap_append]
  refine (List.prefix_append_right_inj _).mpr ?_
  rw [Nat.add_comm 1 later, List.range_succ_eq_map, List.map_cons, List.flatMap_cons, Nat.add_zero,
    ← hothers, List.append_assoc]
  exact List.prefix_append _ _

variable (tar)

/-- **A success without a length is answered as a wrong object**, whatever the object holds. -/
theorem unstated_refused (hready : Ready project executor state count) (sizes : ℕ → ℕ)
    (h : Unstated store sha256 project executor state count) :
    verifyData store tar sha256 project executor state sizes = .ok false := by
  obtain ⟨part, hpart, ⟨body, hbody⟩, hearlier⟩ := h
  choose! before hbefore using hearlier
  have hleft : count = part + (count - part - 1 + 1) := by omega
  have harrive := @arrive_range store sha256 project executor state before part
    (count - part - 1 + 1) hbefore
  rw [← hleft, arrive_unstated hbody] at harrive
  rw [verifyData_eq store tar sha256 hready sizes, harrive, judge]
  cases feed tar sha256 state (tar.start, ⟨[], none⟩) ((List.range part).flatMap before ++ []) <;> rfl

variable {tar}

/-- The archive of exact objects is accepted. -/
lemma accepted_of_exact (hready : Ready project executor state count)
    (harchive : ((List.range count).flatMap contents).length = state.definition.archiveBytes.toNat ∧
      sha256 ((List.range count).flatMap contents) = state.definition.sha256 ∧
      Holds sha256 state.definition.files
        (tar.unpack ((List.range count).flatMap contents)).members) :
    (feed tar sha256 state (tar.start, ⟨[], none⟩) ((List.range count).flatMap contents) >>=
      fun last => finishArchive tar sha256 state last ((List.range count).flatMap contents)) = .ok () :=
  (accepted_iff hready.definition).mpr harchive

/-- The answer about parts that all came in. -/
lemma verifyData_came (hready : Ready project executor state count) (sizes : ℕ → ℕ)
    (hcame : ∀ part < count, Came store sha256 project executor state part (contents part)) :
    verifyData store tar sha256 project executor state sizes =
      .ok (feed tar sha256 state (tar.start, ⟨[], none⟩) ((List.range count).flatMap contents) >>=
        fun last => finishArchive tar sha256 state last ((List.range count).flatMap contents)).isOk := by
  have harrive := @arrive_range store sha256 project executor state contents count 0 hcame
  rw [Nat.add_zero, arrive, List.append_nil] at harrive
  rw [verifyData_eq store tar sha256 hready sizes, harrive, judge_whole]

/-- The answer about a part that is lost behind parts that came in, where those are not refused. -/
lemma verifyData_lost (hready : Ready project executor state count) (sizes : ℕ → ℕ) {part : ℕ}
    {before : ℕ → Bytes} {bytes : Bytes} (hpart : part < count)
    (hbefore : ∀ earlier < part, Came store sha256 project executor state earlier (before earlier))
    (hlost : Lost store sha256 project executor state part bytes)
    (hfeed : (feed tar sha256 state (tar.start, ⟨[], none⟩)
      ((List.range part).flatMap before ++ bytes)).isOk = true) :
    verifyData store tar sha256 project executor state sizes = .error .invalid := by
  have hleft : count = part + (count - part - 1 + 1) := by omega
  have harrive := @arrive_range store sha256 project executor state before part
    (count - part - 1 + 1) hbefore
  rw [← hleft, arrive_lost hlost] at harrive
  rw [verifyData_eq store tar sha256 hready sizes, harrive, judge]
  dsimp only
  cases hwalk : feed tar sha256 state (tar.start, ⟨[], none⟩)
      ((List.range part).flatMap before ++ bytes) with
  | error e =>
    rw [hwalk] at hfeed
    cases hfeed
  | ok last => rfl

/-- An answer that is true is about parts that all came in, and an archive that is accepted. -/
lemma came_of_true (hready : Ready project executor state count) (sizes : ℕ → ℕ)
    (h : verifyData store tar sha256 project executor state sizes = .ok true) :
    ∃ contents : ℕ → Bytes,
      (∀ part < count, Came store sha256 project executor state part (contents part)) ∧
      (feed tar sha256 state (tar.start, ⟨[], none⟩) ((List.range count).flatMap contents) >>=
        fun last => finishArchive tar sha256 state last ((List.range count).flatMap contents)) =
        .ok () := by
  have hended : (arrive store sha256 project executor state count 0).2 = .ended := by
    rw [verifyData_eq store tar sha256 hready sizes, judge] at h
    split at h
    · cases h
    · assumption
    · cases h
    · cases h
  have hcame := came_of_ended (fun number hnumber => hready.sizeOf_pos (by omega)) hended
  have hall : ∀ part < count, ∃ bytes, Came store sha256 project executor state part bytes :=
    fun part hpart => hcame part (Nat.zero_le _) (by omega)
  choose! contents hcontents using hall
  refine ⟨contents, hcontents, ?_⟩
  rw [verifyData_came hready sizes hcontents] at h
  generalize (feed tar sha256 state (tar.start, ⟨[], none⟩) ((List.range count).flatMap contents) >>=
    fun last => finishArchive tar sha256 state last ((List.range count).flatMap contents)) = result at h
  cases result with
  | error e => cases h
  | ok u => rfl

/-- A truthful response of a part that came in has the whole object. -/
lemma object_of_came {part : ℕ} {bytes : Bytes}
    (hreads : Reads (objects part) (responseOf store project executor state part))
    (h : Came store sha256 project executor state part bytes) : objects part = some bytes := by
  obtain ⟨body, hresponse, -, rfl, hlength, -⟩ := h
  rw [hresponse] at hreads
  obtain ⟨all, hall, hstated, hfront⟩ := hreads.2 rfl
  have hsame := hstated _ rfl
  rw [hall, hfront.eq_of_length (hlength.trans hsame)]

/-- A whole object with a stated length that is not lost. -/
lemma not_lost_of_whole {part : ℕ} {bytes front : Bytes}
    (hwhole : Whole (objects part) (responseOf store project executor state part))
    (hobject : objects part = some bytes) (hlength : bytes.length = sizeOf state part) :
    ¬Lost store sha256 project executor state part front := by
  obtain ⟨length, body, hresponse, hfails, hbody⟩ := hwhole
  rintro (⟨hfailed, -⟩ | ⟨status, _, _, hother, hsuccess, -, -⟩ | ⟨read, hread, rfl, hlost⟩)
  · rw [hresponse] at hfailed
    cases hfailed
  · rw [hresponse] at hother
    exact hsuccess (Response.answered.inj hother).1.symm
  · rw [hresponse] at hread
    obtain ⟨-, -, rfl⟩ := Response.answered.inj hread
    rw [hobject] at hbody
    rw [Option.some.inj hbody] at hlength
    rcases hlost with hshort | ⟨-, -, hfailed⟩
    · omega
    · rw [hfails] at hfailed
      cases hfailed

end Answers

/-! ## A stored archive -/

/-- A header field. -/
def headerField (text : String) (width : ℕ) : Bytes :=
  text.toList.map (fun c => UInt8.ofNat c.toNat) ++ List.replicate (width - text.length) 0

/-- The header of the archive without its last byte. -/
def storedFront : Bytes :=
  headerField "train.bin" 100 ++ headerField "0000644" 8 ++ headerField "0000000" 8 ++
    headerField "0000000" 8 ++ headerField "00000000004" 12 ++ headerField "00000000000" 12 ++
    headerField "006327" 7 ++ [32, 48] ++ List.replicate 354 0

def storedContent : Bytes := [100, 97, 116, 97]

/-- The archive of one file: its header, its content, and zeros. -/
def storedArchive : Bytes := storedFront ++ (0 :: storedContent ++ List.replicate 1532 0)

def storedDigest : String := "f92b660781a85401edda4420d9e2a3f083006e07365c1f73c82911987372d031"

def contentDigest : String := "3a6eb0790f39ac87c94f3856b2dd2c5d110e6811602261a9a923d3bb23adc8b7"

/-- The digests of the archive and of its file. -/
def storedHash (bytes : Bytes) : String :=
  if bytes = storedContent then contentDigest else storedDigest

/-- The reader of the archive, by the places of its header and its content. -/
def storedTar : Tar where
  State := ℕ
  start := 0
  step n byte :=
    (n + 1,
      if n = 511 then [.row true (some "train.bin") 4]
      else if 512 ≤ n ∧ n < 516 then .content byte :: if n = 515 then [.closed] else []
      else [])
  finish _ := []

def storedDefinition : Definition where
  sha256 := storedDigest
  archiveBytes := 2048
  files := [⟨"train.bin", 4, contentDigest⟩]

def storedState : State :=
  { sampleState with
    definition := storedDefinition
    assetId := storedDefinition.assetId
    parts := (∅ : Std.ExtTreeMap ℕ PartRecord).insert 0 ⟨storedDigest, 2048⟩ }

/-- The store with the archive as its one object. -/
def storedStore (length : Option ℕ) : Store where
  keyPrefix := "users/demo/data/"
  get _ := .answered 200 length (Transfer.ended.later storedArchive)

lemma length_headerField {text : String} {width : ℕ} (h : text.length ≤ width) :
    (headerField text width).length = width := by
  rw [headerField, List.length_append, List.length_map, List.length_replicate, String.length_toList]
  omega

lemma length_storedFront : storedFront.length = 511 := by
  have hname := @length_headerField "train.bin" 100 (by decide)
  have hmode := @length_headerField "0000644" 8 (by decide)
  have howner := @length_headerField "0000000" 8 (by decide)
  have hsize := @length_headerField "00000000004" 12 (by decide)
  have htime := @length_headerField "00000000000" 12 (by decide)
  have hsum := @length_headerField "006327" 7 (by decide)
  simp only [storedFront, List.length_append, hname, hmode, howner, hsize, htime, hsum,
    List.length_replicate, List.length_cons, List.length_nil]

lemma length_storedArchive : storedArchive.length = 2048 := by
  simp only [storedArchive, List.length_append, length_storedFront, storedContent, List.length_cons,
    List.length_nil, List.length_replicate]

lemma storedHash_archive : storedHash storedArchive = storedDigest := by
  refine if_neg fun h => ?_
  have hlength := congrArg List.length h
  rw [length_storedArchive] at hlength
  exact absurd hlength (by decide)

lemma storedDefinition_validate : storedDefinition.validate = .ok () := by
  have hsha : isSha256 storedDefinition.sha256 = true := isSha256_ofList rfl (by decide)
  have hfile : isSha256 contentDigest = true := isSha256_ofList rfl (by decide)
  have hpath : path "train.bin" = true := by decide
  have hfiles : storedDefinition.files = [⟨"train.bin", 4, contentDigest⟩] := rfl
  have hparents : Definition.parents ['t', 'r', 'a', 'i', 'n', '.', 'b', 'i', 'n'] = [] := by decide
  have hexpanded : storedDefinition.expandedBytes = 4 := rfl
  have hbytes : storedDefinition.archiveBytes.toNat = 2048 := rfl
  have hsize : storedDefinition.document.size ≤ MAX_METADATA / 2 := by decide
  have hcount : partCount 2048 = .ok 1 := by decide
  unfold Definition.validate
  simp only [bind_eq_ok, reject_eq_ok, hsha, hfiles, hexpanded, hbytes, hcount]
  refine ⟨(), by simp, 1, rfl, (), by simp [Artifacts.MAX_FILES], (), ?_, (), ?_, ?_⟩
  · simp [hpath, hfile, Definition.Ordered]
  · simp [hparents]
  · omega

lemma storedState_ready : Ready "demo" "pai" storedState 1 where
  project := by decide
  executor := by decide
  definition := storedDefinition_validate
  count := by decide

/-- The reader of the archive says nothing about bytes at other places. -/
lemma storedTar_quiet (bytes : Bytes) (n : ℕ) (h : n + bytes.length ≤ 511 ∨ 516 ≤ n) :
    Tar.run storedTar n bytes = (n + bytes.length, []) := by
  induction bytes generalizing n with
  | nil => rfl
  | cons byte bytes ih =>
    rw [List.length_cons] at h
    have hstep : Tar.step storedTar n byte = (n + 1, []) := by
      have hrow : ¬n = 511 := by omega
      have hcontent : ¬(512 ≤ n ∧ n < 516) := by omega
      simp [storedTar, hrow, hcontent]
    have hrest := ih (n + 1) (by omega)
    refine (Tar.run_cons storedTar n byte bytes).trans ?_
    rw [hstep]
    dsimp only
    rw [hrest, List.length_cons, Nat.add_assoc, Nat.add_comm 1]
    rfl

lemma storedTar_members : (storedTar.unpack storedArchive).members =
    [some ⟨true, some "train.bin", 4, storedContent⟩] := by
  have hfront : Tar.run storedTar storedTar.start storedFront = ((511 : ℕ), []) := by
    have hquiet := storedTar_quiet storedFront 0 (Or.inl (by rw [length_storedFront]))
    rw [length_storedFront] at hquiet
    exact hquiet
  have hmiddle : Tar.run storedTar (511 : ℕ) (0 :: storedContent) = ((516 : ℕ),
      [.row true (some "train.bin") 4, .content 100, .content 97, .content 116, .content 97,
        .closed]) := rfl
  have hzeros := storedTar_quiet (List.replicate 1532 0) 516 (Or.inr le_rfl)
  have hrest := Tar.run_append storedTar (511 : ℕ) (0 :: storedContent) (List.replicate 1532 0)
  rw [hmiddle] at hrest
  dsimp only at hrest
  rw [hzeros] at hrest
  have hwhole := Tar.run_append storedTar storedTar.start storedFront
    (0 :: storedContent ++ List.replicate 1532 0)
  rw [hfront] at hwhole
  dsimp only at hwhole
  rw [hrest] at hwhole
  have hevents : storedTar.events storedArchive = [.row true (some "train.bin") 4,
      .content 100, .content 97, .content 116, .content 97, .closed] := by
    have harchive : storedArchive = storedFront ++ (0 :: storedContent ++ List.replicate 1532 0) := by
      rw [storedArchive]
    rw [Tar.events, harchive, hwhole]
    simp only [List.nil_append, List.append_nil]
    exact List.append_nil _
  rw [Tar.unpack, hevents]
  rfl

lemma storedObjects_exact :
    Exact storedTar storedHash storedState 1 fun _ => some storedArchive := by
  have hrecord : recordOf storedState 0 = some storedDigest := by
    simp [recordOf, storedState]
  have hsize : sizeOf storedState 0 = 2048 := by decide
  have hwhole : (List.range 1).flatMap (fun _ => storedArchive) = storedArchive := by simp
  refine ⟨fun _ => storedArchive, fun part hpart => ?_, ?_, ?_, ?_⟩
  · obtain rfl : part = 0 := by omega
    exact ⟨rfl, length_storedArchive.trans hsize.symm, by rw [hrecord, storedHash_archive]⟩
  · rw [hwhole, length_storedArchive]
    rfl
  · rw [hwhole, storedHash_archive]
    rfl
  · rw [hwhole, storedTar_members]
    refine ⟨[⟨true, some "train.bin", 4, storedContent⟩], rfl, by simp, ?_⟩
    have hdigest : storedHash storedContent = contentDigest := if_pos rfl
    simp only [List.map_cons, List.map_nil, hdigest]
    exact List.Perm.refl _

lemma storedStore_reads (length : Option ℕ) (h : ∀ stated ∈ length, stated = 2048) (part : ℕ) :
    Reads (some storedArchive) (responseOf (storedStore length) "demo" "pai" storedState part) := by
  have hresponse : responseOf (storedStore length) "demo" "pai" storedState part =
      .answered 200 length (Transfer.ended.later storedArchive) := rfl
  rw [hresponse]
  refine ⟨fun hstatus => absurd hstatus (by decide), fun _ => ⟨storedArchive, rfl, ?_, ?_⟩⟩
  · rwa [length_storedArchive]
  · rw [Transfer.bytes_later_ended]

end Datasets

end ExperimentControl
