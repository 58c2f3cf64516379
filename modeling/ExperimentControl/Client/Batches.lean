import ExperimentControl.Json.Records

/-!
# Batch dispatch

`dispatch` of `client/src/batch.rs` and `occupied` of `core/src/preparation.rs`: one pass over the
rows of a saved batch, which sends at most one execute request for each Submission, behind a claim
file, and stops when `max_active` rows are occupied.

* `occupied`, `dispatch` — one pass, and what it sends.
* `Claims`, `History` — what the batch directory holds, and the views that were seen.
* `Counted` — the claimed rows further down leave a slot too, wherever the pass sends.
* **`active_within_limit`** — passes that count so keep the limit, and send once.
* `claimed_row_behind` — a pass that counts a claimed row too late exceeds it.
-/

namespace ExperimentControl

namespace Client

/-! ## Rows -/

/-- `preparation::MAX_BATCH`. -/
def MAX_BATCH : ℕ := 256

/-- `Value::pointer` along some names. -/
def pointer : List String → Json → Option Json
  | [], value => some value
  | name :: names, value => (value.get name).bind (pointer names)

/-- The scheduler state of a Submission. -/
def schedulerState (submission : Json) : Option Json :=
  (pointer ["cloud_observation", "observation", "state"] submission).or
    (pointer ["execution", "result", "observation", "status", "state"] submission)

/-- Exact terminal evidence. -/
def terminal (submission : Json) : Bool :=
  ((schedulerState submission).bind Json.asStr).any fun state =>
    state ∈ ["SUCCEEDED", "FAILED", "CANCELLED", "TIMEOUT", "PREEMPTED"]

def submissionOf (row : Json) : Json := row.index "submission"

/-- A Submission whose gate was not used. -/
def isPrepared (row : Json) : Bool := (submissionOf row).index "status" = .string "PREPARED"

/-- The gate has expired. -/
def isExpired (row : Json) : Bool := (submissionOf row).index "next_action" = .string "REPREPARE"

/-- `preparation::occupied`. -/
def occupied (row : Json) : Bool :=
  if row.index "status" = .string "UNKNOWN" then true
  else if (submissionOf row).isNull then false
  else if isPrepared row then false
  else !terminal (submissionOf row)

/-- The Submission a row shows. -/
def actionOf (row : Json) : Option String := ((submissionOf row).index "submission_id").asStr

/-- The confirmation that executes it. -/
def confirmationOf (row : Json) : Option String := ((submissionOf row).index "confirmation").asStr

/-! ## One pass -/

/-- What a batch directory holds, and the execute requests that were sent for its children. -/
structure Claims where
  files : List String
  sent : List (ℕ × String)
  deriving DecidableEq, Repr

inductive DispatchError
  | invalid
  | execute
  deriving DecidableEq, Repr

/-- How far a pass gets with a row that it would send. -/
inductive Outcome
  /-- A file operation fails, or the pass stops, before there is a claim. -/
  | refused
  /-- There is a claim, and nothing was sent. -/
  | claimed
  /-- The request was sent, and the pass ends. -/
  | failed
  | executed (submission : Json)

/-- What a pass returns: its rows and how many slots are occupied. -/
abbrev Dispatched := Except DispatchError (List Json × ℕ)

/-- A row in front of what a pass returns for the rest. -/
def withRow (row : Json) (rest : Claims × Dispatched) : Claims × Dispatched :=
  (rest.1, rest.2.map fun (rows, active) => (row :: rows, active))

/-- The walk over the rows, from the child with a number on. -/
def dispatchRows (maxActive : ℕ) : ℕ → ℕ → Claims → List (Json × Outcome) → Claims × Dispatched
  | _, active, claims, [] => (claims, .ok ([], active))
  | child, active, claims, (row, outcome) :: rest =>
      if active ≥ maxActive then (claims, .ok (((row, outcome) :: rest).map Prod.fst, active))
      else if ¬isPrepared row then
        withRow row (dispatchRows maxActive (child + 1) active claims rest)
      else match actionOf row, confirmationOf row with
        | some action, some _ =>
          if isExpired row then
            withRow (row.set "diagnostic"
                (.string "GATE_EXPIRED; nothing was sent; see `ml-exp run renew --help`"))
              (dispatchRows maxActive (child + 1) active claims rest)
          else if action ∈ claims.files then
            withRow (row.set "diagnostic" (.string
                "DISPATCH_ALREADY_REQUESTED; inspect or reconcile the original Submission"))
              (dispatchRows maxActive (child + 1) (active + 1) claims rest)
          else match outcome with
            | .refused => (claims, .error .invalid)
            | .claimed => ({ claims with files := action :: claims.files }, .error .invalid)
            | .failed => (⟨action :: claims.files, (child, action) :: claims.sent⟩, .error .execute)
            | .executed submission =>
                withRow (row.set "submission" submission)
                  (dispatchRows maxActive (child + 1) (active + 1)
                    ⟨action :: claims.files, (child, action) :: claims.sent⟩ rest)
        | _, _ => (claims, .error .invalid)

/-- How many of some rows are occupied. -/
def occupiedRows (rows : List Json) : ℕ := rows.countP occupied

def dispatch (maxActive : ℕ) (claims : Claims) (rows : List (Json × Outcome)) :
    Claims × Dispatched :=
  if 1 ≤ maxActive ∧ maxActive ≤ MAX_BATCH then
    dispatchRows maxActive 0 (occupiedRows (rows.map Prod.fst)) claims rows
  else (claims, .error .invalid)

/-! ## Passes one after another -/

/-- A batch directory, and the Submissions that a view has shown to be over. -/
structure History where
  claims : Claims
  ended : List String
  deriving DecidableEq, Repr

/-- A view shows that a Submission is over: it is terminal or still PREPARED past its gate, or the
row shows the Submission that replaced it. -/
def showsEnded (row : Json) (action : String) : Bool :=
  (actionOf row).any fun shown =>
    shown ≠ action ∨ (if isPrepared row then isExpired row else !occupied row)

/-- The Submissions that are over behind one more view. -/
def endedAfter (history : History) (rows : List Json) : List String :=
  history.ended ++ (history.claims.sent.filter fun (child, action) =>
    (rows[child]?).any fun row => showsEnded row action).map Prod.snd

/-- A view that has not lost an active child: its row is occupied, or shows it still PREPARED. -/
def Holding (row : Json) (action : String) : Prop :=
  occupied row = true ∨
    isPrepared row = true ∧ isExpired row = false ∧ actionOf row = some action ∧
      (confirmationOf row).isSome = true

instance (row : Json) (action : String) : Decidable (Holding row action) :=
  inferInstanceAs (Decidable (_ ∨ _))

/-- The children with a request that was sent and is not known to be over. -/
def active (history : History) : Finset ℕ :=
  ((history.claims.sent.filter fun (_, action) => action ∉ history.ended).map Prod.fst).toFinset

/-- A view loses active children only by evidence that they are over. -/
def Honest (history : History) (rows : List Json) : Prop :=
  ∀ request ∈ history.claims.sent, request.2 ∉ endedAfter history rows →
    ∃ row, rows[request.1]? = some row ∧ Holding row request.2

/-- What a pass makes of the history. -/
def History.after (history : History) (maxActive : ℕ) (rows : List (Json × Outcome)) : History where
  claims := (dispatch maxActive history.claims rows).1
  ended := endedAfter history (rows.map Prod.fst)

/-- Passes of one batch with one limit, over views that lose active children only by evidence.  A
pass that stops is one whose outcomes end it there. -/
inductive Passes (allowed : History → List Json → Prop) (maxActive : ℕ) : History → Prop
  | start : Passes allowed maxActive ⟨⟨[], []⟩, []⟩
  | pass {history : History} (rows : List (Json × Outcome)) (before : Passes allowed maxActive history)
      (honest : Honest history (rows.map Prod.fst)) (may : allowed history (rows.map Prod.fst)) :
      Passes allowed maxActive (history.after maxActive rows)

/-! ## The claimed rows -/

/-- A row that a pass would look at the claim of. -/
def isReady (row : Json) : Bool :=
  isPrepared row ∧ !isExpired row ∧ (actionOf row).isSome ∧ (confirmationOf row).isSome

/-- A row whose claim is there already. -/
def isClaimed (files : List String) (row : Json) : Bool :=
  isReady row ∧ (actionOf row).any fun action => action ∈ files

/-- A row that a pass would send. -/
def isFresh (files : List String) (row : Json) : Bool :=
  isReady row ∧ (actionOf row).any fun action => action ∉ files

/-- **The claimed rows are counted**: where the rows so far leave a slot for a row to be sent, the
claimed rows behind it leave one as well. -/
def Counted (maxActive : ℕ) (history : History) (rows : List Json) : Prop :=
  ∀ before row behind, rows = before ++ row :: behind → isFresh history.claims.files row = true →
    occupiedRows rows + before.countP (isClaimed history.claims.files) +
        before.countP (isFresh history.claims.files) < maxActive →
    occupiedRows rows + rows.countP (isClaimed history.claims.files) +
        before.countP (isFresh history.claims.files) < maxActive

/-! ## What a pass sends -/

/-- A row that is fresh for more claims is fresh for fewer. -/
lemma isFresh_of_cons (files : List String) (action : String) (row : Json)
    (fresh : isFresh (action :: files) row = true) : isFresh files row = true := by
  simp only [isFresh, Option.any_eq_true, decide_eq_true_eq] at fresh ⊢
  have ⟨ready, shown, named, absent⟩ := fresh
  exact ⟨ready, shown, named, fun there => absent (List.mem_cons_of_mem _ there)⟩

/-- Each ready row is claimed or fresh. -/
lemma countP_ready (files : List String) (rows : List Json) :
    rows.countP isReady = rows.countP (isClaimed files) + rows.countP (isFresh files) := by
  induction rows with
  | nil => simp
  | cons row rows ih =>
    simp only [List.countP_cons, ih]
    by_cases ready : isReady row = true
    · have named : (actionOf row).isSome = true := by
        simp only [isReady, decide_eq_true_eq] at ready
        exact ready.2.2.1
      have ⟨action, shown⟩ := Option.isSome_iff_exists.mp named
      by_cases there : action ∈ files <;>
        simp [isClaimed, isFresh, ready, shown, there] <;> omega
    · simp [isClaimed, isFresh, ready]

/-- Where a pass with a limit that sends some requests sends the last of them. -/
def LastSend (maxActive active : ℕ) (files : List String) (rows : List Json) (sends : ℕ) : Prop :=
  ∃ before row behind, rows = before ++ row :: behind ∧ isFresh files row = true ∧
    active + before.countP isReady < maxActive ∧ sends ≤ before.countP (isFresh files) + 1

/-- The rest of a pass behind a row that sends nothing. -/
lemma LastSend.behind {maxActive active next : ℕ} {files : List String} {rows : List Json}
    {sends : ℕ} (row : Json) (counted : next = active + if isReady row then 1 else 0)
    (last : LastSend maxActive next files rows sends) :
    LastSend maxActive active files (row :: rows) sends := by
  have ⟨before, fresh, behind, split, isFresh, room, bound⟩ := last
  refine ⟨row :: before, fresh, behind, by simp [split], isFresh, ?_, ?_⟩
  · simp only [List.countP_cons]
    omega
  · simp only [List.countP_cons]
    omega

/-- The rest of a pass behind a row that is sent. -/
lemma LastSend.sent {maxActive active : ℕ} {files : List String} {rows : List Json} {sends : ℕ}
    (row : Json) (action : String) (ready : isReady row = true) (fresh : isFresh files row = true)
    (last : LastSend maxActive (active + 1) (action :: files) rows sends) :
    LastSend maxActive active files (row :: rows) (sends + 1) := by
  have ⟨before, next, behind, split, nextFresh, room, bound⟩ := last
  have fewer : before.countP (isFresh (action :: files)) ≤ before.countP (isFresh files) :=
    List.countP_mono_left fun row _ => isFresh_of_cons files action row
  refine ⟨row :: before, next, behind, by simp [split], isFresh_of_cons files action next nextFresh,
    ?_, ?_⟩
  · simp only [List.countP_cons, ready, if_true]
    omega
  · simp only [List.countP_cons, fresh, if_true]
    omega

/-- The first request of a pass, and the last one so far. -/
lemma LastSend.first {maxActive active : ℕ} {files : List String} (row : Json) (rest : List Json)
    (room : active < maxActive) (fresh : isFresh files row = true) :
    LastSend maxActive active files (row :: rest) 1 :=
  ⟨[], row, rest, by simp, fresh, by simpa using room, by simp⟩

/-- A row that is looked up in the claims. -/
lemma isReady_of {row : Json} {action execute : String} (prepared : ¬¬isPrepared row = true)
    (confirmed : confirmationOf row = some execute) (named : actionOf row = some action)
    (live : ¬isExpired row = true) : isReady row = true := by
  simp only [not_not] at prepared
  simp [isReady, prepared, confirmed, named, live]

/-- A pass sends nothing, or its last request leaves at the row that `LastSend` says. -/
lemma dispatchRows_sends (maxActive child active : ℕ) (claims : Claims)
    (rows : List (Json × Outcome)) :
    ∃ sends, (dispatchRows maxActive child active claims rows).1.sent = sends ++ claims.sent ∧
      (sends = [] ∨ LastSend maxActive active claims.files (rows.map Prod.fst) sends.length) := by
  fun_induction dispatchRows maxActive child active claims rows with
  | case1 child active claims => exact ⟨[], by simp⟩
  | case2 child active claims row outcome rest full => exact ⟨[], by simp⟩
  | case3 child active claims row outcome rest room passed ih =>
    have ⟨sends, split, last⟩ := ih
    refine ⟨sends, by simpa [withRow] using split, last.imp_right fun last => ?_⟩
    exact last.behind row (by simp [isReady, passed])
  | case4 child active claims row outcome rest room prepared action execute confirmed named expired
      ih =>
    have ⟨sends, split, last⟩ := ih
    refine ⟨sends, by simpa [withRow] using split, last.imp_right fun last => ?_⟩
    exact last.behind row (by simp [isReady, expired])
  | case5 child active claims row outcome rest room prepared action execute confirmed named live
      there ih =>
    have ⟨sends, split, last⟩ := ih
    refine ⟨sends, by simpa [withRow] using split, last.imp_right fun last => ?_⟩
    exact last.behind row (by simp [isReady_of prepared confirmed named live])
  | case6 child active claims row rest room prepared action execute confirmed named live absent =>
    exact ⟨[], by simp⟩
  | case7 child active claims row rest room prepared action execute confirmed named live absent =>
    exact ⟨[], by simp⟩
  | case8 child active claims row rest room prepared action execute confirmed named live absent =>
    have ready := isReady_of prepared confirmed named live
    have fresh : isFresh claims.files row = true := by simp [isFresh, ready, named, absent]
    exact ⟨[(child, action)], by simp, .inr (LastSend.first row _ (by omega) fresh)⟩
  | case9 child active claims row rest room prepared action execute confirmed named live absent
      submission ih =>
    have ready := isReady_of prepared confirmed named live
    have fresh : isFresh claims.files row = true := by simp [isFresh, ready, named, absent]
    have ⟨sends, split, last⟩ := ih
    refine ⟨sends ++ [(child, action)], by simpa [withRow] using split, .inr ?_⟩
    rcases last with none | last
    · subst none
      exact LastSend.first row _ (by omega) fresh
    · simpa using last.sent row action ready fresh
  | case10 child active claims row outcome rest room prepared unnamed => exact ⟨[], by simp⟩

/-! ## One request for each Submission -/

/-- Each request has its claim, and no other request has the same. -/
structure Once (claims : Claims) : Prop where
  claimed : ∀ request ∈ claims.sent, request.2 ∈ claims.files
  once : (claims.sent.map Prod.snd).Nodup

/-- A request behind a new claim. -/
lemma Once.send {claims : Claims} {child : ℕ} {action : String} (once : Once claims)
    (absent : action ∉ claims.files) :
    Once ⟨action :: claims.files, (child, action) :: claims.sent⟩ := by
  constructor
  · intro request there
    rcases List.mem_cons.mp there with rfl | there
    · simp
    · exact List.mem_cons_of_mem _ (once.claimed request there)
  · simp only [List.map_cons, List.nodup_cons]
    refine ⟨fun there => ?_, once.once⟩
    have ⟨request, sent, same⟩ := List.mem_map.mp there
    exact absent (same ▸ once.claimed request sent)

lemma dispatchRows_once (maxActive child active : ℕ) (claims : Claims)
    (rows : List (Json × Outcome)) (once : Once claims) :
    Once (dispatchRows maxActive child active claims rows).1 := by
  fun_induction dispatchRows maxActive child active claims rows with
  | case1 child active claims => exact once
  | case2 child active claims row outcome rest full => exact once
  | case3 child active claims row outcome rest room passed ih => exact ih once
  | case4 child active claims row outcome rest room prepared action execute confirmed named expired
      ih => exact ih once
  | case5 child active claims row outcome rest room prepared action execute confirmed named live
      there ih => exact ih once
  | case6 child active claims row rest room prepared action execute confirmed named live absent =>
    exact once
  | case7 child active claims row rest room prepared action execute confirmed named live absent =>
    exact ⟨fun request there => List.mem_cons_of_mem _ (once.claimed request there), once.once⟩
  | case8 child active claims row rest room prepared action execute confirmed named live absent =>
    exact once.send absent
  | case9 child active claims row rest room prepared action execute confirmed named live absent
      submission ih => exact ih (once.send absent)
  | case10 child active claims row outcome rest room prepared unnamed => exact once

lemma dispatch_once (maxActive : ℕ) (claims : Claims) (rows : List (Json × Outcome))
    (once : Once claims) : Once (dispatch maxActive claims rows).1 := by
  unfold dispatch
  split
  · exact dispatchRows_once maxActive 0 _ claims rows once
  · exact once

/-! ## The active children -/

/-- Some positions of a list, each of a value with some property, are no more than those values. -/
lemma card_positions_le {α : Type} (p : α → Bool) (xs : List α) (positions : Finset ℕ)
    (there : ∀ i ∈ positions, ∃ x, xs[i]? = some x ∧ p x = true) :
    positions.card ≤ xs.countP p := by
  have within : positions ⊆ ((List.finRange xs.length).toFinset.filter
      fun i => p (xs.get i) = true).map Fin.valEmbedding := by
    intro i member
    have ⟨x, shown, holds⟩ := there i member
    have ⟨bound, same⟩ := List.getElem?_eq_some_iff.mp shown
    simp only [Finset.mem_map, Finset.mem_filter, List.mem_toFinset, List.mem_finRange, true_and]
    exact ⟨⟨i, bound⟩, by simpa [same] using holds, by simp⟩
  calc positions.card
    _ ≤ _ := Finset.card_le_card within
    _ = (List.finRange xs.length).countP (p ∘ xs.get) := by
        rw [Finset.card_map, (List.nodup_finRange _).card_eq_countP]
        simp [Function.comp_def]
    _ = xs.countP p := by rw [← List.countP_map, List.map_get_finRange]

/-- A view that shows its active children shows each in a row that is occupied or claimed. -/
lemma held_card (history : History) (rows : List Json) (once : Once history.claims)
    (honest : Honest history rows) :
    ((history.claims.sent.filter fun (_, action) => action ∉ endedAfter history rows).map
        Prod.fst).toFinset.card ≤
      occupiedRows rows + rows.countP (isClaimed history.claims.files) := by
  have shown := card_positions_le
    (fun row => occupied row || isClaimed history.claims.files row) rows
    ((history.claims.sent.filter fun (_, action) => action ∉ endedAfter history rows).map
        Prod.fst).toFinset ?_
  · refine shown.trans ?_
    unfold occupiedRows
    clear shown honest once
    induction rows with
    | nil => simp
    | cons row rows ih =>
      simp only [List.countP_cons] at ih ⊢
      by_cases busy : occupied row = true <;>
        by_cases claimed : isClaimed history.claims.files row = true <;>
        simp only [busy, claimed] <;> simp <;> omega
  · intro child member
    simp only [List.mem_toFinset, List.mem_map, List.mem_filter, decide_eq_true_eq] at member
    have ⟨⟨_, action⟩, ⟨sent, live⟩, same⟩ := member
    subst same
    have ⟨row, there, held⟩ := honest _ sent live
    refine ⟨row, there, ?_⟩
    simp only [Bool.or_eq_true]
    rcases held with busy | ⟨prepared, live, named, confirmed⟩
    · exact .inl busy
    · right
      have ready : isReady row = true := by simp [isReady, prepared, live, named, confirmed]
      simp [isClaimed, ready, named, once.claimed _ sent]

/-- One pass keeps the limit where it counts the claimed rows. -/
lemma active_after (maxActive : ℕ) (history : History) (rows : List (Json × Outcome))
    (once : Once history.claims) (honest : Honest history (rows.map Prod.fst))
    (counted : Counted maxActive history (rows.map Prod.fst))
    (within : (active history).card ≤ maxActive) :
    (active (history.after maxActive rows)).card ≤ maxActive := by
  have walk := dispatchRows_sends maxActive 0 (occupiedRows (rows.map Prod.fst)) history.claims rows
  have ⟨sends, split, last⟩ : ∃ sends,
      (dispatch maxActive history.claims rows).1.sent = sends ++ history.claims.sent ∧
      (sends = [] ∨ LastSend maxActive (occupiedRows (rows.map Prod.fst)) history.claims.files
        (rows.map Prod.fst) sends.length) := by
    unfold dispatch
    split
    · exact walk
    · exact ⟨[], by simp⟩
  have held := held_card history (rows.map Prod.fst) once honest
  have fewer : ∀ action, action ∉ endedAfter history (rows.map Prod.fst) → action ∉ history.ended :=
    fun action live there => live (List.mem_append_left _ there)
  rcases last with none | last
  · -- nothing is sent: the children that are active behind the pass were so before it
    refine (Finset.card_le_card ?_).trans within
    intro child member
    simp only [active, History.after, split, none, List.nil_append, List.mem_toFinset, List.mem_map,
      List.mem_filter, decide_eq_true_eq] at member ⊢
    have ⟨request, ⟨sent, live⟩, same⟩ := member
    exact ⟨request, ⟨sent, fewer _ (of_decide_eq_true live)⟩, same⟩
  · -- what was sent before holds a row, and each request of the pass adds at most one
    have ⟨before, row, behind, rowsSplit, fresh, room, bound⟩ := last
    have slot := counted before row behind rowsSplit fresh
      (by rw [countP_ready history.claims.files] at room; omega)
    have covered : active (history.after maxActive rows) ⊆ (sends.map Prod.fst).toFinset ∪
        ((history.claims.sent.filter fun (_, action) =>
          action ∉ endedAfter history (rows.map Prod.fst)).map Prod.fst).toFinset := by
      intro child member
      simp only [active, History.after, split, List.mem_toFinset, List.mem_map, List.mem_filter,
        List.mem_append, decide_eq_true_eq, Finset.mem_union] at member ⊢
      have ⟨request, ⟨sent, live⟩, same⟩ := member
      rcases sent with now | before
      · exact .inl ⟨request, now, same⟩
      · exact .inr ⟨request, ⟨before, of_decide_eq_true live⟩, same⟩
    have now : (sends.map Prod.fst).toFinset.card ≤ sends.length := by
      simpa using (sends.map Prod.fst).toFinset_card_le
    calc (active (history.after maxActive rows)).card
      _ ≤ _ := Finset.card_le_card covered
      _ ≤ _ := Finset.card_union_le _ _
      _ ≤ maxActive := by omega

/-- **Passes that count the claimed rows keep the limit**, and each Submission is sent at most one
execute request. -/
theorem active_within_limit (maxActive : ℕ) (history : History)
    (passes : Passes (Counted maxActive) maxActive history) :
    (active history).card ≤ maxActive ∧ (history.claims.sent.map Prod.snd).Nodup := by
  suffices kept : Once history.claims ∧ (active history).card ≤ maxActive from
    ⟨kept.2, kept.1.once⟩
  induction passes with
  | start => exact ⟨⟨by simp, by simp⟩, by simp [active]⟩
  | pass rows before honest counted ih =>
    exact ⟨dispatch_once maxActive _ rows ih.1,
      active_after maxActive _ rows ih.1 honest counted ih.2⟩

/-! ## A claimed row behind a fresh one -/

/-- A child without a Submission. -/
def unseen : Json := .object [("submission", .null)]

/-- A child that is prepared, or that is still shown so. -/
def preparedRow (action : String) : Json :=
  .object [("submission", .object [("status", .string "PREPARED"),
    ("submission_id", .string action), ("confirmation", .string s!"EXECUTE {action}")])]

/-- The first child is not yet visible: the second one is sent. -/
def early : List (Json × Outcome) :=
  [(unseen, .refused), (preparedRow "action-0000000000000002", .failed)]

/-- The first child is prepared, and the view still shows the second one so. -/
def late : List (Json × Outcome) :=
  [(preparedRow "action-0000000000000001", .failed), (preparedRow "action-0000000000000002", .failed)]

/-- The history behind one pass over both rows. -/
def once : History := History.after ⟨⟨[], []⟩, []⟩ 1 late

/-- Two passes over the same rows: the claim of the first child holds the slot. -/
theorem active_within_limit_late :
    (active (once.after 1 late)).card ≤ 1 ∧ ((once.after 1 late).claims.sent.map Prod.snd).Nodup := by
  have fits : Passes (Counted 1) 1 once := by
    refine .pass late .start (by simp [Honest]) ?_
    intro before row behind split fresh room
    have none : (late.map Prod.fst).countP (isClaimed []) = 0 := by decide
    have fewer : before.countP (isClaimed []) ≤ (late.map Prod.fst).countP (isClaimed []) := by
      rw [split]
      simp
    simp only at room ⊢
    omega
  refine active_within_limit 1 _ (.pass late fits ?_ ?_)
  · intro request sent live
    have sends : once.claims.sent = [(0, "action-0000000000000001")] := by decide
    have only : request = (0, "action-0000000000000001") := by simpa [sends] using sent
    subst only
    exact ⟨preparedRow "action-0000000000000001", by simp [late], .inr (by decide)⟩
  · intro before row behind split fresh room
    match before with
    | [] =>
      have claimed : isFresh once.claims.files (preparedRow "action-0000000000000001") = false := by
        decide
      simp only [late, List.map_cons, List.nil_append, List.cons.injEq] at split
      simp [← split.1, claimed] at fresh
    | first :: before =>
      have holds : isClaimed once.claims.files (preparedRow "action-0000000000000001") = true := by
        decide
      simp only [late, List.map_cons, List.cons_append, List.cons.injEq] at split
      simp only [← split.1, List.countP_cons, holds, if_true] at room
      omega

/-- Both passes, with one slot. -/
def behind : History := (History.after ⟨⟨[], []⟩, []⟩ 1 early).after 1 late

/-- The claim of the second child holds a slot too late: both children are active in one slot. -/
theorem claimed_row_behind :
    Passes (fun _ _ => True) 1 behind ∧ (active behind).card = 2 := by
  refine ⟨.pass late (.pass early .start (by simp [Honest]) trivial) ?_ trivial, by decide⟩
  intro request sent live
  have only : request = (1, "action-0000000000000002") := by
    have first : (History.after ⟨⟨[], []⟩, []⟩ 1 early).claims.sent =
        [(1, "action-0000000000000002")] := by decide
    simpa [first] using sent
  subst only
  exact ⟨preparedRow "action-0000000000000002", by simp [late], .inr (by decide)⟩

end Client

end ExperimentControl
