import ExperimentControl.Library.Assoc
import ExperimentControl.Library.Fallible
import ExperimentControl.Library.Text

/-!
# Publication planning

The reducer of one publisher cycle. From the local state, the remote evidence and the journal
suffix after the confirmed cursor it selects the history rows to emit, or the display and finish
steps once everything is confirmed. A row it selects is reserved in the state, and only the remote
history ever acknowledges it.

* `plan` — the reducer, with `walk`, its loop over the events.
* `walk_eq_ok` — **what the loop does**: an acknowledged part, then new rows, then a reserved row
  or the end.
* `plan_planned` — **what a plan does**: the rows it acknowledges were observed, those it emits are
  new, and it closes only what is confirmed.
-/

namespace ExperimentControl.Tracking

inductive Error where
  | state (what : String)
  | event (what : String)
  | remote (what : String)
  deriving DecidableEq, Repr

/-- A journal event, or one observed in the remote history. -/
structure HistoryEvent where
  sequence : ℤ
  eventId : String
  deriving DecidableEq, Repr

structure RemoteEvidence where
  history : List HistoryEvent
  lastHistoryStep : Option ℤ
  displayVersion : Option ℤ
  displayThrough : Option ℤ
  deriving DecidableEq, Repr

/-- The reserved rows by sequence. -/
abbrev Sent := List (ℤ × String)

structure PublicationState where
  confirmed : ℤ
  sent : Sent
  displayVersion : Option ℤ
  displayThrough : Option ℤ
  finished : Bool
  deriving DecidableEq, Repr

/-- The state of a publisher that has done nothing. -/
def PublicationState.default : PublicationState := ⟨0, [], none, none, false⟩

inductive PublicationAction where
  | emitHistory (sequence : ℤ) (eventId : String)
  | publishDisplay (through version : ℤ)
  | finish (through : ℤ)
  deriving DecidableEq, Repr

inductive PublicationStatus where
  | pending (through : ℤ) (emits : ℕ)
  | ackPending (confirmed through : ℤ)
  | displayAckPending (through version : ℤ)
  | synced (through : ℤ)
  | finished (through : ℤ)
  | reconcileRequired (reason : String)
  | identityConflict (sequence : ℤ) (expected observed : String)
  deriving DecidableEq, Repr

structure PublicationPlan where
  state : PublicationState
  through : ℤ
  actions : List PublicationAction
  status : PublicationStatus
  deriving DecidableEq, Repr

/-! ## Validation -/

def validId (value : String) : Bool :=
  utf8 value ≠ [] ∧ (utf8 value).length ≤ 256 ∧
    (utf8 value).all fun b => ¬(b < 32 ∨ b = 127)

def validateEvent (event : HistoryEvent) : Except Error Unit := do
  reject (event.sequence ≤ 0) (.event "positive sequence")
  reject (validId event.eventId = false) (.event "event_id")

def validateRemoteEvent (event : HistoryEvent) : Except Error Unit := do
  reject (event.sequence ≤ 0) (.remote "positive sequence")
  reject (validId event.eventId = false) (.remote "event_id")

def validateState (state : PublicationState) : Except Error Unit := do
  reject (state.confirmed < 0) (.state "non-negative confirmed cursor")
  reject (state.displayVersion.any fun version => version ≤ 0) (.state "positive display version")
  reject (state.displayThrough.any fun through => through < 0)
    (.state "non-negative display cursor")
  reject (state.sent.any fun row => row.1 ≤ 0 ∨ validId row.2 = false)
    (.state "sent history reservation")

/-- The events are valid and their sequences strictly increase. -/
def validateEvents : Option ℤ → List HistoryEvent → Except Error Unit
  | _, [] => .ok ()
  | previous, event :: events => do
      validateEvent event
      reject (previous.any fun sequence => event.sequence ≤ sequence)
        (.event "strictly increasing event sequence")
      validateEvents (some event.sequence) events

/-- A remote row joins the index; the same row again is accepted, another id is not. -/
def indexRow (index : List (ℤ × String)) (event : HistoryEvent) :
    Except Error (List (ℤ × String)) := do
  validateRemoteEvent event
  match index.lookup event.sequence with
  | none => return index ++ [(event.sequence, event.eventId)]
  | some previous => do
      reject (previous ≠ event.eventId) (.remote "conflicting duplicate sequence")
      return index

def remoteIndex (remote : RemoteEvidence) : Except Error (List (ℤ × String)) := do
  reject (remote.lastHistoryStep.any fun step => step < -1) (.remote "last_history_step")
  remote.history.foldlM indexRow []

/-- The sequence after the last remote step. -/
def remoteNext (remote : RemoteEvidence) : Except Error (Option ℤ) :=
  match remote.lastHistoryStep with
  | some step => do
      reject (2 ^ 63 ≤ step + 1) (.remote "last_history_step overflow")
      return some (step + 1)
  | none => .ok none

/-! ## The loop -/

/-- What the loop over the events has gathered. -/
structure Walked where
  confirmed : ℤ
  sent : Sent
  emits : List HistoryEvent
  deriving DecidableEq, Repr

def reconcile : PublicationStatus := .reconcileRequired "REMOTE_HISTORY_RECONCILE_REQUIRED"

/-- The loop over the events: an error is the status of an early return. -/
def walk (seen : List (ℤ × String)) (maximum : ℤ) :
    List HistoryEvent → Walked → Except PublicationStatus Walked
  | [], walked => .ok walked
  | event :: events, walked =>
      match seen.lookup event.sequence with
      | some remoteId =>
          if remoteId ≠ event.eventId then
            .error (.identityConflict event.sequence event.eventId remoteId)
          else walk seen maximum events { walked with
            confirmed := max walked.confirmed event.sequence
            sent := walked.sent.filter fun row => row.1 ≠ event.sequence }
      | none =>
          if event.sequence ≤ maximum then .error reconcile
          else match walked.sent.lookup event.sequence with
            | some sentId =>
                if sentId ≠ event.eventId then
                  .error (.identityConflict event.sequence event.eventId sentId)
                -- Never past an unacknowledged reservation.
                else .ok walked
            | none => walk seen maximum events { walked with
                sent := walked.sent ++ [(event.sequence, event.eventId)]
                emits := walked.emits ++ [event] }

/-- The last sequence of the events. -/
def lastSequence (fallback : ℤ) (events : List HistoryEvent) : ℤ :=
  (events.getLast?.map HistoryEvent.sequence).getD fallback

/-- The step that emits a history row. -/
def emission (event : HistoryEvent) : PublicationAction :=
  .emitHistory event.sequence event.eventId

/-- The plan of a cycle without an early return. -/
def advance (state : PublicationState) (remote : RemoteEvidence) (events : List HistoryEvent)
    (terminal : Bool) (displayVersion : ℤ) (walked : Walked) : PublicationPlan :=
  let next := { state with confirmed := walked.confirmed, sent := walked.sent }
  let through := lastSequence walked.confirmed events
  if walked.emits ≠ [] then
    ⟨next, through, walked.emits.map emission, .pending through walked.emits.length⟩
  else if walked.confirmed < through then
    ⟨next, through, [], .ackPending walked.confirmed through⟩
  else if ¬(remote.displayVersion = some displayVersion ∧ remote.displayThrough = some through) then
    ⟨next, through, [.publishDisplay through displayVersion],
      .displayAckPending through displayVersion⟩
  else
    let next := { next with displayVersion := some displayVersion, displayThrough := some through }
    if terminal then
      ⟨{ next with finished := true }, through, [.finish through], .finished through⟩
    else ⟨next, through, [], .synced through⟩

def plan (state : PublicationState) (remote : RemoteEvidence) (events : List HistoryEvent)
    (expectedEventId : Option String) (terminal : Bool) (displayVersion : ℤ) :
    Except Error PublicationPlan := do
  validateState state
  reject (displayVersion ≤ 0) (.state "positive display version")
  reject (expectedEventId.any fun eventId => validId eventId = false) (.event "expected event_id")
  validateEvents none events
  let seen ← remoteIndex remote
  let next ← remoteNext remote
  let maximum := max (((seen.map Prod.fst).max?).getD state.confirmed) (next.getD state.confirmed)
  if 0 < state.confirmed ∧ expectedEventId.isSome ∧
      seen.lookup state.confirmed ≠ expectedEventId then
    return ⟨state, state.confirmed, [], reconcile⟩
  match walk seen maximum events ⟨state.confirmed, state.sent, []⟩ with
  | .error status => return ⟨state, lastSequence state.confirmed events, [], status⟩
  | .ok walked => return advance state remote events terminal displayVersion walked

/-! ## What validation gives -/

/-- The sequences of the events strictly increase. -/
def Increasing (events : List HistoryEvent) : Prop :=
  events.Pairwise fun a b => a.sequence < b.sequence

lemma validateEvents_eq_ok : ∀ {events : List HistoryEvent} {previous : Option ℤ},
    validateEvents previous events = .ok () → Increasing events ∧
      ∀ event ∈ events, 0 < event.sequence ∧ ∀ sequence ∈ previous, sequence < event.sequence
  | [], previous, _ => ⟨List.Pairwise.nil, by simp⟩
  | event :: events, previous, h => by
      obtain ⟨⟨⟩, hevent, h⟩ := bind_eq_ok.mp h
      obtain ⟨⟨⟩, hprevious, h⟩ := bind_eq_ok.mp h
      obtain ⟨hincreasing, hrest⟩ := validateEvents_eq_ok h
      obtain ⟨⟨⟩, hpositive, -⟩ := bind_eq_ok.mp hevent
      rw [reject_eq_ok] at hpositive hprevious
      have hhead : ∀ sequence ∈ previous, sequence < event.sequence := by
        rintro sequence hsequence
        rw [Option.mem_def] at hsequence
        simpa [hsequence] using hprevious
      refine ⟨List.pairwise_cons.mpr ⟨fun other hother => ?_, hincreasing⟩, ?_⟩
      · exact (hrest other hother).2 event.sequence rfl
      · intro other hother
        rcases List.mem_cons.mp hother with rfl | hother
        · exact ⟨by omega, hhead⟩
        · have hlater := (hrest other hother).2 event.sequence rfl
          exact ⟨(hrest other hother).1, fun sequence hsequence => (hhead sequence hsequence).trans hlater⟩

/-- The pair of an event. -/
def HistoryEvent.pair (event : HistoryEvent) : ℤ × String := (event.sequence, event.eventId)

/-- The remote index holds observed rows only, one a sequence. -/
lemma foldlM_indexRow : ∀ {history : List HistoryEvent} {before index : List (ℤ × String)},
    history.foldlM indexRow before = .ok index → (before.map Prod.fst).Nodup →
    (index.map Prod.fst).Nodup ∧
      ∀ row ∈ index, row ∈ before ∨ ∃ event ∈ history, event.pair = row
  | [], before, index, h, hnodup => by
      cases h
      exact ⟨hnodup, fun row hrow => .inl hrow⟩
  | event :: history, before, index, h, hnodup => by
      obtain ⟨next, hnext, h⟩ := foldlM_cons_eq_ok.mp h
      obtain ⟨⟨⟩, -, hnext⟩ := bind_eq_ok.mp hnext
      have hkeep : (next.map Prod.fst).Nodup ∧ ∀ row ∈ next, row ∈ before ∨ event.pair = row := by
        rcases hlookup : before.lookup event.sequence with _ | previous
        · simp only [hlookup] at hnext
          cases hnext
          have hnew : event.sequence ∉ before.map Prod.fst := by
            rintro hmem
            obtain ⟨row, hrow, hsame⟩ := List.mem_map.mp hmem
            have hfound : before.lookup event.sequence = some row.2 :=
              (lookup_eq_some_iff hnodup).mpr (hsame ▸ hrow)
            rw [hlookup] at hfound
            cases hfound
          refine ⟨?_, fun row hrow => ?_⟩
          · rw [List.map_append, List.map_cons, List.map_nil]
            exact hnodup.append (List.nodup_singleton _) (by simpa using hnew)
          · rcases List.mem_append.mp hrow with hrow | hrow
            · exact .inl hrow
            · exact .inr (List.mem_singleton.mp hrow).symm
        · simp only [hlookup] at hnext
          obtain ⟨⟨⟩, -, hnext⟩ := bind_eq_ok.mp hnext
          cases hnext
          exact ⟨hnodup, fun row hrow => .inl hrow⟩
      obtain ⟨hindex, hrows⟩ := foldlM_indexRow h hkeep.1
      refine ⟨hindex, fun row hrow => ?_⟩
      rcases hrows row hrow with hrow | ⟨other, hother, hpair⟩
      · rcases hkeep.2 row hrow with hrow | hpair
        · exact .inl hrow
        · exact .inr ⟨event, List.mem_cons_self, hpair⟩
      · exact .inr ⟨other, List.mem_cons_of_mem _ hother, hpair⟩

/-! ## What the loop does -/

/-- The loop's result: first acknowledged rows, then rows that are neither observed nor reserved,
which are reserved and emitted; it stops at the first reserved row after them, or at the end. -/
structure Split (seen : List (ℤ × String)) (events : List HistoryEvent) (start walked : Walked)
    (acked fresh rest : List HistoryEvent) : Prop where
  events_eq : events = acked ++ fresh ++ rest
  observed : ∀ event ∈ acked, seen.lookup event.sequence = some event.eventId
  unreserved : ∀ event ∈ fresh, event.sequence ∉ start.sent.map Prod.fst
  emits_eq : walked.emits = start.emits ++ fresh
  above : start.confirmed ≤ walked.confirmed ∧ ∀ event ∈ acked, event.sequence ≤ walked.confirmed
  cursor : walked.confirmed = start.confirmed ∨
    ∃ event ∈ acked, walked.confirmed = event.sequence
  sent_iff : ∀ row, row ∈ walked.sent ↔
    (row ∈ start.sent ∧ row.1 ∉ acked.map HistoryEvent.sequence) ∨
      row ∈ fresh.map HistoryEvent.pair

/-- A row that is not found has no entry. -/
lemma not_mem_of_lookup_none {entries : List (ℤ × String)} {key : ℤ}
    (h : entries.lookup key = none) : key ∉ entries.map Prod.fst := by
  rw [List.lookup_eq_none_iff] at h
  rintro hmem
  obtain ⟨row, hrow, rfl⟩ := List.mem_map.mp hmem
  simpa using h row hrow

/-- **Above the remote history** the loop only reserves and emits. -/
lemma walk_unseen {seen : List (ℤ × String)} {maximum : ℤ} : ∀ {events : List HistoryEvent}
    {start walked : Walked}, (∀ event ∈ events, seen.lookup event.sequence = none) →
    walk seen maximum events start = .ok walked →
    ∃ fresh rest, Split seen events start walked [] fresh rest
  | [], start, walked, _, h => by
      cases h
      exact ⟨[], [], rfl, by simp, by simp, by simp, by simp, .inl rfl, by simp⟩
  | event :: events, start, walked, hunseen, h => by
      rw [walk, hunseen event (by simp)] at h
      dsimp only at h
      split_ifs at h with hmaximum
      rcases hsent : start.sent.lookup event.sequence with _ | sentId
      · rw [hsent] at h
        obtain ⟨fresh, rest, hsplit⟩ := walk_unseen (fun other hother => hunseen other (by simp [hother])) h
        refine ⟨event :: fresh, rest, ?_, by simp, ?_, ?_, ?_, ?_, ?_⟩
        · rw [hsplit.events_eq]
          rfl
        · intro other hother
          rcases List.mem_cons.mp hother with rfl | hother
          · exact not_mem_of_lookup_none hsent
          · have := hsplit.unreserved other hother
            simp only [List.map_append, List.mem_append, not_or] at this
            exact this.1
        · rw [hsplit.emits_eq, List.append_assoc]
          rfl
        · simpa using hsplit.above
        · simpa using hsplit.cursor
        · intro row
          rw [hsplit.sent_iff row]
          simp only [List.mem_append, List.map_nil, List.not_mem_nil, not_false_eq_true, and_true,
            List.map_cons, List.mem_cons, HistoryEvent.pair]
          tauto
      · rw [hsent] at h
        dsimp only at h
        split_ifs at h
        cases h
        exact ⟨[], event :: events, rfl, by simp, by simp, by simp, by simp, .inl rfl, by simp⟩

/-- **What the loop does**, from a start without emissions. -/
theorem walk_eq_ok {seen : List (ℤ × String)} {maximum : ℤ}
    (hseen : ∀ row ∈ seen, row.1 ≤ maximum) : ∀ {events : List HistoryEvent}
    {start walked : Walked}, Increasing events → walk seen maximum events start = .ok walked →
    ∃ acked fresh rest, Split seen events start walked acked fresh rest
  | [], start, walked, _, h => by
      cases h
      exact ⟨[], [], [], rfl, by simp, by simp, by simp, by simp, .inl rfl, by simp⟩
  | event :: events, start, walked, hincreasing, h => by
      obtain ⟨hafter, htail⟩ := List.pairwise_cons.mp hincreasing
      rcases hlookup : seen.lookup event.sequence with _ | remoteId
      · -- From the first row that is not observed on, none is.
        have hmaximum : maximum < event.sequence := by
          rw [walk, hlookup] at h
          dsimp only at h
          split_ifs at h with hle
          omega
        have hunseen : ∀ other ∈ event :: events, seen.lookup other.sequence = none := by
          rintro other hother
          have hge : event.sequence ≤ other.sequence := by
            rcases List.mem_cons.mp hother with rfl | hother
            · exact le_refl _
            · exact (hafter other hother).le
          rw [List.lookup_eq_none_iff]
          rintro row hrow
          have := hseen row hrow
          simp only [bne_iff_ne]
          omega
        obtain ⟨fresh, rest, hsplit⟩ := walk_unseen hunseen h
        exact ⟨[], fresh, rest, hsplit⟩
      · rw [walk, hlookup] at h
        dsimp only at h
        split_ifs at h with hid
        rw [not_not] at hid
        obtain ⟨acked, fresh, rest, hsplit⟩ := walk_eq_ok hseen htail h
        have hlater : ∀ other ∈ fresh, event.sequence < other.sequence := fun other hother =>
          hafter other (by rw [hsplit.events_eq]; simp [hother])
        refine ⟨event :: acked, fresh, rest, ?_, ?_, ?_, hsplit.emits_eq, ?_, ?_, ?_⟩
        · rw [hsplit.events_eq]
          rfl
        · intro other hother
          rcases List.mem_cons.mp hother with rfl | hother
          · rw [hlookup, hid]
          · exact hsplit.observed other hother
        · rintro other hother hmem
          obtain ⟨row, hrow, hsame⟩ := List.mem_map.mp hmem
          refine hsplit.unreserved other hother (List.mem_map.mpr ⟨row, ?_, hsame⟩)
          have hne : row.1 ≠ event.sequence := by
            have := hlater other hother
            omega
          simp [hrow, hne]
        · obtain ⟨hstart, hacked⟩ := hsplit.above
          simp only at hstart
          refine ⟨by omega, fun other hother => ?_⟩
          rcases List.mem_cons.mp hother with rfl | hother
          · omega
          · exact hacked other hother
        · rcases hsplit.cursor with hstart | ⟨other, hother, hcursor⟩
          · simp only at hstart
            rcases max_choice start.confirmed event.sequence with hmax | hmax
            · exact .inl (hstart.trans hmax)
            · exact .inr ⟨event, by simp, hstart.trans hmax⟩
          · exact .inr ⟨other, by simp [hother], hcursor⟩
        · intro row
          rw [hsplit.sent_iff row]
          simp only [List.mem_filter, decide_eq_true_eq, List.map_cons, List.mem_cons, not_or]
          tauto

/-! ## What a plan does -/

/-- The history rows some steps emit, in order. -/
def emittedRows (actions : List PublicationAction) : List HistoryEvent :=
  actions.filterMap fun
    | .emitHistory sequence eventId => some ⟨sequence, eventId⟩
    | _ => none

/-- A display or finish step up to a sequence. -/
def Closes (actions : List PublicationAction) (through : ℤ) : Prop :=
  .finish through ∈ actions ∨ ∃ version, .publishDisplay through version ∈ actions

/-- What a plan makes of the state and the events: the observed rows at the front are
acknowledged, the next ones are reserved and emitted, and the rest waits. -/
structure Planned (state : PublicationState) (remote : RemoteEvidence) (events : List HistoryEvent)
    (result : PublicationPlan) (acked fresh rest : List HistoryEvent) : Prop where
  events_eq : events = acked ++ fresh ++ rest
  observed : ∀ event ∈ acked, event ∈ remote.history
  unreserved : ∀ event ∈ fresh, event.sequence ∉ state.sent.map Prod.fst
  emitted : emittedRows result.actions = fresh
  above : state.confirmed ≤ result.state.confirmed ∧
    ∀ event ∈ acked, event.sequence ≤ result.state.confirmed
  cursor : result.state.confirmed = state.confirmed ∨
    ∃ event ∈ acked, result.state.confirmed = event.sequence
  sent_iff : ∀ row, row ∈ result.state.sent ↔
    (row ∈ state.sent ∧ row.1 ∉ acked.map HistoryEvent.sequence) ∨
      row ∈ fresh.map HistoryEvent.pair
  closed : ∀ through, Closes result.actions through →
    through = lastSequence result.state.confirmed events ∧ through ≤ result.state.confirmed

lemma emittedRows_map_emission (events : List HistoryEvent) :
    emittedRows (events.map emission) = events := by
  induction events with
  | nil => rfl
  | cons event events ih =>
    rw [emittedRows] at ih ⊢
    rw [List.map_cons, List.filterMap_cons, ih]
    rfl

/-- A plan that returns early changes nothing. -/
lemma planned_unchanged (state : PublicationState) (remote : RemoteEvidence)
    (events : List HistoryEvent) (through : ℤ) (status : PublicationStatus) :
    Planned state remote events ⟨state, through, [], status⟩ [] [] events :=
  ⟨rfl, by simp, by simp, rfl, by simp, .inl rfl, by simp, by simp [Closes]⟩

/-- A plan after the loop does what the loop did, and closes only what is confirmed. -/
lemma planned_advance {state : PublicationState} {remote : RemoteEvidence}
    {events : List HistoryEvent} {terminal : Bool} {displayVersion : ℤ}
    {seen : List (ℤ × String)} {walked : Walked} {acked fresh rest : List HistoryEvent}
    (hnodup : (seen.map Prod.fst).Nodup)
    (hseen : ∀ row ∈ seen, ∃ event ∈ remote.history, event.pair = row)
    (h : Split seen events ⟨state.confirmed, state.sent, []⟩ walked acked fresh rest) :
    Planned state remote events (advance state remote events terminal displayVersion walked)
      acked fresh rest := by
  have hobserved : ∀ event ∈ acked, event ∈ remote.history := by
    rintro event hevent
    have hmem : event.pair ∈ seen := (lookup_eq_some_iff hnodup).mp (h.observed event hevent)
    obtain ⟨other, hother, hpair⟩ := hseen _ hmem
    obtain rfl : other = event := by
      cases other
      cases event
      simpa [HistoryEvent.pair] using hpair
    exact hother
  have hemits : walked.emits = fresh := h.emits_eq
  have hkeep : ∀ result : PublicationPlan, result.state.confirmed = walked.confirmed →
      result.state.sent = walked.sent → emittedRows result.actions = fresh →
      (∀ through, Closes result.actions through →
        through = lastSequence walked.confirmed events ∧ through ≤ walked.confirmed) →
      Planned state remote events result acked fresh rest := by
    rintro result hconfirmed hsent hemitted hclosed
    exact ⟨h.events_eq, hobserved, h.unreserved, hemitted, hconfirmed ▸ h.above,
      hconfirmed ▸ h.cursor, hsent ▸ h.sent_iff, hconfirmed ▸ hclosed⟩
  unfold advance
  dsimp only
  split_ifs with hnew hwait hdisplay hterminal
  · refine hkeep _ rfl rfl (by rw [emittedRows_map_emission, hemits]) ?_
    rintro through (hfinish | ⟨version, hdisplay⟩)
    · simp [emission] at hfinish
    · simp [emission] at hdisplay
  · rw [ne_eq, not_not] at hnew
    exact hkeep _ rfl rfl (by rw [← hemits, hnew]; rfl) (by simp [Closes])
  · rw [ne_eq, not_not] at hnew
    refine hkeep _ rfl rfl (by rw [← hemits, hnew]; rfl) ?_
    rintro through (hfinish | ⟨version, hdisplay⟩)
    · simp only [List.mem_singleton, PublicationAction.finish.injEq] at hfinish
      exact ⟨hfinish, by omega⟩
    · simp at hdisplay
  · rw [ne_eq, not_not] at hnew
    exact hkeep _ rfl rfl (by rw [← hemits, hnew]; rfl) (by simp [Closes])
  · rw [ne_eq, not_not] at hnew
    refine hkeep _ rfl rfl (by rw [← hemits, hnew]; rfl) ?_
    rintro through (hfinish | ⟨version, hdisplay⟩)
    · simp at hfinish
    · simp only [List.mem_singleton, PublicationAction.publishDisplay.injEq] at hdisplay
      exact ⟨hdisplay.1, by omega⟩

/-- The keys of the remote index are no greater than the maximum. -/
lemma le_maximum {seen : List (ℤ × String)} {row : ℤ × String} (fallback other : ℤ)
    (h : row ∈ seen) : row.1 ≤ max (((seen.map Prod.fst).max?).getD fallback) other := by
  have hkey : row.1 ∈ seen.map Prod.fst := List.mem_map.mpr ⟨row, h, rfl⟩
  rcases hmax : (seen.map Prod.fst).max? with _ | top
  · rw [List.max?_eq_none_iff] at hmax
    rw [hmax] at hkey
    cases hkey
  · exact le_max_of_le_left ((List.max?_eq_some_iff.mp hmax).2 _ hkey)

/-- **What a plan does**, whatever the evidence. -/
theorem plan_planned {state : PublicationState} {remote : RemoteEvidence}
    {events : List HistoryEvent} {expected : Option String} {terminal : Bool} {version : ℤ}
    {result : PublicationPlan}
    (h : plan state remote events expected terminal version = .ok result) :
    Increasing events ∧ (∀ event ∈ events, 0 < event.sequence) ∧
      ∃ acked fresh rest, Planned state remote events result acked fresh rest := by
  obtain ⟨⟨⟩, -, h⟩ := bind_eq_ok.mp h
  obtain ⟨⟨⟩, -, h⟩ := bind_eq_ok.mp h
  obtain ⟨⟨⟩, -, h⟩ := bind_eq_ok.mp h
  obtain ⟨⟨⟩, hevents, h⟩ := bind_eq_ok.mp h
  obtain ⟨seen, hindex, h⟩ := bind_eq_ok.mp h
  obtain ⟨next, -, h⟩ := bind_eq_ok.mp h
  obtain ⟨⟨⟩, -, hfold⟩ := bind_eq_ok.mp hindex
  obtain ⟨hincreasing, hpositive⟩ := validateEvents_eq_ok hevents
  obtain ⟨hnodup, hrows⟩ := foldlM_indexRow hfold List.nodup_nil
  have hseen : ∀ row ∈ seen, ∃ event ∈ remote.history, event.pair = row := fun row hrow =>
    (hrows row hrow).resolve_left List.not_mem_nil
  refine ⟨hincreasing, fun event hevent => (hpositive event hevent).1, ?_⟩
  split_ifs at h with hproof
  · cases h
    exact ⟨[], [], events, planned_unchanged _ _ _ _ _⟩
  · rcases hwalk : walk seen (max (((seen.map Prod.fst).max?).getD state.confirmed)
      (next.getD state.confirmed)) events ⟨state.confirmed, state.sent, []⟩ with status | walked
    · simp only [hwalk] at h
      cases h
      exact ⟨[], [], events, planned_unchanged _ _ _ _ _⟩
    · simp only [hwalk] at h
      cases h
      obtain ⟨acked, fresh, rest, hsplit⟩ :=
        walk_eq_ok (fun row hrow => le_maximum _ _ hrow) hincreasing hwalk
      exact ⟨acked, fresh, rest, planned_advance hnodup hseen hsplit⟩

end ExperimentControl.Tracking
