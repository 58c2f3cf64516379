import ExperimentControl.Cloud.OutboxSafety

/-!
# Runs of the outbox

The operations of the outbox interleaved in any way, with any answer of the provider to any request
and a crash before, in or after any step.

* **`one_effect_per_slot`** — a provider create is sent at most once for a slot, a provider stop at
  most once for its stop intent, and a saved handle stays.
* **`observations_follow`** — in runs in which the answers to stops follow the recorded observation,
  every saved observation does.
* `stop_overwrites_success` — without that condition a stop can overwrite a terminal state.
-/

namespace ExperimentControl

namespace Cloud

/-! ## Whole runs -/

section Whole

variable {Row : Type} {slotOf : Job → Except Error String}
  {permits : Option JobObservation → JobObservation → Prop}

/-- The operations of the outbox owe what the system needs. -/
lemma verified : Verified (world permits : World Ledger Op (Ans Row)) (contract slotOf permits)
    (Started slotOf) (fun _ _ => True) where
  stable := fun _ _ => trivial
  start := by
    rintro p hp s hinv
    cases hp with
    | prepare P hslot job allocation =>
      subst hslot
      exact prepare_wp hinv job allocation
    | execute P hslot job allocation confirmation =>
      subst hslot
      exact execute_wp hinv job allocation confirmation
    | reconcile P hslot job allocation =>
      subst hslot
      exact reconcile_wp hinv job allocation
    | stop P hslot job allocation confirmation =>
      subst hslot
      exact stopSlot_wp hinv job allocation confirmation

lemma Guarded.empty : Guarded slotOf permits {} where
  create := ⟨fun _ => by simp [sent], fun _ h => by simp [sent] at h⟩
  stop := ⟨fun _ => by simp [sent], fun _ h => by simp [sent] at h⟩
  saves := fun _ h => by simp at h

/-- The runs of the outbox from empty slots. -/
abbrev Runs (Row : Type) (slotOf : Job → Except Error String)
    (permits : Option JobObservation → JobObservation → Prop)
    (c : Config Ledger Op (Ans Row) (Except Error View)) : Prop :=
  Reachable (world permits) (Started slotOf) {} c

/-- Every stop may get every answer. -/
def anyAnswer (_ : Option JobObservation) (_ : JobObservation) : Prop := True

/-- **One provider effect per slot.**  In every run of the outbox operations, whatever the provider
answers and wherever the processes stop, a create was sent at most once for a slot and a stop at
most once for its one stop intent, and a handle that is saved in a slot stays there in every
continuation of the run. -/
theorem one_effect_per_slot {c : Config Ledger Op (Ans Row) (Except Error View)}
    (h : Runs Row slotOf anyAnswer c) (slot : String) :
    sent slotOf Request.isCreate c.store slot ≤ 1 ∧ sent slotOf Request.isStop c.store slot ≤ 1 ∧
      ∀ entry handle, c.store.slots slot = some entry → entry.handle = some handle →
        ∀ c', Steps (world anyAnswer) (Started slotOf) c c' →
          ∃ entry', c'.store.slots slot = some entry' ∧ entry'.handle = some handle := by
  have hinv : Guarded slotOf anyAnswer c.store := (h.sound verified Guarded.empty).inv
  refine ⟨hinv.create.le slot, hinv.stop.le slot, fun entry handle hentry hhandle c' hsteps => ?_⟩
  have hlater : Later c.store c'.store := h.rely verified Guarded.empty hsteps
  obtain ⟨entry', hentry', _, _, hkeep⟩ := hlater slot entry hentry
  exact ⟨entry', hentry', hkeep handle hhandle⟩

/-- **Observations follow each other.**  In every run in which the answers to stops follow the
recorded observation, every save keeps the recorded observation or replaces it by one whose state it
allows, and a recorded terminal state is never replaced by another state. -/
theorem observations_follow {c : Config Ledger Op (Ans Row) (Except Error View)}
    (h : Runs Row slotOf Follows c) :
    ∀ save ∈ c.store.saves, ∀ o, save.2.1.observation = some o →
      ∃ o', save.2.2.observation = some o' ∧ (o' = o ∨ o.state.allows o'.state) ∧
        (o.state.isTerminal → o'.state = o.state) := by
  intro save hsave o ho
  have hinv : Guarded slotOf Follows c.store := (h.sound verified Guarded.empty).inv
  rcases (hinv.saves save hsave).observation with hsame | ⟨o', ho', hfollows⟩
  · exact ⟨o, hsame.trans ho, .inl rfl, fun _ => rfl⟩
  · have hallows : o.state.allows o'.state := by
      rcases hfollows with hf | hf <;> exact hf o (by simp [ho])
    exact ⟨o', ho', .inr hallows,
      fun hterm => (RunState.eq_of_terminal_allows hterm hallows).symm⟩

end Whole

/-! ## A sampled provider

A provider with one job, which answers the `n`-th operation of a run with the state `states n`.
-/

/-- A job row: the id and the state. -/
abbrev SampleRow := String × RunState

def sampleProvider : Provider SampleRow where
  slot job := .ok (job.runId ++ ".json")
  jobDigest job := .ok ("job-" ++ job.runId)
  profileDigest := .ok "profile"
  profileValidate := .ok ()
  component id := id ≠ ""
  compile _ := .ok ()
  createdId row := some row.1
  validateJob row _ expected :=
    if expected.any (· ≠ row.1) then .error Error.evidence
    else .ok { jobId := row.1, providerState := "sampled", state := row.2, queue := none }
  validateQueue _ _ := .ok none
  page _ _ := .ok { rows := [], total := some 0, next := none }

def sampleJob : Job where
  project := "project"
  runId := "run"
  attemptId := "attempt-001"
  submissionToken := "0123456789abcdef0123456789abcdef"
  sourceId := "source"
  image := "image"
  command := []
  gpus := 0
  cpus := 1
  memoryGb := 1
  maxTimeSeconds := 60

/-- Every file operation succeeds, and a stop is answered as far as `allowed` admits it. -/
def sampleScript (allowed : Option JobObservation → JobObservation → Bool)
    (states : ℕ → RunState) : Script Ledger Op (Ans SampleRow)
  | _, s, .guard => some (.ok (), s)
  | _, s, .cancelled => some (false, s)
  | _, s, .entryExists slot => some (.ok (s.slots slot).isSome, s)
  | _, s, .read slot => (s.slots slot).map fun entry => (.ok entry, s)
  | _, s, .publishNew slot entry =>
      if s.slots slot = none then some (.ok (), s.put slot entry) else none
  | _, s, .replaceRegular slot entry => some (.ok (), s.put slot entry)
  | n, s, .request job request => some (.ok ("dlc-1", states n), s.send job request)
  | _, s, .answered slot observation =>
      if (s.slots slot).all fun entry => allowed entry.observation observation then some ((), s)
      else none

lemma sampleScript_faithful {allowed : Option JobObservation → JobObservation → Bool}
    {permits : Option JobObservation → JobObservation → Prop}
    (hallowed : ∀ recorded o, allowed recorded o → permits recorded o) (states : ℕ → RunState) :
    (sampleScript allowed states).Faithful (world permits) := by
  intro n s op r hr
  cases op with
  | guard =>
    cases hr
    rfl
  | cancelled =>
    cases hr
    rfl
  | entryExists slot =>
    cases hr
    exact ⟨rfl, fun present h => (Except.ok.inj h).symm⟩
  | read slot =>
    obtain ⟨entry, hentry, rfl⟩ := Option.map_eq_some_iff.mp hr
    exact ⟨rfl, fun e h => hentry.trans (congrArg some (Except.ok.inj h))⟩
  | publishNew slot entry =>
    simp only [sampleScript] at hr
    split_ifs at hr with hnone
    cases hr
    exact .inl ⟨hnone, rfl⟩
  | replaceRegular slot entry =>
    cases hr
    exact .inl rfl
  | request job request =>
    cases hr
    rfl
  | answered slot observation =>
    simp only [sampleScript] at hr
    split_ifs at hr with hall
    cases hr
    refine ⟨rfl, fun entry hentry => hallowed _ _ ?_⟩
    simpa [hentry] using hall

/-- Prepare, execute, reconcile and stop one job. -/
def sampleOperations : List (Prog Op (Ans SampleRow) (Except Error View)) :=
  [(prepare sampleProvider sampleJob .guaranteed).run,
   (execute sampleProvider sampleJob .guaranteed "SUBMIT run.json").run,
   (reconcile sampleProvider sampleJob .guaranteed).run,
   (stopSlot sampleProvider sampleJob .guaranteed "STOP run.json").run]

lemma sampleOperations_started :
    ∀ p ∈ sampleOperations, Started sampleProvider.slot p := by
  intro p hp
  simp only [sampleOperations, List.mem_cons, List.not_mem_nil, or_false] at hp
  rcases hp with rfl | rfl | rfl | rfl
  · exact .prepare sampleProvider rfl _ _
  · exact .execute sampleProvider rfl _ _ _
  · exact .reconcile sampleProvider rfl _ _
  · exact .stop sampleProvider rfl _ _ _

/-- The states of a recorded observation and of its replacement. -/
def savedStates (save : String × Entry × Entry) : Option RunState × Option RunState :=
  (save.2.1.observation.map (·.state), save.2.2.observation.map (·.state))

/-- The provider reports success to the reconciliation and a running job to the stop. -/
def staleStates (n : ℕ) : RunState := if n < 17 then .succeeded else .running

/-- The provider reports a running job to the reconciliation and a stopped one to the stop. -/
def freshStates (n : ℕ) : RunState := if n < 17 then .running else .cancelled

/-- The run of the sampled operations against a provider with stale answers. -/
lemma stale_run : ∃ c, Runs SampleRow sampleProvider.slot anyAnswer c ∧
    sent sampleProvider.slot Request.isCreate c.store "run.json" = 1 ∧
    c.store.saves.map savedStates =
      [(some .succeeded, some .running), (some .succeeded, some .succeeded),
        (none, some .succeeded), (none, none), (none, none)] := by
  have hsome : (soloAll (sampleScript (fun _ _ => true) staleStates) sampleOperations 0 {} []).map
      (fun r => (sent sampleProvider.slot Request.isCreate r.1 "run.json",
        r.1.saves.map savedStates)) =
      some (1, [(some .succeeded, some .running), (some .succeeded, some .succeeded),
        (none, some .succeeded), (none, none), (none, none)]) := by rfl
  obtain ⟨r, hr, hfacts⟩ := Option.map_eq_some_iff.mp hsome
  rw [Prod.mk.injEq] at hfacts
  exact ⟨⟨r.1, [], r.2⟩, soloAll_steps (sampleScript_faithful (fun _ _ _ => trivial) staleStates)
    sampleOperations_started hr, hfacts⟩

/-- The run of the sampled operations against a provider whose answers follow each other. -/
lemma fresh_run : ∃ c, Runs SampleRow sampleProvider.slot Follows c ∧
    c.store.saves.map savedStates =
      [(some .running, some .cancelled), (some .running, some .running),
        (none, some .running), (none, none), (none, none)] := by
  have hsome : (soloAll (sampleScript (fun recorded o => recorded.all (·.state.allows o.state))
      freshStates) sampleOperations 0 {} []).map (fun r => r.1.saves.map savedStates) =
      some [(some .running, some .cancelled), (some .running, some .running),
        (none, some .running), (none, none), (none, none)] := by rfl
  obtain ⟨r, hr, hfacts⟩ := Option.map_eq_some_iff.mp hsome
  refine ⟨⟨r.1, [], r.2⟩, soloAll_steps (sampleScript_faithful ?_ freshStates)
    sampleOperations_started hr, hfacts⟩
  rintro recorded o hall previous hprevious
  rw [Option.mem_def.mp hprevious] at hall
  exact hall

theorem one_effect_per_slot_sampled : ∃ c, Runs SampleRow sampleProvider.slot anyAnswer c ∧
    sent sampleProvider.slot Request.isCreate c.store "run.json" = 1 ∧
    sent sampleProvider.slot Request.isStop c.store "run.json" ≤ 1 := by
  obtain ⟨c, hrun, hcreate, _⟩ := stale_run
  exact ⟨c, hrun, hcreate, (one_effect_per_slot hrun "run.json").2.1⟩

theorem observations_follow_sampled : ∃ c, Runs SampleRow sampleProvider.slot Follows c ∧
    c.store.saves.length = 5 ∧
    ∀ save ∈ c.store.saves, ∀ o, save.2.1.observation = some o →
      ∃ o', save.2.2.observation = some o' ∧ (o' = o ∨ o.state.allows o'.state) ∧
        (o.state.isTerminal → o'.state = o.state) := by
  obtain ⟨c, hrun, hsaves⟩ := fresh_run
  exact ⟨c, hrun, by simpa using congrArg List.length hsaves, observations_follow hrun⟩

/-- **A stop can overwrite a success.**  The provider reported success to a reconciliation and then a
running job to the stop, whose save replaces the recorded success. -/
theorem stop_overwrites_success :
    ¬∀ c, Runs SampleRow sampleProvider.slot anyAnswer c →
      ∀ save ∈ c.store.saves, ∀ o, save.2.1.observation = some o →
        ∃ o', save.2.2.observation = some o' ∧ (o' = o ∨ o.state.allows o'.state) := by
  intro h
  obtain ⟨c, hrun, _, hsaves⟩ := stale_run
  have hmem : (some RunState.succeeded, some RunState.running) ∈ c.store.saves.map savedStates := by
    simp [hsaves]
  obtain ⟨save, hsave, hstates⟩ := List.mem_map.mp hmem
  rw [savedStates, Prod.mk.injEq, Option.map_eq_some_iff, Option.map_eq_some_iff] at hstates
  obtain ⟨⟨o, ho, hstate⟩, ⟨o', ho', hstate'⟩⟩ := hstates
  obtain ⟨o'', ho'', hcases⟩ := h c hrun save hsave o ho
  rw [ho', Option.some.injEq] at ho''
  subst ho''
  rcases hcases with rfl | hallows
  · rw [hstate] at hstate'
    cases hstate'
  · rw [hstate, hstate'] at hallows
    cases hallows

end Cloud

end ExperimentControl
