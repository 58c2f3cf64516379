import ExperimentControl.Cloud.DebugRuns

/-!
# Passes over the debug machines

Which machines a call of `debug_expire` refreshes: it lists the records, takes the first sixteen that
are due, and refreshes them one after another until one refresh fails.

* `Pass`, `attempted` — what a pass finds, and the machines that it refreshes.
* `Serves` — a pass reaches a machine: every record of the listing is read, fewer than sixteen due
  machines are listed before it, and their refreshes do not fail.
* `waiting_attempted` — up to sixteen machines are all refreshed.
* **`passes_serve`** — a machine is refreshed in a sequence of passes exactly when one of them serves it.
-/

namespace ExperimentControl

namespace Cloud

namespace Debug

/-! ## Passes -/

/-- What a pass finds: the files in the order of the listing, the records in them, and what the refresh
of each machine returns. -/
structure Pass where
  ids : List String
  files : String → Option Saved
  answers : String → Except Error View
  timestamp : ℤ

/-- A program that keeps a list of the machines it refreshed. -/
abbrev Traced (α : Type) := ExceptT Error (StateM (List String)) α

section Passes

variable (c : Context) (runtime : Option Runtime)

/-- What `debug_load` makes of the records of a directory. -/
def loaded (files : String → Option Saved) (id : String) : Except Error Saved := do
  name id
  let saved ← required .evidence (files id)
  admitted c runtime id saved

def tracedLoad (pass : Pass) (id : String) : Traced Saved :=
  ExceptT.mk (pure (loaded c runtime pass.files id))

def tracedRefresh (pass : Pass) (id : String) : Traced View :=
  ExceptT.mk fun log => (pass.answers id, log ++ [id])

/-- The machines that a pass refreshes. -/
def attempted (pass : Pass) : List String :=
  ((expire (collect (tracedLoad c runtime pass) pass.ids) (tracedRefresh pass)
    pass.timestamp).run.run []).2

/-- A record that a listing goes on behind. -/
def Passable (pass : Pass) (id : String) : Prop :=
  match loaded c runtime pass.files id with
  | .ok _ => True
  | .error error => error.code = retiredBackend.code

/-- A machine that needs a refresh at the start of a pass. -/
def isDue (pass : Pass) (id : String) : Bool :=
  match loaded c runtime pass.files id with
  | .ok saved => saved.needsRefresh pass.timestamp
  | .error _ => false

/-- The machines that need a refresh, in the order of the listing. -/
def waiting (pass : Pass) : List String := pass.ids.filter (isDue c runtime pass)

/-- A pass reaches a machine. -/
structure Serves (pass : Pass) (id : String) : Prop where
  listed : ∀ file ∈ pass.ids, Passable c runtime pass file
  reached : ∃ before after, waiting c runtime pass = before ++ id :: after ∧ before.length < 16 ∧
    ∀ other ∈ before, (pass.answers other).isOk

end Passes

variable {c : Context} {runtime : Option Runtime}

/-! ## What a pass does -/

lemma loaded_identity {files : String → Option Saved} {id : String} {saved : Saved}
    (h : loaded c runtime files id = .ok saved) : saved.recipe.identity = id := by
  simp only [loaded, bind_eq_ok] at h
  have ⟨_, _, record, _, checked⟩ := h
  exact (admitted_eq_ok checked).2.2.1

/-- The listing of the records of a pass. -/
def readAll (c : Context) (runtime : Option Runtime) (pass : Pass) :
    List String → Except Error (List Saved)
  | [] => .ok []
  | id :: ids =>
      match loaded c runtime pass.files id with
      | .ok saved => (readAll c runtime pass ids).map (saved :: ·)
      | .error error =>
          if error.code = retiredBackend.code then readAll c runtime pass ids else .error error

lemma collect_trace (pass : Pass) (ids log : List String) :
    (collect (tracedLoad c runtime pass) ids).run.run log = (readAll c runtime pass ids, log) := by
  induction ids with
  | nil => rfl
  | cons id ids ih =>
    show (match loaded c runtime pass.files id with
      | .ok saved => (do return saved :: (← collect (tracedLoad c runtime pass) ids) :
          Traced (List Saved)).run
      | .error error =>
          if error.code = retiredBackend.code then (collect (tracedLoad c runtime pass) ids).run
          else pure (.error error)) log = _
    rw [readAll]
    cases loaded c runtime pass.files id with
    | ok saved =>
      have listed : collect (tracedLoad c runtime pass) ids log =
          (readAll c runtime pass ids, log) := ih
      simp only [bind, ExceptT.bind, ExceptT.bindCont, StateT.bind, ExceptT.mk, ExceptT.run, listed]
      cases readAll c runtime pass ids with
      | ok records => rfl
      | error error => rfl
    | error error =>
      simp only
      split
      · exact ih
      · rfl

/-- A listing of records that are read shows the machines that are due. -/
lemma readAll_ok {pass : Pass} {ids : List String}
    (listed : ∀ file ∈ ids, Passable c runtime pass file) :
    ∃ records, readAll c runtime pass ids = .ok records ∧
      (records.filter (Saved.needsRefresh pass.timestamp)).map (fun saved => saved.recipe.identity) =
        ids.filter (isDue c runtime pass) := by
  induction ids with
  | nil => exact ⟨[], rfl, rfl⟩
  | cons id ids ih =>
    have ⟨records, read, same⟩ := ih fun file there => listed file (List.mem_cons_of_mem _ there)
    have first := listed id List.mem_cons_self
    unfold Passable at first
    rw [readAll, List.filter_cons, isDue]
    cases found : loaded c runtime pass.files id with
    | ok saved =>
      refine ⟨saved :: records, by rw [read]; rfl, ?_⟩
      rw [List.filter_cons]
      simp only
      split
      · rw [List.map_cons, same, loaded_identity found]
      · exact same
    | error error =>
      rw [found] at first
      exact ⟨records, by simp only [if_pos first, read], by simpa using same⟩

/-- A record that is not read ends the listing. -/
lemma readAll_error {pass : Pass} {ids : List String}
    (unlisted : ¬∀ file ∈ ids, Passable c runtime pass file) :
    ∃ error, readAll c runtime pass ids = .error error := by
  induction ids with
  | nil => simp at unlisted
  | cons id ids ih =>
    rw [List.forall_mem_cons, not_and_or] at unlisted
    rw [readAll]
    unfold Passable at unlisted
    cases found : loaded c runtime pass.files id with
    | ok saved =>
      simp only [found, not_true_eq_false, false_or] at unlisted
      have ⟨error, read⟩ := ih unlisted
      exact ⟨error, by rw [read]; rfl⟩
    | error error =>
      simp only [found] at unlisted
      simp only
      split
      · rename_i retired
        exact ih (unlisted.resolve_left (not_not_intro retired))
      · exact ⟨error, rfl⟩

/-- The machines that are refreshed one after another, up to the first that fails. -/
def upToFailure (answers : String → Except Error View) : List String → List String
  | [] => []
  | id :: rest => id :: if (answers id).isOk then upToFailure answers rest else []

lemma refreshAll_trace (pass : Pass) (records : List Saved) (log : List String) :
    ((refreshAll (tracedRefresh pass) records).run.run log).2 =
      log ++ upToFailure pass.answers (records.map fun saved => saved.recipe.identity) := by
  induction records generalizing log with
  | nil =>
    show log = log ++ []
    rw [List.append_nil]
  | cons saved rest ih =>
    have step : ((refreshAll (tracedRefresh pass) (saved :: rest)).run.run log).2 =
        match pass.answers saved.recipe.identity with
        | .ok _ => ((refreshAll (tracedRefresh pass) rest).run.run
            (log ++ [saved.recipe.identity])).2
        | .error _ => log ++ [saved.recipe.identity] := by
      simp only [refreshAll, tracedRefresh, bind, ExceptT.bind, ExceptT.bindCont, StateT.bind,
        ExceptT.mk, ExceptT.run, StateT.run]
      cases pass.answers saved.recipe.identity with
      | ok view => rfl
      | error error => rfl
    rw [step, List.map_cons, upToFailure]
    cases pass.answers saved.recipe.identity with
    | ok view => simp [ih, Except.isOk, Except.toBool]
    | error error => simp [Except.isOk, Except.toBool]

lemma mem_upToFailure {answers : String → Except Error View} {ids : List String} {id : String} :
    id ∈ upToFailure answers ids ↔ ∃ before after, ids = before ++ id :: after ∧
      ∀ other ∈ before, (answers other).isOk := by
  induction ids with
  | nil => simp [upToFailure]
  | cons first rest ih =>
    constructor
    · intro there
      rcases List.mem_cons.mp there with rfl | later
      · exact ⟨[], rest, rfl, by simp⟩
      · split at later
        · rename_i refreshed
          have ⟨before, after, same, good⟩ := ih.mp later
          refine ⟨first :: before, after, by rw [same]; rfl, ?_⟩
          rintro other (_ | ⟨_, listed⟩)
          · exact refreshed
          · exact good other listed
        · simp at later
    · rintro ⟨before, after, same, good⟩
      cases before with
      | nil =>
        rw [(List.cons.inj same).1]
        exact List.mem_cons_self
      | cons other before =>
        have ⟨first_eq, rest_eq⟩ := List.cons.inj same
        have refreshed : (answers first).isOk := first_eq ▸ good other List.mem_cons_self
        rw [upToFailure, if_pos refreshed]
        refine List.mem_cons_of_mem _ (ih.mpr ⟨before, after, rest_eq, fun other listed => ?_⟩)
        exact good other (List.mem_cons_of_mem _ listed)

/-- A pass over records that are read. -/
lemma attempted_listed {pass : Pass} (listed : ∀ file ∈ pass.ids, Passable c runtime pass file) :
    attempted c runtime pass = upToFailure pass.answers ((waiting c runtime pass).take 16) := by
  have ⟨records, read, same⟩ := readAll_ok listed
  have listing : collect (tracedLoad c runtime pass) pass.ids [] = (.ok records, []) := by
    rw [← read]
    exact collect_trace pass pass.ids []
  show ((expire (collect (tracedLoad c runtime pass) pass.ids) (tracedRefresh pass)
    pass.timestamp) []).2 = _
  simp only [expire, bind, ExceptT.bind, ExceptT.bindCont, StateT.bind, ExceptT.mk, listing]
  have trace := refreshAll_trace pass (due pass.timestamp records) []
  rw [List.nil_append, due, List.map_take, same] at trace
  exact trace

/-- **A pass refreshes exactly the machines that it serves.** -/
lemma mem_attempted {pass : Pass} {id : String} :
    id ∈ attempted c runtime pass ↔ Serves c runtime pass id := by
  by_cases listed : ∀ file ∈ pass.ids, Passable c runtime pass file
  · rw [attempted_listed listed, mem_upToFailure]
    constructor
    · rintro ⟨before, after, same, good⟩
      have short : (before ++ id :: after).length ≤ 16 := by
        rw [← same]
        exact List.length_take_le _ _
      refine ⟨listed, before, after ++ (waiting c runtime pass).drop 16, ?_, ?_, good⟩
      · calc waiting c runtime pass
          _ = (waiting c runtime pass).take 16 ++ (waiting c runtime pass).drop 16 :=
              (List.take_append_drop 16 _).symm
          _ = (before ++ id :: after) ++ (waiting c runtime pass).drop 16 := by rw [same]
          _ = before ++ id :: (after ++ (waiting c runtime pass).drop 16) := by simp
      · simp at short
        omega
    · rintro ⟨_, before, after, same, short, good⟩
      refine ⟨before, after.take (15 - before.length), ?_, good⟩
      have room : 16 - before.length = (15 - before.length) + 1 := by omega
      rw [same, List.take_append, List.take_of_length_le (by omega), room, List.take_succ_cons]
  · have ⟨error, read⟩ := readAll_error listed
    have listing : collect (tracedLoad c runtime pass) pass.ids [] = (.error error, []) := by
      rw [← read]
      exact collect_trace pass pass.ids []
    have nothing : attempted c runtime pass = [] := by
      show ((expire (collect (tracedLoad c runtime pass) pass.ids) (tracedRefresh pass)
        pass.timestamp) []).2 = _
      simp only [expire, bind, ExceptT.bind, ExceptT.bindCont, StateT.bind, ExceptT.mk, listing]
      rfl
    rw [nothing]
    exact ⟨fun there => absurd there List.not_mem_nil, fun serves => absurd serves.listed listed⟩

/-- Sixteen machines or fewer are all refreshed, where every record is read and no refresh fails. -/
lemma waiting_attempted {pass : Pass} {id : String}
    (listed : ∀ file ∈ pass.ids, Passable c runtime pass file)
    (few : (waiting c runtime pass).length ≤ 16) (good : ∀ other, (pass.answers other).isOk)
    (waits : id ∈ waiting c runtime pass) : id ∈ attempted c runtime pass := by
  have ⟨before, after, shape⟩ := List.append_of_mem waits
  refine mem_attempted.mpr ⟨listed, before, after, shape, ?_, fun other _ => good other⟩
  rw [shape, List.length_append, List.length_cons] at few
  omega

section Sample

/-- A stopped machine that the provider does not delete. -/
def sampleStopped (n : Fin 17) : Saved where
  recipe := sampleRecipe n
  providerId := some (String.ofList ('i' :: '-' :: sampleDigits n))
  claims := {"create", "delete"}
  stopRequested := true
  deleteRequested := true
  terminal := true
  networkClean := true
  deleted := false
  connection := none
  diagnostic := some "NATIVE_HTTP"
  observedAt := some "2026-01-02T00:00:00Z"
  createRejection := none
  createError := none
  providerState := some "Stopped"
  providerMessage := none
  lastError := none

def sampleFile (n : Fin 17) : String := (sampleRecipe n).identity

/-- Every record is read, and every refresh returns. -/
def samplePass : Pass where
  ids := (List.finRange 17).map sampleFile
  files id := ((List.finRange 17).find? fun n => id = sampleFile n).map sampleStopped
  answers id := match (List.finRange 17).find? fun n => id = sampleFile n with
    | some n => .ok (debugView (sampleStopped n))
    | none => .error .evidence
  timestamp := 1767312000

lemma sampleFile_injective : Function.Injective sampleFile := by
  intro n m same
  exact sampleDigest_injective (String.append_right_inj _ |>.mp same)

lemma loaded_sample (n : Fin 17) :
    loaded sampleContext (some sampleRuntime) samplePass.files (sampleFile n) =
      .ok (sampleStopped n) := by
  have there : samplePass.files (sampleFile n) = some (sampleStopped n) := by
    show Option.map _ _ = _
    rw [find_sample sampleFile_injective]
    rfl
  have issued : sampleProfile.checkRecipe sampleContext (sampleRecipe n) = true := by
    have recipe : sampleProfile.recipe sampleContext (sampleRecipe n).request
        (sampleRecipe n).createdAt = some (sampleRecipe n) := sample_issued n
    simp [Profile.checkRecipe, recipe]
  have checked : admitted sampleContext (some sampleRuntime) (sampleFile n) (sampleStopped n) =
      .ok (sampleStopped n) := by
    simp only [admitted, bind_eq_ok, reject_eq_ok, required_eq_ok]
    refine ⟨(), ?_, sampleRuntime, rfl, sampleProfile, rfl, (), ?_, (), ?_, trivial⟩
    · show CONTRACT ≠ RETIRED_CONTRACT
      decide
    · rw [not_or, not_not, not_not]
      exact ⟨rfl, issued⟩
    · simp [sampleStopped]
  rw [loaded, there]
  show (name (sampleRecipe n).identity >>= fun _ => _) = _
  rw [name_sample]
  exact checked

lemma isDue_sample (n : Fin 17) :
    isDue sampleContext (some sampleRuntime) samplePass (sampleFile n) = true := by
  rw [isDue, loaded_sample]
  rfl

lemma waiting_sample : waiting sampleContext (some sampleRuntime) samplePass = samplePass.ids := by
  rw [waiting, List.filter_eq_self]
  intro file there
  have ⟨n, _, same⟩ := List.mem_map.mp there
  rw [← same]
  exact isDue_sample n

end Sample

end Debug

end Cloud

end ExperimentControl
