import ExperimentControl.Artifacts.Publication

/-!
# The retention of a publication

What holds of a publication's state over any sequence of acknowledgements, releases and observed
successors. The archive's bytes are deleted on release, so the order has to hold however requests
are repeated, and from whichever side the next state comes.

* `Step`, `Steps` — the operations, and runs of them.
* `Step.validate`, `Step.rank_le`, `Step.released` — what one operation keeps.
* **`retention_runs`** — what a whole run keeps, and which acknowledgements a state takes.
* **`validateSuccessor_trans`** — a successor of a successor is a successor.
-/

namespace ExperimentControl

namespace Artifacts

namespace State

variable {rfc3339 : String → Option ℤ} {state next : State}

/-! ## What the checks establish -/

/-- The instant of a text can be read. -/
def Dated (rfc3339 : String → Option ℤ) (value : String) : Prop :=
  ∃ instant, timestamp rfc3339 value = .ok instant

lemma presentTimestamp_some {value : String} :
    presentTimestamp rfc3339 (some value) = timestamp rfc3339 value := rfl

/-- A retention on its way to release. -/
lemma validateRetention_pending {retention : Retention} {sha : String}
    (hstatus : retention.status = .scheduled ∨ retention.status = .releasing) :
    validateRetention rfc3339 retention sha = .ok () ↔
      retention.sha256 = sha ∧ isSha256 retention.sha256 = true ∧
        (∃ after, retention.releaseAfter = some after ∧ Dated rfc3339 after) ∧
        retention.releasedAt = none := by
  have hdated : (∃ instant, presentTimestamp rfc3339 retention.releaseAfter = .ok instant) ↔
      ∃ after, retention.releaseAfter = some after ∧ Dated rfc3339 after := by
    cases retention.releaseAfter with
    | none => simp [presentTimestamp]
    | some after => simp [presentTimestamp_some, Dated]
  unfold validateRetention
  rw [← hdated]
  rcases hstatus with hstatus | hstatus <;>
  · simp only [hstatus, bind_eq_ok, reject_eq_ok, not_or, not_not, ne_eq, Option.isSome_iff_ne_none]
    constructor
    · rintro ⟨⟨⟩, ⟨hsha, hhex⟩, instant, hafter, hnone⟩
      exact ⟨hsha, hhex, ⟨instant, hafter⟩, hnone⟩
    · rintro ⟨hsha, hhex, ⟨instant, hafter⟩, hnone⟩
      exact ⟨(), ⟨hsha, hhex⟩, instant, hafter, hnone⟩

/-- What a valid state is. -/
structure Valid (rfc3339 : String → Option ℤ) (state : State) : Prop where
  bundle : state.bundle.validate = .ok ()
  retention : validateRetention rfc3339 state.retention state.bundle.archive.sha256 = .ok ()
  proof : ∀ ack, state.acknowledgement = some ack →
    proofMatches state.bundle.archive ack.proof = .ok () ∧ Dated rfc3339 ack.verifiedAt ∧
      (state.retention.status ≠ .keep → state.retention.releaseAfter = some ack.verifiedAt)
  unproved : state.acknowledgement = none → state.retention.status = .keep

lemma validate_eq_ok : state.validate rfc3339 = .ok () ↔ state.Valid rfc3339 := by
  rcases state with ⟨bundle, retention, _ | ack⟩
  · unfold validate
    simp only [bind_eq_ok, reject_eq_ok, ne_eq, not_not]
    constructor
    · rintro ⟨⟨⟩, hbundle, ⟨⟩, hretention, hkeep⟩
      exact ⟨hbundle, hretention, by simp, fun _ => hkeep⟩
    · rintro ⟨hbundle, hretention, -, hkeep⟩
      exact ⟨(), hbundle, (), hretention, hkeep rfl⟩
  · unfold validate
    simp only [bind_eq_ok, reject_eq_ok, not_and, not_not]
    constructor
    · rintro ⟨⟨⟩, hbundle, ⟨⟩, hretention, ⟨⟩, hproof, instant, hdated, hafter⟩
      refine ⟨hbundle, hretention, ?_, by simp⟩
      rintro _ ⟨⟩
      exact ⟨hproof, ⟨instant, hdated⟩, hafter⟩
    · rintro ⟨hbundle, hretention, hproof, -⟩
      obtain ⟨hproof, ⟨instant, hdated⟩, hafter⟩ := hproof ack rfl
      exact ⟨(), hbundle, (), hretention, (), hproof, instant, hdated, hafter⟩

/-- A valid bundle has a valid receipt. -/
lemma validateReceipt_of_bundle {bundle : Bundle} (h : bundle.validate = .ok ()) :
    validateReceipt bundle.archive = .ok () := by
  obtain ⟨⟨⟩, hreceipt, -⟩ := bind_eq_ok.mp h
  exact hreceipt

/-- The digest of a valid receipt is one. -/
lemma isSha256_of_receipt {receipt : ArchiveReceipt} (h : validateReceipt receipt = .ok ()) :
    isSha256 receipt.sha256 = true := by
  unfold validateReceipt at h
  obtain ⟨⟨⟩, -, h⟩ := bind_eq_ok.mp h
  obtain ⟨⟨⟩, -, h⟩ := bind_eq_ok.mp h
  obtain ⟨⟨⟩, -, h⟩ := bind_eq_ok.mp h
  obtain ⟨⟨⟩, hsha, -⟩ := bind_eq_ok.mp h
  rw [reject_eq_ok, not_or, not_or, not_not] at hsha
  exact hsha.2.1

lemma valid_new {bundle : Bundle} (h : State.new bundle = .ok state) : state.Valid rfc3339 := by
  obtain ⟨⟨⟩, hbundle, h⟩ := bind_eq_ok.mp h
  cases h
  refine ⟨hbundle, ?_, by simp, fun _ => rfl⟩
  have hsha := isSha256_of_receipt (validateReceipt_of_bundle hbundle)
  simp [validateRetention, hsha, bind_eq_ok]

/-! ## What one operation does -/

/-- The retention an acknowledgement decides. -/
def decided (archive : ArchiveReceipt) (verifiedAt : String) (release : Bool) : Retention where
  status := if release then .scheduled else .keep
  sha256 := archive.sha256
  releaseAfter := if release then some verifiedAt else none
  releasedAt := none

lemma acknowledge_decided {receipt : ArchiveReceipt} {proof : DownloadProof} {verifiedAt : String}
    {release : Bool} {ack : Acknowledgement} {retention : Retention} :
    Artifacts.acknowledge rfc3339 receipt proof verifiedAt release = .ok (ack, retention) ↔
      proofMatches receipt proof = .ok () ∧ Dated rfc3339 verifiedAt ∧
        ack = ⟨proof, verifiedAt⟩ ∧ retention = decided receipt verifiedAt release := by
  unfold Artifacts.acknowledge Dated decided
  rcases hdated : timestamp rfc3339 verifiedAt with e | instant
  · simp [bind_eq_ok, Except.mapError]
  · simp only [bind_eq_ok, Except.mapError, Except.ok.injEq, Prod.mk.injEq, exists_eq_left',
      true_and]
    constructor
    · rintro ⟨⟨⟩, hproof, rfl, rfl⟩
      exact ⟨hproof, ⟨instant, rfl⟩, rfl, rfl⟩
    · rintro ⟨hproof, -, rfl, rfl⟩
      exact ⟨(), hproof, rfl, rfl⟩

/-- **An acknowledgement** of a valid state, with its recorded proof if it has one: it is a repeat,
or it decides the retention of a state that was kept. -/
theorem acknowledge_eq_ok {proof : DownloadProof} {verifiedAt : String} {release : Bool} :
    state.acknowledge rfc3339 proof verifiedAt release = .ok next ↔
      state.Valid rfc3339 ∧ proofMatches state.bundle.archive proof = .ok () ∧
        Dated rfc3339 verifiedAt ∧ (∀ old, state.acknowledgement = some old → old.proof = proof) ∧
        if state.acknowledgement.isSome ∧ (state.retention.status ≠ .keep ∨ release = false) then
          next = state
        else next = ⟨state.bundle, decided state.bundle.archive verifiedAt release,
          some ⟨proof, verifiedAt⟩⟩ := by
  unfold acknowledge
  rw [← validate_eq_ok, bind_eq_ok]
  constructor
  · rintro ⟨⟨⟩, hvalid, h⟩
    obtain ⟨⟨ack, retention⟩, hack, h⟩ := bind_eq_ok.mp h
    obtain ⟨hproof, hdated, rfl, rfl⟩ := acknowledge_decided.mp hack
    refine ⟨hvalid, hproof, hdated, ?_⟩
    dsimp only at h
    rcases hold : state.acknowledgement with _ | old
    · rw [hold] at h
      cases h
      simp
    · rw [hold] at h
      obtain ⟨⟨⟩, hsame, h⟩ := bind_eq_ok.mp h
      rw [reject_eq_ok, not_not] at hsame
      simp only [Option.some.injEq, Option.isSome_some, true_and]
      refine ⟨fun _ hold => hold ▸ hsame, ?_⟩
      split_ifs at h ⊢ <;> exact (Except.ok.inj h).symm
  · rintro ⟨hvalid, hproof, hdated, hsame, hnext⟩
    refine ⟨(), hvalid, bind_eq_ok.mpr ⟨_, acknowledge_decided.mpr ⟨hproof, hdated, rfl, rfl⟩, ?_⟩⟩
    dsimp only
    rcases hold : state.acknowledgement with _ | old
    · rw [hold] at hnext
      simp only [Option.isSome_none, Bool.false_eq_true, false_and, if_false] at hnext
      rw [hnext]
    · rw [hold] at hnext
      simp only [Option.isSome_some, true_and] at hnext
      refine bind_eq_ok.mpr ⟨(), by rw [reject_eq_ok, not_not]; exact hsame old hold, ?_⟩
      split_ifs at hnext ⊢ <;> rw [hnext]

lemma beginRelease_eq_ok (h : state.beginRelease rfc3339 = .ok next) :
    validateRetention rfc3339 state.retention state.bundle.archive.sha256 = .ok () ∧
      ((state.retention.status = .scheduled ∨ state.retention.status = .releasing) ∧
          next = { state with retention := { state.retention with status := .releasing } } ∨
        state.retention.status = .released ∧ next = state) := by
  obtain ⟨retention, hbegin, h⟩ := bind_eq_ok.mp h
  cases h
  unfold Artifacts.beginRelease at hbegin
  obtain ⟨⟨⟩, -, hbegin⟩ := bind_eq_ok.mp hbegin
  obtain ⟨⟨⟩, hretention, hbegin⟩ := bind_eq_ok.mp hbegin
  refine ⟨hretention, ?_⟩
  rcases hstatus : state.retention.status <;> rw [hstatus] at hbegin <;> cases hbegin <;> simp

lemma finishRelease_eq_ok {releasedAt : String}
    (h : state.finishRelease rfc3339 releasedAt = .ok next) :
    validateRetention rfc3339 state.retention state.bundle.archive.sha256 = .ok () ∧
      state.retention.status = .releasing ∧ Dated rfc3339 releasedAt ∧
      next = { state with
        retention := { state.retention with status := .released, releasedAt := some releasedAt } }
      := by
  obtain ⟨retention, hfinish, h⟩ := bind_eq_ok.mp h
  cases h
  unfold Artifacts.finishRelease at hfinish
  obtain ⟨⟨⟩, -, hfinish⟩ := bind_eq_ok.mp hfinish
  obtain ⟨⟨⟩, hretention, hfinish⟩ := bind_eq_ok.mp hfinish
  obtain ⟨⟨⟩, hstatus, hfinish⟩ := bind_eq_ok.mp hfinish
  obtain ⟨released, hreleased, hfinish⟩ := bind_eq_ok.mp hfinish
  obtain ⟨after, -, hfinish⟩ := bind_eq_ok.mp hfinish
  obtain ⟨⟨⟩, -, hfinish⟩ := bind_eq_ok.mp hfinish
  cases hfinish
  rw [reject_eq_ok, not_not] at hstatus
  exact ⟨hretention, hstatus, ⟨released, hreleased⟩, rfl⟩

lemma validateSuccessor_eq_ok : state.validateSuccessor rfc3339 next = .ok () ↔
    state.Valid rfc3339 ∧ next.Valid rfc3339 ∧ state.bundle = next.bundle ∧
      rank state.retention.status ≤ rank next.retention.status ∧
      (state.retention.status = .released → state = next) ∧
      ∀ old, state.acknowledgement = some old →
        next.acknowledgement.map (·.proof) = some old.proof := by
  unfold validateSuccessor
  rw [← validate_eq_ok, ← validate_eq_ok]
  simp only [bind_eq_ok, reject_eq_ok, not_or, not_and, not_not, not_lt]
  rcases hack : state.acknowledgement with _ | old
  · constructor
    · rintro ⟨⟨⟩, hstate, ⟨⟩, hnext, ⟨⟩, ⟨hbundle, hrank, hfinal⟩, -⟩
      exact ⟨hstate, hnext, hbundle, hrank, hfinal, by simp⟩
    · rintro ⟨hstate, hnext, hbundle, hrank, hfinal, -⟩
      exact ⟨(), hstate, (), hnext, (), ⟨hbundle, hrank, hfinal⟩, rfl⟩
  · simp only [reject_eq_ok, not_not, Option.some.injEq, forall_eq']
    constructor
    · rintro ⟨⟨⟩, hstate, ⟨⟩, hnext, ⟨⟩, ⟨hbundle, hrank, hfinal⟩, hproof⟩
      exact ⟨hstate, hnext, hbundle, hrank, hfinal, hproof⟩
    · rintro ⟨hstate, hnext, hbundle, hrank, hfinal, hproof⟩
      exact ⟨(), hstate, (), hnext, (), ⟨hbundle, hrank, hfinal⟩, hproof⟩

/-! ## Valid states stay valid -/

lemma Valid.decided (h : state.Valid rfc3339) {proof : DownloadProof} {verifiedAt : String}
    (hproof : proofMatches state.bundle.archive proof = .ok ()) (hdated : Dated rfc3339 verifiedAt)
    (release : Bool) :
    Valid rfc3339 ⟨state.bundle, decided state.bundle.archive verifiedAt release,
      some ⟨proof, verifiedAt⟩⟩ := by
  have hsha := isSha256_of_receipt (validateReceipt_of_bundle h.bundle)
  refine ⟨h.bundle, ?_, ?_, by simp⟩
  · cases release with
    | false => simp [State.decided, validateRetention, hsha, bind_eq_ok]
    | true =>
      exact (validateRetention_pending (Or.inl rfl)).mpr
        ⟨rfl, hsha, ⟨verifiedAt, rfl, hdated⟩, rfl⟩
  · rintro _ ⟨⟩
    refine ⟨hproof, hdated, ?_⟩
    cases release <;> simp [State.decided]

lemma Valid.begun (h : state.Valid rfc3339)
    (hpending : state.retention.status = .scheduled ∨ state.retention.status = .releasing) :
    Valid rfc3339 { state with retention := { state.retention with status := .releasing } } := by
  have hkept : state.retention.status ≠ .keep := by
    rcases hpending with hstatus | hstatus <;> rw [hstatus] <;> simp
  refine ⟨h.bundle, ?_, ?_, fun hnone => absurd (h.unproved hnone) hkept⟩
  · exact (validateRetention_pending (Or.inr rfl)).mpr
      ((validateRetention_pending hpending).mp h.retention)
  · rintro ack hack
    obtain ⟨hproof, hdated, hafter⟩ := h.proof ack hack
    exact ⟨hproof, hdated, fun _ => hafter hkept⟩

lemma Valid.finished (h : state.Valid rfc3339) (hstatus : state.retention.status = .releasing)
    {releasedAt : String} (hreleased : Dated rfc3339 releasedAt) :
    Valid rfc3339 { state with
      retention := { state.retention with status := .released, releasedAt := some releasedAt } }
    := by
  have hkept : state.retention.status ≠ .keep := by
    rw [hstatus]
    simp
  obtain ⟨hsha, hhex, ⟨after, hafter, instant, hdated⟩, -⟩ :=
    (validateRetention_pending (Or.inr hstatus)).mp h.retention
  obtain ⟨released, hreleased⟩ := hreleased
  refine ⟨h.bundle, ?_, ?_, fun hnone => absurd (h.unproved hnone) hkept⟩
  · unfold validateRetention
    simp only [bind_eq_ok, reject_eq_ok, hafter, presentTimestamp_some]
    exact ⟨(), by simp [hsha, hsha ▸ hhex], (), by simp, instant, hdated, released, hreleased,
      trivial⟩
  · rintro ack hack
    obtain ⟨hproof, hdated, hafter⟩ := h.proof ack hack
    exact ⟨hproof, hdated, fun _ => hafter hkept⟩

end State

/-! ## Operations one after another -/

/-- The operations on a saved state, and a remote state that was observed and may replace it. -/
inductive Step (rfc3339 : String → Option ℤ) (state next : State) : Prop
  | acknowledge (proof : DownloadProof) (verifiedAt : String) (release : Bool)
      (done : state.acknowledge rfc3339 proof verifiedAt release = .ok next)
  | beginRelease (done : state.beginRelease rfc3339 = .ok next)
  | finishRelease (releasedAt : String) (done : state.finishRelease rfc3339 releasedAt = .ok next)
  | observe (done : state.validateSuccessor rfc3339 next = .ok ())

/-- Any sequence of operations. -/
abbrev Steps (rfc3339 : String → Option ℤ) := Relation.ReflTransGen (Step rfc3339)

namespace Step

open State

variable {rfc3339 : String → Option ℤ} {state next : State}

/-- **One operation on a valid state**: the next state is valid, of the same bundle, not behind in
its release, and it keeps the recorded proof; a released state stays as it is. -/
theorem kept (h : Step rfc3339 state next) (hvalid : state.Valid rfc3339) :
    next.Valid rfc3339 ∧ next.bundle = state.bundle ∧
      rank state.retention.status ≤ rank next.retention.status ∧
      (state.retention.status = .released → next = state) ∧
      ∀ old, state.acknowledgement = some old →
        next.acknowledgement.map (·.proof) = some old.proof := by
  cases h with
  | acknowledge proof verifiedAt release done =>
    obtain ⟨-, hproof, hdated, hsame, hnext⟩ := acknowledge_eq_ok.mp done
    split_ifs at hnext with hrepeat
    · subst hnext
      exact ⟨hvalid, rfl, le_rfl, fun _ => rfl, fun old hold => by rw [hold]; rfl⟩
    · -- The state was kept: an unproved one always is.
      have hkeep : state.retention.status = .keep := by
        rcases hack : state.acknowledgement with _ | old
        · exact hvalid.unproved hack
        · simp only [hack, Option.isSome_some, true_and, not_or, not_not] at hrepeat
          exact hrepeat.1
      subst hnext
      refine ⟨hvalid.decided hproof hdated release, rfl, ?_, ?_, ?_⟩
      · rw [hkeep]
        exact Nat.zero_le _
      · rw [hkeep]
        simp
      · rintro old hold
        rw [hsame old hold]
        rfl
  | beginRelease done =>
    obtain ⟨-, ⟨hpending, rfl⟩ | ⟨-, rfl⟩⟩ := beginRelease_eq_ok done
    · refine ⟨hvalid.begun hpending, rfl, ?_, ?_, fun old hold => by rw [hold]; rfl⟩
      · rcases hpending with hstatus | hstatus <;> rw [hstatus] <;> simp [rank]
      · rcases hpending with hstatus | hstatus <;> simp [hstatus]
    · exact ⟨hvalid, rfl, le_rfl, fun _ => rfl, fun old hold => by rw [hold]; rfl⟩
  | finishRelease releasedAt done =>
    obtain ⟨-, hstatus, hreleased, rfl⟩ := finishRelease_eq_ok done
    refine ⟨hvalid.finished hstatus hreleased, rfl, ?_, ?_, fun old hold => by rw [hold]; rfl⟩
    · rw [hstatus]
      simp [rank]
    · rw [hstatus]
      simp
  | observe done =>
    obtain ⟨-, hnext, hbundle, hrank, hfinal, hproof⟩ := validateSuccessor_eq_ok.mp done
    exact ⟨hnext, hbundle.symm, hrank, fun hstatus => (hfinal hstatus).symm, hproof⟩

end Step

namespace Steps

open State

variable {rfc3339 : String → Option ℤ} {state next : State}

/-- **A run of operations** keeps what one operation keeps. -/
theorem kept (h : Steps rfc3339 state next) (hvalid : state.Valid rfc3339) :
    next.Valid rfc3339 ∧ next.bundle = state.bundle ∧
      rank state.retention.status ≤ rank next.retention.status ∧
      (state.retention.status = .released → next = state) ∧
      ∀ old, state.acknowledgement = some old →
        next.acknowledgement.map (·.proof) = some old.proof := by
  induction h with
  | refl => exact ⟨hvalid, rfl, le_rfl, fun _ => rfl, fun old hold => by rw [hold]; rfl⟩
  | tail _ step ih =>
    obtain ⟨hmiddle, hbundle, hrank, hfinal, hproof⟩ := ih
    obtain ⟨hnext, hbundle', hrank', hfinal', hproof'⟩ := step.kept hmiddle
    refine ⟨hnext, hbundle'.trans hbundle, hrank.trans hrank', ?_, ?_⟩
    · intro hstatus
      have hsame := hfinal hstatus
      rw [hfinal' (by rw [hsame]; exact hstatus), hsame]
    · rintro old hold
      obtain ⟨ack, hack, hsame⟩ := Option.map_eq_some_iff.mp (hproof old hold)
      rw [hproof' ack hack, hsame]

/-- **A repeated acknowledgement changes nothing**, whatever happened since. -/
theorem repeated {proof : DownloadProof} {verifiedAt : String} {release : Bool} {later : State}
    (hvalid : state.Valid rfc3339)
    (hdone : state.acknowledge rfc3339 proof verifiedAt release = .ok next)
    (h : Steps rfc3339 next later) :
    later.acknowledge rfc3339 proof verifiedAt release = .ok later := by
  obtain ⟨-, hproof, hdated, hsame, hnext⟩ := acknowledge_eq_ok.mp hdone
  obtain ⟨hvalidNext, hbundleNext, -, -, -⟩ :=
    (Step.acknowledge proof verifiedAt release hdone).kept hvalid
  obtain ⟨hvalidLater, hbundle, hrank, -, hkeeps⟩ := h.kept hvalidNext
  -- The acknowledged state has this proof, and its release is decided if that was asked for.
  have hacked : next.acknowledgement.map (·.proof) = some proof ∧
      (release = true → next.retention.status ≠ .keep) := by
    split_ifs at hnext with hrepeat
    · subst hnext
      obtain ⟨old, hold⟩ := Option.isSome_iff_exists.mp hrepeat.1
      refine ⟨by rw [hold, Option.map_some, hsame old hold], fun hrelease => ?_⟩
      rcases hrepeat.2 with hstatus | hfalse
      · exact hstatus
      · rw [hrelease] at hfalse
        cases hfalse
    · subst hnext
      refine ⟨rfl, ?_⟩
      rintro rfl
      simp [decided]
  obtain ⟨ack, hack, hackProof⟩ := Option.map_eq_some_iff.mp hacked.1
  obtain ⟨last, hlast, hlastProof⟩ := Option.map_eq_some_iff.mp (hkeeps ack hack)
  refine acknowledge_eq_ok.mpr ⟨hvalidLater, ?_, hdated, ?_, ?_⟩
  · rw [hbundle, hbundleNext]
    exact hproof
  · rintro old hold
    rw [hlast, Option.some.injEq] at hold
    rw [← hold, hlastProof, hackProof]
  · rw [if_pos]
    refine ⟨by rw [hlast]; rfl, ?_⟩
    rcases hrelease : release with _ | _
    · exact Or.inr rfl
    · left
      intro hkeep
      have hdecided := hacked.2 hrelease
      rw [hkeep] at hrank
      revert hdecided hrank
      rcases next.retention.status <;> simp [rank]

end Steps

/-! ## The whole run -/

section Runs

open State

variable (rfc3339 : String → Option ℤ)

/-- **A successor of a successor is a successor.** -/
theorem validateSuccessor_trans {a b c : State}
    (hab : a.validateSuccessor rfc3339 b = .ok ()) (hbc : b.validateSuccessor rfc3339 c = .ok ()) :
    a.validateSuccessor rfc3339 c = .ok () := by
  obtain ⟨ha, -, hbundle, hrank, hfinal, hproof⟩ := validateSuccessor_eq_ok.mp hab
  obtain ⟨-, hc, hbundle', hrank', hfinal', hproof'⟩ := validateSuccessor_eq_ok.mp hbc
  refine validateSuccessor_eq_ok.mpr
    ⟨ha, hc, hbundle.trans hbundle', hrank.trans hrank', ?_, ?_⟩
  · intro hreleased
    have hsame := hfinal hreleased
    exact hsame.trans (hfinal' (hsame ▸ hreleased))
  · rintro old hold
    obtain ⟨ack, hack, hackProof⟩ := Option.map_eq_some_iff.mp (hproof old hold)
    rw [hproof' ack hack, hackProof]

/-- What a state reached by operations is, and what it still takes. -/
structure Retained (state : State) : Prop where
  valid : state.validate rfc3339 = .ok ()
  /-- The release never goes back. -/
  forward : ∀ later, Steps rfc3339 state later →
    rank state.retention.status ≤ rank later.retention.status
  /-- A release that is decided, begun or finished was acknowledged with the receipt's proof. -/
  proved : state.retention.status ≠ .keep → ∃ ack, state.acknowledgement = some ack ∧
    proofMatches state.bundle.archive ack.proof = .ok ()
  /-- A release is begun on an acknowledged state only. -/
  begun : ∀ next, state.beginRelease rfc3339 = .ok next → ∃ ack,
    state.acknowledgement = some ack ∧ proofMatches state.bundle.archive ack.proof = .ok ()
  final : state.retention.status = .released →
    ∀ later, Steps rfc3339 state later → later = state
  repeats : ∀ proof verifiedAt release next later,
    state.acknowledge rfc3339 proof verifiedAt release = .ok next → Steps rfc3339 next later →
      later.acknowledge rfc3339 proof verifiedAt release = .ok later
  /-- An acknowledgement with another proof than the recorded one is refused. -/
  conflicts : ∀ proof verifiedAt release old, state.acknowledgement = some old →
    old.proof ≠ proof → ∃ error, state.acknowledge rfc3339 proof verifiedAt release = .error error
  /-- One with the recorded proof changes a kept state that is to be released, and no other. -/
  upgrades : ∀ proof verifiedAt release next old, state.acknowledgement = some old →
    state.acknowledge rfc3339 proof verifiedAt release = .ok next → next = state ∨
      state.retention.status = .keep ∧ release = true ∧ next.retention.status = .scheduled

/-- **The retention of a publication.** In every run of acknowledgements, releases and observed
successors from a new state, every state reached is valid and proved before its release, the
release never goes back and ends at `Released`, a repeated acknowledgement changes nothing and one
with another proof is refused; and successors compose. -/
theorem retention_runs (bundle : Bundle) (first : State) (hnew : State.new bundle = .ok first) :
    (∀ state, Steps rfc3339 first state → Retained rfc3339 state) ∧
    ∀ a b c : State, a.validateSuccessor rfc3339 b = .ok () →
      b.validateSuccessor rfc3339 c = .ok () → a.validateSuccessor rfc3339 c = .ok () := by
  refine ⟨?_, fun a b c => validateSuccessor_trans rfc3339⟩
  rintro state hrun
  have hvalid := (hrun.kept (valid_new hnew)).1
  have hproved : state.retention.status ≠ .keep → ∃ ack, state.acknowledgement = some ack ∧
      proofMatches state.bundle.archive ack.proof = .ok () := by
    intro hstatus
    rcases hack : state.acknowledgement with _ | ack
    · exact absurd (hvalid.unproved hack) hstatus
    · exact ⟨ack, rfl, (hvalid.proof ack hack).1⟩
  refine ⟨validate_eq_ok.mpr hvalid, fun later h => (h.kept hvalid).2.2.1, hproved, ?_,
    fun hstatus later h => (h.kept hvalid).2.2.2.1 hstatus, ?_, ?_, ?_⟩
  · rintro next hbegin
    refine hproved ?_
    obtain ⟨-, ⟨hstatus | hstatus, -⟩ | ⟨hstatus, -⟩⟩ := beginRelease_eq_ok hbegin <;>
      rw [hstatus] <;> simp
  · rintro proof verifiedAt release next later hdone hlater
    exact Steps.repeated hvalid hdone hlater
  · rintro proof verifiedAt release old hold hne
    rcases hresult : state.acknowledge rfc3339 proof verifiedAt release with error | next
    · exact ⟨error, rfl⟩
    · exact absurd ((acknowledge_eq_ok.mp hresult).2.2.2.1 old hold) hne
  · rintro proof verifiedAt release next old hold hdone
    have hnext := (acknowledge_eq_ok.mp hdone).2.2.2.2
    split_ifs at hnext with hrepeat
    · exact Or.inl hnext
    · simp only [hold, Option.isSome_some, true_and, not_or, not_not, Bool.not_eq_false]
        at hrepeat
      refine Or.inr ⟨hrepeat.1, hrepeat.2, ?_⟩
      rw [hnext, hrepeat.2]
      rfl

end Runs

/-! ## A sampled publication -/

/-- Two instants, in seconds. -/
def sampleRfc3339 (value : String) : Option ℤ :=
  if value = "2026-10-29T00:00:00Z" then some 1793232000
  else if value = "2026-10-29T00:01:00Z" then some 1793232060
  else none

def sampleFile : FileReceipt where
  path := "weights.bin"
  bytes := 4
  sha256 := "4444444444444444444444444444444444444444444444444444444444444444"

def sampleBundle : Bundle where
  contract := PUBLICATION_CONTRACT
  intentSha256 := "sha256:1111111111111111111111111111111111111111111111111111111111111111"
  configSha256 := "sha256:2222222222222222222222222222222222222222222222222222222222222222"
  archive :=
    { project := "demo"
      runId := "train"
      attemptId := "attempt-001"
      sha256 := "3333333333333333333333333333333333333333333333333333333333333333"
      bytes := 2048
      files := [sampleFile]
      objectKey := "demo/train/attempt-001/" ++
        "3333333333333333333333333333333333333333333333333333333333333333.tar" }
  skipped := {}

def sampleProof : DownloadProof where
  archiveSha256 := sampleBundle.archive.sha256
  archiveBytes := 2048
  files := Std.ExtTreeMap.ofList [("outputs/weights.bin", sampleFile)]

/-- The new state, and the state that was acknowledged and kept. -/
def sampleNew : State := ⟨sampleBundle, ⟨.keep, sampleBundle.archive.sha256, none, none⟩, none⟩
def sampleKept : State :=
  { sampleNew with acknowledgement := some ⟨sampleProof, "2026-10-29T00:00:00Z"⟩ }

/-- The kept state after a second acknowledgement, which asks for the release. -/
def sampleScheduled : State where
  bundle := sampleBundle
  retention := ⟨.scheduled, sampleBundle.archive.sha256, some "2026-10-29T00:01:00Z", none⟩
  acknowledgement := some ⟨sampleProof, "2026-10-29T00:01:00Z"⟩

lemma isSha256_sampleBundle : isSha256 sampleBundle.archive.sha256 = true :=
  isSha256_ofList rfl (by decide)

lemma isSha256_sampleFile : isSha256 sampleFile.sha256 = true := isSha256_ofList rfl (by decide)

lemma validateReceipt_sample : validateReceipt sampleBundle.archive = .ok () := by
  have hsize : sampleBundle.archive.document.size ≤ MAX_RECEIPT_BYTES := by decide
  have hpath : receiptPath sampleFile.path = true := by decide
  have hkey : sampleBundle.archive.objectKey = sampleBundle.archive.key := rfl
  unfold validateReceipt bounded
  simp only [bind_eq_ok, mapError_eq_ok, reject_eq_ok, isSha256_sampleBundle]
  refine ⟨(), by decide, (), by decide, (), by decide, (), ?_, (), ?_, (), not_not.mpr hkey,
    not_lt.mpr hsize⟩
  · simp [sampleBundle, MAX_FILES]
  · simp [sampleBundle, hpath, isSha256_sampleFile]

lemma sampleBundle_validate : sampleBundle.validate = .ok () := by
  have hintent : validDigest sampleBundle.intentSha256 = true :=
    validDigest_ofList rfl rfl (by decide)
  have hconfig : validDigest sampleBundle.configSha256 = true :=
    validDigest_ofList rfl rfl (by decide)
  have hpath : exportPath sampleFile.path = true := by decide
  unfold Bundle.validate
  simp only [bind_eq_ok, reject_eq_ok, hintent, hconfig]
  refine ⟨(), validateReceipt_sample, (), reject_eq_ok.mpr ?_, ?_⟩
  · simp [sampleBundle]
  · simp [sampleBundle, hpath]

lemma sampleNew_eq : State.new sampleBundle = .ok sampleNew :=
  bind_eq_ok.mpr ⟨(), sampleBundle_validate, rfl⟩

lemma proofMatches_sample : proofMatches sampleBundle.archive sampleProof = .ok () := by
  have hsize : sampleProof.document.size ≤ MAX_RECEIPT_BYTES := by decide
  have hfile : sampleProof.files[proofPath sampleFile.path]? = some sampleFile := by decide
  have hrows : sampleProof.files.size = 1 := by decide
  unfold proofMatches bounded
  simp only [bind_eq_ok, reject_eq_ok]
  refine ⟨(), validateReceipt_sample, (), ?_, (), ?_, not_lt.mpr hsize⟩
  · rw [hrows]
    simp [sampleProof, sampleBundle]
  · simp [sampleBundle, hfile]

/-- Both instants of the sample can be read. -/
lemma dated_sample : State.Dated sampleRfc3339 "2026-10-29T00:00:00Z" ∧
    State.Dated sampleRfc3339 "2026-10-29T00:01:00Z" :=
  ⟨⟨1793232000, by decide⟩, ⟨1793232060, by decide⟩⟩

lemma sampleKept_eq : sampleNew.acknowledge sampleRfc3339 sampleProof "2026-10-29T00:00:00Z" false =
    .ok sampleKept :=
  State.acknowledge_eq_ok.mpr ⟨State.valid_new sampleNew_eq, proofMatches_sample, dated_sample.1,
    by simp [sampleNew], by simp [sampleNew, sampleKept, State.decided]⟩

/-- **A different acknowledgement is accepted**: the same proof at a later instant, with a release,
replaces the acknowledgement of a kept state. -/
theorem different_acknowledgement_accepted :
    sampleNew.acknowledge sampleRfc3339 sampleProof "2026-10-29T00:00:00Z" false =
        .ok sampleKept ∧
      sampleKept.acknowledgement ≠ some ⟨sampleProof, "2026-10-29T00:01:00Z"⟩ ∧
      sampleKept.acknowledge sampleRfc3339 sampleProof "2026-10-29T00:01:00Z" true =
        .ok sampleScheduled ∧
      sampleScheduled ≠ sampleKept := by
  have hsteps : Steps sampleRfc3339 sampleNew sampleKept :=
    .single (.acknowledge sampleProof "2026-10-29T00:00:00Z" false sampleKept_eq)
  have hkept := (hsteps.kept (State.valid_new sampleNew_eq)).1
  refine ⟨sampleKept_eq, by simp [sampleKept], ?_, by simp [sampleKept, sampleScheduled, sampleNew]⟩
  exact State.acknowledge_eq_ok.mpr ⟨hkept, proofMatches_sample, dated_sample.2, by simp [sampleKept],
    by simp [sampleKept, sampleNew, sampleScheduled, State.decided]⟩

theorem retention_runs_sampled : Retained sampleRfc3339 sampleKept :=
  (retention_runs sampleRfc3339 sampleBundle sampleNew sampleNew_eq).1 sampleKept
    (.single (.acknowledge sampleProof "2026-10-29T00:00:00Z" false sampleKept_eq))

end Artifacts

end ExperimentControl
