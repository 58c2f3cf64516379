import ExperimentControl.Cloud.Retry

/-!
# Looking up a cloud run

`Adapter::find` of `server/src/backends/cloud/adapter.rs` over the pages of `Page::pai` of
`core/src/cloud/observation.rs`. A lookup that finds nothing lets a job be created again, so it has to
have seen everything.

* `Page.pai` — one page of a listing, read from an answer.
* `listing` — a provider that answers the requests for pages with any sequence of answers.
* `Complete`, `Owned`, `Found` — pages that cover what they report, and what is found in them.
* **`find_exact`** — a lookup has a result exactly on complete pages, and it is what is in them.
-/

namespace ExperimentControl

namespace Cloud

/-! ## Pages -/

/-- `Page::pai`. -/
def Page.pai (value : Json) (field : String) (page pageSize : ℕ) :
    Except CoreError (Page Json) := do
  let rows ← (value.index field).asArray.elim (.error ⟨"list rows"⟩) .ok
  let total ← (value.index "TotalCount").asU64.elim (.error ⟨"list total"⟩) .ok
  reject (page = 0 ∨ pageSize = 0 ∨ pageSize > 100 ∨ rows.length > pageSize ∨ total > 10000)
    ⟨"list bounds"⟩
  let offset := (page - 1) * pageSize
  reject (offset > total ∨ offset + rows.length > total ∨
    offset + rows.length < total ∧ rows.length ≠ pageSize) ⟨"incomplete page"⟩
  .ok { rows, total := some total,
        next := if offset + rows.length < total then some (page + 1) else none }

/-- The profile whose listings are read by `Page::pai`. -/
def Provider.pai (P : Provider Json) : Provider Json :=
  { P with
    page := fun value page =>
      (Page.pai value "Jobs" page 100).mapError fun _ => Error.evidence }

/-- A first page says what all the pages together have. -/
lemma Page.pai_first {value : Json} {page : Page Json} (h : Page.pai value "Jobs" 1 100 = .ok page) :
    ∃ total, value.index "Jobs" = .array page.rows ∧
      (value.index "TotalCount").asU64 = some total ∧ page.total = some total ∧
      ((page.next = none ∧ page.rows.length = total ∧ total ≤ 100) ∨
        (page.next = some 2 ∧ page.rows.length = 100)) := by
  obtain ⟨rows, hrows, h⟩ := bind_eq_ok.mp h
  obtain ⟨total, htotal, h⟩ := bind_eq_ok.mp h
  obtain ⟨_, hbounds, h⟩ := bind_eq_ok.mp h
  obtain ⟨_, hcovered, h⟩ := bind_eq_ok.mp h
  rw [reject_eq_ok] at hbounds hcovered
  cases h
  have harray : value.index "Jobs" = .array rows := by
    cases hvalue : value.index "Jobs" <;> rw [hvalue] at hrows <;> cases hrows
    rfl
  have hcount : (value.index "TotalCount").asU64 = some total := by
    cases hvalue : (value.index "TotalCount").asU64 <;> rw [hvalue] at htotal <;> cases htotal
    rfl
  refine ⟨total, harray, hcount, rfl, ?_⟩
  by_cases hmore : (1 - 1) * 100 + rows.length < total
  · refine Or.inr ⟨if_pos hmore, ?_⟩
    change rows.length = 100
    omega
  · refine Or.inl ⟨if_neg hmore, ?_⟩
    change rows.length = total ∧ total ≤ 100
    omega

/-- A page with everything on it is read as it is. -/
lemma Page.pai_whole {value : Json} {rows : List Json} (hrows : value.index "Jobs" = .array rows)
    (htotal : (value.index "TotalCount").asU64 = some rows.length) (hlength : rows.length ≤ 100) :
    Page.pai value "Jobs" 1 100 = .ok { rows, total := some rows.length, next := none } := by
  refine bind_eq_ok.mpr ⟨rows, by rw [hrows]; rfl, ?_⟩
  refine bind_eq_ok.mpr ⟨rows.length, by rw [htotal]; rfl, ?_⟩
  refine bind_eq_ok.mpr ⟨(), reject_eq_ok.mpr (by omega), ?_⟩
  refine bind_eq_ok.mpr ⟨(), reject_eq_ok.mpr (by omega), ?_⟩
  rw [if_neg (by omega)]

/-! ## What is found -/

variable (P : Provider Json) (job : Job)

/-- The handle of a job that belongs to the slot: the row is valid for the job, and the handle is
bound to the profile and the job. -/
structure Owned (row : Json) (handle : Handle) : Prop where
  valid : ∃ observation, P.validateJob row job none = .ok observation ∧
    handle.jobId = observation.jobId
  profile : P.profileDigest = .ok handle.profileSha256
  request : P.jobDigest job = .ok handle.requestSha256
  component : P.component handle.jobId = true
  uid : handle.providerUid = none

variable {P job}

lemma handle_eq_ok {row : Json} {handle : Handle} :
    P.handle job row = .ok handle ↔ Owned P job row handle := by
  constructor
  · intro h
    obtain ⟨observation, hobservation, h⟩ := bind_eq_ok.mp h
    obtain ⟨profile, hprofile, h⟩ := bind_eq_ok.mp h
    obtain ⟨request, hrequest, h⟩ := bind_eq_ok.mp h
    obtain ⟨_, hvalid, h⟩ := bind_eq_ok.mp h
    cases h
    obtain ⟨_, -, hvalid⟩ := bind_eq_ok.mp hvalid
    obtain ⟨_, -, hvalid⟩ := bind_eq_ok.mp hvalid
    obtain ⟨_, -, hvalid⟩ := bind_eq_ok.mp hvalid
    obtain ⟨_, -, hvalid⟩ := bind_eq_ok.mp hvalid
    obtain ⟨_, hcomponent, -⟩ := bind_eq_ok.mp hvalid
    exact ⟨⟨observation, hobservation, rfl⟩, hprofile, hrequest,
      not_not.mp (reject_eq_ok.mp hcomponent), rfl⟩
  · rintro ⟨⟨observation, hobservation, hid⟩, hprofile, hrequest, hcomponent, huid⟩
    obtain ⟨profile, request, id, uid⟩ := handle
    cases hid
    cases huid
    refine bind_eq_ok.mpr ⟨observation, hobservation, ?_⟩
    refine bind_eq_ok.mpr ⟨profile, hprofile, ?_⟩
    refine bind_eq_ok.mpr ⟨request, hrequest, ?_⟩
    refine bind_eq_ok.mpr ⟨(), ?_, rfl⟩
    refine bind_eq_ok.mpr ⟨profile, hprofile, ?_⟩
    refine bind_eq_ok.mpr ⟨(), reject_eq_ok.mpr (not_not.mpr rfl), ?_⟩
    refine bind_eq_ok.mpr ⟨request, hrequest, ?_⟩
    refine bind_eq_ok.mpr ⟨(), reject_eq_ok.mpr (not_not.mpr rfl), ?_⟩
    exact bind_eq_ok.mpr ⟨(), reject_eq_ok.mpr (not_not.mpr hcomponent),
      reject_eq_ok.mpr (by simp)⟩

/-- Nothing in no rows, and the one row that there is where it belongs to the slot. -/
def Found (P : Provider Json) (job : Job) (rows : List Json) (result : Option Handle) : Prop :=
  (rows = [] ∧ result = none) ∨
    ∃ row handle, rows = [row] ∧ Owned P job row handle ∧ result = some handle

lemma found_pai {rows : List Json} {result : Option Handle} :
    Found P.pai job rows result ↔ Found P job rows result := by
  have howned : ∀ row handle, Owned P.pai job row handle ↔ Owned P job row handle :=
    fun row handle => (@handle_eq_ok P.pai job row handle).symm.trans
      (@handle_eq_ok P job row handle)
  simp only [Found, howned]

/-- The rows of a listing that has a result. -/
lemma found_of_rows {finding finding' : Finding} {rows : List Json}
    (hresult : finding.result = none) (h : Finding.rows P job finding rows = .ok finding') :
    Found P job rows finding'.result ∧ finding'.total = finding.total ∧
      finding'.received = finding.received := by
  match rows, h with
  | [], h =>
    cases h
    exact ⟨Or.inl ⟨rfl, hresult⟩, rfl, rfl⟩
  | row :: rest, h =>
    obtain ⟨handle, hhandle, h⟩ := bind_eq_ok.mp h
    obtain ⟨_, -, h⟩ := bind_eq_ok.mp h
    match rest, h with
    | [], h =>
      cases h
      exact ⟨Or.inr ⟨row, handle, rfl, handle_eq_ok.mp hhandle, rfl⟩, rfl, rfl⟩
    | second :: rest, h =>
      -- a second row meets the result of the first one
      obtain ⟨other, -, h⟩ := bind_eq_ok.mp h
      obtain ⟨_, hsingle, -⟩ := bind_eq_ok.mp h
      exact absurd (Or.inr rfl) (reject_eq_ok.mp hsingle)

/-- Rows in which there is a result have it. -/
lemma rows_of_found {finding : Finding} {rows : List Json} {result : Option Handle}
    (hempty : finding.identities = []) (hresult : finding.result = none)
    (h : Found P job rows result) :
    ∃ finding', Finding.rows P job finding rows = .ok finding' ∧ finding'.result = result ∧
      finding'.total = finding.total ∧ finding'.received = finding.received := by
  rcases h with ⟨rfl, rfl⟩ | ⟨row, handle, rfl, howned, rfl⟩
  · exact ⟨finding, rfl, hresult, rfl, rfl⟩
  · refine ⟨{ finding with identities := [handle.jobId], result := some handle }, ?_, rfl, rfl,
      rfl⟩
    refine bind_eq_ok.mpr ⟨handle, handle_eq_ok.mpr howned, ?_⟩
    refine bind_eq_ok.mpr ⟨(), reject_eq_ok.mpr (by simp [hempty, hresult]), ?_⟩
    rw [hempty]
    rfl

lemma Found.length_le {rows : List Json} {result : Option Handle} (h : Found P job rows result) :
    rows.length ≤ 1 := by
  rcases h with ⟨rfl, -⟩ | ⟨row, handle, rfl, -, -⟩ <;> simp

/-! ## Complete pages -/

/-- The pages that were read are all that there is: each has its share of the rows, in order, and
reports how many there are of them, and there is no page after the last of the rows. -/
structure Complete (answers : ℕ → Except Error Json) (count total : ℕ) (rows : List Json) :
    Prop where
  covered : rows.length = total
  page : ∀ n < count, ∃ value, answers n = .ok value ∧
    value.index "Jobs" = .array ((rows.drop (100 * n)).take 100) ∧
    (value.index "TotalCount").asU64 = some total
  first : 0 < count
  all : total ≤ 100 * count
  last : 1 < count → 100 * (count - 1) < total

/-- Of complete pages in which there is a result, the first one has all the rows. -/
lemma Complete.page_of_found {answers : ℕ → Except Error Json} {count total : ℕ}
    {rows : List Json} {result : Option Handle} (h : Complete answers count total rows)
    (hfound : Found P job rows result) {value : Json} (hvalue : answers 0 = .ok value) :
    Page.pai value "Jobs" 1 100 = .ok { rows, total := some total, next := none } := by
  obtain ⟨value', hvalue', hrows, htotal⟩ := h.page 0 h.first
  obtain rfl : value = value' := Except.ok.inj (hvalue.symm.trans hvalue')
  have hlength := hfound.length_le
  rw [Nat.mul_zero, List.drop_zero, List.take_of_length_le (by omega)] at hrows
  rw [← h.covered] at htotal ⊢
  exact Page.pai_whole hrows htotal (by omega)

/-- A provider that answers the requests for the pages, one after another, with a sequence of
answers, and no other request. -/
def listing (job : Job) (answers : ℕ → Except Error Json) : Script Unit Op (Ans Json)
  | n, (), .request asked (.list listed page) =>
      if asked = job ∧ listed = job ∧ page = n + 1 then some (answers n, ()) else none
  | _, _, _ => none

section Solo

variable {α β : Type} {script : Script Unit Op (Ans Json)} {held : Bool} {n : ℕ}

lemma solo_lift {r : Except Error α} {f : α → Eff Json β} :
    solo script (Act.lift r >>= f).run held n () =
      match r with
      | .ok a => solo script (f a).run held n ()
      | .error e => some (.error e, (), n) := by
  cases r <;> rfl

lemma solo_call {request : Request} {f : Json → Eff Json β} {value : Json}
    (hcompile : P.compile request = .ok ())
    (hanswer : script n () (.request job request) = some (.ok value, ())) :
    solo script (call P job request >>= f).run held n () =
      solo script (f value).run held (n + 1) () := by
  rw [call, hcompile]
  change solo script (Prog.call (.request job request) fun _ => _) held n () = _
  rw [solo, hanswer]
  rfl

lemma solo_call_failed {request : Request} {f : Json → Eff Json β} {e : Error}
    (hcompile : P.compile request = .ok ())
    (hanswer : script n () (.request job request) = some (.error e, ())) :
    solo script (call P job request >>= f).run held n () = some (.error e, (), n + 1) := by
  rw [call, hcompile]
  change solo script (Prog.call (.request job request) fun _ => _) held n () = _
  rw [solo, hanswer]
  rfl

lemma solo_call_refused {request : Request} {f : Json → Eff Json β} {e : Error}
    (hcompile : P.compile request = .error e) :
    solo script (call P job request >>= f).run held n () = some (.error e, (), n) := by
  rw [call, hcompile]
  rfl

end Solo

variable (P job)

/-- **A lookup is sound.** Whatever a provider answers, a lookup reads pages in order and ends; and it
ends with a result exactly where the pages it read are complete and the result is what is in them:
none where there are no rows, and the run of the one row there is, where that belongs to the slot. -/
theorem find_exact (answers : ℕ → Except Error Json) :
    ∃ outcome count, solo (listing job answers) (find P.pai job).run false 0 () =
        some (outcome, (), count) ∧
      ∀ result, outcome = .ok result ↔
        ∃ total rows, Complete answers count total rows ∧ Found P job rows result := by
  change ∃ outcome count, solo _ (findPages P.pai job (99 + 1) 1 [] {}).run false 0 () = _ ∧ _
  rw [findPages, solo_lift, reject, if_neg List.not_mem_nil]
  cases hcompile : P.compile (.list job 1) with
  | error e =>
    refine ⟨.error e, 0, solo_call_refused hcompile, fun result => ⟨(fun h => by cases h), ?_⟩⟩
    rintro ⟨total, rows, hcomplete, -⟩
    exact absurd hcomplete.first (by omega)
  | ok _ =>
    have hlist : listing job answers 0 () (.request job (.list job 1)) = some (answers 0, ()) :=
      if_pos ⟨rfl, rfl, rfl⟩
    cases hvalue : answers 0 with
    | error e =>
      refine ⟨.error e, 1, ?_, fun result => ⟨(fun h => by cases h), ?_⟩⟩
      · rw [hvalue] at hlist
        exact solo_call_failed hcompile hlist
      · rintro ⟨total, rows, hcomplete, -⟩
        obtain ⟨value, hpage, -⟩ := hcomplete.page 0 Nat.one_pos
        rw [hvalue] at hpage
        cases hpage
    | ok value =>
      rw [hvalue] at hlist
      dsimp only
      rw [solo_call (P := P.pai) hcompile hlist, solo_lift]
      -- the answer decides, as it is the only page of a listing without a second row
      cases hpage : Page.pai value "Jobs" 1 100 with
      | error e =>
        refine ⟨.error Error.evidence, 1, ?_, fun result => ⟨(fun h => by cases h), ?_⟩⟩
        · simp only [Provider.pai, hpage]
          rfl
        · rintro ⟨total, rows, hcomplete, hfound⟩
          have hread := hcomplete.page_of_found hfound hvalue
          rw [hpage] at hread
          cases hread
      | ok page =>
        have hchecked : Except.mapError (fun _ => Error.evidence) (P.pai.page value 1) =
            .ok page := by
          rw [Provider.pai]
          dsimp only
          rw [hpage]
          rfl
        obtain ⟨total, hrows, htotal, htotal', hkind⟩ := Page.pai_first hpage
        have hsame : ∀ {count total rows result}, Complete answers count total rows →
            Found P job rows result → rows = page.rows := by
          intro count total rows result hcomplete hfound
          have hread := hcomplete.page_of_found hfound hvalue
          rw [hpage] at hread
          cases hread
          rfl
        rw [hchecked]
        dsimp only
        rw [solo_lift, reject, if_neg (by simp)]
        dsimp only
        rw [solo_lift]
        cases hfinding : Finding.rows P.pai job
            { total := none.orElse fun _ => page.total, received := 0 + page.rows.length }
            page.rows with
        | error e =>
          refine ⟨.error e, 1, rfl, fun result => ⟨(fun h => by cases h), ?_⟩⟩
          rintro ⟨total', rows, hcomplete, hfound⟩
          obtain rfl := hsame hcomplete hfound
          obtain ⟨finding, hok, -⟩ := @rows_of_found P.pai job ⟨[], none, _, _⟩ page.rows _ rfl
            rfl (found_pai.mpr hfound)
          rw [hfinding] at hok
          cases hok
        | ok finding =>
          obtain ⟨hfound, hfinal, hreceived⟩ := found_of_rows rfl hfinding
          have hshort := hfound.length_le
          obtain ⟨hnext, hlength, -⟩ := hkind.resolve_right (by omega)
          have hall : ¬finding.total.any (finding.received ≠ ·) := by
            rw [hfinal, hreceived, htotal']
            simp [hlength]
          refine ⟨.ok finding.result, 1, ?_, fun result => ⟨?_, ?_⟩⟩
          · dsimp only
            rw [hnext]
            dsimp only
            rw [solo_lift, reject, if_neg hall]
            rfl
          · rintro ⟨⟩
            refine ⟨total, page.rows, ⟨hlength, ?_, Nat.one_pos, by omega, by omega⟩,
              found_pai.mp hfound⟩
            intro n hn
            obtain rfl : n = 0 := by omega
            refine ⟨value, hvalue, ?_, htotal⟩
            rw [Nat.mul_zero, List.drop_zero, List.take_of_length_le (by omega), hrows]
          · rintro ⟨total', rows, hcomplete, hfound'⟩
            obtain rfl := hsame hcomplete hfound'
            obtain ⟨finding', hok, hresult, -⟩ := @rows_of_found P.pai job ⟨[], none, _, _⟩ page.rows
              _ rfl rfl (found_pai.mpr hfound')
            rw [hfinding] at hok
            cases hok
            rw [hresult]

end Cloud

end ExperimentControl
