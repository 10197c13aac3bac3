import TimeOff.System.Sources

/-! The history explains every balance: a row that was held once, and the changes made since. -/

namespace TimeOff

/-- What the postings under a key add up to after a version. -/
def History.since (history : History) (k : String) (version : Int) : Int :=
  ((history.postings.filter fun posting =>
    posting.rowKey = k ∧ version < posting.version).map (·.delta)).sum

/-- Later postings add to what came since a version. -/
theorem History.since_append {before after : History} {more : List Posting} (k : String)
    (version : Int) (grown : after.postings = before.postings ++ more) :
    after.since k version = before.since k version +
      ((more.filter fun posting =>
        posting.rowKey = k ∧ version < posting.version).map (·.delta)).sum := by
  simp only [since, grown, List.filter_append, List.map_append, List.sum_append]

/-- A row that did not move is not posted. -/
theorem postingBetween_same {before after : HcmCore} {k : String} (cause : Option String)
    (same : after.versionOf k = before.versionOf k) : postingBetween before after k cause = [] :=
  if_pos same

/-- A row that moved is posted with its new version and the difference it made. -/
theorem postingBetween_moved {before after : HcmCore} {k : String} (cause : Option String)
    (moved : after.versionOf k ≠ before.versionOf k) :
    postingBetween before after k cause =
      [{ rowKey := k, version := after.versionOf k
         delta := after.balanceOf k - before.balanceOf k, cause }] :=
  if_neg moved

/-- Every posting between two moments is about the key that was observed. -/
theorem rowKey_of_mem_postingBetween {before after : HcmCore} {k : String} {cause : Option String}
    {posting : Posting} (member : posting ∈ postingBetween before after k cause) :
    posting.rowKey = k ∧ posting.version = after.versionOf k ∧ posting.cause = cause := by
  -- There is at most one posting, and it is built from these three.
  unfold postingBetween at member
  split at member
  · cases member
  · rw [List.mem_singleton.mp member]
    exact ⟨rfl, rfl, rfl⟩

namespace System

variable {before after : System} {action : Action} {k : String} {version balance : Int}

/-- A balance was held at a version: the current one follows from it by the later postings. -/
structure Attests (system : System) (k : String) (version balance : Int) : Prop where
  positive : 1 ≤ version
  known : version ≤ system.hcm.versionOf k
  explains : system.hcm.balanceOf k = balance + system.history.since k version

/-- What is attested stays so while the row does and nothing is posted for it. -/
theorem Attests.of_eq (attested : before.Attests k version balance) {more : List Posting}
    (row : after.hcm.balances.find k = before.hcm.balances.find k)
    (postings : after.history.postings = before.history.postings ++ more)
    (others : ∀ posting ∈ more, posting.rowKey ≠ k) : after.Attests k version balance := by
  -- Only postings about this key would count, and there are none among the new ones.
  have nothing : (more.filter fun posting =>
      posting.rowKey = k ∧ version < posting.version) = [] := by
    rw [List.filter_eq_nil_iff]
    intro posting member
    simp [others posting member]
  refine ⟨attested.positive, ?_, ?_⟩
  · simpa [HcmCore.versionOf, row] using attested.known
  · rw [History.since_append k version postings, nothing]
    simpa [HcmCore.balanceOf, row] using attested.explains

/-- What a step does to one row: nothing, or a rise of its version that is posted once. -/
inductive RowStep (before after : System) (k : String) : Prop
  | still (more : List Posting) : after.hcm.balances.find k = before.hcm.balances.find k →
      after.history.postings = before.history.postings ++ more →
      (∀ posting ∈ more, posting.rowKey ≠ k) → RowStep before after k
  | raised (row : HcmBalanceRow) (cause : Option String) :
      after.hcm.balances.find k = some row → before.hcm.versionOf k < row.version →
      after.history.postings = before.history.postings ++
        [{ rowKey := k, version := after.hcm.versionOf k
           delta := after.hcm.balanceOf k - before.hcm.balanceOf k, cause }] →
      RowStep before after k

/-- A step that touches one key leaves the other rows still. -/
theorem row_of_step (taken : before.step action = some after) (k : String) :
    RowStep before after k := by
  cases step_observation taken with
  | quiet same _ postings =>
    exact .still [] (by rw [same]) (postings.trans (List.append_nil _).symm) (by simp)
  | touched observed cause touches _ postings =>
    by_cases own : k = observed
    · subst own
      rcases touches.moves with same | ⟨row, found, higher⟩
      · -- Posting compares versions, so a row that stayed is not posted.
        rw [postingBetween_same cause (by simp [HcmCore.versionOf, same])] at postings
        exact .still [] same postings (by simp)
      · have current := HcmCore.versionOf_of_find found
        have moved : after.hcm.versionOf k ≠ before.hcm.versionOf k := by omega
        rw [postingBetween_moved cause moved] at postings
        exact .raised row cause found higher postings
    · -- The one posting there can be names the observed key.
      refine .still _ (touches.others k own) postings fun posting member => ?_
      rw [(rowKey_of_mem_postingBetween member).1]
      exact Ne.symm own

/-- An attested balance stays attested. -/
theorem Attests.step (attested : before.Attests k version balance)
    (taken : before.step action = some after) : after.Attests k version balance := by
  cases row_of_step taken k with
  | still more same postings others => exact attested.of_eq same postings others
  | raised row cause found higher postings =>
    have current := HcmCore.versionOf_of_find found
    have newer : version < after.hcm.versionOf k := by
      have known := attested.known
      omega
    refine ⟨attested.positive, newer.le, ?_⟩
    -- The new posting is later than the version and adds the difference.
    have explains := attested.explains
    rw [History.since_append k version postings]
    simp only [newer, and_self, decide_true, List.filter_cons_of_pos, List.filter_nil,
      List.map_cons, List.map_nil, List.sum_cons, List.sum_nil]
    omega

/-- Every row, wherever it is on its way, is one that was held once. -/
structure Explained (system : System) : Prop where
  -- Versions start at one, and no posting is newer than the row it is about.
  positive : ∀ k row, system.hcm.balances.find k = some row → 1 ≤ row.version
  dated : ∀ posting ∈ system.history.postings,
    posting.version ≤ system.hcm.versionOf posting.rowKey
  rows : ∀ row ∈ system.history.rows, system.Attests row.key row.version row.balance
  loads : ∀ load ∈ system.loads,
    system.Attests (key load.employeeId load.locationId) load.row.version load.row.balance
  pulls : ∀ update ∈ system.pulls,
    system.Attests (key update.employeeId update.locationId) update.version update.balance
  cached : ∀ balance ∈ system.service.store.balances.rows,
    system.Attests (key balance.employeeId balance.locationId) balance.lastReconciledVersion
      balance.hcmBalance

/-- The current row is attested, for nothing was posted after it. -/
theorem attests_current {system : System} {row : HcmBalanceRow}
    (positive : ∀ k row, system.hcm.balances.find k = some row → 1 ≤ row.version)
    (dated : ∀ posting ∈ system.history.postings,
      posting.version ≤ system.hcm.versionOf posting.rowKey)
    (found : system.hcm.balances.find k = some row) :
    system.Attests k row.version row.balance := by
  -- A posting newer than the row would be newer than itself, so none counts.
  have nothing : (system.history.postings.filter fun posting =>
      posting.rowKey = k ∧ row.version < posting.version) = [] := by
    rw [List.filter_eq_nil_iff]
    intro posting member
    simp only [decide_eq_true_eq, not_and]
    rintro rfl
    have latest := dated posting member
    rw [HcmCore.versionOf_of_find found] at latest
    omega
  refine ⟨positive k row found, (HcmCore.versionOf_of_find found).ge, ?_⟩
  rw [HcmCore.balanceOf_of_find found]
  rw [History.since, nothing]
  simp

/-- A version never goes down. -/
theorem versionOf_step (taken : before.step action = some after) (k : String) :
    before.hcm.versionOf k ≤ after.hcm.versionOf k := by
  cases row_of_step taken k with
  | still _ same => simp [HcmCore.versionOf, same]
  | raised row _ found higher =>
    rw [HcmCore.versionOf_of_find found]
    exact higher.le

/-- Versions stay positive. -/
theorem positive_step (explained : before.Explained) (taken : before.step action = some after) :
    ∀ k row, after.hcm.balances.find k = some row → 1 ≤ row.version := by
  intro k row found
  cases row_of_step taken k with
  | still _ same => exact explained.positive k row (same ▸ found)
  | raised moved _ foundToo higher =>
    cases found.symm.trans foundToo
    -- A row that was not there counts as version zero, and one that was has at least one.
    have nonneg : 0 ≤ before.hcm.versionOf k := by
      cases earlier : before.hcm.balances.find k with
      | none => simp [HcmCore.versionOf, earlier]
      | some old =>
        have positive := explained.positive k old earlier
        rw [HcmCore.versionOf_of_find earlier]
        omega
    omega

/-- No posting becomes newer than its row. -/
theorem dated_step (explained : before.Explained) (taken : before.step action = some after) :
    ∀ posting ∈ after.history.postings,
      posting.version ≤ after.hcm.versionOf posting.rowKey := by
  intro posting member
  have earlier (old : posting ∈ before.history.postings) :
      posting.version ≤ after.hcm.versionOf posting.rowKey :=
    (explained.dated posting old).trans (versionOf_step taken posting.rowKey)
  cases step_observation taken with
  | quiet _ _ postings => exact earlier (postings ▸ member)
  | touched observed cause _ _ postings =>
    rw [postings] at member
    rcases List.mem_append.mp member with old | new
    · exact earlier old
    · -- A new posting carries the version its row has now.
      obtain ⟨named, version, _⟩ := rowKey_of_mem_postingBetween new
      rw [named, version]

/-- Explained rows are attested ones. -/
theorem Explained.sourced {system : System} (explained : system.Explained) :
    system.Sourced system.Attests :=
  ⟨explained.rows, explained.loads, explained.pulls, explained.cached⟩

/-- Every step keeps every row explained. -/
theorem step_explained (explained : before.Explained) (coherent : before.service.Coherent)
    (taken : before.step action = some after) : after.Explained := by
  -- What was attested stays so, and the rows that are stored now attest themselves.
  have positive := positive_step explained taken
  have dated := dated_step explained taken
  have sourced : after.Sourced after.Attests :=
    explained.sourced.step taken (fun _ _ _ attested => attested.step taken) coherent
      fun _ _ found => attests_current positive dated found
  exact ⟨positive, dated, sourced.rows, sourced.loads, sourced.pulls, sourced.cached⟩

/-- In every reachable state every row is explained. -/
theorem Reachable.explained {allowed : System → Action → Prop} {system : System}
    (reached : System.Reachable allowed system) : system.Explained := by
  -- At the start nothing is on its way, and every step keeps what is explained.
  refine Runs.Reachable.invariant ?_ ?_ reached
  · refine ⟨?_, ?_, ?_, ?_, ?_, ?_⟩
    · intro k row found
      cases found
    all_goals
      intro _ member
      cases member
  · intro before action after earlier explained _ taken
    exact step_explained explained (System.Reachable.service earlier).coherent taken

end System

end TimeOff
