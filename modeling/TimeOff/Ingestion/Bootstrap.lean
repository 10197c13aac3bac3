import TimeOff.Ingestion.OrderIndependence

/-! The two ways in which the service comes to know a pair, and when they agree. -/

namespace TimeOff

open Latest

/-- The employee and location of a row. -/
def HcmBalanceRow.pair (row : HcmBalanceRow) : String × String :=
  (row.employeeId, row.locationId)

/-- The update that delivers a row, under the instant it is delivered with. -/
def HcmBalanceRow.updateAt (row : HcmBalanceRow) (asOf : Option Time) : HcmBalanceUpdate :=
  { employeeId := row.employeeId, locationId := row.locationId
    balance := row.balance, version := row.version, asOf }

namespace Store

/-- The balance and the watermark that are stored for a pair, if it is known. -/
def snapshot (store : Store) (pair : String × String) : Option (Int × Int) :=
  (store.balances.find pair).map fun b => (b.hcmBalance, b.lastReconciledVersion)

variable {store loaded : Store} {row : HcmBalanceRow} {pair : String × String}

/-- The snapshot of a known pair is its register. -/
theorem snapshot_of_isSome (cached : (store.balances.find pair).isSome = true) :
    store.snapshot pair = some ((store.register pair).value, (store.register pair).version) :=
  map_find_of_isSome cached

/-- A pair that is known stays known while updates are ingested. -/
theorem Ingested.isSome {updates : List HcmBalanceUpdate} {before after : Store}
    (ingested : Ingested updates before after)
    (cached : (before.balances.find pair).isSome = true) :
    (after.balances.find pair).isSome = true := by
  -- Either the watermark rises, which writes the row, or the row is left as it is.
  rcases Int.lt_or_eq_of_le (ingested.le_watermark pair) with up | still
  · exact ingested.present pair up
  · rw [ingested.untouched pair still.symm]
    exact cached

/-- From equal registers, the same calls lead to equal registers. -/
theorem register_ingestAll {left right : Store} (same : left.register pair = right.register pair)
    (calls : List IngestCall) :
    (left.ingestAll calls).register pair = (right.ingestAll calls).register pair := by
  rw [(ingested_all left calls).register, (ingested_all right calls).register, same]

/-- From equal registers of a known pair, the same calls lead to equal snapshots. -/
theorem snapshot_ingestAll {left right : Store}
    (known : (left.balances.find pair).isSome = true)
    (knownToo : (right.balances.find pair).isSome = true)
    (same : left.register pair = right.register pair) (calls : List IngestCall) :
    (left.ingestAll calls).snapshot pair = (right.ingestAll calls).snapshot pair := by
  rw [snapshot_of_isSome ((ingested_all left calls).isSome known),
    snapshot_of_isSome ((ingested_all right calls).isSome knownToo), register_ingestAll same]

/-- A first load stores the row as it was read. -/
theorem find_loaded (absent : store.balances.find row.pair = none) :
    (store.insertBalance row.employeeId row.locationId row).balances.find row.pair =
      some { employeeId := row.employeeId, locationId := row.locationId
             hcmBalance := row.balance, lastReconciledVersion := row.version
             asOf := some row.asOf } := by
  simp only [insertBalance, Table.find_insertOrIgnore, absent]
  exact if_pos rfl

/-- A first update at version one or above stores its balance and version. -/
theorem find_ingested (absent : store.balances.find row.pair = none) (positive : 1 ≤ row.version)
    (uuid : String) (now : Time) (asOf : Option Time) :
    ∃ stamp, (store.ingestRealtime uuid now (row.updateAt asOf)).2.balances.find row.pair =
      some { employeeId := row.employeeId, locationId := row.locationId
             hcmBalance := row.balance, lastReconciledVersion := row.version, asOf := stamp } := by
  -- A missing row counts as version zero, so the update is fresh.
  have fresh : store.watermark (row.updateAt asOf).pair < (row.updateAt asOf).version := by
    show ((store.balances.find row.pair).map (·.lastReconciledVersion)).getD 0 < row.version
    rw [absent]
    exact positive
  exact (store.reconcileKey_fresh uuid now fresh).2.2.found

/-- A first update at version zero is stale, and the pair stays unknown. -/
theorem ingestRealtime_zero (absent : store.balances.find row.pair = none)
    (zero : row.version = 0) (uuid : String) (now : Time) (asOf : Option Time) :
    (store.ingestRealtime uuid now (row.updateAt asOf)).2 = store := by
  -- A missing row counts as version zero, which is not below zero.
  refine (store.reconcileKey_stale uuid now ?_).2
  show row.version ≤ ((store.balances.find row.pair).map (·.lastReconciledVersion)).getD 0
  rw [absent, zero]
  exact le_rfl

/--
When a first load and a first update of one row agree, right away and after any later calls.

They leave the same stored columns exactly from version one on. Where a missing row is read as a
zero balance at version zero, they also agree on that row.
-/
theorem bootstraps_agree_iff (absent : store.balances.find row.pair = none)
    (admitted : 0 ≤ row.version) (uuid : String) (now : Time) (asOf : Option Time)
    (calls : List IngestCall) :
    ∃ loaded, store.ensureBalanceLoaded row.employeeId row.locationId (.ok row) = .ok loaded ∧
      let ingested := (store.ingestRealtime uuid now (row.updateAt asOf)).2
      ((loaded.snapshot row.pair = ingested.snapshot row.pair ∧
          (loaded.ingestAll calls).snapshot row.pair =
            (ingested.ingestAll calls).snapshot row.pair) ↔ 1 ≤ row.version) ∧
      ((loaded.register row.pair = ingested.register row.pair ∧
          (loaded.ingestAll calls).register row.pair =
            (ingested.ingestAll calls).register row.pair) ↔
        1 ≤ row.version ∨ row.balance = 0) := by
  refine ⟨store.insertBalance row.employeeId row.locationId row, ?_, ?_⟩
  · have unknown : store.balances.find (row.employeeId, row.locationId) = none := absent
    simp only [ensureBalanceLoaded, unknown]
  have known := find_loaded absent
  rcases Int.lt_or_eq_of_le admitted with positive | zero
  · -- Both ways store the row, and what follows depends on the register alone.
    obtain ⟨stamp, knownToo⟩ := find_ingested absent positive uuid now asOf
    have same : (store.insertBalance row.employeeId row.locationId row).register row.pair =
        (store.ingestRealtime uuid now (row.updateAt asOf)).2.register row.pair := by
      simp only [Store.register, watermark, known, knownToo, Option.map_some, Option.getD_some]
    have snapshots := snapshot_ingestAll (by rw [known]; rfl) (by rw [knownToo]; rfl) same
    have above : 1 ≤ row.version := positive
    exact ⟨iff_of_true ⟨snapshots [], snapshots calls⟩ above,
      iff_of_true ⟨same, register_ingestAll same calls⟩ (Or.inl above)⟩
  · -- The load stores the row, but the update is dropped and leaves none.
    have below : ¬1 ≤ row.version := by omega
    rw [ingestRealtime_zero absent zero.symm uuid now asOf]
    refine ⟨iff_of_false ?_ below, ?_⟩
    · intro given
      obtain ⟨snapshots, _⟩ := given
      simp only [snapshot, known, absent, Option.map_some, Option.map_none, reduceCtorEq]
        at snapshots
    · -- Both watermarks are zero, so the registers differ by the balances at most.
      have same : (store.insertBalance row.employeeId row.locationId row).register row.pair =
          store.register row.pair ↔ row.balance = 0 := by
        simp only [Store.register, watermark, known, absent, Option.map_some, Option.map_none,
          Option.getD_some, Option.getD_none, Stamped.mk.injEq, zero.symm, true_and]
      simp only [below, false_or, ← same]
      exact ⟨And.left, fun equal => ⟨equal, register_ingestAll equal calls⟩⟩

/-- A debit is ingested later. -/
def laterDebit : List IngestCall :=
  [.realtime "later" 1 ⟨"e", "l", 7, 2, none⟩]

/-- The two ways agree about a row at version one, after a later update as well. -/
theorem bootstraps_agree_first :
    ∃ loaded, ({} : Store).ensureBalanceLoaded "e" "l" (.ok ⟨"e", "l", 10, 1, 0⟩) = .ok loaded ∧
      (loaded.ingestAll laterDebit).snapshot ("e", "l") =
        ((({} : Store).ingestRealtime "event" 0 ⟨"e", "l", 10, 1, none⟩).2.ingestAll
          laterDebit).snapshot ("e", "l") := by
  obtain ⟨loaded, ensured, same, _⟩ :=
    @bootstraps_agree_iff {} ⟨"e", "l", 10, 1, 0⟩ rfl (by decide) "event" 0 none laterDebit
  exact ⟨loaded, ensured, (same.mpr (le_refl 1)).2⟩

/-- The two ways disagree about a row at version zero that is not blank. -/
theorem bootstraps_disagree_zero :
    ∃ loaded, ({} : Store).ensureBalanceLoaded "e" "l" (.ok ⟨"e", "l", 10, 0, 0⟩) = .ok loaded ∧
      loaded.register ("e", "l") = ⟨0, 10⟩ ∧
      (({} : Store).ingestRealtime "event" 0 ⟨"e", "l", 10, 0, none⟩).2.register ("e", "l") =
        ⟨0, 0⟩ := by
  exact ⟨_, rfl, by decide, by decide⟩

end Store

end TimeOff
