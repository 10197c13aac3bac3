import TimeOff.Service.BalanceService

/-! Ingestion of authoritative balances from the realtime and batch channels. -/

namespace TimeOff

/-- An authoritative balance as a channel delivers it. -/
structure HcmBalanceUpdate where
  employeeId : String
  locationId : String
  balance : Int
  version : Int
  asOf : Option Time
  deriving DecidableEq, Repr

/-- The employee and location an update is about. -/
def HcmBalanceUpdate.pair (update : HcmBalanceUpdate) : String × String :=
  (update.employeeId, update.locationId)

/-- The totals a batch reports. -/
structure BatchReport where
  processed : Nat
  applied : Nat
  overAllocated : Nat
  deriving DecidableEq, Repr

/-- The part of a commit that the reconciliation matches against. -/
def BalanceLedgerEntry.toCommitted (entry : BalanceLedgerEntry) : CommittedEntry :=
  { id := entry.id, amount := entry.amount, hcmVersion := entry.hcmVersion }

/-- Whether a fresh update absorbs an entry: an active commit of its pair, acknowledged in time. -/
def BalanceLedgerEntry.matchedBy (update : HcmBalanceUpdate) (entry : BalanceLedgerEntry) : Bool :=
  entry.pair = update.pair ∧ entry.state = .active ∧ entry.phase = .commit ∧
    entry.toCommitted.absorbedBy update.version

namespace Store

/-- The cached balance of a pair, or the blank one a first update starts from. -/
def balanceOrBlank (store : Store) (employeeId locationId : String) : Balance :=
  (store.balances.find (employeeId, locationId)).getD
    { employeeId, locationId, hcmBalance := 0, lastReconciledVersion := 0, asOf := none }

/-- The highest version reconciled for a pair, zero before there is one. -/
def watermark (store : Store) (pair : String × String) : Int :=
  ((store.balances.find pair).map (·.lastReconciledVersion)).getD 0

theorem watermark_of_find {store : Store} {pair : String × String} {balance : Balance}
    (found : store.balances.find pair = some balance) :
    store.watermark pair = balance.lastReconciledVersion := by
  simp [watermark, found]

/-- What the reconciliation of an update reads from the store. -/
def reconcileInput (store : Store) (update : HcmBalanceUpdate) : ReconcileInput :=
  let balance := store.balanceOrBlank update.employeeId update.locationId
  let rows := store.entriesAt update.pair
  { currentHcmBalance := balance.hcmBalance
    lastReconciledVersion := balance.lastReconciledVersion
    reservedOpen := activeTotal .reserve rows
    committedEntries :=
      (rows.filter fun entry => entry.state = .active ∧ entry.phase = .commit).map
        (·.toCommitted)
    authoritativeBalance := update.balance
    authoritativeVersion := update.version }

/-- Mark the matched commits as absorbed. -/
def markReconciled (store : Store) (ids : List String) : Store :=
  { store with
    ledger := store.ledger.update (fun entry => ids.contains entry.id)
      (fun entry => { entry with state := .reconciled }) fun _ => rfl }

/-- Record the audit event of a reconciliation that changes what the employee sees. -/
def recordReconciliation (store : Store) (uuid : String) (update : HcmBalanceUpdate)
    (result : ReconcileResult) : Store :=
  if result.eventType ≠ .reconciled then
    { store with
      events := store.events.save
        { id := uuid, type := result.eventType
          employeeId := update.employeeId, locationId := update.locationId
          delta := result.delta
          detail := .reconciliation result.previousAvailable result.newAvailable
            result.availableDelta update.version result.matchedCommitIds.length } }
  else store

/-- Reconcile the key of one update, in one transaction. -/
def reconcileKey (store : Store) (uuid : String) (now : Time) (update : HcmBalanceUpdate) :
    ReconcileResult × Store :=
  let balance := store.balanceOrBlank update.employeeId update.locationId
  let result := reconcile (store.reconcileInput update)
  if !result.applied then (result, store)
  else
    let marked := store.markReconciled result.matchedCommitIds
    let saved := { marked with
      balances := marked.balances.save
        { balance with
          hcmBalance := result.newHcmBalance
          lastReconciledVersion := result.newLastReconciledVersion
          asOf := some (update.asOf.getD now) } }
    (result, saved.recordReconciliation uuid update result)

/-- The realtime channel: one update. -/
def ingestRealtime (store : Store) (uuid : String) (now : Time) (update : HcmBalanceUpdate) :
    ReconcileResult × Store :=
  store.reconcileKey uuid now update

/--
The batch channel: the rows in order, each in its own transaction.

The ids of the events that may be recorded and the instants are drawn row by row.
-/
def ingestBatch (store : Store) (uuids : Nat → String) (clock : Nat → Time) :
    List HcmBalanceUpdate → BatchReport × Store
  | [] => ({ processed := 0, applied := 0, overAllocated := 0 }, store)
  | update :: rest =>
    let (result, reconciled) := store.reconcileKey (uuids rest.length) (clock rest.length) update
    -- The rows after this one see the store it leaves.
    let (report, final) := ingestBatch reconciled uuids clock rest
    ({ processed := report.processed + 1
       applied := report.applied + if result.applied then 1 else 0
       overAllocated := report.overAllocated + if result.eventType = .overAllocated then 1 else 0 },
      final)

/--
The loop of the safety-net reconcile: re-pull one balance after the other and reconcile it.

A call that throws ends the loop, with the balances before it reconciled. The system of record may
be any, and a read may change it.
-/
def reconcileEachWith {ρ : Type}
    (getBalance : ρ → Time → String → String → Except HcmError (ρ × HcmBalanceRow))
    (uuids : Nat → String) (clock : Nat → Time) :
    List Balance → ρ → Store → Except HcmError Nat × ρ × Store
  | [], remote, store => (.ok 0, remote, store)
  | b :: rest, remote, store =>
    match getBalance remote (clock rest.length) b.employeeId b.locationId with
    | .error error => (.error error, remote, store)
    | .ok (remote, row) =>
      let (_, reconciled) := store.reconcileKey (uuids rest.length) (clock rest.length)
        { employeeId := b.employeeId, locationId := b.locationId
          balance := row.balance, version := row.version, asOf := some row.asOf }
      let (processed, remote, final) :=
        reconcileEachWith getBalance uuids clock rest remote reconciled
      (processed.map (· + 1), remote, final)

/-- The loop over the simulated system of record. -/
def reconcileEach (uuids : Nat → String) (clock : Nat → Time) :
    List Balance → HcmCore → Store → Except HcmError Nat × HcmCore × Store :=
  reconcileEachWith HcmCore.getBalance uuids clock

/-- The safety-net reconcile: every balance that is cached when it starts. -/
def reconcileAll (store : Store) (hcm : HcmCore) (uuids : Nat → String) (clock : Nat → Time) :
    Except HcmError Nat × HcmCore × Store :=
  reconcileEach uuids clock store.balances.rows hcm store

section Specification

variable (store : Store) (uuid : String) (now : Time) {update : HcmBalanceUpdate}

/-- The blank balance starts below every version. -/
theorem balanceOrBlank_watermark (pair : String × String) :
    (store.balanceOrBlank pair.1 pair.2).lastReconciledVersion = store.watermark pair := by
  unfold balanceOrBlank watermark
  cases store.balances.find pair <;> rfl

/-- The cached balance of a pair carries that pair. -/
theorem balanceOrBlank_pair (employeeId locationId : String) :
    (store.balanceOrBlank employeeId locationId).pair = (employeeId, locationId) := by
  -- The blank balance is made for the pair, and a stored one is found under it.
  unfold balanceOrBlank
  cases found : store.balances.find (employeeId, locationId) with
  | none => rfl
  | some balance => exact Table.key_of_find found

/-- The audit event is the last thing a reconciliation writes, and it writes nothing else. -/
@[simp] theorem recordReconciliation_balances (result : ReconcileResult) :
    (store.recordReconciliation uuid update result).balances = store.balances := by
  unfold recordReconciliation
  split <;> rfl

@[simp] theorem recordReconciliation_ledger (result : ReconcileResult) :
    (store.recordReconciliation uuid update result).ledger = store.ledger := by
  unfold recordReconciliation
  split <;> rfl

@[simp] theorem recordReconciliation_outbox (result : ReconcileResult) :
    (store.recordReconciliation uuid update result).outbox = store.outbox := by
  unfold recordReconciliation
  split <;> rfl

@[simp] theorem recordReconciliation_requests (result : ReconcileResult) :
    (store.recordReconciliation uuid update result).requests = store.requests := by
  unfold recordReconciliation
  split <;> rfl

/-- The ids a fresh update matches are those of the entries it absorbs. -/
theorem mem_matched (fresh : store.watermark update.pair < update.version)
    {entry : BalanceLedgerEntry} (stored : entry ∈ store.ledger.rows) :
    entry.id ∈ (reconcile (store.reconcileInput update)).matchedCommitIds ↔
      entry.matchedBy update = true := by
  -- The reconciliation reads exactly the active commits of the pair.
  have above : (store.reconcileInput update).lastReconciledVersion <
      (store.reconcileInput update).authoritativeVersion :=
    (store.balanceOrBlank_watermark update.pair).trans_lt fresh
  rw [mem_matchedCommitIds above]
  simp only [reconcileInput, List.mem_map, List.mem_filter, mem_entriesAt,
    BalanceLedgerEntry.matchedBy, decide_eq_true_eq]
  constructor
  · intro given
    obtain ⟨_, ⟨other, ⟨⟨otherStored, pair⟩, open_⟩, rfl⟩, absorbed, named⟩ := given
    -- An id names one entry, so the matched one is the entry asked about.
    have same := Table.eq_of_key_eq otherStored stored named
    exact same ▸ ⟨pair, open_.1, open_.2, absorbed⟩
  · intro given
    obtain ⟨pair, active, commit, absorbed⟩ := given
    exact ⟨entry.toCommitted, ⟨entry, ⟨⟨stored, pair⟩, active, commit⟩, rfl⟩, absorbed, rfl⟩

/-- A stale update changes nothing. -/
theorem reconcileKey_stale (stale : update.version ≤ store.watermark update.pair) :
    (store.reconcileKey uuid now update).1.applied = false ∧
      (store.reconcileKey uuid now update).2 = store := by
  -- The watermark is what the reconciliation compares the version with.
  have notApplied : (reconcile (store.reconcileInput update)).applied = false := by
    rw [Bool.eq_false_iff]
    intro applied
    have above := (reconcile_applied_iff _).mp applied
    have same := store.balanceOrBlank_watermark update.pair
    simp only [reconcileInput] at above
    exact absurd above (by simp only [HcmBalanceUpdate.pair] at same stale; omega)
  unfold reconcileKey
  simp [notApplied]

/-- What a fresh update does to the store, the audit events aside. -/
structure Absorbs (update : HcmBalanceUpdate) (before after : Store) : Prop where
  balance : ∃ asOf, after.balances = before.balances.save
    { employeeId := update.employeeId, locationId := update.locationId
      hcmBalance := update.balance, lastReconciledVersion := update.version, asOf }
  ledger : after.ledger.rows = before.ledger.rows.map fun entry =>
    if entry.matchedBy update then { entry with state := .reconciled } else entry
  outbox : after.outbox = before.outbox
  requests : after.requests = before.requests

/-- After a fresh update its pair has the balance and the version of the update. -/
theorem Absorbs.found {before after : Store} (absorbs : Absorbs update before after) :
    ∃ asOf, after.balances.find update.pair = some
      { employeeId := update.employeeId, locationId := update.locationId
        hcmBalance := update.balance, lastReconciledVersion := update.version, asOf } := by
  -- The update was saved last under its own pair.
  obtain ⟨asOf, saved⟩ := absorbs.balance
  exact ⟨asOf, saved ▸ Table.find_save_self _ _⟩

/-- A fresh update leaves the balances of the other pairs. -/
theorem Absorbs.found_other {before after : Store} (absorbs : Absorbs update before after)
    {pair : String × String} (other : update.pair ≠ pair) :
    after.balances.find pair = before.balances.find pair := by
  obtain ⟨asOf, saved⟩ := absorbs.balance
  rw [saved, Table.find_save]
  exact if_neg other

/-- A fresh update sets the watermark of its own pair and of no other. -/
theorem Absorbs.watermark {before after : Store} (absorbs : Absorbs update before after)
    (pair : String × String) :
    after.watermark pair =
      if update.pair = pair then update.version else before.watermark pair := by
  -- The watermark is read off the row that is found.
  unfold Store.watermark
  by_cases own : update.pair = pair
  · obtain ⟨_, found⟩ := absorbs.found
    rw [← own, found, if_pos rfl]
    rfl
  · rw [absorbs.found_other own, if_neg own]

/-- A fresh update takes over its balance and absorbs the commits it includes. -/
theorem reconcileKey_fresh (fresh : store.watermark update.pair < update.version) :
    (store.reconcileKey uuid now update).1 = reconcile (store.reconcileInput update) ∧
      (store.reconcileKey uuid now update).1.applied = true ∧
      Absorbs update store (store.reconcileKey uuid now update).2 := by
  -- A fresh version is the one condition under which the transaction writes.
  have above : (store.reconcileInput update).lastReconciledVersion <
      (store.reconcileInput update).authoritativeVersion :=
    (store.balanceOrBlank_watermark update.pair).trans_lt fresh
  have applied := (reconcile_applied_iff (store.reconcileInput update)).mpr above
  obtain ⟨balance, version⟩ := reconcile_snapshot above
  have cached := store.balanceOrBlank_pair update.employeeId update.locationId
  refine ⟨?_, ?_, ?_⟩
  · simp [reconcileKey, applied]
  · simp [reconcileKey, applied]
  · simp only [reconcileKey, applied, Bool.not_true, Bool.false_eq_true, if_false]
    refine ⟨⟨some (update.asOf.getD now), ?_⟩, ?_, ?_, ?_⟩
    · rw [recordReconciliation_balances, balance, version]
      -- The saved row is the cached one with new numbers, so its pair is the asked one.
      obtain ⟨employee, location⟩ := Prod.mk.inj cached
      rw [employee, location]
      rfl
    · rw [recordReconciliation_ledger]
      -- Row by row, a matched id and a matched entry are the same thing.
      apply List.map_congr_left
      intro entry stored
      by_cases matched : entry.matchedBy update
      · simp [(store.mem_matched fresh stored).mpr matched, matched]
      · have unmatched := mt (store.mem_matched fresh stored).mp matched
        simp [unmatched, matched]
    · exact recordReconciliation_outbox ..
    · exact recordReconciliation_requests ..

/-- A fresh update that leaves less than zero is reported for its pair in the same transaction. -/
theorem reconcileKey_reports (fresh : store.watermark update.pair < update.version)
    (negative : (store.reconcileKey uuid now update).1.newAvailable < 0) :
    ∃ event ∈ (store.reconcileKey uuid now update).2.events.rows,
      event.id = uuid ∧ event.type = .overAllocated ∧ event.pair = update.pair := by
  -- Less than zero is classified as an over-allocation, which is never left out.
  have above : (store.reconcileInput update).lastReconciledVersion <
      (store.reconcileInput update).authoritativeVersion :=
    (store.balanceOrBlank_watermark update.pair).trans_lt fresh
  obtain ⟨same, _, _⟩ := store.reconcileKey_fresh uuid now fresh
  rw [same] at negative
  have applied := (reconcile_applied_iff (store.reconcileInput update)).mpr above
  have reported := (reconcile_overAllocated_iff above).mpr negative
  simp only [reconcileKey, applied, Bool.not_true, Bool.false_eq_true, if_false,
    recordReconciliation, reported, ne_eq, reduceCtorEq, not_false_eq_true, if_true]
  exact ⟨_, Table.mem_save.mpr (Or.inl rfl), rfl, rfl, rfl⟩

end Specification

end Store

end TimeOff
