import TimeOff.Balance.Available

/-! What a reconciliation reports about the available balance is what the store shows. -/

namespace TimeOff

namespace Store

/-- The total of the entries that are active in one store and reconciled in a later one. -/
def absorbedTotal (before after : Store) : Int :=
  ((before.ledger.rows.filter fun entry => entry.state = .active ∧
    (after.ledger.find entry.id).any (·.state = .reconciled)).map (·.amount)).sum

/-- The audit event of a reconciliation, as the store shows its effect. -/
def auditEvent (before after : Store) (uuid : String) (update : HcmBalanceUpdate)
    (result : ReconcileResult) : ReconciliationEvent :=
  let previous := before.available update.employeeId update.locationId
  let next := after.available update.employeeId update.locationId
  { id := uuid
    type := if next < 0 then .overAllocated
      else if previous < next then .balanceIncreased else .balanceDecreased
    employeeId := update.employeeId
    locationId := update.locationId
    delta := result.delta
    detail := .reconciliation previous next (next - previous) update.version
      result.matchedCommitIds.length }

/-- What a reconciliation of one update reports agrees with the stores before and after it. -/
structure ReportsTruly (before after : Store) (uuid : String) (update : HcmBalanceUpdate)
    (result : ReconcileResult) : Prop where
  previous : result.previousAvailable = before.available update.employeeId update.locationId
  next : result.newAvailable = after.available update.employeeId update.locationId
  change : result.availableDelta = result.delta + absorbedTotal before after
  -- An update is applied exactly when its version is above the watermark.
  applied : result.applied = true ↔ before.watermark update.pair < update.version
  stale : result.applied = false → after = before
  -- Only what the employee notices, or a deficit, is written down.
  events : result.applied = true → after.events =
    if after.available update.employeeId update.locationId ≠
          before.available update.employeeId update.locationId ∨
        after.available update.employeeId update.locationId < 0
      then before.events.save (auditEvent before after uuid update result)
      else before.events
  -- A new id adds a row, so that writing an event and having one more are the same.
  recorded : before.events.find uuid = none → after.events.rows = before.events.rows ++
    if result.applied = true ∧ (after.available update.employeeId update.locationId ≠
          before.available update.employeeId update.locationId ∨
        after.available update.employeeId update.locationId < 0)
      then [auditEvent before after uuid update result] else []

variable {store after : Store} {update : HcmBalanceUpdate}

/-- The commits a reconciliation is given add up to the pending ones the store derives. -/
theorem totalCommitted_reconcileInput (store : Store) (update : HcmBalanceUpdate) :
    totalCommitted (store.reconcileInput update).committedEntries =
      activeTotal .commit (store.entriesAt update.pair) := by
  simp only [totalCommitted, reconcileInput, List.map_map, activeTotal]
  rfl

/-- The reconciliation starts from the cached balance, or from zero. -/
theorem currentHcmBalance_reconcileInput (store : Store) (update : HcmBalanceUpdate) :
    (store.reconcileInput update).currentHcmBalance =
      ((store.balances.find (update.employeeId, update.locationId)).map (·.hcmBalance)).getD 0 := by
  simp only [reconcileInput, balanceOrBlank]
  cases store.balances.find (update.employeeId, update.locationId) <;> rfl

/-- The balance before the reconciliation is the one the store derives. -/
theorem reconcile_previousAvailable (store : Store) (update : HcmBalanceUpdate) :
    (reconcile (store.reconcileInput update)).previousAvailable =
      store.available update.employeeId update.locationId := by
  -- Both branches of the reconciliation compute it from the same three terms.
  have terms : (reconcile (store.reconcileInput update)).previousAvailable = computeAvailable
      { hcmBalance := (store.reconcileInput update).currentHcmBalance
        reservedOpen := (store.reconcileInput update).reservedOpen
        committedPending := totalCommitted (store.reconcileInput update).committedEntries } := by
    unfold reconcile
    split <;> rfl
  rw [terms, totalCommitted_reconcileInput, currentHcmBalance_reconcileInput]
  rfl

/-- Between a store and itself nothing is absorbed. -/
theorem absorbedTotal_self (store : Store) : absorbedTotal store store = 0 := by
  rw [absorbedTotal, List.filter_eq_nil_iff.mpr, List.map_nil, List.sum_nil]
  intro entry stored
  -- An entry is found as it is stored, in one state only.
  rw [Table.find_of_mem stored]
  simp only [Option.any_some, decide_eq_true_eq, not_and]
  intro active
  simp [active]

/-- What an absorbed entry adds to the available balance. -/
theorem absorbedTotal_eq (absorbs : Absorbs update store after) :
    absorbedTotal store after = (store.ledger.rows.map fun entry =>
      if entry.matchedBy update then entry.amount else 0).sum := by
  rw [absorbedTotal, Grouping.sum_filter]
  congr 1
  apply List.map_congr_left
  intro entry stored
  -- The entry is found again under its id, marked or as it was.
  have member : (if entry.matchedBy update then { entry with state := .reconciled } else entry) ∈
      after.ledger.rows := by
    rw [absorbs.ledger]
    exact List.mem_map_of_mem stored
  have found : after.ledger.find entry.id =
      some (if entry.matchedBy update then { entry with state := .reconciled } else entry) := by
    refine Table.find_eq_some.mpr ⟨member, ?_⟩
    split <;> rfl
  rw [found]
  by_cases matched : entry.matchedBy update
  · have active : entry.state = .active := by
      simp only [BalanceLedgerEntry.matchedBy, decide_eq_true_eq] at matched
      exact matched.2.1
    simp [matched, active]
  · -- An entry that was not matched is not active and reconciled at once.
    have apart : ¬(entry.state = .active ∧ entry.state = .reconciled) := by
      rintro ⟨active, reconciled⟩
      simp [active] at reconciled
    simp [matched, apart]

/-- A fresh update takes the entries it matches out of the active ones. -/
theorem Absorbs.activeTotal (absorbs : Absorbs update store after) (phase : LedgerPhase)
    (pair : String × String) :
    activeTotal phase (after.entriesAt pair) = (store.ledger.rows.map fun entry =>
      if (entry.pair = pair ∧ entry.state = .active ∧ entry.phase = phase) ∧
          entry.matchedBy update = false
      then entry.amount else 0).sum := by
  rw [activeTotal_eq, absorbs.ledger, List.map_map]
  congr 1
  apply List.map_congr_left
  intro entry _
  -- A matched entry is reconciled, so it is active no more.
  by_cases matched : entry.matchedBy update <;> simp [matched]

/-- The holds of a pair are left alone by a fresh update. -/
theorem activeTotal_reserve_of_absorbs (absorbs : Absorbs update store after) :
    activeTotal .reserve (after.entriesAt update.pair) =
      activeTotal .reserve (store.entriesAt update.pair) := by
  rw [absorbs.activeTotal, activeTotal_eq]
  congr 1
  apply List.map_congr_left
  intro entry _
  -- Only commits are matched, so a hold is none of them.
  by_cases hold : entry.phase = .reserve
  · simp [BalanceLedgerEntry.matchedBy, hold]
  · simp [hold]

/-- The pending commits of a pair go down by what a fresh update absorbs. -/
theorem activeTotal_commit_of_absorbs (absorbs : Absorbs update store after) :
    activeTotal .commit (store.entriesAt update.pair) =
      activeTotal .commit (after.entriesAt update.pair) + absorbedTotal store after := by
  rw [absorbedTotal_eq absorbs, absorbs.activeTotal, activeTotal_eq, ← List.sum_map_add]
  congr 1
  apply List.map_congr_left
  intro entry _
  by_cases matched : entry.matchedBy update
  · -- A matched entry was an active commit of the pair and is none any more.
    have open_ := matched
    simp only [BalanceLedgerEntry.matchedBy, decide_eq_true_eq] at open_
    simp [matched, open_.1, open_.2.1, open_.2.2.1]
  · simp [matched]

/-- The commits a fresh update leaves add up to the pending ones the store derives afterwards. -/
theorem totalCommitted_left (fresh : store.watermark update.pair < update.version)
    (absorbs : Absorbs update store after) :
    totalCommitted ((store.reconcileInput update).committedEntries.filter fun entry =>
        !(reconcile (store.reconcileInput update)).matchedCommitIds.contains entry.id) =
      activeTotal .commit (after.entriesAt update.pair) := by
  -- The reconciliation goes by ids, and an id names one stored entry.
  have named : ∀ entry ∈ store.ledger.rows,
      entry.id ∈ (reconcile (store.reconcileInput update)).matchedCommitIds ↔
        entry.matchedBy update = true := fun entry stored => mem_matched store fresh stored
  generalize (reconcile (store.reconcileInput update)).matchedCommitIds = ids at named ⊢
  rw [absorbs.activeTotal]
  simp only [totalCommitted, reconcileInput, entriesAt, List.filter_map, List.map_map,
    List.filter_filter, Grouping.sum_filter]
  congr 1
  apply List.map_congr_left
  intro entry stored
  have listed := named entry stored
  have named : ids.contains entry.id = entry.matchedBy update := by
    rw [Bool.eq_iff_iff, List.contains_iff_mem, listed]
  simp only [Function.comp_apply, BalanceLedgerEntry.toCommitted, named]
  by_cases at_ : entry.pair = update.pair <;> cases entry.matchedBy update <;> simp [at_]

/-- The balance after a fresh update is the one the store derives afterwards. -/
theorem reconcile_newAvailable_of_absorbs (fresh : store.watermark update.pair < update.version)
    (absorbs : Absorbs update store after) :
    (reconcile (store.reconcileInput update)).newAvailable =
      after.available update.employeeId update.locationId := by
  have above : (store.reconcileInput update).lastReconciledVersion <
      (store.reconcileInput update).authoritativeVersion :=
    (store.balanceOrBlank_watermark update.pair).trans_lt fresh
  obtain ⟨asOf, found⟩ := absorbs.found
  rw [reconcile_newAvailable above, totalCommitted_left fresh absorbs]
  -- The update is what is cached now, and the holds are the ones from before.
  have cached : after.balances.find (update.employeeId, update.locationId) = some
      { employeeId := update.employeeId, locationId := update.locationId
        hcmBalance := update.balance, lastReconciledVersion := update.version, asOf } := found
  have holds := activeTotal_reserve_of_absorbs absorbs
  simp only [available, computeAvailable, computeComponents, cached, Option.map_some,
    Option.getD_some, reconcileInput, HcmBalanceUpdate.pair] at holds ⊢
  rw [holds]

/-- What a fresh update reports as available is what the store derives after it. -/
theorem reconcileKey_newAvailable (store : Store) (uuid : String) (now : Time)
    {update : HcmBalanceUpdate} (fresh : store.watermark update.pair < update.version) :
    (store.reconcileKey uuid now update).1.newAvailable =
      (store.reconcileKey uuid now update).2.available update.employeeId update.locationId := by
  obtain ⟨same, _, absorbs⟩ := store.reconcileKey_fresh uuid now fresh
  rw [same, reconcile_newAvailable_of_absorbs fresh absorbs]

/-- The change of the available balance is the change of the snapshot and what it absorbs. -/
theorem reconcile_availableDelta_of_absorbs (fresh : store.watermark update.pair < update.version)
    (absorbs : Absorbs update store after) :
    (reconcile (store.reconcileInput update)).availableDelta =
      (reconcile (store.reconcileInput update)).delta + absorbedTotal store after := by
  have above : ¬(store.reconcileInput update).authoritativeVersion ≤
      (store.reconcileInput update).lastReconciledVersion :=
    Int.not_le.mpr ((store.balanceOrBlank_watermark update.pair).trans_lt fresh)
  -- The holds cancel, and the pending commits differ by what was absorbed.
  have before := reconcile_previousAvailable store update
  have afterwards := reconcile_newAvailable_of_absorbs fresh absorbs
  have pending := activeTotal_commit_of_absorbs absorbs
  have holds := activeTotal_reserve_of_absorbs absorbs
  obtain ⟨asOf, found⟩ := absorbs.found
  have delta : (reconcile (store.reconcileInput update)).delta =
      update.balance - (store.reconcileInput update).currentHcmBalance := by
    simp only [reconcile, if_neg above]
    rfl
  have cached : after.balances.find (update.employeeId, update.locationId) = some
      { employeeId := update.employeeId, locationId := update.locationId
        hcmBalance := update.balance, lastReconciledVersion := update.version, asOf } := found
  rw [reconcile_availableDelta, delta, before, afterwards, currentHcmBalance_reconcileInput]
  simp only [HcmBalanceUpdate.pair] at pending holds
  simp only [available, computeAvailable, computeComponents, cached, Option.map_some,
    Option.getD_some, holds, pending]
  omega

/-- An applied reconciliation notices what the stores before and after it derive. -/
theorem reconcile_eventType_of_absorbs (fresh : store.watermark update.pair < update.version)
    (absorbs : Absorbs update store after) :
    (reconcile (store.reconcileInput update)).eventType =
      classify (after.available update.employeeId update.locationId)
        (after.available update.employeeId update.locationId -
          store.available update.employeeId update.locationId) := by
  have above : (store.reconcileInput update).lastReconciledVersion <
      (store.reconcileInput update).authoritativeVersion :=
    (store.balanceOrBlank_watermark update.pair).trans_lt fresh
  rw [reconcile_eventType above, reconcile_availableDelta, reconcile_previousAvailable,
    reconcile_newAvailable_of_absorbs fresh absorbs]

/-- An applied reconciliation is classified by the balances the store derives. -/
theorem auditEvent_type (fresh : store.watermark update.pair < update.version)
    (absorbs : Absorbs update store after) (uuid : String)
    (noticed : (reconcile (store.reconcileInput update)).eventType ≠ .reconciled) :
    (reconcile (store.reconcileInput update)).eventType = (auditEvent store after uuid update
      (reconcile (store.reconcileInput update))).type := by
  rw [reconcile_eventType_of_absorbs fresh absorbs] at noticed ⊢
  simp only [classify, auditEvent, ne_eq] at noticed ⊢
  -- Both ask the same questions in the same order.
  split_ifs at noticed ⊢ <;> first | rfl | omega | exact absurd rfl noticed

/-- An applied reconciliation is passed over when nothing changes and no deficit is left. -/
theorem eventType_reconciled_iff (fresh : store.watermark update.pair < update.version)
    (absorbs : Absorbs update store after) :
    (reconcile (store.reconcileInput update)).eventType ≠ .reconciled ↔
      after.available update.employeeId update.locationId ≠
          store.available update.employeeId update.locationId ∨
        after.available update.employeeId update.locationId < 0 := by
  -- The event is one of the classification, which looks at the same balances.
  rw [reconcile_eventType_of_absorbs fresh absorbs, ne_eq, classify_reconciled]
  omega

/-- The event of an applied reconciliation is the one the stores account for. -/
theorem recordReconciliation_of_absorbs (fresh : store.watermark update.pair < update.version)
    (absorbs : Absorbs update store after) (uuid : String) (marked : Store) :
    (marked.recordReconciliation uuid update (reconcile (store.reconcileInput update))).events =
      if after.available update.employeeId update.locationId ≠
          store.available update.employeeId update.locationId ∨
        after.available update.employeeId update.locationId < 0
      then marked.events.save
        (auditEvent store after uuid update (reconcile (store.reconcileInput update)))
      else marked.events := by
  by_cases noticed : (reconcile (store.reconcileInput update)).eventType ≠ .reconciled
  · rw [if_pos ((eventType_reconciled_iff fresh absorbs).mp noticed)]
    simp only [recordReconciliation, if_pos noticed]
    -- Field by field the recorded event is the one the stores account for.
    rw [auditEvent_type fresh absorbs uuid noticed, reconcile_availableDelta,
      reconcile_previousAvailable, reconcile_newAvailable_of_absorbs fresh absorbs]
    rfl
  · rw [if_neg (mt (eventType_reconciled_iff fresh absorbs).mpr noticed)]
    simp only [recordReconciliation, if_neg noticed]

/-- A fresh update reports what the store then shows. -/
theorem reportsTruly_of_fresh (uuid : String) (now : Time)
    (fresh : store.watermark update.pair < update.version) :
    ReportsTruly store (store.reconcileKey uuid now update).2 uuid update
      (store.reconcileKey uuid now update).1 := by
  obtain ⟨same, applied, absorbs⟩ := store.reconcileKey_fresh uuid now fresh
  -- The event is written last, after the rows it is about.
  have written : (store.reconcileKey uuid now update).2.events =
      (((store.markReconciled (reconcile (store.reconcileInput update)).matchedCommitIds)
        ).recordReconciliation uuid update (reconcile (store.reconcileInput update))).events := by
    have applied_ : (reconcile (store.reconcileInput update)).applied = true := same ▸ applied
    simp only [reconcileKey, applied_, Bool.not_true, Bool.false_eq_true, if_false,
      recordReconciliation]
    split <;> rfl
  have events := written.trans (recordReconciliation_of_absorbs fresh absorbs uuid _)
  refine ⟨?_, ?_, ?_, ?_, ?_, ?_, ?_⟩
  · rw [same, reconcile_previousAvailable]
  · rw [same, reconcile_newAvailable_of_absorbs fresh absorbs]
  · rw [same, reconcile_availableDelta_of_absorbs fresh absorbs]
  · simp [applied, fresh]
  · simp [applied]
  · intro _
    rw [same]
    exact events
  · intro unused
    rw [events, applied, same]
    simp only [true_and]
    split
    · have fresh_ : store.events.find (auditEvent store (store.reconcileKey uuid now update).2 uuid
          update (reconcile (store.reconcileInput update))).id = none := unused
      exact Table.rows_save_of_fresh fresh_
    · exact (List.append_nil _).symm

/-- A stale update leaves the store as it was, and says so. -/
theorem reportsTruly_of_stale (uuid : String) (now : Time)
    (stale : update.version ≤ store.watermark update.pair) :
    ReportsTruly store (store.reconcileKey uuid now update).2 uuid update
      (store.reconcileKey uuid now update).1 := by
  obtain ⟨notApplied, unchanged⟩ := store.reconcileKey_stale uuid now stale
  have same : (store.reconcileKey uuid now update).1 = reconcile (store.reconcileInput update) := by
    unfold reconcileKey
    dsimp only
    split <;> rfl
  have idle : (reconcile (store.reconcileInput update)).applied = false := same ▸ notApplied
  -- A stale update returns what the store shows and writes nothing.
  refine ⟨?_, ?_, ?_, ?_, fun _ => unchanged, ?_, ?_⟩
  · rw [same, reconcile_previousAvailable]
  · rw [same, unchanged, (reconcile_of_stale idle).1, reconcile_previousAvailable]
  · rw [same, unchanged, absorbedTotal_self]
    simp [reconcile_availableDelta, reconcile_of_stale idle]
  · simp [notApplied, stale]
  · simp [notApplied]
  · simp [notApplied, unchanged]

/-- Whatever the store and the update, a reconciliation reports what the store then shows. -/
theorem reconcileKey_reportsTruly (store : Store) (uuid : String) (now : Time)
    (update : HcmBalanceUpdate) :
    ReportsTruly store (store.reconcileKey uuid now update).2 uuid update
      (store.reconcileKey uuid now update).1 := by
  rcases Int.lt_or_le (store.watermark update.pair) update.version with fresh | stale
  · exact reportsTruly_of_fresh uuid now fresh
  · exact reportsTruly_of_stale uuid now stale

end Store

end TimeOff
