import Mathlib.Algebra.BigOperators.Group.List.Basic
import Mathlib.Algebra.Ring.Int.Defs
import TimeOff.Common.StateMachine

/-! Pure balance arithmetic, and the pure reconciliation of an authoritative snapshot. -/

namespace TimeOff

/-- The three terms the available balance is derived from. -/
structure BalanceComponents where
  -- Last authoritative value cached from the system of record.
  hcmBalance : Int
  -- Sum of the active holds.
  reservedOpen : Int
  -- Sum of the active commits that the cached value has not absorbed yet.
  committedPending : Int
  deriving DecidableEq, Repr

/-- The available balance, which may be negative and is never clamped. -/
def computeAvailable (c : BalanceComponents) : Int :=
  c.hcmBalance - c.reservedOpen - c.committedPending

/-- The single predicate that admits a reservation. -/
def canReserve (c : BalanceComponents) (days : Int) : Bool :=
  decide (0 < days) && decide (days ≤ computeAvailable c)

/-- A reservation is admitted when it is positive and fits what is available. -/
@[simp] theorem canReserve_iff (c : BalanceComponents) (days : Int) :
    canReserve c days = true ↔ 0 < days ∧ days ≤ computeAvailable c := by
  simp [canReserve]

/-- A committed entry as the reconciliation reads it. -/
structure CommittedEntry where
  id : String
  amount : Int
  -- The version at which the debit was acknowledged, when it is known.
  hcmVersion : Option Int
  deriving DecidableEq, Repr

/-- Sum of the amounts of committed entries. -/
def totalCommitted (entries : List CommittedEntry) : Int :=
  -- An empty list folds to zero, as in the source.
  (entries.map (·.amount)).sum

/-- What the reconciliation of one key is given. -/
structure ReconcileInput where
  currentHcmBalance : Int
  lastReconciledVersion : Int
  reservedOpen : Int
  committedEntries : List CommittedEntry
  authoritativeBalance : Int
  authoritativeVersion : Int

/-- What the reconciliation of one key decides. -/
structure ReconcileResult where
  -- False when the incoming version is stale, which makes the update a no-op.
  applied : Bool
  matchedCommitIds : List String
  newHcmBalance : Int
  newLastReconciledVersion : Int
  committedPendingAfter : Int
  previousAvailable : Int
  newAvailable : Int
  delta : Int
  availableDelta : Int
  eventType : ReconciliationEventType
  deriving DecidableEq, Repr

/-- A commit is absorbed by a snapshot when its acknowledged version is not above it. -/
def CommittedEntry.absorbedBy (version : Int) (entry : CommittedEntry) : Bool :=
  match entry.hcmVersion with
  | some acknowledged => decide (acknowledged ≤ version)
  | none => false

/-- What the employee sees change decides the kind of event. -/
def classify (newAvailable availableDelta : Int) : ReconciliationEventType :=
  if newAvailable < 0 then .overAllocated
  else if 0 < availableDelta then .balanceIncreased
  else if availableDelta < 0 then .balanceDecreased
  else .reconciled

/-- Reconcile one key with an authoritative snapshot. -/
def reconcile (input : ReconcileInput) : ReconcileResult :=
  let committedPendingBefore := totalCommitted input.committedEntries
  let previousAvailable := computeAvailable
    { hcmBalance := input.currentHcmBalance
      reservedOpen := input.reservedOpen
      committedPending := committedPendingBefore }
  -- A stale or duplicate snapshot changes nothing.
  if input.authoritativeVersion ≤ input.lastReconciledVersion then
    { applied := false
      matchedCommitIds := []
      newHcmBalance := input.currentHcmBalance
      newLastReconciledVersion := input.lastReconciledVersion
      committedPendingAfter := committedPendingBefore
      previousAvailable
      newAvailable := previousAvailable
      delta := 0
      availableDelta := 0
      eventType := .reconciled }
  else
    -- Commits acknowledged at or below the snapshot are already part of its number.
    let matchedIds := ((input.committedEntries.filter
      (·.absorbedBy input.authoritativeVersion)).map (·.id)).eraseDups
    let committedPendingAfter := totalCommitted
      (input.committedEntries.filter fun entry => !matchedIds.contains entry.id)
    let newAvailable := computeAvailable
      { hcmBalance := input.authoritativeBalance
        reservedOpen := input.reservedOpen
        committedPending := committedPendingAfter }
    let availableDelta := newAvailable - previousAvailable
    { applied := true
      matchedCommitIds := matchedIds
      newHcmBalance := input.authoritativeBalance
      newLastReconciledVersion := input.authoritativeVersion
      committedPendingAfter
      previousAvailable
      newAvailable
      delta := input.authoritativeBalance - input.currentHcmBalance
      availableDelta
      eventType := classify newAvailable availableDelta }

/-- A snapshot is applied exactly when its version is above the watermark. -/
theorem reconcile_applied_iff (input : ReconcileInput) :
    (reconcile input).applied = true ↔
      input.lastReconciledVersion < input.authoritativeVersion := by
  -- The stale branch is the only one that does not apply the snapshot.
  unfold reconcile
  split
  · rename_i stale
    simp [stale]
  · rename_i fresh
    simpa using fresh

/-- An applied snapshot is taken over with its version. -/
theorem reconcile_snapshot {input : ReconcileInput}
    (fresh : input.lastReconciledVersion < input.authoritativeVersion) :
    (reconcile input).newHcmBalance = input.authoritativeBalance ∧
      (reconcile input).newLastReconciledVersion = input.authoritativeVersion := by
  simp [reconcile, Int.not_le.mpr fresh]

/-- The matched commits are those the applied snapshot has absorbed. -/
theorem mem_matchedCommitIds {input : ReconcileInput}
    (fresh : input.lastReconciledVersion < input.authoritativeVersion) (id : String) :
    id ∈ (reconcile input).matchedCommitIds ↔ ∃ entry ∈ input.committedEntries,
      entry.absorbedBy input.authoritativeVersion = true ∧ entry.id = id := by
  simp [reconcile, Int.not_le.mpr fresh, List.mem_eraseDups, and_assoc]

/-- What an applied snapshot leaves counts the commits it has not absorbed. -/
theorem reconcile_newAvailable {input : ReconcileInput}
    (fresh : input.lastReconciledVersion < input.authoritativeVersion) :
    (reconcile input).newAvailable = input.authoritativeBalance - input.reservedOpen -
      totalCommitted (input.committedEntries.filter fun entry =>
        !(reconcile input).matchedCommitIds.contains entry.id) := by
  simp [reconcile, Int.not_le.mpr fresh, computeAvailable]

/-- The reported change is the difference between what is available after and before. -/
theorem reconcile_availableDelta (input : ReconcileInput) :
    (reconcile input).availableDelta =
      (reconcile input).newAvailable - (reconcile input).previousAvailable := by
  -- A stale snapshot reports no change and leaves both the same.
  unfold reconcile
  split <;> simp

/-- A stale snapshot changes nothing that is reported. -/
theorem reconcile_of_stale {input : ReconcileInput} (stale : (reconcile input).applied = false) :
    (reconcile input).newAvailable = (reconcile input).previousAvailable ∧
      (reconcile input).delta = 0 := by
  -- A fresh input would have been applied.
  unfold reconcile at stale ⊢
  split
  · exact ⟨rfl, rfl⟩
  · rename_i fresh
    simp [fresh] at stale

/-- An applied snapshot is classified by what it leaves and by the change it makes. -/
theorem reconcile_eventType {input : ReconcileInput}
    (fresh : input.lastReconciledVersion < input.authoritativeVersion) :
    (reconcile input).eventType =
      classify (reconcile input).newAvailable (reconcile input).availableDelta := by
  simp only [reconcile, if_neg (Int.not_le.mpr fresh)]

/-- Nothing is noticed exactly when no deficit is left and nothing has changed. -/
theorem classify_reconciled (newAvailable availableDelta : Int) :
    classify newAvailable availableDelta = .reconciled ↔
      0 ≤ newAvailable ∧ availableDelta = 0 := by
  unfold classify
  split_ifs <;> simp <;> omega

/-- The change is classified as an over-allocation exactly when less than zero is left. -/
theorem classify_overAllocated (newAvailable availableDelta : Int) :
    classify newAvailable availableDelta = .overAllocated ↔ newAvailable < 0 := by
  -- A negative balance is asked about first, so no other kind hides it.
  unfold classify
  by_cases negative : newAvailable < 0
  · simp [negative]
  · -- None of the three remaining kinds is the one asked about.
    simp only [negative, if_false, iff_false]
    split
    · simp
    · split <;> simp

/-- An applied snapshot is reported as an over-allocation exactly when it leaves less than zero. -/
theorem reconcile_overAllocated_iff {input : ReconcileInput}
    (fresh : input.lastReconciledVersion < input.authoritativeVersion) :
    (reconcile input).eventType = .overAllocated ↔ (reconcile input).newAvailable < 0 := by
  rw [reconcile_eventType fresh]
  exact classify_overAllocated _ _

end TimeOff
