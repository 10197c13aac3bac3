import TimeOff.Library.Grouping
import TimeOff.Lifecycle.Coherence

/-! The available balance by requests: what each of them takes, and how a step changes it. -/

namespace TimeOff

/-- What an entry takes off the available balance of a pair. -/
def BalanceLedgerEntry.takenFrom (pair : String × String) (entry : BalanceLedgerEntry) : Int :=
  if entry.pair = pair ∧ entry.state = .active ∧ (entry.phase = .reserve ∨ entry.phase = .commit)
  then entry.amount else 0

/-- What the entries of a progress take for a request of some days. -/
def Progress.takes (progress : Progress) (days : Int) : Int :=
  (progress.entries.map fun seen => if seen.2.1 = .active then days else 0).sum

/-- An active hold or commit takes the days of the request, and nothing else does. -/
@[simp] theorem Progress.takes_eq (progress : Progress) (days : Int) : progress.takes days =
    match progress with
    | .held | .approved _ => days
    | .committed _ absorbed | .cancelling _ absorbed _ | .overtaken _ absorbed =>
      if absorbed then 0 else days
    | _ => 0 := by
  -- A commit counts as long as no snapshot has absorbed it.
  cases progress with
  | committed version absorbed => cases absorbed <;> simp [Progress.takes, Progress.entries]
  | cancelling version absorbed credit => cases absorbed <;> simp [Progress.takes, Progress.entries]
  | overtaken version absorbed => cases absorbed <;> simp [Progress.takes, Progress.entries]
  | refunded version absorbed => cases absorbed <;> simp [Progress.takes, Progress.entries]
  | _ => simp [Progress.takes, Progress.entries]

/-- A request of some days never adds to what is available. -/
theorem Progress.takes_nonneg {progress : Progress} {days : Int} (nonneg : 0 ≤ days) :
    0 ≤ progress.takes days := by
  rw [takes_eq]
  cases progress <;> dsimp only <;> first | exact nonneg | exact le_rfl | (split <;> omega)

namespace Store

/-- The cached balance of a pair, zero before there is one. -/
def cached (store : Store) (pair : String × String) : Int :=
  ((store.balances.find pair).map (·.hcmBalance)).getD 0

/-- The active entries of one phase, summed over the whole ledger. -/
theorem activeTotal_eq (store : Store) (phase : LedgerPhase) (pair : String × String) :
    activeTotal phase (store.entriesAt pair) = (store.ledger.rows.map fun entry =>
      if entry.pair = pair ∧ entry.state = .active ∧ entry.phase = phase
      then entry.amount else 0).sum := by
  simp only [activeTotal, entriesAt, List.filter_filter, Grouping.sum_filter]
  congr 1
  apply List.map_congr_left
  intro entry _
  -- Whether an entry is of the pair is asked first or last, to the same effect.
  by_cases at_ : entry.pair = pair <;> simp [at_]

/-- The available balance is the cached one without what each entry takes. -/
theorem available_eq (store : Store) (employeeId locationId : String) :
    store.available employeeId locationId = store.cached (employeeId, locationId) -
      (store.ledger.rows.map (·.takenFrom (employeeId, locationId))).sum := by
  simp only [available, computeAvailable, computeComponents, activeTotal_eq, cached]
  have split : (store.ledger.rows.map (·.takenFrom (employeeId, locationId))).sum =
      (store.ledger.rows.map fun entry =>
        (if entry.pair = (employeeId, locationId) ∧ entry.state = .active ∧ entry.phase = .reserve
          then entry.amount else 0) +
        (if entry.pair = (employeeId, locationId) ∧ entry.state = .active ∧ entry.phase = .commit
          then entry.amount else 0)).sum := by
    -- An entry is in one phase only, so it counts in at most one of the two sums.
    congr 1
    apply List.map_congr_left
    intro entry _
    unfold BalanceLedgerEntry.takenFrom
    cases entry.phase <;> simp
  rw [split, List.sum_map_add]
  omega

variable {store after : Store} {id : String} {progress target : Progress}

/-- The entries without an owner form a group of their own. -/
theorem orphans_eq (store : Store) :
    store.orphans = store.ledger.rows.filter fun entry => entry.requestId = none := by
  -- Having no owner is read off the row in both ways.
  unfold orphans
  apply List.filter_congr
  intro entry _
  cases entry.requestId <;> rfl

/-- A progress only lists holds and commits. -/
theorem phase_of_listed {seen : LedgerPhase × LedgerState × Option Int}
    (listed : seen ∈ progress.entries) : seen.1 = .reserve ∨ seen.1 = .commit := by
  cases progress <;> simp [Progress.entries] at listed <;> grind

/-- What the entries of a request take is decided by its progress. -/
theorem sum_entriesOf {terms : Terms} (owned : (store.dossier id).OwnedBy terms)
    (shown : (store.dossier id).Shows progress) (pair : String × String) :
    ((store.entriesOf id).map (·.takenFrom pair)).sum =
      if (terms.employeeId, terms.locationId) = pair then progress.takes terms.days else 0 := by
  have each : ∀ entry ∈ store.entriesOf id, entry.takenFrom pair =
      if (terms.employeeId, terms.locationId) = pair
      then (if entry.view.2.1 = .active then terms.days else 0) else 0 := by
    intro entry member
    have own := owned.entries entry member
    have phase := phase_of_listed (shown.entry_mem member)
    simp only [BalanceLedgerEntry.view] at phase
    -- All entries of the request are of its pair, for its number of days.
    by_cases same : (terms.employeeId, terms.locationId) = pair
    · by_cases active : entry.state = .active <;>
        simp [BalanceLedgerEntry.takenFrom, BalanceLedgerEntry.view, own.pair, own.amount, phase,
          same, active]
    · simp [BalanceLedgerEntry.takenFrom, own.pair, same]
  rw [List.map_congr_left each]
  by_cases same : (terms.employeeId, terms.locationId) = pair
  · simp only [same, if_true, Progress.takes, ← shown.entries, dossier, List.map_map,
      Function.comp_def]
  · simp [same]

/-- Before a request is stored nothing is owned, so whoever stores it owns all there is. -/
theorem ownedBy_of_moves {event : Event} {request : TimeOffRequest}
    (moves : Moves id event store after) (shown : (store.dossier id).Shows progress)
    (found : after.requests.find id = some request) :
    (store.dossier id).OwnedBy request.terms := by
  cases stored : store.requests.find id with
  | none =>
    obtain rfl := unknown_of_absent shown stored
    -- Before it is stored, a request has no entries and no messages.
    have noEntries := List.map_eq_nil_iff.mp shown.entries
    have noMessages := List.map_eq_nil_iff.mp shown.messages
    exact ⟨by simp [noEntries], by simp [noMessages]⟩
  | some old =>
    obtain ⟨moved, again, terms⟩ := moves.acts.terms old stored
    cases found.symm.trans again
    exact terms ▸ shown.owned old stored

/-- A transaction on one request changes what that request takes and nothing else. -/
theorem Moves.available {event : Event} {request : TimeOffRequest}
    (moves : Moves id event store after) (shown : (store.dossier id).Shows progress)
    (reached : (after.dossier id).Shows target) (found : after.requests.find id = some request)
    (employeeId locationId : String) :
    after.available employeeId locationId = store.available employeeId locationId +
      if request.pair = (employeeId, locationId)
      then progress.takes request.days - target.takes request.days else 0 := by
  have before := sum_entriesOf (ownedBy_of_moves moves shown found) shown (employeeId, locationId)
  have afterwards := sum_entriesOf (reached.owned request found) reached (employeeId, locationId)
  have cached : after.cached (employeeId, locationId) = store.cached (employeeId, locationId) := by
    simp [Store.cached, moves.acts.balances]
  -- The ledger is compared owner by owner, and only one of them has moved.
  have own : Grouping.groupSum after.ledger.rows (·.requestId)
        (·.takenFrom (employeeId, locationId)) (some id) =
      Grouping.groupSum store.ledger.rows (·.requestId)
        (·.takenFrom (employeeId, locationId)) (some id) +
        if request.pair = (employeeId, locationId)
        then target.takes request.days - progress.takes request.days else 0 := by
    simp only [entriesOf, TimeOffRequest.terms] at before afterwards
    simp only [Grouping.groupSum, before, afterwards, TimeOffRequest.pair]
    by_cases at_ : (request.employeeId, request.locationId) = (employeeId, locationId)
    · simp only [at_, if_true]
      omega
    · simp only [at_, if_false]
      omega
  -- Every other owner keeps its entries, and so do those without one.
  have others : ∀ owner, owner ≠ some id →
      Grouping.groupSum after.ledger.rows (·.requestId)
        (·.takenFrom (employeeId, locationId)) owner =
      Grouping.groupSum store.ledger.rows (·.requestId)
        (·.takenFrom (employeeId, locationId)) owner := by
    intro owner other
    cases owner with
    | none => simp only [Grouping.groupSum, ← orphans_eq, moves.acts.orphans]
    | some owner =>
      have kept := congrArg Dossier.entries
        (moves.acts.others owner fun same => other (congrArg some same))
      simp only [dossier, entriesOf] at kept
      simp only [Grouping.groupSum, kept]
  have total := Grouping.sum_eq_add_of_groups (some id) own others
  rw [available_eq, available_eq, total, cached]
  split <;> omega

end Store

end TimeOff
