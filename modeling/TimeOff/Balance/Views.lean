import TimeOff.Balance.Available
import TimeOff.Service.BalanceViews

/-! What an employee is shown: each request that holds days counts in exactly one of the views. -/

namespace TimeOff

/-- What an entry counts for in one phase of a pair. -/
def BalanceLedgerEntry.countsFor (phase : LedgerPhase) (pair : String × String)
    (entry : BalanceLedgerEntry) : Int :=
  if entry.pair = pair ∧ entry.state = .active ∧ entry.phase = phase then entry.amount else 0

namespace Progress

/-- Whether a request holds its days in one phase. -/
def holds (phase : LedgerPhase) (progress : Progress) : Bool :=
  progress.entries.any fun seen => seen.1 = phase ∧ seen.2.1 = .active

/-- A request holds its days at most once in each phase. -/
theorem sum_holds (phase : LedgerPhase) (progress : Progress) (days : Int) :
    (progress.entries.map fun seen =>
      if seen.2.1 = .active ∧ seen.1 = phase then days else 0).sum =
      if progress.holds phase then days else 0 := by
  -- The hold and the commit are in phases of their own.
  cases progress with
  | committed version absorbed => cases absorbed <;> simp [holds, entries]
  | cancelling version absorbed credit => cases absorbed <;> simp [holds, entries]
  | refunded version absorbed => cases absorbed <;> simp [holds, entries]
  | overtaken version absorbed => cases absorbed <;> simp [holds, entries]
  | _ => simp [holds, entries]

/-- A hold is active until the request is approved and its answer is recorded. -/
theorem holds_reserve (progress : Progress) : progress.holds .reserve = true ↔
    progress.status = some .pendingApproval ∨ progress.status = some .approved := by
  -- The hold is active in the two progresses that wait for an approval or a delivery.
  cases progress with
  | committed version absorbed => cases absorbed <;> simp [holds, entries, status]
  | cancelling version absorbed credit => cases absorbed <;> simp [holds, entries, status]
  | refunded version absorbed => cases absorbed <;> simp [holds, entries, status]
  | overtaken version absorbed => cases absorbed <;> simp [holds, entries, status]
  | _ => simp [holds, entries, status]

/-- Only a request that was committed, or was cancelled since, holds days as a commit. -/
theorem status_of_holds_commit {progress : Progress} (holding : progress.holds .commit = true) :
    progress.status = some .committed ∨ progress.status = some .cancellationPending ∨
      progress.status = some .cancelled := by
  -- The other progresses list no commit.
  cases progress with
  | committed | cancelling | refunded | overtaken => simp [status]
  | _ => simp [holds, entries] at holding

end Progress

namespace Store

variable {store : Store} {id : String} {progress : Progress}

/-- Whether a request holds its days in one phase. -/
def holding (store : Store) (phase : LedgerPhase) (request : TimeOffRequest) : Bool :=
  (store.entriesOf request.id).any fun entry => entry.phase = phase ∧ entry.state = .active

/-- The days of the stored requests that are counted. -/
def daysOf (store : Store) (counted : TimeOffRequest → Bool) : Int :=
  ((store.requests.rows.filter counted).map (·.days)).sum

/-- The same requests are counted by conditions that agree on what is stored. -/
theorem daysOf_congr {counted other : TimeOffRequest → Bool}
    (same : ∀ request ∈ store.requests.rows, counted request = other request) :
    store.daysOf counted = store.daysOf other := by
  rw [daysOf, daysOf, List.filter_congr same]

/-- A dossier holds what its progress holds. -/
theorem holding_eq {request : TimeOffRequest} (shown : (store.dossier request.id).Shows progress)
    (phase : LedgerPhase) : store.holding phase request = progress.holds phase := by
  -- The entries of the request read as those of its progress.
  rw [holding, Progress.holds, ← shown.entries, List.any_map]
  rfl

/-- The entries of a request count its days where it holds them. -/
theorem sum_countsFor {terms : Terms} (owned : (store.dossier id).OwnedBy terms)
    (shown : (store.dossier id).Shows progress) (phase : LedgerPhase) (pair : String × String) :
    ((store.entriesOf id).map (·.countsFor phase pair)).sum =
      if (terms.employeeId, terms.locationId) = pair ∧ progress.holds phase
      then terms.days else 0 := by
  -- Every entry has the pair and the days of its request.
  have each : ∀ entry ∈ store.entriesOf id, entry.countsFor phase pair =
      if (terms.employeeId, terms.locationId) = pair
      then (if entry.view.2.1 = .active ∧ entry.view.1 = phase then terms.days else 0) else 0 := by
    intro entry member
    have own := owned.entries entry member
    by_cases same : (terms.employeeId, terms.locationId) = pair
    · simp only [BalanceLedgerEntry.countsFor, BalanceLedgerEntry.view, own.pair, own.amount, same,
        true_and, if_true]
      exact if_congr Iff.rfl rfl rfl
    · simp [BalanceLedgerEntry.countsFor, own.pair, same]
  rw [List.map_congr_left each]
  by_cases same : (terms.employeeId, terms.locationId) = pair
  · -- On the pair of the request the entries count as those of its progress do.
    have sums := progress.sum_holds phase terms.days
    rw [← shown.entries, List.map_map] at sums
    simpa only [same, if_true, true_and, Store.dossier, Function.comp_def] using sums
  · simp [same]

end Store

namespace Service

variable {service : Service}

/-- The active entries of a phase are the days of the requests that hold them. -/
theorem Coherent.activeTotal (coherent : service.Coherent) (phase : LedgerPhase)
    (pair : String × String) :
    TimeOff.activeTotal phase (service.store.entriesAt pair) = service.store.daysOf fun request =>
      request.pair = pair ∧ service.store.holding phase request := by
  rw [Store.activeTotal_eq, Store.daysOf, Grouping.sum_filter]
  -- The ledger and the requests are compared owner by owner.
  have each (id : String) : Grouping.groupSum service.store.ledger.rows (·.requestId)
        (·.countsFor phase pair) (some id) =
      Grouping.groupSum service.store.requests.rows (fun request => some request.id)
        (fun request => if decide (request.pair = pair ∧ service.store.holding phase request)
          then request.days else 0) (some id) := by
    obtain ⟨progress, shown⟩ := coherent.shown id
    simp only [Grouping.groupSum, Option.some.injEq, Table.filter_key]
    -- What is not stored has no entries, and what is stored has those it shows.
    cases found : service.store.requests.find id with
    | none =>
      obtain rfl := Store.unknown_of_absent shown found
      have empty := List.map_eq_nil_iff.mp shown.entries
      simp only [Store.dossier, Store.entriesOf] at empty
      simp [empty]
    | some request =>
      obtain rfl := Table.key_of_find found
      have sums := Store.sum_countsFor (shown.owned request found) shown phase pair
      rw [Store.entriesOf] at sums
      simp only [sums, Option.toList_some, List.map_singleton, List.sum_singleton,
        Store.holding_eq shown, decide_eq_true_eq]
      rfl
  -- No entry is without an owner, and no request either.
  have none_ : Grouping.groupSum service.store.ledger.rows (·.requestId)
        (·.countsFor phase pair) none =
      Grouping.groupSum service.store.requests.rows (fun request => some request.id)
        (fun request => if decide (request.pair = pair ∧ service.store.holding phase request)
          then request.days else 0) none + 0 := by
    rw [Grouping.groupSum, ← Store.orphans_eq, coherent.orphans]
    simp [Grouping.groupSum]
  have total := Grouping.sum_eq_add_of_groups none none_ fun owner other => by
    cases owner with
    | none => exact absurd rfl other
    | some id => exact each id
  exact total.trans (Int.add_zero _)

/-- The requests that hold days in reserve are those on their way to a commit. -/
theorem Coherent.holding_reserve (coherent : service.Coherent) {request : TimeOffRequest}
    (stored : request ∈ service.store.requests.rows) :
    service.store.holding .reserve request = true ↔
      request.status = .pendingApproval ∨ request.status = .approved := by
  -- The status that is stored is that of the progress.
  obtain ⟨progress, shown⟩ := coherent.shown request.id
  have status := shown.status_eq (Table.find_of_mem stored)
  rw [Store.holding_eq shown, Progress.holds_reserve, status]
  simp only [Option.some.injEq]

/-- What is reserved is what the requests on their way to a commit are for. -/
theorem Coherent.reserved (coherent : service.Coherent) (pair : String × String) :
    TimeOff.activeTotal .reserve (service.store.entriesAt pair) =
      service.store.daysOf fun request => request.pair = pair ∧
        (request.status = .pendingApproval ∨ request.status = .approved) := by
  -- The requests that hold days in reserve are those with one of the two statuses.
  rw [coherent.activeTotal]
  apply Store.daysOf_congr
  intro request stored
  rw [decide_eq_decide, coherent.holding_reserve stored]

/-- A request that holds days is for a pair that is cached. -/
theorem Coherent.cached_of_holding_phase (coherent : service.Coherent) {request : TimeOffRequest}
    (stored : request ∈ service.store.requests.rows) {phase : LedgerPhase}
    (holding : service.store.holding phase request = true) :
    (service.store.balances.find request.pair).isSome = true := by
  -- Whatever is held has an entry, and entries are only written for cached pairs.
  obtain ⟨progress, shown⟩ := coherent.shown request.id
  rw [Store.holding_eq shown] at holding
  have entries : progress.entries ≠ [] := by
    intro empty
    simp [Progress.holds, empty] at holding
  obtain ⟨again, found, cached⟩ := coherent.cached_of_holding shown entries
  cases (Table.find_of_mem stored).symm.trans found
  exact cached

/-- The days an employee holds in a phase are split over the pairs that are cached. -/
theorem Coherent.sum_daysOf (coherent : service.Coherent) (phase : LedgerPhase)
    (employeeId : String) :
    ((service.store.balances.rows.filter (·.employeeId = employeeId)).map fun balance =>
      service.store.daysOf fun request =>
        request.pair = balance.pair ∧ service.store.holding phase request).sum =
      service.store.daysOf fun request =>
        request.employeeId = employeeId ∧ service.store.holding phase request := by
  let rows := service.store.balances.rows.filter (·.employeeId = employeeId)
  let holders := service.store.requests.rows.filter fun request =>
    request.employeeId = employeeId ∧ service.store.holding phase request
  have unique : (rows.map (·.pair)).Nodup :=
    (List.filter_sublist.map _).nodup service.store.balances.nodup
  -- Whoever holds days is for one of the pairs.
  have covered : ∀ request ∈ holders, request.pair ∈ (rows.map (·.pair)).toFinset := by
    intro request member
    obtain ⟨stored, held⟩ := List.mem_filter.mp member
    simp only [decide_eq_true_eq] at held
    obtain ⟨balance, found⟩ := Option.isSome_iff_exists.mp
      (coherent.cached_of_holding_phase stored held.2)
    have named := Table.key_of_find found
    have own : balance.employeeId = employeeId := (Prod.mk.inj named).1.trans held.1
    refine List.mem_toFinset.mpr (List.mem_map.mpr ⟨balance, ?_, named⟩)
    exact List.mem_filter.mpr ⟨Table.mem_of_find found, decide_eq_true own⟩
  -- So the days are split by pair, and each pair has one row.
  have split := Grouping.sum_eq_sum_groups holders (·.pair) (·.days) _ covered
  rw [List.sum_toFinset _ unique, List.map_map] at split
  rw [Store.daysOf, split]
  congr 1
  apply List.map_congr_left
  intro balance listed
  have own : balance.employeeId = employeeId := of_decide_eq_true (List.mem_filter.mp listed).2
  rw [Function.comp_apply, Grouping.groupSum, List.filter_filter, Store.daysOf]
  congr 2
  apply List.filter_congr
  intro request _
  rw [← Bool.decide_and, decide_eq_decide]
  constructor
  · rintro ⟨same, held⟩
    exact ⟨same, (Prod.mk.inj same).1.trans own, held⟩
  · rintro ⟨same, _, held⟩
    exact ⟨same, held⟩

variable {σ : Type} {hcm : IHcmClient σ} {remote : σ}

/-- The view of one cached row. -/
def viewOf (store : Store) (balance : Balance) : LocationView :=
  { toView (store.computeComponents balance.employeeId balance.locationId) with
    locationId := balance.locationId }

/-- A listing of rows that are cached asks nobody and writes nothing. -/
theorem viewEach_cached {store : Store} (now : Nat → Time) {rows : List Balance}
    (cached : ∀ balance ∈ rows, (store.balances.find balance.pair).isSome = true) :
    Store.viewEach hcm now rows store remote =
      ((store, remote), .ok (rows.map (viewOf store))) := by
  -- Every row is found, so no view asks, and the next one starts where it did.
  induction rows with
  | nil => rfl
  | cons balance rest ih =>
    obtain ⟨row, found⟩ := Option.isSome_iff_exists.mp (cached balance List.mem_cons_self)
    have others := ih fun other member => cached other (List.mem_cons_of_mem _ member)
    rw [Balance.pair] at found
    simp only [Store.viewEach, Store.getView, found, others, List.map_cons, viewOf]

/-- What is available in a listing is what is cached, less what is taken, in total. -/
theorem sum_available (store : Store) (rows : List Balance) :
    (rows.map ((·.available) ∘ viewOf store)).sum =
      (rows.map ((·.hcmBalance) ∘ viewOf store)).sum -
        (rows.map ((·.reservedOpen) ∘ viewOf store)).sum -
        (rows.map ((·.committedPending) ∘ viewOf store)).sum := by
  -- What is available of each row is a difference, and differences add up.
  induction rows with
  | nil => rfl
  | cons balance rest ih =>
    have own : (viewOf store balance).available = (viewOf store balance).hcmBalance -
        (viewOf store balance).reservedOpen - (viewOf store balance).committedPending := rfl
    simp only [List.map_cons, List.sum_cons, Function.comp_apply]
    omega

/--
A view shows what was cached, less the days of the requests for its pair that wait for an approval
or a delivery, less those that were committed and that no snapshot has absorbed yet.

Only a view that was never cached asks for it. It caches the row that the client returns, and
writes nothing else.
-/
theorem getView_accounts (reached : Service.Reachable service) {now : Time}
    {employeeId locationId : String} {store : Store} {after : σ} {view : BalanceView}
    (viewed : service.store.getView hcm remote now employeeId locationId =
      ((store, after), .ok view)) :
    view.hcmBalance = store.cached (employeeId, locationId) ∧
      view.reservedOpen = (service.store.daysOf fun request =>
        request.pair = (employeeId, locationId) ∧
          (request.status = .pendingApproval ∨ request.status = .approved)) ∧
      view.committedPending = (service.store.daysOf fun request =>
        request.pair = (employeeId, locationId) ∧ service.store.holding .commit request) ∧
      view.available = view.hcmBalance - view.reservedOpen - view.committedPending ∧
      (store.balances.find (employeeId, locationId)).isSome = true ∧
      store = { service.store with balances := store.balances } ∧
      ((service.store.balances.find (employeeId, locationId)).isSome = true →
        store = service.store ∧ after = remote) ∧
      (service.store.balances.find (employeeId, locationId) = none → ∃ row,
        hcm.getBalance remote now employeeId locationId = (after, .ok row) ∧
          store.balances.find (employeeId, locationId) = some
            { employeeId, locationId, hcmBalance := row.balance
              lastReconciledVersion := row.version, asOf := some row.asOf }) ∧
      ∀ pair, pair ≠ (employeeId, locationId) →
        store.balances.find pair = service.store.balances.find pair := by
  -- The ledger is read after the first load, which does not touch it.
  have coherent := reached.coherent
  have reserved := coherent.reserved (employeeId, locationId)
  have committed := coherent.activeTotal .commit (employeeId, locationId)
  cases found : service.store.balances.find (employeeId, locationId) with
  | some balance =>
    simp only [Store.getView, found] at viewed
    cases viewed
    refine ⟨rfl, reserved, committed, rfl, by rw [found]; rfl, rfl, fun _ => ⟨rfl, rfl⟩, ?_,
      fun _ _ => rfl⟩
    intro absent
    cases absent
  | none =>
    simp only [Store.getView, found] at viewed
    split at viewed
    · cases viewed
    · -- The first load leaves the ledger as it is, and caches the row under its pair.
      rename_i row answered
      cases viewed
      have loaded (pair : String × String) :=
        Table.find_insertOrIgnore service.store.balances
          { employeeId, locationId, hcmBalance := row.balance
            lastReconciledVersion := row.version, asOf := some row.asOf } pair
      have own := (loaded (employeeId, locationId)).trans (if_pos rfl)
      rw [found, Option.getD_none] at own
      refine ⟨rfl, reserved, committed, rfl, Option.isSome_of_eq_some own, rfl,
        fun cached => (by cases cached), fun _ => ⟨row, answered, own⟩, fun pair other => ?_⟩
      exact (loaded pair).trans (if_neg (Ne.symm other))

/-- Three days are held at one location, and four are committed at another. -/
def viewedRun : List ServiceAction :=
  [.insertBalance "e" "l" ⟨"e", "l", 10, 1, 0⟩, .insertBalance "e" "m" ⟨"e", "m", 20, 1, 0⟩,
    .operate (.create "r" ⟨"e", "l", "2025-01-06", "2025-01-08", 3, none, true⟩ none),
    .operate (.submit "r" "hold"),
    .operate (.create "s" ⟨"e", "m", "2025-02-03", "2025-02-06", 4, none, true⟩ none),
    .operate (.submit "s" "other"), .operate (.approve "s" "debit" 0), .operate (.drain 0),
    .answer (.ok ⟨"ref", 16, 2, true, false⟩), .operate (.record "commit" "drift" 0)]

/-- After that run the view of the first location shows the days that are held. -/
theorem getView_accounts_viewed : ∃ (service : Service) (store : Store) (after : HcmCore)
    (view : BalanceView), Service.Reachable service ∧
      service.store.getView inProcessHcmClient ({} : HcmCore) 0 "e" "l" =
        ((store, after), .ok view) ∧
      view.reservedOpen = (service.store.daysOf fun request => request.pair = ("e", "l") ∧
        (request.status = .pendingApproval ∨ request.status = .approved)) ∧
      view.reservedOpen = 3 := by
  -- The view is computed on the state that the run reaches.
  have executed : (run viewedRun).map (fun service =>
      (service.store.balances.find ("e", "l")).isSome &&
        decide ((service.store.daysOf fun request => request.pair = ("e", "l") ∧
          (request.status = .pendingApproval ∨ request.status = .approved)) = 3)) = some true := by
    decide +kernel
  obtain ⟨service, reached, ended⟩ := exists_reachable_of_run executed
  rw [Bool.and_eq_true, decide_eq_true_eq] at ended
  obtain ⟨balance, found⟩ := Option.isSome_iff_exists.mp ended.1
  have viewed : service.store.getView inProcessHcmClient ({} : HcmCore) 0 "e" "l" =
      ((service.store, {}), .ok (toView (service.store.computeComponents "e" "l"))) := by
    simp only [Store.getView, found]
  obtain ⟨_, reserved, _⟩ := getView_accounts reached viewed
  exact ⟨service, _, _, _, reached, viewed, reserved, reserved.trans ended.2⟩

/-- The order of a listing changes nothing about its rows. -/
theorem perm_balancesOf (store : Store) (employeeId : String) :
    (store.balancesOf employeeId).Perm
      (store.balances.rows.filter (·.employeeId = employeeId)) :=
  List.perm_insertionSort _ _

/--
A listing has one view for each cached pair of the employee, by location, asks nobody and writes
nothing, and its views together account for the days of all the requests of the employee.
-/
theorem getViewsForEmployee_accounts (reached : Service.Reachable service) (hcm : IHcmClient σ)
    (remote : σ) (now : Nat → Time) (employeeId : String) :
    ∃ views, service.store.getViewsForEmployee hcm remote now employeeId =
        ((service.store, remote), .ok views) ∧
      (views.map (·.locationId)).Nodup ∧ (views.map (·.locationId)).Pairwise (· ≤ ·) ∧
      (∀ locationId, locationId ∈ views.map (·.locationId) ↔
        (service.store.balances.find (employeeId, locationId)).isSome = true) ∧
      (views.map (·.reservedOpen)).sum = (service.store.daysOf fun request =>
        request.employeeId = employeeId ∧
          (request.status = .pendingApproval ∨ request.status = .approved)) ∧
      (views.map (·.committedPending)).sum = (service.store.daysOf fun request =>
        request.employeeId = employeeId ∧ service.store.holding .commit request) ∧
      (∀ request ∈ service.store.requests.rows, service.store.holding .commit request = true →
        request.status ∈ [.committed, .cancellationPending, .cancelled]) ∧
      (views.map (·.available)).sum = (views.map (·.hcmBalance)).sum -
        (views.map (·.reservedOpen)).sum - (views.map (·.committedPending)).sum := by
  have coherent := reached.coherent
  let rows := service.store.balancesOf employeeId
  have perm := perm_balancesOf service.store employeeId
  have stored (balance : Balance) (listed : balance ∈ rows) :=
    List.mem_filter.mp (perm.mem_iff.mp listed)
  -- The rows of the employee are all cached, and each is a pair of its own.
  have own : ∀ balance ∈ rows, balance.pair = (employeeId, balance.locationId) := by
    intro balance listed
    have named : balance.employeeId = employeeId := of_decide_eq_true (stored balance listed).2
    rw [Balance.pair, named]
  have pairs : rows.map (·.pair) = (rows.map (·.locationId)).map (employeeId, ·) := by
    rw [List.map_map]
    exact List.map_congr_left own
  have cached : ∀ balance ∈ rows, (service.store.balances.find balance.pair).isSome = true := by
    intro balance listed
    rw [Table.find_of_mem (stored balance listed).1]
    rfl
  have locations : (rows.map (viewOf service.store)).map (·.locationId) =
      rows.map (·.locationId) := by
    rw [List.map_map]
    rfl
  refine ⟨rows.map (viewOf service.store), viewEach_cached now cached, ?_, ?_, ?_, ?_, ?_, ?_, ?_⟩
  · -- The pairs of one employee differ in their locations.
    have unique : (rows.map (·.pair)).Nodup :=
      (perm.map _).nodup_iff.mpr ((List.filter_sublist.map _).nodup service.store.balances.nodup)
    rw [locations]
    exact List.Nodup.of_map _ (pairs ▸ unique)
  · -- The primary key orders the pairs of one employee by location.
    let ordered : Balance → Balance → Prop := fun left right => left.locationId ≤ right.locationId
    have total : Std.Total ordered := ⟨fun left right => le_total left.locationId right.locationId⟩
    have transitive : IsTrans Balance ordered := ⟨fun _ _ _ => le_trans⟩
    rw [locations, List.pairwise_map]
    exact List.pairwise_insertionSort ordered _
  · -- A pair is listed where it is cached.
    intro locationId
    rw [locations, List.mem_map]
    constructor
    · rintro ⟨balance, listed, rfl⟩
      exact own balance listed ▸ cached balance listed
    · intro found
      obtain ⟨balance, found⟩ := Option.isSome_iff_exists.mp found
      have named : balance.pair = (employeeId, locationId) := Table.key_of_find found
      obtain ⟨employee, location⟩ := Prod.mk.inj named
      exact ⟨balance, perm.mem_iff.mpr (List.mem_filter.mpr
        ⟨Table.mem_of_find found, decide_eq_true employee⟩), location⟩
  · -- The reserved days of the views are split over the requests on their way to a commit.
    have sums := coherent.sum_daysOf .reserve employeeId
    have same : (service.store.daysOf fun request => request.employeeId = employeeId ∧
          service.store.holding .reserve request) =
        service.store.daysOf fun request => request.employeeId = employeeId ∧
          (request.status = .pendingApproval ∨ request.status = .approved) := by
      apply Store.daysOf_congr
      intro request stored
      rw [decide_eq_decide, coherent.holding_reserve stored]
    rw [List.map_map, ← same, ← sums, (perm.map _).sum_eq]
    congr 1
    apply List.map_congr_left
    intro balance _
    exact coherent.activeTotal .reserve balance.pair
  · -- The committed days are split the same way, over the requests that still hold them.
    have sums := coherent.sum_daysOf .commit employeeId
    rw [List.map_map, ← sums, (perm.map _).sum_eq]
    congr 1
    apply List.map_congr_left
    intro balance _
    exact coherent.activeTotal .commit balance.pair
  · -- A commit is held by a request that was committed, or cancelled since.
    intro request stored holding
    obtain ⟨progress, shown⟩ := coherent.shown request.id
    rw [Store.holding_eq shown] at holding
    have status := shown.status_eq (Table.find_of_mem stored)
    have kinds := Progress.status_of_holds_commit holding
    simpa [status] using kinds
  · simp only [List.map_map]
    exact sum_available service.store rows

/-- After that run the listing shows both locations, with three days held and four committed. -/
theorem getViewsForEmployee_accounts_viewed : ∃ service views, Service.Reachable service ∧
    service.store.getViewsForEmployee inProcessHcmClient ({} : HcmCore) (fun _ => 0) "e" =
      ((service.store, {}), .ok views) ∧
    (service.store.daysOf fun request => request.employeeId = "e" ∧
      service.store.holding .commit request) = 4 ∧
    (views.map (·.committedPending)).sum = 4 := by
  -- The listing is computed on the state that the run reaches.
  have executed : (run viewedRun).map (fun service =>
      decide ((service.store.daysOf fun request => request.employeeId = "e" ∧
        service.store.holding .commit request) = 4)) = some true := by decide +kernel
  obtain ⟨service, reached, four⟩ := exists_reachable_of_run executed
  obtain ⟨views, listed, _, _, _, _, committed, _⟩ :=
    getViewsForEmployee_accounts reached inProcessHcmClient ({} : HcmCore) (fun _ => 0) "e"
  rw [decide_eq_true_eq] at four
  exact ⟨service, views, reached, listed, four, committed.trans four⟩

end Service

end TimeOff
