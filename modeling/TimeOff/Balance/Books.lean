import TimeOff.Balance.Promise

/-!
The books of the system of record.

Its balance is what it changed itself, less the days that were taken off for requests.
-/

namespace TimeOff

/-- What the system of record has changed under a key without a message of the service. -/
def History.ownChanges (history : History) (k : String) : Int :=
  ((history.postings.filter fun posting =>
    posting.rowKey = k ∧ posting.cause = none).map (·.delta)).sum

namespace System

/-- Whether a request has cost its days: its debit was acknowledged, and no credit was. -/
def outstanding (system : System) (request : TimeOffRequest) : Bool :=
  (system.hcm.applied.find (debitKey request.id)).isSome &&
    (system.hcm.applied.find (creditKey request.id)).isNone

/-- The days that the requests on a key have cost. -/
def daysOut (system : System) (k : String) : Int :=
  ((system.service.store.requests.rows.filter fun request =>
    key request.employeeId request.locationId = k ∧ system.outstanding request).map (·.days)).sum

/-- Every posting has a version and names a message or nothing, and all of them make the balance. -/
structure Booked (system : System) : Prop where
  positive : ∀ posting ∈ system.history.postings, 1 ≤ posting.version
  caused : ∀ posting ∈ system.history.postings, ∀ k, posting.cause = some k →
    ∃ id, ∃ type : OutboxType, k = type.key id
  total : ∀ k, system.hcm.balanceOf k = system.history.since k 0

variable {before after : System} {action : Action}

/-- A version is never below zero. -/
theorem Explained.versionOf_nonneg (explained : before.Explained) (k : String) :
    0 ≤ before.hcm.versionOf k := by
  -- A row that is stored has a version of at least one.
  cases found : before.hcm.balances.find k with
  | none => simp [HcmCore.versionOf, found]
  | some row =>
    have positive := explained.positive k row found
    rw [HcmCore.versionOf_of_find found]
    omega

/-- A posting of a step names the message that was delivered, or nothing. -/
theorem caused_of_step (coherent : before.service.Coherent)
    (taken : before.step action = some after) {posting : Posting}
    (listed : posting ∈ after.history.postings) :
    posting ∈ before.history.postings ∨
      ∀ k, posting.cause = some k → ∃ id, ∃ type : OutboxType, k = type.key id := by
  -- A read, a seed or an adjustment posts without a cause.
  have external {k : String} (observed : after.history =
      before.history.observe before.hcm after.hcm k none) :
      posting ∈ before.history.postings ∨
        ∀ k, posting.cause = some k → ∃ id, ∃ type : OutboxType, k = type.key id := by
    rw [observed] at listed
    refine (List.mem_append.mp listed).imp id fun new k caused => ?_
    cases (rowKey_of_mem_postingBetween new).2.2.symm.trans caused
  -- A step of the service posts nothing.
  cases step_effect taken with
  | operates _ _ _ _ _ _ history => exact Or.inl (by simpa [history] using listed)
  | loses _ _ _ _ _ _ history => exact Or.inl (history ▸ listed)
  | inserts _ _ _ _ _ _ _ _ history => exact Or.inl (history ▸ listed)
  | reconciles _ _ _ _ _ _ _ _ _ history => exact Or.inl (history ▸ listed)
  | crashes _ _ _ _ _ history => exact Or.inl (history ▸ listed)
  | configures _ _ _ _ _ _ history => exact Or.inl (history ▸ listed)
  | reads _ _ _ _ _ _ _ history => exact external history
  | seeds _ _ _ _ _ _ _ _ _ history => exact external history
  | adjusts _ _ _ _ _ _ _ _ _ _ history => exact external history
  | delivers msg rest _ _ _ _ due _ _ _ _ _ _ history =>
    -- A delivery posts under the key of its message, which names the request.
    have held : msg ∈ before.service.processor.held := by simp [OutboxProcessor.held, due]
    obtain ⟨_, shown⟩ := coherent.shown msg.requestId
    obtain ⟨_, _, _, _, own⟩ := coherent.of_held held shown
    rw [history] at listed
    refine (List.mem_append.mp listed).imp id fun new k caused => ?_
    obtain rfl := Option.some.inj ((rowKey_of_mem_postingBetween new).2.2.symm.trans caused)
    exact ⟨_, _, own.key⟩

/-- A step posts under versions that a row can have. -/
theorem positive_of_step (explained : before.Explained) (taken : before.step action = some after)
    {posting : Posting} (listed : posting ∈ after.history.postings) :
    posting ∈ before.history.postings ∨ 1 ≤ posting.version := by
  -- The row of the posting was raised, for a row that stays is not posted.
  cases row_of_step taken posting.rowKey with
  | still more _ postings others =>
    rcases List.mem_append.mp (postings ▸ listed) with old | new
    · exact Or.inl old
    · exact absurd rfl (others posting new)
  | raised row cause found higher postings =>
    rcases List.mem_append.mp (postings ▸ listed) with old | new
    · exact Or.inl old
    · have nonneg := explained.versionOf_nonneg posting.rowKey
      have version := congrArg Posting.version (List.mem_singleton.mp new)
      simp only [HcmCore.versionOf_of_find found] at version
      exact Or.inr (by omega)

/-- A step changes a balance by what it posts. -/
theorem total_of_step (explained : before.Explained) (taken : before.step action = some after)
    (k : String) :
    after.history.since k 0 - before.history.since k 0 =
      after.hcm.balanceOf k - before.hcm.balanceOf k := by
  -- A row that stays is not posted, and one that is raised is posted with its difference.
  cases row_of_step taken k with
  | still more same postings others =>
    have nothing : (more.filter fun posting =>
        posting.rowKey = k ∧ (0 : Int) < posting.version) = [] := by
      rw [List.filter_eq_nil_iff]
      intro posting member
      simp [others posting member]
    rw [History.since_append k 0 postings, nothing]
    simp [HcmCore.balanceOf, same]
  | raised row cause found higher postings =>
    -- The raised row has a version of at least one, so its posting counts.
    have nonneg := explained.versionOf_nonneg k
    have counts : 0 < after.hcm.versionOf k := by
      rw [HcmCore.versionOf_of_find found]
      omega
    rw [History.since_append k 0 postings]
    simp [counts]

/-- Every step keeps the books. -/
theorem step_booked (booked : before.Booked) (explained : before.Explained)
    (coherent : before.service.Coherent) (taken : before.step action = some after) :
    after.Booked := by
  -- Each part is kept by what the step posts.
  refine ⟨fun posting listed => ?_, fun posting listed => ?_, fun k => ?_⟩
  · rcases positive_of_step explained taken listed with old | positive
    · exact booked.positive posting old
    · exact positive
  · rcases caused_of_step coherent taken listed with old | caused
    · exact booked.caused posting old
    · exact caused
  · have moved := total_of_step explained taken k
    have total := booked.total k
    omega

/-- In every reachable state the books are kept. -/
theorem Reachable.booked {allowed : System → Action → Prop} {system : System}
    (reached : System.Reachable allowed system) : system.Booked := by
  -- At first nothing is posted, and every balance is zero.
  refine Runs.Reachable.invariant ?_ ?_ reached
  · exact ⟨fun _ member => (nomatch member), fun _ member => (nomatch member), fun _ => rfl⟩
  · intro before action after earlier booked _ taken
    exact step_booked booked (System.Reachable.explained earlier)
      (System.Reachable.service earlier).coherent taken

variable {system : System} {request : TimeOffRequest} {k : String}

/-- What the messages of a request have taken from a key since the beginning. -/
theorem owed_changesBy (booked : system.Booked) (posted : system.Posted)
    (found : system.service.store.requests.find request.id = some request) (type : OutboxType)
    (k : String) :
    ((system.history.changesBy (type.key request.id)).map (·.owed k 0)).sum =
      if key request.employeeId request.locationId = k
      then -system.history.effectOf (type.key request.id) else 0 := by
  -- A key has changed its row once, by an acknowledged posting, or not at all.
  rcases posted.changes found type with none_ | ⟨entry, _, _, one⟩
  · simp [History.effectOf, none_]
  · -- The one posting is listed, so it has a version that counts.
    have listed : request.posting type entry.ack.version ∈ system.history.postings := by
      have member : request.posting type entry.ack.version ∈
          system.history.changesBy (type.key request.id) := by simp [one]
      exact List.mem_of_mem_filter member
    have positive : 1 ≤ entry.ack.version := booked.positive _ listed
    have counts : 0 < entry.ack.version := by omega
    rw [History.effectOf, one, List.map_singleton, List.map_singleton, List.sum_singleton,
      List.sum_singleton, owed_posting]
    simp [counts, TimeOffRequest.posting]

/-- What a request has taken from a key since the beginning is the opposite of its net effect. -/
theorem groupSum_owed_request (booked : system.Booked) (posted : system.Posted)
    (found : system.service.store.requests.find request.id = some request) (k : String) :
    Grouping.groupSum system.history.postings Posting.owner (·.owed k 0) (some request.id) =
      if key request.employeeId request.locationId = k
      then -system.history.netEffect request.id else 0 := by
  -- The request owns the postings of its debit and of its credit, and no others.
  have debits := owed_changesBy booked posted found .debit k
  have credits := owed_changesBy booked posted found .credit k
  simp only [OutboxType.key] at debits credits
  rw [History.groupSum_owed, debits, credits, History.netEffect]
  split
  · omega
  · rfl

/-- A request has cost its days while they are outstanding, and nothing otherwise. -/
theorem netEffect_eq (posted : system.Posted) (honest : Honest system.hcm)
    (found : system.service.store.requests.find request.id = some request) :
    system.history.netEffect request.id =
      if system.outstanding request then -request.days else 0 := by
  unfold outstanding
  by_cases credited : (system.hcm.applied.find (creditKey request.id)).isSome = true
  · -- A credit is only ever acknowledged after its debit.
    obtain ⟨credit, acknowledged⟩ := Option.isSome_iff_exists.mp credited
    obtain ⟨debit, debited, _⟩ := posted.ordered request.id credit acknowledged
      (honest.effective credit (Table.mem_of_find acknowledged))
    have nothing := (posted.netEffect_refunded honest found (by simp [debited]) credited).1
    simp [acknowledged, nothing]
  · have uncredited := Option.not_isSome_iff_eq_none.mp credited
    -- A debit that was acknowledged alone costs the days.
    by_cases debited : (system.hcm.applied.find (debitKey request.id)).isSome = true
    · simp [debited, uncredited, posted.netEffect_eq_days honest found debited uncredited]
    · have undebited := Option.not_isSome_iff_eq_none.mp debited
      simp [undebited, (posted.netEffect_eq_zero undebited uncredited).1]

/-- What a request is charged with under a key. -/
def charge (system : System) (k : String) (request : TimeOffRequest) : Int :=
  if key request.employeeId request.locationId = k ∧ system.outstanding request then request.days
  else 0

/-- The accounts under a key: that of the system of record, and one for each request. -/
def accounts (system : System) (k : String) : List (Option String × Int) :=
  (none, -system.history.ownChanges k) ::
    system.service.store.requests.rows.map fun request => (some request.id, system.charge k request)

/-- The accounts add up to the days that are out, less what the other side changed itself. -/
theorem sum_accounts (system : System) (k : String) :
    ((system.accounts k).map (·.2)).sum = system.daysOut k - system.history.ownChanges k := by
  -- A request that is not outstanding is charged with nothing.
  have charged : ((system.service.store.requests.rows.map fun request =>
      (some request.id, system.charge k request)).map (·.2)).sum = system.daysOut k := by
    rw [daysOut, Grouping.sum_filter, List.map_map]
    congr 1
    apply List.map_congr_left
    intro request _
    simp [charge]
  rw [accounts, List.map_cons, List.sum_cons, charged]
  omega

/-- The account of the system of record is what was posted without a message. -/
theorem groupSum_accounts_none (booked : system.Booked) :
    Grouping.groupSum (system.accounts k) (·.1) (·.2) none =
      Grouping.groupSum system.history.postings Posting.owner (·.owed k 0) none := by
  have own : Grouping.groupSum (system.accounts k) (·.1) (·.2) none =
      -system.history.ownChanges k := by
    simp [Grouping.groupSum, accounts, List.filter_map, Function.comp_def]
  -- Both sides are compared posting by posting.
  rw [own, History.ownChanges, Grouping.groupSum, Grouping.sum_filter, Grouping.sum_filter,
    List.sum_neg, List.map_map]
  congr 1
  apply List.map_congr_left
  intro posting listed
  -- Whatever names a cause is owned by a request, and every posting is later than nothing.
  have later : 0 < posting.version := booked.positive posting listed
  cases cause : posting.cause with
  | none =>
    have unowned : posting.owner = none := by simp [Posting.owner, cause]
    by_cases own : posting.rowKey = k <;> simp [cause, unowned, Posting.owed, later, own]
  | some named =>
    obtain ⟨id, type, rfl⟩ := booked.caused posting listed named cause
    have owned : posting.owner = some id := by
      rw [Posting.owner_eq_some, cause]
      cases type with
      | debit => exact Or.inl rfl
      | credit => exact Or.inr rfl
    simp [cause, owned]

/-- The account of a request is what its messages have taken. -/
theorem groupSum_accounts_some (booked : system.Booked) (posted : system.Posted)
    (honest : Honest system.hcm) (linked : system.Linked) (coherent : system.service.Coherent)
    (id : String) :
    Grouping.groupSum (system.accounts k) (·.1) (·.2) (some id) =
      Grouping.groupSum system.history.postings Posting.owner (·.owed k 0) (some id) := by
  obtain ⟨progress, shown⟩ := coherent.shown id
  have coupled := linked.coupled id progress shown
  -- A request has one account, if it is stored.
  have account : Grouping.groupSum (system.accounts k) (·.1) (·.2) (some id) =
      ((system.service.store.requests.find id).toList.map (system.charge k)).sum := by
    rw [← Table.filter_key]
    simp [Grouping.groupSum, accounts, List.filter_map, Function.comp_def]
  rw [account]
  cases found : system.service.store.requests.find id with
  | none =>
    -- Nothing was posted for a request that is not stored.
    obtain rfl := Store.unknown_of_absent shown found
    have nothing (type : OutboxType) : system.history.changesBy (type.key id) = [] := by
      have unsent : ¬Progress.sent type .unknown := by cases type <;> exact fun sent => sent
      exact posted.ineffective _ (by simp [coupled.unsent type unsent])
    have debits := nothing .debit
    have credits := nothing .credit
    simp only [OutboxType.key] at debits credits
    rw [History.groupSum_owed, debits, credits]
    rfl
  | some request =>
    obtain rfl := Table.key_of_find found
    rw [groupSum_owed_request booked posted found, netEffect_eq posted honest found]
    -- On another row it is charged with nothing, and has changed nothing.
    by_cases own : key request.employeeId request.locationId = k
    · by_cases out : system.outstanding request = true <;> simp [charge, own, out]
    · simp [charge, own]

/-- The state of a request says whether its days can be outstanding. -/
theorem status_of_outstanding (linked : system.Linked) (coherent : system.service.Coherent)
    (found : system.service.store.requests.find request.id = some request) :
    (request.status = .committed → system.outstanding request = true) ∧
      (system.outstanding request = true →
        request.status ∈ [.committed, .approved, .cancellationPending, .cancelled]) := by
  obtain ⟨progress, shown⟩ := coherent.shown request.id
  have coupled := linked.coupled request.id progress shown
  have status := shown.status_eq found
  unfold outstanding
  constructor
  · intro committed
    obtain ⟨version, absorbed, rfl⟩ := Progress.eq_committed (status.trans (congrArg _ committed))
    -- A committed request has recorded its debit, and no credit was ever sent for it.
    obtain ⟨entry, debited, _⟩ := coupled.debited version rfl
    have uncredited := coupled.unsent .credit id
    rw [OutboxType.key] at uncredited
    simp [debited, uncredited]
  · intro out
    have undebited (unsent : ¬progress.sent .debit) : False := by
      have absent := coupled.unsent .debit unsent
      rw [OutboxType.key] at absent
      simp [absent] at out
    -- The progresses that never sent a debit are those of the other states.
    cases progress with
    | draft | held | rejected | failed => exact absurd id undebited
    | _ => simp_all [Progress.status]

/-- The balance of a key is what the system of record changed itself, less the days that are out. -/
theorem balance_of_books (reached : System.Reachable WithoutGhosts system) (k : String) :
    system.hcm.balanceOf k = system.history.ownChanges k - system.daysOut k := by
  have coherent := (System.Reachable.service reached).coherent
  have linked := System.Reachable.linked reached
  have booked := System.Reachable.booked reached
  have posted := System.Reachable.posted reached
  have honest := honest_of_reachable reached
  -- Owner by owner, the accounts hold what the postings have taken.
  have each : ∀ owner, Grouping.groupSum (system.accounts k) (·.1) (·.2) owner =
      Grouping.groupSum system.history.postings Posting.owner (·.owed k 0) owner := by
    intro owner
    cases owner with
    | none => exact groupSum_accounts_none booked
    | some id => exact groupSum_accounts_some booked posted honest linked coherent id
  -- So the accounts and the postings have the same sum, which is the balance.
  have least := Grouping.sum_le_of_groups fun owner => (each owner).le
  have most := Grouping.sum_le_of_groups fun owner => (each owner).ge
  have total := booked.total k
  rw [History.since_eq] at total
  rw [sum_accounts] at least most
  omega

/--
Without ghost successes a balance is, in every state of every run, what the system of record changed
itself, less the days of the requests whose debit was acknowledged and whose credit was not.

Those are the committed requests, requests on their way, and cancelled ones that were debited all
the same.
-/
theorem books_balance (reached : System.Reachable WithoutGhosts system) (k : String) :
    system.hcm.balanceOf k = system.history.ownChanges k - system.daysOut k ∧
      ∀ request ∈ system.service.store.requests.rows,
        (request.status = .committed → system.outstanding request = true) ∧
          (system.outstanding request = true →
            request.status ∈ [.committed, .approved, .cancellationPending, .cancelled]) := by
  -- The first part is one of sums, and the second is read off each request.
  refine ⟨balance_of_books reached k, fun request listed => ?_⟩
  exact status_of_outstanding (System.Reachable.linked reached)
    (System.Reachable.service reached).coherent (Table.find_of_mem listed)

/-- Three days are committed, a day is granted, and two days are debited after a cancellation. -/
def bookedRun : List Action :=
  [.seed "e" "l" 10 0, .readBalance "e" "l" 0, .insertBalance 0,
    .operate (.create "r" ⟨"e", "l", "2025-01-06", "2025-01-08", 3, none, true⟩ none),
    .operate (.submit "r" "hold"), .operate (.approve "r" "debit" 0), .operate (.drain 0),
    .deliver .answered 0, .operate (.record "commit" "drift" 0), .adjust "e" "l" 1 1,
    .operate (.create "s" ⟨"e", "l", "2025-02-03", "2025-02-04", 2, none, true⟩ none),
    .operate (.submit "s" "second"), .operate (.approve "s" "other" 2), .operate (.drain 2),
    .operate (.cancel "s" "credit" 3), .deliver .answered 4]

/-- After that run six days are left of eleven, with both requests outstanding. -/
theorem books_balance_bookedRun : ∃ system, System.Reachable WithoutGhosts system ∧
    system.history.ownChanges (key "e" "l") = 11 ∧ system.daysOut (key "e" "l") = 5 ∧
      system.hcm.balanceOf (key "e" "l") =
        system.history.ownChanges (key "e" "l") - system.daysOut (key "e" "l") := by
  have executed : (run WithoutGhosts bookedRun).map (fun system =>
      decide (system.history.ownChanges (key "e" "l") = 11) &&
        decide (system.daysOut (key "e" "l") = 5)) = some true := by decide +kernel
  obtain ⟨system, reached, ended⟩ := exists_reachable_of_run executed
  simp only [Bool.and_eq_true, decide_eq_true_eq] at ended
  exact ⟨system, reached, ended.1, ended.2, (books_balance reached (key "e" "l")).1⟩

end System

end TimeOff
