import TimeOff.Concurrency.Creation

/-! What a create call that submits leaves behind, whether it returns or throws. -/

namespace TimeOff

namespace Store

/-- The days of a request are held. -/
def Held (store : Store) (request : TimeOffRequest) : Prop :=
  ∃ entry ∈ store.ledger.rows, entry.requestId = some request.id ∧ entry.pair = request.pair ∧
    entry.phase = .reserve ∧ entry.state = .active ∧ entry.amount = request.days

/-- A request waits for its approval, in the database as well, with its days held. -/
structure Submitted (store : Store) (request : TimeOffRequest) : Prop where
  status : request.status = .pendingApproval
  stored : (store.requests.find request.id).map (·.status) = some .pendingApproval
  held : store.Held request

/-- A call returns a submitted request, or throws and leaves everything as it was. -/
structure AllOrNothing (before : Store) (outcome : CallResult × Store) : Prop where
  returned : ∀ request, outcome.1 = .request request → outcome.2.Submitted request
  thrown : (∀ request, outcome.1 ≠ .request request) →
    outcome.2.requests = before.requests ∧ outcome.2.ledger = before.ledger ∧
      outcome.2.outbox = before.outbox

/-- The unique index refuses the key. Only an empty one gets so far without being looked up. -/
def Refuses (store : Store) (idempotencyKey : Option String) : Prop :=
  idempotencyKey.isSome ∧ store.requests.rows.any (·.idempotencyKey = idempotencyKey)

/-- The days fit what is left of the cached balance, or of the one the other side answers. -/
def Fits (store : Store) (dto : CreateTimeOffRequestDto) (answer : Except HcmError HcmBalanceRow) :
    Prop :=
  match store.balances.find (dto.employeeId, dto.locationId), answer with
  | some _, _ => canReserve (store.computeComponents dto.employeeId dto.locationId) dto.days = true
  | none, .ok row =>
    canReserve { store.computeComponents dto.employeeId dto.locationId with
      hcmBalance := row.balance } dto.days = true
  | none, .error _ => False

/-- A call with a used key finds a submitted request, and any other one has room for its days. -/
def LeavesWhole (store : Store) (dto : CreateTimeOffRequestDto) (idempotencyKey : Option String)
    (answer : Except HcmError HcmBalanceRow) : Prop :=
  match store.existingFor idempotencyKey with
  | some existing => existing.status = .pendingApproval ∧ store.Held existing
  | none => store.Refuses idempotencyKey ∨ store.Fits dto answer

variable {store : Store} {uuid holdId : String} {dto : CreateTimeOffRequestDto}
  {idempotencyKey : Option String} {answer : Except HcmError HcmBalanceRow}

/-- A request that is found by its key is stored under its id. -/
theorem find_existing {existing : TimeOffRequest}
    (known : store.existingFor idempotencyKey = some existing) :
    store.requests.find existing.id = some existing := by
  unfold existingFor at known
  obtain ⟨k, _, found⟩ := Option.bind_eq_some_iff.mp known
  exact Table.find_of_mem (List.mem_of_find?_eq_some found)

/-- A call that finds an earlier request leaves it whole exactly if it is submitted. -/
theorem allOrNothing_existing {existing : TimeOffRequest}
    (known : store.existingFor idempotencyKey = some existing) :
    AllOrNothing store (.request existing, store) ↔
      existing.status = .pendingApproval ∧ store.Held existing := by
  constructor
  · intro whole
    have submitted := whole.returned existing rfl
    exact ⟨submitted.status, submitted.held⟩
  · intro given
    obtain ⟨status, held⟩ := given
    refine ⟨fun request same => ?_, fun thrown => absurd rfl (thrown existing)⟩
    cases same
    exact ⟨status, by rw [find_existing known, Option.map_some, status], held⟩

/-- A call that throws after its draft was inserted leaves the draft behind. -/
theorem not_allOrNothing_of_draft {after : Store} {result : CallResult} (draft : TimeOffRequest)
    (fresh : store.requests.find draft.id = none)
    (thrown : ∀ request, result ≠ .request request)
    (left : after.requests = (store.saveRequest draft).requests) :
    ¬AllOrNothing store (result, after) := by
  intro whole
  have same := (whole.thrown thrown).1
  -- The draft is found in the one store and not in the other.
  have found : (store.saveRequest draft).requests.find draft.id =
      some draft.saved := Table.find_save_self _ _
  rw [← left, same, fresh] at found
  cases found

/-- A submit of a stored draft places the hold exactly if the days can be reserved. -/
theorem submit_of_draft {id : String} {draft : TimeOffRequest}
    (found : store.requests.find id = some draft) (isDraft : draft.status = .draft) :
    store.submit id holdId =
      if canReserve (store.computeComponents draft.employeeId draft.locationId) draft.days then
        .ok ((draft.moved .submit).saved, (store.addReservation holdId draft.id draft.employeeId
          draft.locationId draft.days).saveRequest (draft.moved .submit))
      else .error (.insufficientBalance draft.days
        (computeAvailable (store.computeComponents draft.employeeId draft.locationId))) := by
  have legal : store.requestFor id .submit = .ok draft := by
    simp only [requestFor, found, (canTransition_submit _).mpr isDraft, if_true]
  simp only [submit, legal, Bind.bind, Except.bind]
  split <;> rfl

/-- A submit that places its hold has submitted its request. -/
theorem submitted_of_draft {draft : TimeOffRequest} (isDraft : draft.status = .draft) :
    ((store.addReservation holdId draft.id draft.employeeId draft.locationId
      draft.days).saveRequest (draft.moved .submit)).Submitted (draft.moved .submit).saved where
  status := by simp [TimeOffRequest.moved, isDraft, nextState, transitions]
  stored := by
    have saved := Table.find_save_self store.requests
      (draft.moved .submit).saved
    apply (congrArg (Option.map (·.status)) saved).trans
    simp [TimeOffRequest.moved, isDraft, nextState, transitions]
  held := ⟨_, Table.mem_save.mpr (Or.inl rfl), rfl, rfl, rfl, rfl, rfl⟩

/-- The days fit exactly if they can be reserved once the snapshot was loaded. -/
theorem fits_iff (draft : TimeOffRequest) : store.Fits dto answer ↔
    ∃ loaded, (store.saveRequest draft).ensureBalanceLoaded dto.employeeId dto.locationId answer =
        .ok loaded ∧ loaded.requests = (store.saveRequest draft).requests ∧
      canReserve (loaded.computeComponents dto.employeeId dto.locationId) dto.days = true := by
  have same : (store.saveRequest draft).balances = store.balances := rfl
  unfold Fits ensureBalanceLoaded
  rw [same]
  cases found : store.balances.find (dto.employeeId, dto.locationId) with
  | some balance =>
    exact ⟨fun fits => ⟨_, rfl, rfl, fits⟩, fun ⟨_, loaded, _, fits⟩ => by cases loaded; exact fits⟩
  | none =>
    cases answer with
    | error error => exact ⟨False.elim, fun ⟨_, loaded, _⟩ => by cases loaded⟩
    | ok row =>
      -- The row that was just inserted is the one that is read.
      have components : ((store.saveRequest draft).insertBalance dto.employeeId dto.locationId
          row).computeComponents dto.employeeId dto.locationId =
          { store.computeComponents dto.employeeId dto.locationId with
            hcmBalance := row.balance } := by
        simp only [computeComponents, insertBalance, saveRequest, Table.find_insertOrIgnore, found,
          Balance.pair, if_true]
        rfl
      constructor
      · intro fits
        exact ⟨_, rfl, rfl, by rw [components]; exact fits⟩
      · intro given
        obtain ⟨_, loaded, _, fits⟩ := given
        cases loaded
        rw [components] at fits
        exact fits

/-- The lazy load writes no request. -/
theorem requests_ensureBalanceLoaded {loaded : Store} {employeeId locationId : String}
    (loads : store.ensureBalanceLoaded employeeId locationId answer = .ok loaded) :
    loaded.requests = store.requests := by
  unfold ensureBalanceLoaded at loads
  split at loads <;> cases loads <;> rfl

section Draft

variable {draft : TimeOffRequest}

/-- A draft is not submitted when its balance cannot be loaded. -/
theorem submitInFull_of_unloaded {error : HcmError}
    (found : store.requests.find uuid = some draft) (new : draft.status = .draft)
    (loads : store.ensureBalanceLoaded draft.employeeId draft.locationId answer = .error error) :
    store.submitInFull uuid holdId answer = (.unavailable error, store) := by
  simp only [submitInFull, getOrThrow, found, (canTransition_submit _).mpr new, if_true, loads]

/-- A draft is submitted once its balance is loaded. -/
theorem submitInFull_of_loaded {loaded : Store}
    (found : store.requests.find uuid = some draft) (new : draft.status = .draft)
    (loads : store.ensureBalanceLoaded draft.employeeId draft.locationId answer = .ok loaded) :
    store.submitInFull uuid holdId answer =
      CallResult.settle loaded (loaded.submit uuid holdId) := by
  simp only [submitInFull, getOrThrow, found, (canTransition_submit _).mpr new, if_true, loads]

end Draft

/-- The submit of a created draft leaves all or nothing exactly if the days fit. -/
theorem allOrNothing_submitInFull (fresh : store.requests.find uuid = none) :
    AllOrNothing store ((store.saveRequest (dto.draft uuid idempotencyKey)).submitInFull uuid holdId
      answer) ↔ store.Fits dto answer := by
  let draft : TimeOffRequest := { dto.draft uuid idempotencyKey with version := 1 }
  have found : (store.saveRequest (dto.draft uuid idempotencyKey)).requests.find uuid =
      some draft := Table.find_save_self _ _
  rw [fits_iff (dto.draft uuid idempotencyKey)]
  cases loads : (store.saveRequest (dto.draft uuid idempotencyKey)).ensureBalanceLoaded
      dto.employeeId dto.locationId answer with
  | error error =>
    rw [submitInFull_of_unloaded found rfl loads]
    refine iff_of_false (not_allOrNothing_of_draft (dto.draft uuid idempotencyKey) fresh
      (by simp) rfl) ?_
    intro given
    obtain ⟨_, loaded, _⟩ := given
    cases loaded
  | ok loaded =>
    -- The lazy load writes no request, so the draft is still the one that was inserted.
    have kept : loaded.requests = (store.saveRequest (dto.draft uuid idempotencyKey)).requests :=
      requests_ensureBalanceLoaded loads
    have stored : loaded.requests.find uuid = some draft := kept ▸ found
    rw [submitInFull_of_loaded found rfl loads, submit_of_draft stored rfl]
    by_cases fits : canReserve (loaded.computeComponents dto.employeeId dto.locationId)
        dto.days = true
    · have whole : canReserve (loaded.computeComponents draft.employeeId draft.locationId)
          draft.days = true := fits
      rw [if_pos whole]
      refine iff_of_true ⟨fun request same => ?_, fun thrown => absurd rfl (thrown _)⟩
        ⟨loaded, rfl, kept, fits⟩
      cases same
      exact submitted_of_draft rfl
    · have exceeds : ¬canReserve (loaded.computeComponents draft.employeeId draft.locationId)
          draft.days = true := fits
      rw [if_neg exceeds]
      refine iff_of_false (not_allOrNothing_of_draft (dto.draft uuid idempotencyKey)
        fresh (by simp) kept) ?_
      intro given
      obtain ⟨_, same, _, room⟩ := given
      cases same
      exact fits room

/-- A draft whose key is stored already is refused. -/
theorem create_refused (unused : store.existingFor idempotencyKey = none)
    (refused : store.Refuses idempotencyKey) :
    store.create uuid dto idempotencyKey = .error .duplicateIdempotencyKey := by
  simp only [create, unused]
  exact if_pos refused

/-- Any other draft is saved. -/
theorem create_accepted (unused : store.existingFor idempotencyKey = none)
    (accepted : ¬store.Refuses idempotencyKey) :
    store.create uuid dto idempotencyKey =
      .ok ((dto.draft uuid idempotencyKey).saved,
        store.saveRequest (dto.draft uuid idempotencyKey)) := by
  simp only [create, unused]
  exact if_neg accepted

/-- When a create call that submits returns a submitted request, or throws and changes nothing. -/
theorem allOrNothing_iff (submits : dto.submit = true) (fresh : store.requests.find uuid = none) :
    AllOrNothing store (store.createInFull uuid holdId dto idempotencyKey answer) ↔
      store.LeavesWhole dto idempotencyKey answer := by
  unfold createInFull LeavesWhole
  cases known : store.existingFor idempotencyKey with
  | some existing => exact allOrNothing_existing known
  | none =>
    by_cases refused : store.Refuses idempotencyKey
    · -- The insert is refused, and nothing else was written before it.
      rw [create_refused known refused]
      exact iff_of_true ⟨by simp, fun _ => ⟨rfl, rfl, rfl⟩⟩ (Or.inl refused)
    · rw [create_accepted known refused]
      simp only [refused, false_or, submits, if_true]
      exact allOrNothing_submitInFull fresh

/-- Three days of ten for an employee who is not known yet. -/
def threeDays : CreateTimeOffRequestDto :=
  { employeeId := "e", locationId := "l", startDate := "2026-07-01", endDate := "2026-07-03"
    days := 3, reason := none, submit := true }

/-- A first create call that has room for its days is submitted. -/
theorem allOrNothing_iff_threeDays :
    AllOrNothing {} (createInFull {} "r" "hold" threeDays (some "key")
      (.ok ⟨"e", "l", 10, 1, 0⟩)) :=
  (allOrNothing_iff rfl rfl).mpr (Or.inr (rfl : canReserve ⟨10, 0, 0⟩ 3 = true))

/-- A create call that asks for more days than there are throws and leaves its draft behind. -/
theorem not_allOrNothing_overRequested :
    ¬AllOrNothing {} (createInFull {} "r" "hold" { threeDays with days := 99 } (some "key")
      (.ok ⟨"e", "l", 10, 1, 0⟩)) := by
  intro whole
  have refused : (createInFull {} "r" "hold" { threeDays with days := 99 } (some "key")
      (.ok ⟨"e", "l", 10, 1, 0⟩)).1 = .refused (.insufficientBalance 99 10) := rfl
  have same := (whole.thrown (by simp [refused])).1
  -- One draft is stored, and there was none before.
  have drafts : (createInFull {} "r" "hold" { threeDays with days := 99 } (some "key")
      (.ok ⟨"e", "l", 10, 1, 0⟩)).2.requests.rows.length = 1 := rfl
  rw [same] at drafts
  cases drafts

end Store

end TimeOff
