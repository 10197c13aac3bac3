import TimeOff.Concurrency.AllOrNothing
import TimeOff.Lifecycle.AuditTrail
import TimeOff.Lifecycle.History

/-! The key of a client names one request, whatever is done to the request between its retries. -/

namespace TimeOff

/-- A create call that returned: what it asked for, and the request it was given. -/
structure Creation where
  dto : CreateTimeOffRequestDto
  given : TimeOffRequest

/-- A create call that finds no earlier twin saves a draft under a key that no other request has. -/
theorem Store.create_new {store after : Store} {uuid : String} {dto : CreateTimeOffRequestDto}
    {idempotencyKey : Option String} {result : TimeOffRequest}
    (unseen : store.existingFor idempotencyKey = none)
    (created : store.create uuid dto idempotencyKey = .ok (result, after)) :
    result = (dto.draft uuid idempotencyKey).saved ∧
      after = store.saveRequest (dto.draft uuid idempotencyKey) ∧
        ¬store.Refuses idempotencyKey := by
  -- The insert is refused by the unique index, or stores the draft.
  by_cases refused : store.Refuses idempotencyKey
  · rw [create_refused unseen refused] at created
    cases created
  · rw [create_accepted unseen refused] at created
    cases created
    exact ⟨rfl, rfl, refused⟩

/-- A request that is found by a key is stored with it, and the key is not empty. -/
theorem Store.existingFor_some {store : Store} {k : String} {request : TimeOffRequest}
    (known : store.existingFor (some k) = some request) :
    request ∈ store.requests.rows ∧ request.idempotencyKey = some k ∧ k ≠ "" := by
  -- An empty key is not looked up.
  obtain ⟨looked, kept, found⟩ := Option.bind_eq_some_iff.mp known
  obtain ⟨same, named⟩ := Option.filter_eq_some_iff.mp kept
  cases same
  have keyed := List.find?_some found
  exact ⟨List.mem_of_find?_eq_some found, of_decide_eq_true keyed, of_decide_eq_true named⟩

/-- A request keeps its id. -/
theorem TimeOffRequest.Ages.id {earlier later : TimeOffRequest} (aged : earlier.Ages later) :
    later.id = earlier.id := by
  rw [aged.1]

/-- A request keeps its key. -/
theorem TimeOffRequest.Ages.idempotencyKey {earlier later : TimeOffRequest}
    (aged : earlier.Ages later) : later.idempotencyKey = earlier.idempotencyKey := by
  rw [aged.1]

namespace Service

/-- The create call with some key that a step answers. -/
def creation (service : Service) (k : String) : ServiceAction → Option Creation
  | .operate (.create uuid dto (some own)) =>
    if own = k then
      (service.store.create uuid dto (some own)).toOption.map fun created => ⟨dto, created.1⟩
    else none
  | _ => none

/-- All calls with a key were given one request, which has come of what the first one asked for. -/
structure Names (k : String) (calls : List Creation) (store : Store) (request : TimeOffRequest) :
    Prop where
  stored : store.requests.find request.id = some request
  given : ∀ call ∈ calls, call.given.id = request.id
  -- Whatever the later calls ask for, the terms are those of the first one.
  asked : ∃ first, calls.head? = some first ∧ (first.dto.draft request.id (some k)).Ages request
  alone : ∀ other ∈ store.requests.rows, other.idempotencyKey = some k → other = request
  -- An empty key is not looked up, but the unique index refuses it the second time.
  empty : k = "" → calls.length = 1

/-- What is stored under a key after so many calls with it. -/
structure Answered (k : String) (calls : List Creation) (store : Store) : Prop where
  unused : calls = [] → ∀ request ∈ store.requests.rows, request.idempotencyKey ≠ some k
  used : calls ≠ [] → ∃ request, Names k calls store request

variable {before after : Service} {action : ServiceAction} {k : String} {calls : List Creation}

/-- The request has the key of its calls. -/
theorem Names.keyed {store : Store} {request : TimeOffRequest}
    (names : Names k calls store request) : request.idempotencyKey = some k := by
  obtain ⟨_, _, aged⟩ := names.asked
  exact aged.idempotencyKey

/-- A request is created by a create call only. -/
theorem creates_of_created {id : String} {event : Event} (cause : before.Cause id action event)
    (created : event = .created) :
    ∃ dto idempotencyKey, action = .operate (.create id dto idempotencyKey) := by
  -- The other causes are events of their own.
  cases cause with
  | creates dto idempotencyKey => exact ⟨dto, idempotencyKey, rfl⟩
  | records msg attempt => cases attempt <;> cases created
  | _ => cases created

/-- A request that is new after a step is the draft of a create call. -/
theorem create_of_step (coherent : before.Coherent) (taken : before.step action = some after)
    {request : TimeOffRequest} (absent : before.store.requests.find request.id = none)
    (stored : request ∈ after.store.requests.rows) :
    ∃ dto idempotencyKey result, action = .operate (.create request.id dto idempotencyKey) ∧
      before.store.create request.id dto idempotencyKey = .ok (result, after.store) ∧
      request.idempotencyKey = idempotencyKey := by
  obtain ⟨progress, shown⟩ := coherent.shown request.id
  obtain ⟨target, next, reached⟩ := step_shows coherent taken request.id shown
  have status := reached.status_eq (Table.find_of_mem stored)
  obtain rfl := Store.unknown_of_absent shown absent
  -- Only a creation gives an unknown request a state.
  cases heard : before.event request.id action with
  | none =>
    rw [heard] at next
    cases next
    cases status
  | some event =>
    rw [heard] at next
    have made : event = .created := by
      cases Progress.steps_of_next next with
      | create => rfl
      | absorb => cases status
    obtain ⟨dto, idempotencyKey, rfl⟩ := creates_of_created (event_cause heard) made
    cases step_move taken with
    | creates _ _ _ result store _ created =>
      refine ⟨dto, idempotencyKey, result, rfl, created, ?_⟩
      rcases Store.create_ok created with ⟨_, rfl⟩ | ⟨unseen, _⟩
      · cases absent.symm.trans (Table.find_of_mem stored)
      · obtain ⟨rfl, rfl, _⟩ := Store.create_new unseen created
        rcases Table.mem_save.mp stored with same | ⟨old, _⟩
        · rw [same]
          rfl
        · cases absent.symm.trans (Table.find_of_mem old)

/-- Without a create call with a key, the requests that have it are those that had it. -/
theorem keyed_of_step (coherent : before.Coherent) (taken : before.step action = some after)
    (silent : before.creation k action = none) {request : TimeOffRequest}
    (stored : request ∈ after.store.requests.rows) (keyed : request.idempotencyKey = some k) :
    ∃ old ∈ before.store.requests.rows, old.idempotencyKey = some k ∧ old.Ages request := by
  -- A row is new, or is what one with its id has become.
  cases found : before.store.requests.find request.id with
  | none =>
    obtain ⟨dto, _, result, rfl, created, rfl⟩ := create_of_step coherent taken found stored
    rw [keyed] at created silent
    simp [creation, created, Except.toOption] at silent
  | some old =>
    -- The row that the old one has become is the only one under its id.
    have member := Table.mem_of_find found
    obtain ⟨later, there, aged⟩ := (step_ages coherent taken).requests old member
    obtain rfl := Table.eq_of_key_eq there stored (aged.id.trans (Table.key_of_find found))
    exact ⟨old, member, aged.idempotencyKey.symm.trans keyed, aged⟩

/-- A step without a create call with a key keeps what the key names. -/
theorem Answered.silent (answered : Answered k calls before.store) (coherent : before.Coherent)
    (taken : before.step action = some after) (silent : before.creation k action = none) :
    Answered k calls after.store := by
  -- The requests with the key are the same, each in a later state.
  constructor
  · intro none_ request stored keyed
    obtain ⟨old, member, had, _⟩ := keyed_of_step coherent taken silent stored keyed
    exact answered.unused none_ old member had
  · intro some_
    obtain ⟨request, names⟩ := answered.used some_
    obtain ⟨later, there, aged⟩ :=
      (step_ages coherent taken).requests request (Table.mem_of_find names.stored)
    obtain ⟨first, head, came⟩ := names.asked
    -- The request is the same one, in a later state.
    refine ⟨later, Table.find_of_mem there, fun call member => ?_, ⟨first, head, ?_⟩,
      fun other stored keyed => ?_, names.empty⟩
    · rw [names.given call member, aged.id]
    · rw [aged.id]
      exact came.trans _ _ _ aged
    · obtain ⟨old, member, had, grown⟩ := keyed_of_step coherent taken silent stored keyed
      obtain rfl := names.alone old member had
      exact Table.eq_of_key_eq stored there (grown.id.trans aged.id.symm)

/-- A call with a key that is in use is given the request it names. -/
theorem Answered.repeated (answered : Answered k calls before.store)
    {dto : CreateTimeOffRequestDto} {result : TimeOffRequest}
    (known : before.store.existingFor (some k) = some result) :
    Answered k (calls ++ [⟨dto, result⟩]) before.store := by
  -- What is found under the key is the request it names.
  obtain ⟨stored, keyed, named⟩ := Store.existingFor_some known
  have earlier : calls ≠ [] := fun none_ => answered.unused none_ result stored keyed
  refine ⟨fun none_ => absurd none_ (by simp), fun _ => ?_⟩
  obtain ⟨request, names⟩ := answered.used earlier
  obtain ⟨first, head, came⟩ := names.asked
  -- The first call is still the first one.
  refine ⟨request, names.stored, fun call member => ?_, ⟨first, ?_, came⟩, names.alone,
    fun empty => absurd empty named⟩
  · rcases List.mem_append.mp member with old | new
    · exact names.given call old
    · rw [List.mem_singleton.mp new]
      exact congrArg TimeOffRequest.id (names.alone result stored keyed)
  · rw [List.head?_append, head, Option.some_or]

/-- A call that is the first with its key is given a request of its own. -/
theorem Answered.first {store : Store} (answered : Answered k calls store) {uuid : String}
    {dto : CreateTimeOffRequestDto} (refuses : ¬store.Refuses (some k)) :
    Answered k (calls ++ [⟨dto, (dto.draft uuid (some k)).saved⟩])
      (store.saveRequest (dto.draft uuid (some k))) := by
  -- No stored request has the key, so no call with it was answered before.
  have unkeyed : ∀ other ∈ store.requests.rows, other.idempotencyKey ≠ some k := by
    intro other stored keyed
    exact refuses ⟨rfl, List.any_eq_true.mpr ⟨other, stored, decide_eq_true keyed⟩⟩
  have earlier : calls = [] := by
    by_contra some_
    obtain ⟨request, names⟩ := answered.used some_
    exact unkeyed request (Table.mem_of_find names.stored) names.keyed
  subst earlier
  let saved := (dto.draft uuid (some k)).saved
  refine ⟨fun none_ => absurd none_ (by simp),
    fun _ => ⟨saved, ?_, ?_, ⟨_, rfl, rfl, Or.inr ?_⟩, ?_, ?_⟩⟩
  · exact Table.find_save_self store.requests saved
  · intro call member
    rw [List.mem_singleton.mp member]
  · show (0 : Int) < 1
    omega
  · intro other stored keyed
    rcases Table.mem_save.mp stored with same | ⟨old, _⟩
    · exact same
    · exact absurd keyed (unkeyed other old)
  · exact fun _ => rfl

/-- Every step keeps what a key names, and answers a call with it with that. -/
theorem Answered.step (answered : Answered k calls before.store) (coherent : before.Coherent)
    (taken : before.step action = some after) :
    Answered k (calls ++ (before.creation k action).toList) after.store := by
  -- Only a create call with the key is answered by it.
  cases asked : before.creation k action with
  | none =>
    rw [Option.toList_none, List.append_nil]
    exact answered.silent coherent taken asked
  | some call =>
    cases step_move taken with
    | creates uuid dto idempotencyKey result store fresh created =>
      -- The key of the call is the one it is asked about.
      cases idempotencyKey with
      | none => simp [creation] at asked
      | some own =>
        simp only [creation, created, Except.toOption, Option.map_some,
          Option.ite_none_right_eq_some, Option.some.injEq] at asked
        obtain ⟨rfl, rfl⟩ := asked
        rw [Option.toList_some]
        rcases Store.create_ok created with ⟨known, rfl⟩ | ⟨unseen, _⟩
        · exact answered.repeated known
        · obtain ⟨rfl, rfl, refuses⟩ := Store.create_new unseen created
          exact answered.first refuses
    | _ => simp [creation] at asked

end Service

end TimeOff
