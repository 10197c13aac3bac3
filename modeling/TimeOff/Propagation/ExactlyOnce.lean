import TimeOff.Propagation.Coupling

/-! Every debit and every credit changes the balance on the other side at most once. -/

namespace TimeOff

/-- What a message of some days changes when it is applied. -/
def OutboxType.signed : OutboxType → Int → Int
  | .debit, days => -days
  | .credit, days => days

/-- The posting an effective acknowledgement stands for. -/
def TimeOffRequest.posting (request : TimeOffRequest) (type : OutboxType) (version : Int) :
    Posting where
  rowKey := key request.employeeId request.locationId
  version := version
  delta := type.signed request.days
  cause := some (type.key request.id)

section Messages

variable {msg : OutboxMessage} {request : TimeOffRequest}

/-- A message is delivered under the key of its request's pair. -/
theorem OutboxMessage.OwnedBy.rowKey (own : msg.OwnedBy request.terms) :
    TimeOff.key msg.command.employeeId msg.command.locationId =
      TimeOff.key request.employeeId request.locationId := by
  simp [OutboxMessage.command, own.payload, TimeOffRequest.terms]

/-- A message asks for the days of its request. -/
theorem OutboxMessage.OwnedBy.signed (own : msg.OwnedBy request.terms) :
    msg.command.signed = msg.type.signed request.days := by
  cases type : msg.type <;>
    simp [OutboxMessage.command, ApplyDeltaCommand.signed, OutboxType.signed, own.payload, type,
      TimeOffRequest.terms]

/-- Days are never nothing. -/
theorem OutboxMessage.OwnedBy.signed_ne_zero (own : msg.OwnedBy request.terms) :
    msg.type.signed request.days ≠ 0 := by
  have positive : 0 < request.days := own.positive
  cases msg.type <;> simp only [OutboxType.signed] <;> omega

end Messages

namespace History

variable {before after : History} {more : List Posting} {k : String}

/-- Later postings add to what a key has changed. -/
theorem changesBy_append (grown : after.postings = before.postings ++ more) (k : String) :
    after.changesBy k = before.changesBy k ++
      more.filter fun posting => posting.cause = some k ∧ posting.delta ≠ 0 := by
  simp only [changesBy, grown, List.filter_append]

/-- A posting with another cause, or of nothing, adds nothing to what a key has changed. -/
theorem changesBy_eq (grown : after.postings = before.postings ++ more)
    (other : ∀ posting ∈ more, posting.cause = some k → posting.delta = 0) :
    after.changesBy k = before.changesBy k := by
  rw [changesBy_append grown, List.filter_eq_nil_iff.mpr, List.append_nil]
  intro posting member
  simpa using other posting member

end History

namespace System

/-- The postings are exactly those the acknowledgements stand for. -/
structure Posted (system : System) : Prop where
  ineffective : ∀ k,
    (∀ entry, system.hcm.applied.find k = some entry → entry.ack.applied = false) →
      system.history.changesBy k = []
  effective : ∀ id request, system.service.store.requests.find id = some request →
    ∀ (type : OutboxType) entry, system.hcm.applied.find (type.key request.id) = some entry →
      entry.ack.applied = true →
        system.history.changesBy (type.key request.id) = [request.posting type entry.ack.version]
  dated : ∀ id request, system.service.store.requests.find id = some request →
    ∀ (type : OutboxType) entry, system.hcm.applied.find (type.key request.id) = some entry →
      entry.ack.version ≤ system.hcm.versionOf (key request.employeeId request.locationId)
  ordered : ∀ id credit, system.hcm.applied.find (creditKey id) = some credit →
    credit.ack.applied = true →
      ∃ debit, system.hcm.applied.find (debitKey id) = some debit ∧
        debit.ack.version < credit.ack.version

variable {before after : System} {action : Action}

/-- A request whose message was acknowledged was stored, with the terms it has now. -/
theorem stored_of_acknowledged (linked : before.Linked) (coherent : before.service.Coherent)
    {serviceAction : ServiceAction}
    (taken : before.service.step serviceAction = some after.service) {id : String}
    {request : TimeOffRequest} (found : after.service.store.requests.find id = some request)
    {type : OutboxType} {entry : AppliedEntry}
    (acknowledged : before.hcm.applied.find (type.key request.id) = some entry) :
    ∃ old, before.service.store.requests.find id = some old ∧ request.terms = old.terms := by
  obtain rfl := Table.key_of_find found
  obtain ⟨progress, shown⟩ := coherent.shown request.id
  cases earlier : before.service.store.requests.find request.id with
  | some old =>
    obtain ⟨_, again, terms⟩ := Service.step_terms coherent taken earlier
    cases found.symm.trans again
    exact ⟨old, rfl, terms⟩
  | none =>
    -- Nothing is acknowledged for a request that is unknown.
    obtain rfl := Store.unknown_of_absent shown earlier
    have unsent := (linked.coupled _ _ shown).unsent type (by cases type <;> simp [Progress.sent])
    simp [unsent] at acknowledged

/-- A step of the service that reaches nobody keeps the postings in order. -/
theorem Posted.served (posted : before.Posted) (linked : before.Linked)
    (coherent : before.service.Coherent) {serviceAction : ServiceAction}
    (taken : before.service.step serviceAction = some after.service)
    (hcm : after.hcm = before.hcm)
    (postings : after.history.postings = before.history.postings) : after.Posted := by
  have changes (k : String) : after.history.changesBy k = before.history.changesBy k := by
    simp [History.changesBy, postings]
  -- A request that has an acknowledgement was stored before, with the same terms.
  refine ⟨?_, ?_, ?_, ?_⟩
  · intro k ineffective
    rw [changes, posted.ineffective k (hcm ▸ ineffective)]
  · intro id request found type entry acknowledged applied
    rw [hcm] at acknowledged
    obtain ⟨old, earlier, terms⟩ := stored_of_acknowledged linked coherent taken found acknowledged
    simp only [TimeOffRequest.terms, Terms.mk.injEq] at terms
    obtain ⟨named, employee, location, days⟩ := terms
    rw [named] at acknowledged
    rw [changes, named, posted.effective id old earlier type entry acknowledged applied]
    simp [TimeOffRequest.posting, named, employee, location, days]
  · intro id request found type entry acknowledged
    rw [hcm] at acknowledged ⊢
    obtain ⟨old, earlier, terms⟩ := stored_of_acknowledged linked coherent taken found acknowledged
    simp only [TimeOffRequest.terms, Terms.mk.injEq] at terms
    obtain ⟨named, employee, location, days⟩ := terms
    rw [named] at acknowledged
    rw [employee, location]
    exact posted.dated id old earlier type entry acknowledged
  · rw [hcm]
    exact posted.ordered

/-- A step that acknowledges nothing and changes no balance keeps the postings in order. -/
theorem Posted.carried (posted : before.Posted) (taken : before.step action = some after)
    (requests : after.service.store.requests = before.service.store.requests)
    (applied : after.hcm.applied = before.hcm.applied)
    (changes : ∀ k, after.history.changesBy k = before.history.changesBy k) : after.Posted := by
  -- Everything the fields look at is the same.
  refine ⟨?_, ?_, ?_, ?_⟩
  · intro k ineffective
    rw [changes, posted.ineffective k (applied ▸ ineffective)]
  · intro id request found type entry acknowledged effective
    rw [changes]
    exact posted.effective id request (requests ▸ found) type entry (applied ▸ acknowledged)
      effective
  · intro id request found type entry acknowledged
    exact (posted.dated id request (requests ▸ found) type entry (applied ▸ acknowledged)).trans
      (versionOf_step taken _)
  · rw [applied]
    exact posted.ordered

/-- A delivery of one message, as far as it arrives. -/
structure Arrival (before after : System) (msg : OutboxMessage)
    (result : Except HcmError ApplyDeltaAck) : Prop where
  held : msg ∈ before.service.processor.held
  store : after.service.store = before.service.store
  answer : HcmCore.Answer before.hcm msg.command after.hcm result
  postings : after.history.postings = before.history.postings ++
    postingBetween before.hcm after.hcm
      (key msg.command.employeeId msg.command.locationId) (some msg.idempotencyKey)

/-- A delivery changes nothing under the keys of other messages. -/
theorem Arrival.changes_other {msg : OutboxMessage} {result : Except HcmError ApplyDeltaAck}
    (arrival : Arrival before after msg result) {k : String} (other : k ≠ msg.idempotencyKey) :
    after.history.changesBy k = before.history.changesBy k :=
  History.changesBy_eq arrival.postings fun posting member caused => by
    rw [(rowKey_of_mem_postingBetween member).2.2] at caused
    exact absurd (Option.some.inj caused).symm other

/-- A delivery that leaves the balance alone changes nothing under any key. -/
theorem Arrival.changes_same {msg : OutboxMessage} {result : Except HcmError ApplyDeltaAck}
    (arrival : Arrival before after msg result)
    (balance : after.hcm.balanceOf (key msg.command.employeeId msg.command.locationId) =
      before.hcm.balanceOf (key msg.command.employeeId msg.command.locationId)) (k : String) :
    after.history.changesBy k = before.history.changesBy k :=
  History.changesBy_eq arrival.postings fun posting member _ => by
    unfold postingBetween at member
    split at member
    · cases member
    · rw [List.mem_singleton.mp member]
      exact Int.sub_eq_zero.mpr balance

/-- A new effective acknowledgement is posted for the request of its message. -/
theorem Arrival.changes_own {msg : OutboxMessage} {ack : ApplyDeltaAck}
    (arrival : Arrival before after msg (.ok ack)) (posted : before.Posted)
    {request : TimeOffRequest} (own : msg.OwnedBy request.terms)
    (unused : before.hcm.applied.find msg.idempotencyKey = none)
    (version : after.hcm.versionOf (key msg.command.employeeId msg.command.locationId) =
      ack.version)
    (higher : before.hcm.versionOf (key msg.command.employeeId msg.command.locationId) <
      ack.version)
    (balance : after.hcm.balanceOf (key msg.command.employeeId msg.command.locationId) =
      before.hcm.balanceOf (key msg.command.employeeId msg.command.locationId) +
        msg.command.signed) :
    after.history.changesBy msg.idempotencyKey = [request.posting msg.type ack.version] := by
  have nothing := posted.ineffective msg.idempotencyKey (by simp [unused])
  -- The version has gone up, so the call has posted.
  have moved : after.hcm.versionOf (key msg.command.employeeId msg.command.locationId) ≠
      before.hcm.versionOf (key msg.command.employeeId msg.command.locationId) := by
    rw [version]
    exact higher.ne'
  have named : msg.idempotencyKey = msg.type.key request.id := own.key
  have delta : after.hcm.balanceOf (key msg.command.employeeId msg.command.locationId) -
      before.hcm.balanceOf (key msg.command.employeeId msg.command.locationId) =
        msg.type.signed request.days := by
    rw [balance, own.signed]
    omega
  rw [History.changesBy_append arrival.postings, nothing, postingBetween_moved _ moved, version,
    delta, own.rowKey]
  simp [own.signed_ne_zero, TimeOffRequest.posting, named]

/-- A delivery that is acknowledged now, for a stored request. -/
structure Arrival.Given (before after : System) (msg : OutboxMessage) (request : TimeOffRequest)
    (ack : ApplyDeltaAck) : Prop where
  found : before.service.store.requests.find msg.requestId = some request
  own : msg.OwnedBy request.terms
  unused : before.hcm.applied.find msg.idempotencyKey = none
  applied : after.hcm.applied =
    before.hcm.applied.save { idempotencyKey := msg.idempotencyKey, ack }
  version : after.hcm.versionOf (key msg.command.employeeId msg.command.locationId) = ack.version
  higher : ack.applied = true →
    before.hcm.versionOf (key msg.command.employeeId msg.command.locationId) < ack.version

namespace Arrival.Given

variable {msg : OutboxMessage} {request : TimeOffRequest} {ack : ApplyDeltaAck}

/-- The acknowledgement is found under the key of its message. -/
theorem find (given : Arrival.Given before after msg request ack) :
    after.hcm.applied.find msg.idempotencyKey =
      some { idempotencyKey := msg.idempotencyKey, ack } :=
  given.applied ▸ Table.find_save_self _ _

/-- What was acknowledged under other keys is so still. -/
theorem find_other (given : Arrival.Given before after msg request ack) {k : String}
    (other : k ≠ msg.idempotencyKey) :
    after.hcm.applied.find k = before.hcm.applied.find k := by
  rw [given.applied, Table.find_save, if_neg]
  exact fun same => other same.symm

/-- A key of a stored request is that of the message for that request and type only. -/
theorem owner (given : Arrival.Given before after msg request ack)
    (store : after.service.store = before.service.store) {id : String} {other : TimeOffRequest}
    (stored : after.service.store.requests.find id = some other) {type : OutboxType}
    (same : type.key other.id = msg.idempotencyKey) : type = msg.type ∧ other = request := by
  -- The key names the type and the request, and the request is stored once.
  have named : msg.idempotencyKey = msg.type.key request.id := given.own.key
  obtain ⟨rfl, sameId⟩ := OutboxType.key_injective (same.trans named)
  obtain rfl := Table.key_of_find stored
  have requestId := Table.key_of_find given.found
  rw [store, sameId, requestId, given.found] at stored
  exact ⟨rfl, (Option.some.inj stored).symm⟩

/-- A credit that is acknowledged now comes after the debit of its request. -/
theorem credit_later (given : Arrival.Given before after msg request ack) (posted : before.Posted)
    (linked : before.Linked) {progress : Progress}
    (shown : (before.service.store.dossier msg.requestId).Shows progress)
    (delivering : progress.delivering = some msg.type) {id : String}
    (same : creditKey id = msg.idempotencyKey) (effective : ack.applied = true) :
    ∃ debit, before.hcm.applied.find (debitKey id) = some debit ∧
      debit.ack.version < ack.version := by
  have named : msg.idempotencyKey = msg.type.key request.id := given.own.key
  obtain ⟨type, sameId⟩ := OutboxType.key_injective
    (show OutboxType.credit.key id = _ from same.trans named)
  rw [← type] at delivering
  obtain ⟨stamp, absorbed, rfl⟩ := Progress.delivering_credit delivering
  have requestId : request.id = msg.requestId := Table.key_of_find given.found
  -- A credit is delivered for a request whose debit has been acknowledged.
  obtain ⟨debit, debited, stamped⟩ := (linked.coupled _ _ shown).debited stamp rfl
  refine ⟨debit, ?_, ?_⟩
  · rw [sameId, requestId]
    exact debited
  · have old := posted.dated _ request given.found .debit debit (by rw [requestId]; exact debited)
    have newer := given.higher effective
    rw [given.own.rowKey] at newer
    exact Int.lt_of_le_of_lt old newer

end Arrival.Given

/-- An arriving delivery posts what its acknowledgement stands for. -/
theorem Posted.delivered (posted : before.Posted) (linked : before.Linked)
    (coherent : before.service.Coherent) (taken : before.step action = some after)
    {msg : OutboxMessage} {result : Except HcmError ApplyDeltaAck}
    (arrival : Arrival before after msg result) : after.Posted := by
  obtain ⟨progress, shown⟩ := coherent.shown msg.requestId
  obtain ⟨delivering, request, found, _, own⟩ := coherent.of_held arrival.held shown
  have answer := arrival.answer
  cases answer with
  | repeated prior _ applied balances =>
    refine posted.carried taken (by rw [arrival.store]) applied (arrival.changes_same ?_)
    simp [HcmCore.balanceOf, balances]
  | thrown error _ applied balance =>
    exact posted.carried taken (by rw [arrival.store]) applied (arrival.changes_same balance)
  | given ack unused applied version higher balance =>
    have given : Arrival.Given before after msg request ack :=
      ⟨found, own, unused, applied, version, higher⟩
    -- Only the key of the message is concerned, and it has not been used before.
    refine ⟨?_, ?_, ?_, ?_⟩
    · intro k ineffective
      by_cases same : k = msg.idempotencyKey
      · have idle : ack.applied = false := ineffective _ (same ▸ given.find)
        rw [arrival.changes_same (by simpa [idle] using balance) k]
        exact posted.ineffective k (by simp [same, given.unused])
      · rw [arrival.changes_other same]
        exact posted.ineffective k fun entry found =>
          ineffective entry ((given.find_other same).trans found)
    · intro id other stored type entry acknowledged effective
      by_cases same : type.key other.id = msg.idempotencyKey
      · obtain ⟨rfl, rfl⟩ := given.owner arrival.store stored same
        rw [same] at acknowledged
        cases given.find.symm.trans acknowledged
        rw [same]
        exact arrival.changes_own posted own given.unused version (higher effective)
          (by rw [balance, if_pos effective])
      · rw [arrival.changes_other same]
        rw [given.find_other same] at acknowledged
        exact posted.effective id other (arrival.store ▸ stored) type entry acknowledged effective
    · intro id other stored type entry acknowledged
      by_cases same : type.key other.id = msg.idempotencyKey
      · obtain ⟨rfl, rfl⟩ := given.owner arrival.store stored same
        rw [same] at acknowledged
        cases given.find.symm.trans acknowledged
        rw [← own.rowKey, version]
      · rw [given.find_other same] at acknowledged
        exact (posted.dated id other (arrival.store ▸ stored) type entry acknowledged).trans
          (versionOf_step taken _)
    · intro id credit acknowledged effective
      by_cases same : creditKey id = msg.idempotencyKey
      · rw [same] at acknowledged
        cases given.find.symm.trans acknowledged
        obtain ⟨debit, debited, earlier⟩ :=
          given.credit_later posted linked shown delivering same effective
        exact ⟨debit, arrival.answer.kept debited, earlier⟩
      · rw [given.find_other same] at acknowledged
        obtain ⟨debit, debited, earlier⟩ := posted.ordered id credit acknowledged effective
        exact ⟨debit, arrival.answer.kept debited, earlier⟩

/-- A call that posts without a cause changes nothing under any key. -/
theorem changesBy_causeless {more : List Posting}
    (postings : after.history.postings = before.history.postings ++ more)
    (causeless : ∀ posting ∈ more, posting.cause = none) (k : String) :
    after.history.changesBy k = before.history.changesBy k :=
  History.changesBy_eq postings fun posting member caused => by
    simp [causeless posting member] at caused

/-- Every step keeps the postings in order. -/
theorem step_posted (posted : before.Posted) (linked : before.Linked)
    (coherent : before.service.Coherent) (taken : before.step action = some after) :
    after.Posted := by
  -- Only deliveries post under the key of a message.
  have causeless {hcm : HcmCore} {k : String} (posting : Posting)
      (member : posting ∈ postingBetween before.hcm hcm k none) : posting.cause = none :=
    (rowKey_of_mem_postingBetween member).2.2
  cases step_effect taken with
  | operates _ _ served hcm _ _ history =>
    exact posted.served linked coherent served hcm (by rw [history])
  | loses _ _ served hcm _ _ history =>
    exact posted.served linked coherent served hcm (by rw [history])
  | inserts _ _ _ _ served hcm _ _ history =>
    exact posted.served linked coherent served hcm (by rw [history])
  | reconciles _ _ _ _ _ served hcm _ _ history =>
    exact posted.served linked coherent served hcm (by rw [history])
  | crashes _ served hcm _ _ history =>
    exact posted.served linked coherent served hcm (by rw [history])
  | delivers msg rest fate now heard _ due idle relayed served hcm _ _ history =>
    have arrival : Arrival before after msg (before.hcm.applyDelta now msg.command).2 := by
      refine ⟨?_, ?_, ?_, ?_⟩
      · simp [OutboxProcessor.held, due]
      · simp only [Service.step, due, idle, Option.some.injEq] at served
        rw [← served]
      · exact hcm ▸ before.hcm.applyDelta_answer now msg.command
      · rw [history]
        rfl
    exact posted.delivered linked coherent taken arrival
  | reads _ _ _ _ answered service _ history =>
    exact posted.carried taken (by rw [service]) (HcmCore.applied_getBalance answered)
      (changesBy_causeless (by rw [history]; rfl) causeless)
  | seeds _ _ _ _ _ hcm service _ _ history =>
    exact posted.carried taken (by rw [service]) (by rw [hcm]; rfl)
      (changesBy_causeless (by rw [history]; rfl) causeless)
  | adjusts _ _ _ _ _ _ adjusted service _ _ history =>
    exact posted.carried taken (by rw [service]) (HcmCore.applied_adjust adjusted)
      (changesBy_causeless (by rw [history]; rfl) causeless)
  | configures _ _ hcm service _ _ history =>
    exact posted.carried taken (by rw [service]) (by rw [hcm]; rfl)
      (by simp [History.changesBy, history])

/-- At the start nothing is acknowledged and nothing is posted. -/
theorem posted_init : init.Posted := by
  -- There are no requests and no acknowledgements.
  refine ⟨fun _ _ => rfl, ?_, ?_, ?_⟩
  · intro id request found
    cases found
  · intro id request found
    cases found
  · intro id credit acknowledged
    cases acknowledged

/-- In every reachable state the postings are in order. -/
theorem Reachable.posted {allowed : System → Action → Prop} {system : System}
    (reached : System.Reachable allowed system) : system.Posted :=
  Runs.Reachable.invariant posted_init
    (fun _ _ _ earlier posted _ taken =>
      step_posted posted (System.Reachable.linked earlier)
        (System.Reachable.service earlier).coherent taken) reached

/-- As long as no ghost success is switched on, every acknowledgement is effective. -/
structure Honest (core : HcmCore) : Prop where
  real : core.faults.ghostSuccess = false
  effective : ∀ entry ∈ core.applied.rows, entry.ack.applied = true

/-- An honest system of record stays honest when it is called. -/
theorem Honest.applyDelta {core : HcmCore} (honest : Honest core) (now : Time)
    (cmd : ApplyDeltaCommand) : Honest (core.applyDelta now cmd).1 := by
  refine ⟨?_, ?_⟩
  · rw [core.faults_applyDelta now cmd]
    exact honest.real
  · have outcome := core.applyDelta_outcome now cmd
    revert outcome
    generalize core.applyDelta now cmd = answer
    obtain ⟨after, result⟩ := answer
    intro outcome entry kept
    -- What was kept is effective, and a new acknowledgement is no ghost.
    cases outcome with
    | replayed _ => exact honest.effective entry kept
    | thrown _ same _ =>
      have same : after.applied = core.applied := same
      exact honest.effective entry (same ▸ kept)
    | ghost _ ghost _ _ _ => simp [honest.real] at ghost
    | settled _ _ _ _ applied _ =>
      rcases Table.mem_save.mp kept with rfl | ⟨old, _⟩
      · exact applied
      · exact honest.effective entry old

/-- Without ghost successes, every step keeps the system of record honest. -/
theorem step_honest (honest : Honest before.hcm) (permitted : before.WithoutGhosts action)
    (taken : before.step action = some after) : Honest after.hcm := by
  have carried (faults : after.hcm.faults = before.hcm.faults)
      (applied : after.hcm.applied = before.hcm.applied) : Honest after.hcm :=
    ⟨faults ▸ honest.real, applied ▸ honest.effective⟩
  cases step_effect taken with
  | operates _ _ _ hcm => exact hcm ▸ honest
  | loses _ _ _ hcm => exact hcm ▸ honest
  | inserts _ _ _ _ _ hcm => exact hcm ▸ honest
  | reconciles _ _ _ _ _ _ hcm => exact hcm ▸ honest
  | crashes _ _ hcm => exact hcm ▸ honest
  | delivers msg _ _ now _ _ _ _ _ _ hcm => exact hcm ▸ honest.applyDelta now msg.command
  | reads _ _ _ _ answered =>
    exact carried (HcmCore.faults_getBalance answered) (HcmCore.applied_getBalance answered)
  | seeds _ _ _ _ _ hcm => exact carried (by rw [hcm]; rfl) (by rw [hcm]; rfl)
  | adjusts _ _ _ _ _ _ adjusted =>
    exact carried (HcmCore.faults_adjust adjusted) (HcmCore.applied_adjust adjusted)
  | configures patch same hcm =>
    subst same
    refine ⟨?_, by rw [hcm]; exact honest.effective⟩
    rw [hcm]
    simp only [HcmCore.configureFaults, honest.real]
    -- The permitted patches leave the switch off.
    cases chosen : patch.ghostSuccess with
    | none => rfl
    | some ghost =>
      cases ghost
      · rfl
      · exact absurd chosen permitted

/-- What one request has changed on the other side. -/
structure PropagatesOnce (system : System) (request : TimeOffRequest) : Prop where
  debits : (system.history.changesBy (debitKey request.id)).length ≤ 1
  credits : (system.history.changesBy (creditKey request.id)).length ≤ 1
  debit : ∀ posting ∈ system.history.changesBy (debitKey request.id),
    posting.rowKey = key request.employeeId request.locationId ∧ posting.delta = -request.days
  credit : ∀ posting ∈ system.history.changesBy (creditKey request.id),
    posting.rowKey = key request.employeeId request.locationId ∧ posting.delta = request.days
  -- The debit was acknowledged at a lower version than the credit was posted with.
  ordered : ∀ posting ∈ system.history.changesBy (creditKey request.id),
    ∃ entry, system.hcm.applied.find (debitKey request.id) = some entry ∧
      entry.ack.version < posting.version

/-- What a key has changed is nothing, or the one posting its acknowledgement stands for. -/
theorem Posted.changes {system : System} (posted : system.Posted) {request : TimeOffRequest}
    (found : system.service.store.requests.find request.id = some request) (type : OutboxType) :
    system.history.changesBy (type.key request.id) = [] ∨
      ∃ entry, system.hcm.applied.find (type.key request.id) = some entry ∧
        entry.ack.applied = true ∧
        system.history.changesBy (type.key request.id) =
          [request.posting type entry.ack.version] := by
  by_cases effective : ∃ entry, system.hcm.applied.find (type.key request.id) = some entry ∧
      entry.ack.applied = true
  · -- An effective acknowledgement is posted, and any other one is not.
    obtain ⟨entry, acknowledged, applied⟩ := effective
    exact Or.inr ⟨entry, acknowledged, applied,
      posted.effective _ request found type entry acknowledged applied⟩
  · refine Or.inl (posted.ineffective _ fun entry acknowledged => ?_)
    by_contra applied
    exact effective ⟨entry, acknowledged, by simpa using applied⟩

/-- A request whose postings are in order propagates once. -/
theorem Posted.propagatesOnce {system : System} (posted : system.Posted) {request : TimeOffRequest}
    (found : system.service.store.requests.find request.id = some request) :
    system.PropagatesOnce request := by
  -- Each key has one posting or none, so each field is that of the posting.
  have debits := posted.changes found .debit
  have credits := posted.changes found .credit
  simp only [OutboxType.key] at debits credits
  refine ⟨?_, ?_, ?_, ?_, ?_⟩
  · rcases debits with none_ | ⟨_, _, _, one⟩ <;> simp [*]
  · rcases credits with none_ | ⟨_, _, _, one⟩ <;> simp [*]
  · rcases debits with none_ | ⟨_, _, _, one⟩
    · simp [none_]
    · simp [one, TimeOffRequest.posting, OutboxType.signed]
  · rcases credits with none_ | ⟨_, _, _, one⟩
    · simp [none_]
    · simp [one, TimeOffRequest.posting, OutboxType.signed]
  · rcases credits with none_ | ⟨credit, acknowledged, applied, one⟩
    · simp [none_]
    · intro posting member
      rw [one, List.mem_singleton] at member
      subst member
      exact posted.ordered request.id credit acknowledged applied

/-- A message was only ever applied for a request that has held days. -/
theorem days_pos_of_applied {system : System} {request : TimeOffRequest} {progress : Progress}
    (found : system.service.store.requests.find request.id = some request)
    (shown : (system.service.store.dossier request.id).Shows progress)
    (coupled : Coupled system.hcm.applied request.id progress) {type : OutboxType}
    {entry : AppliedEntry}
    (acknowledged : system.hcm.applied.find (type.key request.id) = some entry) :
    0 < request.days := by
  -- A request without an entry was never submitted, so nothing was sent for it.
  refine Store.positive_of_entries shown found fun empty => ?_
  have unsent : ¬progress.sent type := by
    cases progress with
    | unknown | draft | withdrawn => cases type <;> exact id
    | _ => cases empty
  simp [coupled.unsent type unsent] at acknowledged

/-- Without ghost successes, every acknowledgement in a reachable state is effective. -/
theorem honest_of_reachable {system : System} (reached : System.Reachable WithoutGhosts system) :
    Honest system.hcm := by
  induction reached with
  | start => exact ⟨rfl, fun _ kept => nomatch kept⟩
  | step _ permitted taken honest => exact step_honest honest permitted taken

/-- Without ghost successes, an acknowledged message has been posted. -/
theorem changes_of_acknowledged {system : System} (posted : system.Posted)
    (honest : Honest system.hcm) {request : TimeOffRequest}
    (found : system.service.store.requests.find request.id = some request) {type : OutboxType}
    {entry : AppliedEntry}
    (acknowledged : system.hcm.applied.find (type.key request.id) = some entry) :
    system.history.changesBy (type.key request.id) = [request.posting type entry.ack.version] :=
  posted.effective _ request found type entry acknowledged
    (honest.effective entry (Table.mem_of_find acknowledged))

/--
Every debit and every credit changes the balance at most once, by the days of its request, and the
credit only after the debit was acknowledged.

Without ghost successes, the debit of a committed request has been applied exactly once.
-/
theorem propagates_once {system : System} (reached : System.Reachable (fun _ _ => True) system) :
    (∀ id request, system.service.store.requests.find id = some request →
      system.PropagatesOnce request) ∧
    (System.Reachable WithoutGhosts system →
      ∀ id request, system.service.store.requests.find id = some request →
        request.status = .committed →
          (system.history.changesBy (debitKey request.id)).length = 1) := by
  have posted := System.Reachable.posted reached
  constructor
  · intro id request found
    obtain rfl := Table.key_of_find found
    exact posted.propagatesOnce found
  · intro honestly id request found committed
    obtain rfl := Table.key_of_find found
    have coherent := (System.Reachable.service reached).coherent
    obtain ⟨progress, shown⟩ := coherent.shown request.id
    -- A committed request has recorded the acknowledgement of its debit.
    obtain ⟨version, absorbed, rfl⟩ := Progress.eq_committed
      ((shown.status_eq found).trans (congrArg some committed))
    obtain ⟨entry, acknowledged, _⟩ :=
      ((System.Reachable.linked reached).coupled _ _ shown).debited version rfl
    have changes : system.history.changesBy (OutboxType.debit.key request.id) = _ :=
      changes_of_acknowledged posted (honest_of_reachable honestly) found acknowledged
    exact congrArg List.length changes

/-- A request of three days whose debit is delivered twice, the first answer being lost. -/
def redeliveredRun : List Action :=
  [.seed "e" "l" 10 0, .readBalance "e" "l" 0, .insertBalance 0,
    .operate (.create "r" ⟨"e", "l", "2025-01-06", "2025-01-08", 3, none, true⟩ none),
    .operate (.submit "r" "hold"), .operate (.approve "r" "debit" 0), .operate (.drain 0),
    .deliver .answerLost 0, .operate (.record "unused" "drift" 0), .operate (.drain 200),
    .deliver .answered 200, .operate (.record "commit" "drift" 200)]

/-- After both deliveries the committed request has taken its days once. -/
theorem propagates_once_redelivered : ∃ system request,
    system.service.store.requests.find "r" = some request ∧ request.status = .committed ∧
      PropagatesOnce system request ∧
      (History.changesBy system.history (debitKey request.id)).length = 1 := by
  -- The second delivery finds the acknowledgement of the first one.
  have executed : (run WithoutGhosts redeliveredRun).map (fun system =>
      (system.service.store.requests.find "r").any (·.status = .committed)) = some true := by
    decide +kernel
  obtain ⟨system, reached, found⟩ := exists_reachable_of_run executed
  obtain ⟨request, stored, committed⟩ := (Option.any_eq_true _ _).mp found
  have once := propagates_once (Runs.Reachable.mono (fun _ _ _ => trivial) reached)
  exact ⟨system, request, stored, of_decide_eq_true committed, once.1 "r" request stored,
    once.2 reached "r" request stored (of_decide_eq_true committed)⟩

end System

end TimeOff
