import TimeOff.Propagation.ExactlyOnce

/-! When a request that was given up has cost its days on the other side all the same. -/

namespace TimeOff

namespace HcmCore

/-- Whether a row with some balance stands a new command: a debit may not take it below zero. -/
def Admits (core : HcmCore) (cmd : ApplyDeltaCommand) (balance : Int) : Prop :=
  core.faults.ghostSuccess = true ∨ core.faults.silentOverdraw = true ∨
    (cmd.type = .debit → 0 ≤ balance + cmd.signed)

/-- Whether a call with a command is acknowledged. -/
def Accepts (core : HcmCore) (cmd : ApplyDeltaCommand) : Prop :=
  (core.applied.find cmd.idempotencyKey).isSome = true ∨
    core.faults.failuresToInject ≤ 0 ∧
      TimeOff.key cmd.employeeId cmd.locationId ∉ core.faults.invalidDimensions ∧
      match core.balances.find (TimeOff.key cmd.employeeId cmd.locationId) with
      | some row => core.Admits cmd row.balance
      | none => core.faults.autoCreateUnknown = true ∧ core.Admits cmd 0

/-- A command is settled with an acknowledgement when the row stands it. -/
theorem settle_ok_iff (core : HcmCore) (now : Time) (cmd : ApplyDeltaCommand)
    (row : HcmBalanceRow) :
    (∃ ack, (core.settle now cmd row).2 = .ok ack) ↔ core.Admits cmd row.balance := by
  unfold settle Admits
  cases core.faults.ghostSuccess with
  | true => simp
  | false =>
    cases core.faults.silentOverdraw with
    | true => simp
    | false =>
      -- Only a debit is checked against the row.
      by_cases debit : cmd.type = .debit
      · by_cases short : row.balance + cmd.signed < 0
        · simp [debit, short, Int.not_le.mpr short]
        · simp [debit, short, Int.not_lt.mp short]
      · simp [debit]

/-- The accepted commands are those that are acknowledged. -/
theorem accepts_iff (core : HcmCore) (now : Time) (cmd : ApplyDeltaCommand) :
    core.Accepts cmd ↔ ∃ ack, (core.applyDelta now cmd).2 = .ok ack := by
  unfold applyDelta Accepts
  cases core.applied.find cmd.idempotencyKey with
  | some prior => simp
  | none =>
    dsimp only
    -- The conditions are checked in the order of the call.
    by_cases failing : 0 < core.faults.failuresToInject
    · simp [failing]
    · by_cases invalid : TimeOff.key cmd.employeeId cmd.locationId ∈ core.faults.invalidDimensions
      · simp [failing, invalid]
      · cases core.balances.find (TimeOff.key cmd.employeeId cmd.locationId) with
        | some row => simp [failing, Int.not_lt.mp failing, invalid, settle_ok_iff]
        | none =>
          cases created : core.faults.autoCreateUnknown with
          | false => simp [failing, invalid]
          | true =>
            simp only [failing, Int.not_lt.mp failing, invalid, settle_ok_iff, Option.isSome_none,
              Bool.false_eq_true, not_false_eq_true, true_and, false_or, if_false, if_true]
            rfl

/-- After a call the acknowledged keys are the earlier ones, and its own if it is accepted. -/
theorem isSome_applied_applyDelta (core : HcmCore) (now : Time) (cmd : ApplyDeltaCommand)
    (k : String) :
    ((core.applyDelta now cmd).1.applied.find k).isSome = true ↔
      (core.applied.find k).isSome = true ∨ cmd.idempotencyKey = k ∧ core.Accepts cmd := by
  rw [core.accepts_iff now cmd]
  have answer := core.applyDelta_answer now cmd
  generalize core.applyDelta now cmd = reply at answer
  obtain ⟨after, result⟩ := reply
  -- Only a first answer adds a key, and it is given when the call is accepted.
  cases answer with
  | repeated prior known applied _ =>
    have applied : after.applied = core.applied := applied
    simp only [applied]
    constructor
    · exact Or.inl
    · intro either
      rcases either with old | ⟨rfl, _⟩
      · exact old
      · simp [known]
  | thrown error _ applied _ =>
    have applied : after.applied = core.applied := applied
    simp [applied]
  | given ack _ applied _ _ _ =>
    have applied : after.applied =
      core.applied.save { idempotencyKey := cmd.idempotencyKey, ack } := applied
    simp only [applied, Table.find_save]
    by_cases own : cmd.idempotencyKey = k <;> simp [own]

end HcmCore

namespace Progress

variable {progress target : Progress} {event : Event}

/-- Whether the request was cancelled while its debit was on its way. -/
def dropped : Progress → Prop
  | .abandoned _ | .overtaken _ _ => True
  | _ => False

/-- A request is dropped by a cancellation after its approval, and for good. -/
theorem dropped_of_next (moves : progress.next event = some target) :
    target.dropped ↔
      progress.dropped ∨ event = .cancelled ∧ progress.status = some .approved := by
  cases steps_of_next moves with
  | absorb progress snapshot => cases progress <;> simp [dropped, Progress.absorb]
  | _ => simp [dropped, status]

/-- A dropped request is cancelled. -/
theorem status_of_dropped (dropped : progress.dropped) : progress.status = some .cancelled := by
  -- Both ways to be dropped come after a cancellation.
  cases progress with
  | abandoned debit => rfl
  | overtaken version absorbed => rfl
  | _ => exact absurd dropped id

/-- A dropped request never has its days refunded. -/
theorem not_sent_credit (dropped : progress.dropped) : ¬progress.sent .credit := by
  -- A credit is enqueued for a committed request only.
  cases progress with
  | abandoned debit => exact id
  | overtaken version absorbed => exact id
  | _ => exact absurd dropped id

end Progress

namespace System

/-- A request that was given up although its debit is applied on the other side. -/
def Stranded (system : System) (id : String) : Prop :=
  (∃ progress, (system.service.store.dossier id).Shows progress ∧ progress.dropped) ∧
    (system.hcm.applied.find (debitKey id)).isSome = true

/--
A step that compensates what it undoes.

No approved request is cancelled after its debit was applied, and no debit that arrives is accepted
for a request that is no longer approved.
-/
def Careful (before : System) : Action → Prop
  | .operate (.cancel id _ _) =>
    ∀ request, before.service.store.requests.find id = some request →
      request.status = .approved → before.hcm.applied.find (debitKey request.id) = none
  | .deliver .requestLost _ => True
  | .deliver _ _ =>
    ∀ msg rest request, before.service.processor.due = msg :: rest → msg.type = .debit →
      before.service.store.requests.find msg.requestId = some request →
      before.hcm.Accepts msg.command → request.status = .approved
  | _ => True

/-- What a request has cost on the other side, and what is still set aside for it. -/
structure Settles (system : System) (request : TimeOffRequest) : Prop where
  -- The debit was never applied, or it was applied once and credited once.
  free : request.status ∈ [.draft, .pendingApproval, .rejected, .failed, .cancelled] →
    system.history.netEffect request.id = 0 ∧
      (system.history.changesBy (debitKey request.id)).length ≤ 1 ∧
      (system.history.changesBy (creditKey request.id)).length =
        (system.history.changesBy (debitKey request.id)).length
  taken : request.status = .committed → system.history.netEffect request.id = -request.days
  idle : request.status ∈ [.cancelled, .rejected, .failed] →
    ∀ entry ∈ system.service.store.entriesOf request.id, entry.state ≠ .active

variable {before after : System} {action : Action} {id : String}

/-- The acknowledged keys are kept, and a delivery that is accepted adds that of its message. -/
theorem isSome_applied_step (taken : before.step action = some after) (k : String) :
    (after.hcm.applied.find k).isSome = true ↔
      (before.hcm.applied.find k).isSome = true ∨
        ∃ msg rest fate now, action = .deliver fate now ∧ fate ≠ .requestLost ∧
          before.service.processor.due = msg :: rest ∧ msg.idempotencyKey = k ∧
          before.hcm.Accepts msg.command := by
  apply acknowledged_step taken fun hcm => (hcm.applied.find k).isSome = true
  · intro left right same
    rw [same]
  · exact fun now msg => before.hcm.isSome_applied_applyDelta now msg.command k

/-- A request is dropped in a step that cancels it after its approval, and for good. -/
theorem dropped_of_step (coherent : before.service.Coherent)
    (taken : before.step action = some after)
    {progress target : Progress} (shown : (before.service.store.dossier id).Shows progress)
    (reached : (after.service.store.dossier id).Shows target) :
    target.dropped ↔ progress.dropped ∨
      (∃ uuid now, action = .operate (.cancel id uuid now)) ∧ progress.status = some .approved := by
  rcases step_service taken with ⟨same, other⟩ | ⟨serviceAction, served, operation⟩
  · rw [same] at reached
    obtain rfl := shown.unique reached
    simp [other]
  · obtain ⟨current, shownToo, next⟩ := Service.shows_before coherent served reached
    obtain rfl := shown.unique shownToo
    -- The event of a cancellation is that of its request only.
    have cancels : before.service.event id serviceAction = some .cancelled ↔
        ∃ uuid now, action = .operate (.cancel id uuid now) := by
      constructor
      · intro heard
        obtain ⟨uuid, now, same⟩ := (Service.event_cause heard).cancelled
        exact ⟨uuid, now, (operation _).mp same⟩
      · intro given
        obtain ⟨uuid, now, same⟩ := given
        rw [(operation _).mpr same]
        simp [Service.event, Service.subject]
    rw [← cancels]
    cases heard : before.service.event id serviceAction with
    | none =>
      rw [heard] at next
      cases next
      simp
    | some event =>
      rw [heard] at next
      simpa using Progress.dropped_of_next next

/-- What a careful delivery finds, unless it is lost. -/
theorem Careful.delivered {fate : Fate} {now : Time} (careful : before.Careful (.deliver fate now))
    (arrived : fate ≠ .requestLost) {msg : OutboxMessage} {rest : List OutboxMessage}
    {request : TimeOffRequest} (due : before.service.processor.due = msg :: rest)
    (debit : msg.type = .debit)
    (found : before.service.store.requests.find msg.requestId = some request)
    (accepts : before.hcm.Accepts msg.command) : request.status = .approved := by
  -- A lost call is the one fate that is always careful.
  cases fate with
  | requestLost => exact absurd rfl arrived
  | answered => exact careful msg rest request due debit found accepts
  | answerLost => exact careful msg rest request due debit found accepts

/-- A careful step strands no request. -/
theorem stranded_of_step (coherent : before.service.Coherent)
    (taken : before.step action = some after) (careful : before.Careful action)
    (stranded : after.Stranded id) : before.Stranded id := by
  obtain ⟨⟨target, reached, dropped⟩, applied⟩ := stranded
  obtain ⟨progress, shown⟩ := coherent.shown id
  rw [dropped_of_step coherent taken shown reached] at dropped
  rw [isSome_applied_step taken] at applied
  rcases dropped with dropped | ⟨⟨uuid, now, rfl⟩, approved⟩
  · rcases applied with applied | ⟨msg, rest, fate, now, rfl, arrived, due, key, accepts⟩
    · exact ⟨⟨progress, shown, dropped⟩, applied⟩
    · -- The debit of a dropped request was delivered, and a careful delivery was refused.
      have held : msg ∈ before.service.processor.held := by simp [OutboxProcessor.held, due]
      obtain ⟨_, shownToo⟩ := coherent.shown msg.requestId
      obtain ⟨_, request, found, status, own⟩ := coherent.of_held held shownToo
      obtain ⟨debit, same⟩ := OutboxType.key_injective
        (show msg.type.key request.terms.id = OutboxType.debit.key id from own.key.symm.trans key)
      obtain rfl : msg.requestId = id := own.owner.trans same
      obtain rfl := shown.unique shownToo
      rw [Progress.status_of_dropped dropped, careful.delivered arrived due debit found accepts]
        at status
      cases status
  · rcases applied with applied | ⟨_, _, _, _, clash, _⟩
    · -- A careful cancellation finds the debit of an approved request not applied.
      obtain ⟨debit, rfl⟩ := Progress.eq_approved approved
      obtain ⟨request, found, current⟩ := Option.map_eq_some_iff.mp (shown.status.trans approved)
      have named : request.id = id := Table.key_of_find found
      have unapplied := careful request found current
      rw [named] at unapplied
      simp [unapplied] at applied
    · cases clash

/-- A stranded request stays stranded. -/
theorem Stranded.step (stranded : before.Stranded id) (coherent : before.service.Coherent)
    (after_ : after.service.Coherent) (taken : before.step action = some after) :
    after.Stranded id := by
  -- Neither the drop nor the acknowledgement is ever taken back.
  obtain ⟨⟨progress, shown, dropped⟩, applied⟩ := stranded
  obtain ⟨target, reached⟩ := after_.shown id
  refine ⟨⟨target, reached, ?_⟩, ?_⟩
  · exact (dropped_of_step coherent taken shown reached).mpr (Or.inl dropped)
  · exact (isSome_applied_step taken _).mpr (Or.inl applied)

/-- A step that is not careful strands a request. -/
theorem exists_stranded (coherent : before.service.Coherent) (after_ : after.service.Coherent)
    (taken : before.step action = some after) (careless : ¬before.Careful action) :
    ∃ id, after.Stranded id := by
  cases action with
  | operate operation =>
    cases operation with
    | cancel id uuid now =>
      simp only [Careful, not_forall] at careless
      obtain ⟨request, found, approved, applied⟩ := careless
      have named : request.id = id := Table.key_of_find found
      rw [named] at applied
      obtain ⟨progress, shown⟩ := coherent.shown id
      obtain ⟨target, reached⟩ := after_.shown id
      refine ⟨id, ⟨target, reached, ?_⟩, ?_⟩
      · rw [dropped_of_step coherent taken shown reached]
        refine Or.inr ⟨⟨uuid, now, rfl⟩, ?_⟩
        rw [shown.status_eq found, approved]
      · exact (isSome_applied_step taken _).mpr
          (Or.inl (Option.isSome_iff_ne_none.mpr applied))
    | _ => exact absurd trivial careless
  | deliver fate now =>
    have arrived : fate ≠ .requestLost := by
      intro equal
      subst equal
      exact careless trivial
    have careless : ∃ msg rest request, before.service.processor.due = msg :: rest ∧
        msg.type = .debit ∧ before.service.store.requests.find msg.requestId = some request ∧
        before.hcm.Accepts msg.command ∧ request.status ≠ .approved := by
      cases fate with
      | requestLost => exact absurd rfl arrived
      | answered => simpa [Careful] using careless
      | answerLost => simpa [Careful] using careless
    obtain ⟨msg, rest, request, due, debit, found, accepts, given⟩ := careless
    have held : msg ∈ before.service.processor.held := by simp [OutboxProcessor.held, due]
    obtain ⟨progress, shown⟩ := coherent.shown msg.requestId
    obtain ⟨target, reached⟩ := after_.shown msg.requestId
    obtain ⟨delivering, again, foundAgain, status, own⟩ := coherent.of_held held shown
    cases found.symm.trans foundAgain
    have key : msg.idempotencyKey = debitKey msg.requestId := by
      rw [own.key, debit, own.owner]
      rfl
    refine ⟨msg.requestId, ⟨target, reached, ?_⟩, ?_⟩
    · rw [dropped_of_step coherent taken shown reached]
      -- A request that is waiting for its debit and not approved was dropped.
      rw [debit] at delivering
      rcases Progress.delivering_debit delivering with rfl | rfl
      · exact absurd (Option.some.inj status).symm given
      · exact Or.inl trivial
    · exact (isSome_applied_step taken _).mpr
        (Or.inr ⟨msg, rest, fate, now, rfl, arrived, due, key, accepts⟩)
  | _ => exact absurd trivial careless

/-- Along a run no request is stranded if and only if every step is careful. -/
theorem stranded_iff {taken : List (System × Action)} {final : System}
    (trace : System.Trace taken final) :
    (∀ id, ¬final.Stranded id) ↔
      ∀ before action, (before, action) ∈ taken → before.Careful action := by
  -- The induction adds the steps at the end, each of which strands or does not.
  induction trace with
  | start =>
    refine ⟨fun _ _ _ member => (nomatch member), fun _ id stranded => ?_⟩
    exact absurd stranded.2 Bool.false_ne_true
  | @step taken before after action earlier moved ih =>
    have coherent : before.service.Coherent :=
      (System.Trace.service earlier (Or.inl rfl)).coherent
    have after_ : after.service.Coherent :=
      (System.Trace.service (.step earlier moved) (Or.inl rfl)).coherent
    constructor
    · intro free
      have freeBefore : ∀ id, ¬before.Stranded id := fun id stranded =>
        free id (stranded.step coherent after_ moved)
      intro state other member
      rcases List.mem_append.mp member with old | last
      · exact ih.mp freeBefore state other old
      · simp only [List.mem_singleton, Prod.mk.injEq] at last
        obtain ⟨rfl, rfl⟩ := last
        by_contra careless
        obtain ⟨id, stranded⟩ := exists_stranded coherent after_ moved careless
        exact free id stranded
    · intro careful id stranded
      have carefulBefore := fun state other member =>
        careful state other (List.mem_append_left _ member)
      exact ih.mpr carefulBefore id
        (stranded_of_step coherent moved (careful before action (by simp)) stranded)

variable {system : System} {request : TimeOffRequest}

/-- A request none of whose messages was applied has cost nothing. -/
theorem Posted.netEffect_eq_zero (posted : system.Posted)
    (debit : system.hcm.applied.find (debitKey request.id) = none)
    (credit : system.hcm.applied.find (creditKey request.id) = none) :
    system.history.netEffect request.id = 0 ∧
      (system.history.changesBy (debitKey request.id)).length ≤ 1 ∧
      (system.history.changesBy (creditKey request.id)).length =
        (system.history.changesBy (debitKey request.id)).length := by
  have debits := posted.ineffective (debitKey request.id) (by simp [debit])
  have credits := posted.ineffective (creditKey request.id) (by simp [credit])
  simp [History.netEffect, History.effectOf, debits, credits]

/-- A request whose debit was applied, and whose credit was not, has cost its days. -/
theorem Posted.netEffect_eq_days (posted : system.Posted) (honest : Honest system.hcm)
    (found : system.service.store.requests.find request.id = some request)
    (debit : (system.hcm.applied.find (debitKey request.id)).isSome = true)
    (credit : system.hcm.applied.find (creditKey request.id) = none) :
    system.history.netEffect request.id = -request.days := by
  -- The debit has posted its days, and the credit nothing.
  obtain ⟨entry, acknowledged⟩ := Option.isSome_iff_exists.mp debit
  have debits : system.history.changesBy (OutboxType.debit.key request.id) = _ :=
    changes_of_acknowledged posted honest found acknowledged
  rw [OutboxType.key] at debits
  have credits := posted.ineffective (creditKey request.id) (by simp [credit])
  simp [History.netEffect, History.effectOf, debits, credits, TimeOffRequest.posting,
    OutboxType.signed]

/-- A request whose debit and credit were applied has cost nothing. -/
theorem Posted.netEffect_refunded (posted : system.Posted) (honest : Honest system.hcm)
    (found : system.service.store.requests.find request.id = some request)
    (debit : (system.hcm.applied.find (debitKey request.id)).isSome = true)
    (credit : (system.hcm.applied.find (creditKey request.id)).isSome = true) :
    system.history.netEffect request.id = 0 ∧
      (system.history.changesBy (debitKey request.id)).length ≤ 1 ∧
      (system.history.changesBy (creditKey request.id)).length =
        (system.history.changesBy (debitKey request.id)).length := by
  -- The two postings cancel each other.
  obtain ⟨entry, acknowledged⟩ := Option.isSome_iff_exists.mp debit
  obtain ⟨other, credited⟩ := Option.isSome_iff_exists.mp credit
  have debits : system.history.changesBy (OutboxType.debit.key request.id) = _ :=
    changes_of_acknowledged posted honest found acknowledged
  rw [OutboxType.key] at debits
  have credits : system.history.changesBy (OutboxType.credit.key request.id) = _ :=
    changes_of_acknowledged posted honest found credited
  rw [OutboxType.key] at credits
  simp [History.netEffect, History.effectOf, debits, credits, TimeOffRequest.posting,
    OutboxType.signed]

/-- Unless it is stranded, a request settles. -/
theorem settles_of_not_stranded (posted : system.Posted) (honest : Honest system.hcm)
    (found : system.service.store.requests.find request.id = some request) {progress : Progress}
    (shown : (system.service.store.dossier request.id).Shows progress)
    (coupled : Coupled system.hcm.applied request.id progress)
    (free : ¬system.Stranded request.id) : system.Settles request := by
  have status := shown.status_eq found
  have undebited : ¬progress.sent .debit → system.hcm.applied.find (debitKey request.id) = none :=
    coupled.unsent .debit
  have uncredited : ¬progress.sent .credit →
      system.hcm.applied.find (creditKey request.id) = none := coupled.unsent .credit
  -- A dropped request that is not stranded has no debit applied.
  have stuck (dropped : progress.dropped) :
      system.hcm.applied.find (debitKey request.id) = none :=
    Option.not_isSome_iff_eq_none.mp fun applied => free ⟨⟨progress, shown, dropped⟩, applied⟩
  -- A debit whose version is recorded was applied.
  have debited {version : Int} (stamped : progress.debitVersion = some version) :
      (system.hcm.applied.find (debitKey request.id)).isSome = true := by
    obtain ⟨entry, found, _⟩ := coupled.debited version stamped
    exact Option.isSome_iff_exists.mpr ⟨entry, found⟩
  refine ⟨fun ended => ?_, fun committed => ?_, fun ended entry member active => ?_⟩
  · cases progress with
    | unknown => cases status
    | draft | withdrawn | held | rejected | released | failed =>
      exact posted.netEffect_eq_zero (undebited id) (uncredited id)
    | abandoned debit => exact posted.netEffect_eq_zero (stuck trivial) (uncredited id)
    | overtaken version absorbed =>
      have applied := debited rfl
      simp [stuck trivial] at applied
    | refunded version absorbed =>
      exact posted.netEffect_refunded honest found (debited rfl)
        (coupled.credited version absorbed rfl)
    | approved debit | committed version absorbed | cancelling version absorbed credit =>
      simp [← Option.some.inj status] at ended
  · obtain ⟨version, absorbed, rfl⟩ := Progress.eq_committed (status.trans (congrArg _ committed))
    exact posted.netEffect_eq_days honest found (debited rfl) (uncredited id)
  · have listed := shown.entry_mem member
    rw [BalanceLedgerEntry.view, active] at listed
    cases progress with
    | overtaken version absorbed =>
      have applied := debited rfl
      simp [stuck trivial] at applied
    | refunded version absorbed => cases absorbed <;> simp [Progress.entries] at listed
    | unknown | draft | withdrawn | rejected | released | failed | abandoned =>
      simp [Progress.entries] at listed
    | held | approved debit | committed version absorbed | cancelling version absorbed credit =>
      simp [← Option.some.inj status] at ended

/-- A stranded request is stored, and does not settle. -/
theorem Stranded.not_settles {id : String} (stranded : system.Stranded id) (posted : system.Posted)
    (honest : Honest system.hcm)
    (coupled : ∀ progress, (system.service.store.dossier id).Shows progress →
      Coupled system.hcm.applied id progress) :
    ∃ request, system.service.store.requests.find id = some request ∧ ¬system.Settles request := by
  obtain ⟨⟨progress, shown, dropped⟩, applied⟩ := stranded
  obtain ⟨request, found, cancelled⟩ := Option.map_eq_some_iff.mp
    (shown.status.trans (Progress.status_of_dropped dropped))
  have found : system.service.store.requests.find id = some request := found
  obtain rfl := Table.key_of_find found
  refine ⟨request, found, fun settles => ?_⟩
  -- Its debit was applied and nothing credits it back.
  have effect := posted.netEffect_eq_days honest found applied
    ((coupled progress shown).unsent .credit (Progress.not_sent_credit dropped))
  have free := (settles.free (by simp [cancelled])).1
  have positive : 0 < request.days := by
    refine Store.positive_of_entries shown found fun empty => ?_
    cases progress with
    | abandoned debit => cases empty
    | overtaken version absorbed => cases empty
    | _ => exact dropped
  omega

/--
After a run without ghost successes every request has settled, whether or not messages are still on
their way, if and only if every step of the run was careful.
-/
theorem settles_iff_careful {taken : List (System × Action)} {final : System}
    (trace : System.Trace taken final)
    (real : ∀ before action, (before, action) ∈ taken → before.WithoutGhosts action) :
    (∀ id request, final.service.store.requests.find id = some request → final.Settles request) ↔
      ∀ before action, (before, action) ∈ taken → before.Careful action := by
  -- A run is careful where nothing is stranded, and a request settles where it is not.
  have reached : System.Reachable WithoutGhosts final := Runs.Trace.reachable trace real
  have coherent := (System.Reachable.service reached).coherent
  have posted := System.Reachable.posted reached
  have linked := System.Reachable.linked reached
  have honest := honest_of_reachable reached
  rw [← stranded_iff trace]
  constructor
  · intro settles id stranded
    obtain ⟨request, found, unsettled⟩ :=
      stranded.not_settles posted honest (linked.coupled id)
    exact unsettled (settles id request found)
  · intro free id request found
    obtain rfl := Table.key_of_find found
    obtain ⟨progress, shown⟩ := coherent.shown request.id
    exact settles_of_not_stranded posted honest found shown
      (linked.coupled _ progress shown) (free request.id)

/-- No message is waiting to be delivered, being delivered, or waiting to be retried. -/
def Quiet (system : System) : Prop :=
  ∀ msg ∈ system.service.store.outbox.rows,
    msg.status ≠ .pending ∧ msg.status ≠ .inflight ∧ msg.status ≠ .failed

/-- Three days are approved, claimed, given up, and then taken all the same. -/
def strandingRun : List Action :=
  [.seed "e" "l" 10 0, .readBalance "e" "l" 0, .insertBalance 0,
    .operate (.create "r" ⟨"e", "l", "2025-01-06", "2025-01-08", 3, none, true⟩ none),
    .operate (.submit "r" "hold"), .operate (.approve "r" "debit" 0), .operate (.drain 0),
    .operate (.cancel "r" "credit" 1), .deliver .answered 2,
    .operate (.record "commit" "drift" 3)]

/-- At the end of that run nothing is on its way, and the cancelled request has cost three days. -/
theorem strandingRun_costs :
    ¬∀ system, System.Reachable WithoutGhosts system → system.Quiet →
      ∀ id request, system.service.store.requests.find id = some request →
        system.Settles request := by
  intro settles
  -- The cancellation comes between the claim of the debit and its delivery.
  have executed : (run WithoutGhosts strandingRun).map (fun system =>
      (system.service.store.outbox.rows.all fun msg =>
        msg.status ≠ .pending ∧ msg.status ≠ .inflight ∧ msg.status ≠ .failed) &&
      (system.service.store.requests.find "r").any fun request =>
        request.status = .cancelled ∧ system.history.netEffect request.id = -3) = some true := by
    decide +kernel
  obtain ⟨system, reached, ended⟩ := exists_reachable_of_run executed
  simp only [Bool.and_eq_true, List.all_eq_true, decide_eq_true_eq, Option.any_eq_true] at ended
  obtain ⟨quiet, request, found, cancelled, effect⟩ := ended
  have free := ((settles system reached quiet "r" request found).free (by simp [cancelled])).1
  omega

/-- The equivalence holds of that run, whose cancellation precedes the delivery. -/
theorem settles_iff_careful_stranding : ∃ taken final, System.Trace taken final ∧
    taken.map Prod.snd = strandingRun ∧
      ((∀ id request, final.service.store.requests.find id = some request →
          final.Settles request) ↔
        ∀ before action, (before, action) ∈ taken → before.Careful action) := by
  have executed : (run (fun _ _ => True) strandingRun).isSome = true := by decide +kernel
  obtain ⟨taken, final, trace, same⟩ := exists_trace_of_run executed
  refine ⟨taken, final, trace, same, settles_iff_careful trace fun before action member => ?_⟩
  -- No step of the run configures a fault.
  have listed : action ∈ strandingRun := same ▸ List.mem_map_of_mem member
  simp only [strandingRun, List.mem_cons, List.not_mem_nil, or_false] at listed
  rcases listed with rfl | rfl | rfl | rfl | rfl | rfl | rfl | rfl | rfl | rfl <;> exact trivial

end System

end TimeOff
