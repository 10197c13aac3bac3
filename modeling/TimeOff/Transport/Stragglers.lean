import TimeOff.Lifecycle.Correspondence
import TimeOff.Transport.Propagation

/-!
Requests that arrive after their callers have given them up.

A refused debit can still be applied later, but only by such a request.
-/

namespace TimeOff

/-- A request fails when it hears that its debit was refused. -/
theorem Progress.failed_of_next {progress : Progress} {event : Event}
    (moves : progress.next event = some .failed) :
    progress = .failed ∨ event = .refused ∧ progress.delivering = some .debit := by
  -- A failure is written by one move, and snapshots pass it by.
  generalize target : Progress.failed = reached at moves
  cases steps_of_next moves with
  | fail => exact Or.inr ⟨rfl, rfl⟩
  | absorb progress snapshot =>
    cases progress with
    | failed => exact Or.inl rfl
    | _ => cases target
  | _ => cases target

namespace HcmCore

/-- A delta is served as it is applied in the process itself. -/
theorem serve_applyDelta (core : HcmCore) (now : Time) (cmd : ApplyDeltaCommand) :
    core.serve now (.applyDelta cmd) =
      ((core.applyDelta now cmd).1, (core.applyDelta now cmd).2.map .ack) := rfl

/-- A delta that is refused leaves its key unused. -/
theorem unused_of_refusal {core after : HcmCore} {now : Time} {cmd : ApplyDeltaCommand}
    {error : HcmError} (refused : core.serve now (.applyDelta cmd) = (after, .error error))
    (ack : ApplyDeltaAck) : ¬after.Acknowledged cmd.idempotencyKey ack := by
  -- An error writes no acknowledgement, and the key had none.
  rintro ⟨entry, found, _⟩
  have outcome := core.applyDelta_outcome now cmd
  rw [serve_applyDelta] at refused
  generalize core.applyDelta now cmd = done at outcome refused
  obtain ⟨left, result⟩ := done
  cases result with
  | ok given => cases refused
  | error thrown =>
    cases refused
    cases (outcome.unused rfl).1.symm.trans found

end HcmCore

namespace Exchange

variable {before after : Exchange} {action : ExchangeAction} {index : Nat} {made : HttpCall}

/-- Whoever waits after a step has waited before, or calls now. -/
theorem unanswered_of_step (taken : before.step action = some after)
    (found : after.calls[index]? = some made) (unanswered : made.answered = none) :
    (∃ old, before.calls[index]? = some old ∧ old.call = made.call ∧ old.answered = none) ∨
      index = before.calls.length ∧ ∃ now, action = .call made.call now := by
  cases step_effect taken with
  | calls new now called _ grown =>
    rw [grown] at found
    -- The call that is made now is the last one.
    by_cases old : index < before.calls.length
    · exact Or.inl ⟨made, List.getElem?_append_left old ▸ found, rfl, unanswered⟩
    · have bound := (List.getElem?_eq_some_iff.mp found).1
      rw [List.length_append, List.length_singleton] at bound
      rw [List.getElem?_append_right (Nat.le_of_not_lt old)] at found
      have last := List.mem_singleton.mp (List.mem_of_getElem? found)
      exact Or.inr ⟨by omega, now, last ▸ called⟩
  | serves number own _ stored _ rewritten =>
    rcases rewritten_cases stored (rewritten ▸ found) with ⟨rfl, rfl⟩ | same
    · exact Or.inl ⟨own, stored, rfl, unanswered⟩
    · exact Or.inl ⟨made, same, rfl, unanswered⟩
  | rewrites number own _ stored call _ told rewritten =>
    rcases rewritten_cases stored (rewritten ▸ found) with ⟨rfl, rfl⟩ | same
    · -- Who was told something does not wait any more.
      rcases told with ⟨_, heard⟩ | kept
      · simp [unanswered] at heard
      · exact Or.inl ⟨own, stored, call.symm, kept.symm.trans unanswered⟩
    · exact Or.inl ⟨made, same, rfl, unanswered⟩
  | controls _ _ _ same => exact Or.inl ⟨made, same ▸ found, rfl, unanswered⟩

/-- What is acknowledged after a step was so before, or is the call that the step serves. -/
theorem acknowledged_of_step (kept : before.WithoutReset action)
    (taken : before.step action = some after) {K : String} {ack : ApplyDeltaAck}
    (known : after.core.Acknowledged K ack) :
    before.core.Acknowledged K ack ∨ ∃ made ∈ after.calls, ∃ cmd given,
      made.call = .applyDelta cmd ∧ cmd.idempotencyKey = K ∧
        made.served = some (.ok (.ack given)) := by
  -- A call with another key, or with none, leaves what is remembered under this one.
  have spared {call : HcmCall} (moved : after.core = (before.core.call call).1)
      (other : call.deltaKey ≠ some K) : before.core.Acknowledged K ack := by
    rwa [moved, HcmCore.Acknowledged, HcmCore.find_applied_other other] at known
  cases step_effect taken with
  | calls _ _ _ _ _ same | rewrites _ _ _ _ _ _ _ _ same => exact Or.inl (same ▸ known)
  | serves index made now found _ rewritten core =>
    by_cases own : (made.call.asCall now).deltaKey = some K
    · cases called : made.call with
      | getBalance =>
        rw [called] at own
        cases own
      | applyDelta cmd =>
        rw [called] at own core rewritten
        obtain rfl : cmd.idempotencyKey = K := Option.some.inj own
        cases returned : (before.core.applyDelta now cmd).2 with
        | error error =>
          have refused : before.core.serve now (.applyDelta cmd) = (after.core, .error error) := by
            rw [core, HcmCore.serve_applyDelta, returned]
            rfl
          exact absurd known (HcmCore.unused_of_refusal refused ack)
        | ok given =>
          have bound := (List.getElem?_eq_some_iff.mp found).1
          refine Or.inr ⟨{ made with call := .applyDelta cmd, served := some (.ok (.ack given)) },
            ?_, cmd, given, rfl, rfl, rfl⟩
          rw [rewritten, HcmCore.serve_applyDelta, returned]
          exact List.mem_of_getElem? (List.getElem?_set_self bound)
    · exact Or.inl (spared (core.trans (before.core.serve_asCall now made.call)) own)
  | controls control now named _ controlled =>
    subst named
    cases control with
    | reset => exact absurd kept id
    | faults | seed | adjust =>
      have moved := controlled.trans (before.core.control_asCall rfl)
      exact Or.inl (spared moved fun same => by cases same)

end Exchange

namespace Deployment

variable {before after deployment : Deployment} {action : DeploymentAction} {K : String}

/-- A call whose caller was told a transient failure, or has ended without being told anything. -/
def GivenUp (deployment : Deployment) (index : Nat) (made : HttpCall) : Prop :=
  (∃ message, made.answered = some (.error (.unavailable message))) ∨ index < deployment.orphaned

/-- Only calls that were given up have been acknowledged under a key. -/
def OnlyLate (deployment : Deployment) (K : String) : Prop :=
  ∀ index made cmd ack, deployment.exchange.calls[index]? = some made →
    made.call = .applyDelta cmd → cmd.idempotencyKey = K →
    made.served = some (.ok (.ack ack)) → deployment.GivenUp index made

/-- A key stays one of late calls when nobody awaits the call that is acknowledged. -/
theorem OnlyLate.exchanged (only : before.OnlyLate K) {start : HcmCore}
    {results : List ServedCall} (linear : Exchange.Linear start before.exchange results)
    {exchangeAction : ExchangeAction}
    (taken : before.exchange.step exchangeAction = some after.exchange)
    (orphaned : after.orphaned = before.orphaned)
    (late : ∀ index old cmd later ack, before.exchange.calls[index]? = some old →
      old.call = .applyDelta cmd → cmd.idempotencyKey = K → old.served = none →
      old.answered = none → after.exchange.calls[index]? = some later →
      later.served = some (.ok (.ack ack)) → index < before.orphaned) : after.OnlyLate K := by
  intro index made cmd ack found called key served
  obtain ⟨old, stored, same, told, earlier | ⟨unserved, _⟩⟩ :=
    Exchange.served_of_step taken found served
  · -- What was given up before is so still.
    rcases only index old cmd ack stored (same.trans called) key earlier with
      ⟨message, failed⟩ | ended
    · rcases told with waits | kept
      · cases waits.symm.trans failed
      · exact Or.inl ⟨message, kept ▸ failed⟩
    · exact Or.inr (orphaned ▸ ended)
  · cases answered : old.answered with
    | none =>
      exact Or.inr (orphaned ▸
        late index old cmd made ack stored (same.trans called) key unserved answered found served)
    | some answer =>
      have faithful := linear.faithful old (List.mem_of_getElem? stored)
      have leads := congrArg HcmRequest.route (same.trans called)
      have kept : made.answered = some answer := by
        rcases told with waits | kept
        · cases answered.symm.trans waits
        · exact kept ▸ answered
      -- An answer and a refusal come from the server, which has not seen this call before.
      cases answer with
      | ok value => cases unserved.symm.trans (faithful.done leads answered)
      | error error =>
        cases error with
        | rejection code message =>
          obtain ⟨_, _, served⟩ := faithful.refused leads answered
          cases unserved.symm.trans served
        | unavailable message => exact Or.inl ⟨message, kept⟩

/-- A key stays one of late calls while the calls stay. -/
theorem OnlyLate.kept (only : before.OnlyLate K)
    (calls : after.exchange.calls = before.exchange.calls)
    (orphaned : ∀ index < before.exchange.calls.length, index < before.orphaned →
      index < after.orphaned) : after.OnlyLate K := by
  -- The calls are the same ones, and those that have ended stay so.
  intro index made cmd ack found called key served
  rw [calls] at found
  refine (only index made cmd ack found called key served).imp id fun ended => ?_
  exact orphaned index (List.getElem?_eq_some_iff.mp found).1 ended

/-- A refused debit was applied by nothing but calls that were given up. -/
structure Resolved (deployment : Deployment) : Prop where
  -- Of all deliveries the processor awaits one at a time.
  single : ∀ index made cmd, deployment.exchange.calls[index]? = some made →
    made.call = .applyDelta cmd → made.answered = none →
      deployment.awaited = some index ∨ index < deployment.orphaned
  failed : ∀ id, (deployment.service.store.dossier id).Shows .failed →
    deployment.OnlyLate (debitKey id)
  refused : ∀ msg message,
    deployment.service.processor.attempted = some (msg, .refused message) →
      deployment.OnlyLate msg.idempotencyKey
  declined : ∀ index made cmd code message, deployment.awaited = some index →
    deployment.exchange.calls[index]? = some made → made.call = .applyDelta cmd →
    made.served = some (.error (.rejection code message)) →
      deployment.OnlyLate cmd.idempotencyKey
  -- What the server has acknowledged it was asked.
  known : ∀ K ack, deployment.exchange.core.Acknowledged K ack →
    ∃ made ∈ deployment.exchange.calls, ∃ cmd given, made.call = .applyDelta cmd ∧
      cmd.idempotencyKey = K ∧ made.served = some (.ok (.ack given))

/-- Nothing of a failed request is awaited. -/
theorem Linked.not_awaited (linked : deployment.Linked) {id : String}
    (shown : (deployment.service.store.dossier id).Shows .failed) {index : Nat} {made : HttpCall}
    {cmd : ApplyDeltaCommand} (awaited : deployment.awaited = some index)
    (found : deployment.exchange.calls[index]? = some made) (called : made.call = .applyDelta cmd)
    (key : cmd.idempotencyKey = debitKey id) : False := by
  obtain ⟨msg, rest, own, due, _, stored, named⟩ := linked.awaits index awaited
  cases found.symm.trans stored
  cases called.symm.trans named
  have held : msg ∈ deployment.service.processor.held := by simp [OutboxProcessor.held, due]
  obtain ⟨request, _, owned⟩ := (linked.coherent.handed held).owned
  obtain ⟨_, same⟩ := OutboxType.key_injective
    (show OutboxType.debit.key id = _ from key.symm.trans owned.key)
  -- A message in the memory of the processor is being delivered, and those of a failure are not.
  have delivering := (linked.coherent.of_held held (owned.owner ▸ same ▸ shown)).1
  cases delivering

/-- While an outcome is recorded, nothing is awaited. -/
theorem Linked.free (linked : deployment.Linked) {msg : OutboxMessage} {attempt : Attempt}
    (attempted : deployment.service.processor.attempted = some (msg, attempt)) :
    deployment.awaited = none := by
  -- A delivery is awaited only before its outcome is known.
  cases awaited : deployment.awaited with
  | none => rfl
  | some index =>
    obtain ⟨_, _, _, _, idle, _⟩ := linked.awaits index awaited
    cases idle.symm.trans attempted

/-- A step of the client, the network or the server leaves a failure to late calls. -/
theorem Resolved.exchanged (resolved : before.Resolved) (linked : before.Linked)
    {exchangeAction : ExchangeAction} (kept : before.exchange.WithoutReset exchangeAction)
    (taken : before.exchange.step exchangeAction = some after.exchange)
    (service : after.service = before.service) (orphaned : after.orphaned = before.orphaned)
    (awaited : after.awaited = before.awaited ∨
      before.awaited = none ∧ after.awaited = some before.exchange.calls.length)
    (sends : ∀ cmd now, exchangeAction = .call (.applyDelta cmd) now →
      after.awaited = some before.exchange.calls.length) : after.Resolved := by
  obtain ⟨_, linear⟩ := linked.linear
  have remembers := Exchange.step_remembers linked.remembers kept taken
  -- Where nobody awaits a call that is acknowledged now, its caller has ended.
  have late {K : String} (only : before.OnlyLate K)
      (unawaited : ∀ index old cmd later ack, before.awaited = some index →
        before.exchange.calls[index]? = some old → old.call = .applyDelta cmd →
        cmd.idempotencyKey = K → after.exchange.calls[index]? = some later →
        later.served ≠ some (.ok (.ack ack))) : after.OnlyLate K := by
    refine only.exchanged linear taken orphaned ?_
    intro index old cmd later ack stored called key _ waits found served
    rcases resolved.single index old cmd stored called waits with here | ended
    · exact absurd served (unawaited index old cmd later ack here stored called key found)
    · exact ended
  constructor
  · intro index made cmd found called waits
    -- A call that waits did so before, or is the delivery that is sent now.
    rcases Exchange.unanswered_of_step taken found waits with
      ⟨old, stored, same, still⟩ | ⟨rfl, now, named⟩
    · rcases resolved.single index old cmd stored (same.trans called) still with here | ended
      · rcases awaited with kept | ⟨free, _⟩
        · exact Or.inl (kept.trans here)
        · cases free.symm.trans here
      · exact Or.inr (orphaned ▸ ended)
    · exact Or.inl (sends cmd now (called ▸ named))
  · intro id shown
    rw [service] at shown
    refine late (resolved.failed id shown) ?_
    intro index old cmd later ack here stored called key
    -- The delivery that is awaited is not that of a failed request.
    exact absurd key fun key => linked.not_awaited shown here stored called key
  · intro msg message attempted
    rw [service] at attempted
    refine late (resolved.refused msg message attempted) ?_
    intro index old cmd later ack here
    cases (linked.free attempted).symm.trans here
  · intro index made cmd code message waits found called served
    obtain ⟨old, stored, same, _, earlier | ⟨_, now, answered⟩⟩ :=
      Exchange.served_of_step taken found served
    · -- The refusal was served before, so its call was awaited before.
      have here : before.awaited = some index := by
        rcases awaited with kept | ⟨_, new⟩
        · exact kept ▸ waits
        · cases new.symm.trans waits
          exact absurd (List.getElem?_eq_some_iff.mp stored).1 (Nat.lt_irrefl _)
      refine late (resolved.declined index old cmd code message here stored
        (same.trans called) earlier) ?_
      intro other _ _ later ack there _ _ _ found' acked
      cases here.symm.trans there
      cases found.symm.trans found'
      cases served.symm.trans acked
    · -- A key that is refused now was never acknowledged.
      rw [same, called] at answered
      intro other own cmd' ack there named key acked
      have known := remembers.acknowledged own (List.mem_of_getElem? there) cmd' ack named acked
      exact absurd (key ▸ known) (HcmCore.unused_of_refusal answered ack)
  · intro K ack acknowledged
    -- What is acknowledged now was asked for by the call that is served now.
    rcases Exchange.acknowledged_of_step kept taken acknowledged with earlier | new
    · obtain ⟨made, member, cmd, given, called, key, served⟩ := resolved.known K ack earlier
      obtain ⟨index, found⟩ := List.getElem?_of_mem member
      obtain ⟨later, there, same, still⟩ := Exchange.served_kept taken found served
      exact ⟨later, List.mem_of_getElem? there, cmd, given, same.trans called, key, still⟩
    · exact new

/-- A step of the service fails a request only for a refusal that it was told. -/
theorem Resolved.served (resolved : before.Resolved) (linked : before.Linked)
    {serviceAction : ServiceAction}
    (taken : before.service.step serviceAction = some after.service) {client : HttpHcmClient}
    (exchange : after.exchange = { before.exchange with client })
    (orphaned : ∀ index < before.exchange.calls.length, index < before.orphaned →
      index < after.orphaned)
    (single : ∀ index made cmd, before.exchange.calls[index]? = some made →
      made.call = .applyDelta cmd → made.answered = none → before.awaited = some index →
        after.awaited = some index ∨ index < after.orphaned)
    (awaited : after.awaited = before.awaited ∨ after.awaited = none)
    (heard : ∀ result msg rest message, serviceAction = .answer result →
      before.service.processor.due = msg :: rest → Attempt.ofResult result = .refused message →
        before.OnlyLate msg.idempotencyKey) : after.Resolved := by
  have calls : after.exchange.calls = before.exchange.calls := by rw [exchange]
  constructor
  · intro index made cmd found called waits
    rw [calls] at found
    rcases resolved.single index made cmd found called waits with here | ended
    · exact single index made cmd found called waits here
    · exact Or.inr (orphaned index (List.getElem?_eq_some_iff.mp found).1 ended)
  · intro id reached
    rcases Service.shown_or_heard linked.coherent taken reached with
      shown | ⟨progress, event, shown, caused, moves⟩
    · exact (resolved.failed id shown).kept calls orphaned
    · rcases Progress.failed_of_next moves with rfl | ⟨rfl, delivering⟩
      · exact (resolved.failed id shown).kept calls orphaned
      · -- The refusal is that of the delivery whose outcome is being recorded.
        obtain ⟨msg, message, attempted, rfl⟩ := (Service.event_cause caused).refused
        have held : msg ∈ before.service.processor.held := by
          simp [OutboxProcessor.held, attempted]
        obtain ⟨concerns, request, _, _, own⟩ := linked.coherent.of_held held shown
        have key : msg.idempotencyKey = debitKey msg.requestId := by
          rw [own.key, ← own.owner, Option.some.inj (concerns.symm.trans delivering)]
          rfl
        exact (key ▸ resolved.refused msg message attempted).kept calls orphaned
  · intro msg message attempted
    rcases Service.attempted_of_step taken attempted with
      same | ⟨result, rest, answered, due, refused⟩ | ⟨_, _, _, errored⟩
    · exact (resolved.refused msg message same).kept calls orphaned
    · exact (heard result msg rest message answered due refused.symm).kept calls orphaned
    · cases errored
  · intro index made cmd code message waits found called served
    rcases awaited with kept | free
    · rw [calls] at found
      exact (resolved.declined index made cmd code message (kept ▸ waits) found called
        served).kept calls orphaned
    · cases free.symm.trans waits
  · rw [exchange]
    exact resolved.known

/-- What the processor is refused now, the server has refused. -/
theorem Resolved.heard (resolved : deployment.Resolved) (linked : deployment.Linked) {index : Nat}
    {told : Except HcmError HcmAnswer} {result : Except HcmError ApplyDeltaAck}
    (awaited : deployment.awaited = some index)
    (known : deployment.exchange.told index = some told)
    (acked : HcmAnswer.acked told = some result) {msg : OutboxMessage} {rest : List OutboxMessage}
    {message : String} (due : deployment.service.processor.due = msg :: rest)
    (refused : Attempt.ofResult result = .refused message) :
    deployment.OnlyLate msg.idempotencyKey := by
  obtain ⟨other, _, made, dueToo, _, found, called⟩ := linked.awaits index awaited
  cases due.symm.trans dueToo
  obtain ⟨there, here, answered⟩ := Option.bind_eq_some_iff.mp known
  cases found.symm.trans here
  -- A refusal that is told is one that the server has given, if only by its status.
  have given : ∃ code, told = .error (.rejection code message) := by
    cases told with
    | error error =>
      cases acked
      cases error with
      | rejection code text =>
        cases refused
        exact ⟨code, rfl⟩
      | unavailable text => cases refused
    | ok answer =>
      cases answer with
      | row | corpus => cases acked
      | ack ack =>
        cases acked
        cases refused
  obtain ⟨code, rfl⟩ := given
  obtain ⟨_, linear⟩ := linked.linear
  obtain ⟨own, text, served⟩ := (linear.faithful made (List.mem_of_getElem? found)).refused
    (congrArg HcmRequest.route called) answered
  exact resolved.declined index made msg.command own text awaited found called served

/-- Without a reset, every step leaves a failure to late calls. -/
theorem step_resolved (resolved : before.Resolved) (linked : before.Linked)
    (kept : before.WithoutReset action) (taken : before.step action = some after) :
    after.Resolved := by
  cases step_effect taken with
  | serves serviceAction unheard _ moved exchange awaited orphaned =>
    refine resolved.served linked moved exchange (fun _ _ ended => orphaned ▸ ended)
      (fun _ _ _ _ _ _ here => Or.inl (awaited.trans here)) (Or.inl awaited) ?_
    intro result _ _ _ answered
    exact absurd answered (unheard result)
  | sends msg rest now due idle free moved service awaited orphaned =>
    have permitted : before.exchange.WithoutReset (.call (.applyDelta msg.command) now) := trivial
    exact resolved.exchanged linked permitted moved service orphaned (Or.inr ⟨free, awaited⟩)
      fun _ _ _ => awaited
  | hears index told result awaits known acked moved exchange free orphaned =>
    refine resolved.served linked moved exchange (fun _ _ ended => orphaned ▸ ended) ?_
      (Or.inr free) ?_
    · -- Whoever was told something waits no longer.
      intro other made _ found _ waits here
      cases awaits.symm.trans here
      obtain ⟨_, there, answered⟩ := Option.bind_eq_some_iff.mp known
      cases found.symm.trans there
      cases waits.symm.trans answered
    · intro answer msg rest message same due refused
      cases same
      exact resolved.heard linked awaits known acked due refused
  | asks employeeId locationId now moved service awaited orphaned =>
    have permitted : before.exchange.WithoutReset (.call (.getBalance employeeId locationId) now) :=
      trivial
    exact resolved.exchanged linked permitted moved service orphaned (Or.inl awaited)
      fun _ _ same => by cases same
  | passes exchangeAction silent controls moved service awaited orphaned =>
    have permitted := kept.exchange controls
    exact resolved.exchanged linked permitted moved service orphaned (Or.inl awaited)
      fun cmd now same => absurd same (silent _ now)
  | gives service exchange awaited orphaned =>
    have calls : after.exchange.calls = before.exchange.calls := congrArg Exchange.calls exchange
    -- Nothing that the conditions speak of has changed.
    have late {K : String} (only : before.OnlyLate K) : after.OnlyLate K :=
      only.kept calls fun _ _ ended => orphaned ▸ ended
    constructor
    · rw [calls, awaited, orphaned]
      exact resolved.single
    · rw [service]
      exact fun id shown => late (resolved.failed id shown)
    · rw [service]
      exact fun msg message attempted => late (resolved.refused msg message attempted)
    · rw [calls, awaited]
      exact fun index made cmd code message waits found called served =>
        late (resolved.declined index made cmd code message waits found called served)
    · rw [exchange]
      exact resolved.known
  | crashes client moved exchange free orphaned =>
    refine resolved.served linked moved exchange (fun _ bound _ => orphaned ▸ bound) ?_
      (Or.inr free) fun _ _ _ _ same => by cases same
    intro _ _ _ found _ _ _
    exact Or.inr (orphaned ▸ (List.getElem?_eq_some_iff.mp found).1)

/-- Before the first call nothing was refused. -/
theorem resolved_init (failureThreshold cooldownMs : Option Int) :
    (init failureThreshold cooldownMs).Resolved := by
  -- There is no call, so there is nothing to show of one.
  have uncalled {index : Nat} {made : HttpCall} :
      (init failureThreshold cooldownMs).exchange.calls[index]? ≠ some made := by
    simp [init, Exchange.init]
  refine ⟨fun _ _ _ found => absurd found uncalled, fun _ _ _ _ _ _ found => absurd found uncalled,
    fun _ _ attempted => (by cases attempted), fun _ _ _ _ _ waits => (by cases waits), ?_⟩
  rintro K ack ⟨_, found, _⟩
  cases found

/-- In every state that is reached without a reset, a failure is left to late calls. -/
theorem Reachable.resolved {failureThreshold cooldownMs : Option Int}
    (reached : Deployment.Reachable WithoutReset failureThreshold cooldownMs deployment) :
    deployment.Resolved := by
  -- The links hold along the run, so each step keeps what is resolved.
  induction reached with
  | start => exact resolved_init failureThreshold cooldownMs
  | step earlier kept taken resolved =>
    exact step_resolved resolved (Deployment.Reachable.linked earlier) kept taken

/--
The days of a failed request are gone only where a delivery of its debit was given up.

The caller of every delivery that took them was told of a transient failure, or its process has
ended, and no credit gives them back.
-/
theorem failed_costs_given_up {failureThreshold cooldownMs : Option Int}
    (reached : Deployment.Reachable WithoutReset failureThreshold cooldownMs deployment)
    {id : String} {request : TimeOffRequest}
    (found : deployment.service.store.requests.find id = some request)
    (failed : request.status = .failed) :
    deployment.OnlyLate (debitKey id) ∧
      (deployment.exchange.core.applies (debitKey id) = true → ∃ index made cmd ack,
        deployment.exchange.calls[index]? = some made ∧ made.call = .applyDelta cmd ∧
          cmd.idempotencyKey = debitKey id ∧ made.served = some (.ok (.ack ack)) ∧
            deployment.GivenUp index made) ∧
      ∀ made ∈ deployment.account, ¬HcmCore.Carries (creditKey id) made := by
  obtain rfl := Table.key_of_find found
  have linked := reached.linked
  have resolved := reached.resolved
  obtain ⟨progress, shown⟩ := linked.coherent.shown request.id
  obtain rfl := Progress.eq_failed ((shown.status_eq found).trans (congrArg some failed))
  -- Whatever was acknowledged for the debit was given up.
  have only := resolved.failed request.id shown
  refine ⟨only, fun applied => ?_, fun made member carries => ?_⟩
  · -- What has an effect was acknowledged, and so was asked for by some call.
    obtain ⟨entry, stored, _⟩ := (Option.any_eq_true _ _).mp applied
    obtain ⟨made, member, cmd, ack, called, key, served⟩ :=
      resolved.known (debitKey request.id) entry.ack ⟨entry, stored, rfl⟩
    obtain ⟨index, there⟩ := List.getElem?_of_mem member
    exact ⟨index, made, cmd, ack, there, called, key, served,
      only index made cmd ack there called key served⟩
  · -- A failure hands over no credit.
    have handed : Progress.failed.Handed .credit :=
      linked.handed_of_carries found shown member carries
    rcases handed with sent | ⟨other, _⟩
    · exact sent
    · cases other

/-- A debit times out, is refused when it is sent again, and arrives when there are days again. -/
def failedRun : List DeploymentAction :=
  [.control (.seed "e" "l" 3) 0, .read .firstLoad "e" "l" 0, .arrive 0 0, .respond 0 0,
    .finishRead 0 "unused" 0,
    .operate (.create "r" ⟨"e", "l", "2025-01-06", "2025-01-08", 3, none, true⟩ none),
    .operate (.submit "r" "hold"), .operate (.approve "r" "debit" 0), .operate (.drain 0),
    .deliver 0, .fail 1 "timeout" 5000, .hear, .operate (.record "unused" "drift" 5000),
    .control (.adjust "e" "l" (-1)) 5500, .operate (.drain 6000), .deliver 6000, .arrive 2 6100,
    .respond 2 6200, .hear, .operate (.record "unused" "refusal" 6300),
    .control (.adjust "e" "l" 1) 7000, .arrive 1 9000]

/-- After that run the request has failed, and its days were taken by the late request. -/
theorem failed_costs_given_up_timeout : ∃ deployment request index made cmd ack,
    deployment.service.store.requests.find "r" = some request ∧ request.status = .failed ∧
      deployment.exchange.core.applies (debitKey "r") = true ∧
      deployment.exchange.core.balanceOf (key "e" "l") = 0 ∧
      deployment.exchange.calls[index]? = some made ∧ made.call = .applyDelta cmd ∧
      made.served = some (.ok (.ack ack)) ∧ GivenUp deployment index made := by
  have executed : (Runs.run step (fun deployment action => decide (deployment.WithoutReset action))
      (init none none) failedRun).map (fun deployment =>
        decide ((deployment.service.store.requests.find "r").any fun request =>
          request.status = .failed) &&
          deployment.exchange.core.applies (debitKey "r") &&
          decide (deployment.exchange.core.balanceOf (key "e" "l") = 0)) = some true := by
    decide +kernel
  obtain ⟨deployment, reached, ended⟩ :=
    Runs.exists_reachable_of_run (fun _ _ permitted => of_decide_eq_true permitted) executed
  simp only [Bool.and_eq_true, decide_eq_true_eq] at ended
  obtain ⟨⟨stored, applied⟩, balance⟩ := ended
  obtain ⟨request, found, failed⟩ := (Option.any_eq_true _ _).mp stored
  have failed := of_decide_eq_true failed
  obtain ⟨index, made, cmd, ack, there, called, _, served, late⟩ :=
    (failed_costs_given_up reached found failed).2.1 applied
  exact ⟨deployment, request, index, made, cmd, ack, found, failed, applied, balance, there, called,
    served, late⟩

end Deployment

end TimeOff
