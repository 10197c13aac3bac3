import TimeOff.System.Postings

/-! What the acknowledgements on the other side say about how far a request has come. -/

namespace TimeOff

theorem debitKey_ne_creditKey (left right : String) : debitKey left ≠ creditKey right := by
  intro same
  have letters := congrArg String.toList same
  simp [debitKey, creditKey] at letters

/-- The key of a message names its type and its request. -/
theorem OutboxType.key_injective {left right : OutboxType} {first second : String}
    (same : left.key first = right.key second) : left = right ∧ first = second := by
  -- The two types have different words in front, and the rest is the id.
  cases left with
  | debit =>
    cases right with
    | debit => exact ⟨rfl, by simpa [OutboxType.key, debitKey] using same⟩
    | credit => exact absurd same (debitKey_ne_creditKey first second)
  | credit =>
    cases right with
    | debit => exact absurd same.symm (debitKey_ne_creditKey second first)
    | credit => exact ⟨rfl, by simpa [OutboxType.key, creditKey] using same⟩

namespace Progress

/-- Whether a message of a type may have reached the other side. -/
def sent : OutboxType → Progress → Prop
  | .debit, .unknown | .debit, .draft | .debit, .withdrawn | .debit, .held | .debit, .rejected
  | .debit, .released => False
  -- A refused debit was sent, but never applied.
  | .debit, .failed => False
  | .debit, .approved debit => debit ≠ .pending
  | .debit, _ => True
  | .credit, .cancelling _ _ credit => credit ≠ .pending
  | .credit, .refunded _ _ => True
  | .credit, _ => False

/-- The version the acknowledgement of the debit carried, once it was recorded. -/
def debitVersion : Progress → Option Int
  | .committed version _ | .cancelling version _ _ | .refunded version _ | .overtaken version _ =>
    some version
  | _ => none

variable {progress target : Progress} {event : Event} {type : OutboxType}

/-- What is being delivered may have arrived. -/
theorem sent_of_delivering (delivering : progress.delivering = some type) : progress.sent type := by
  -- A message is delivered from two progresses, or for a credit from one.
  cases type with
  | debit =>
    rcases delivering_debit delivering with rfl | rfl
    · simp [sent]
    · simp [sent]
  | credit =>
    obtain ⟨version, absorbed, rfl⟩ := delivering_credit delivering
    simp [sent]

/-- What was sent stays sent, unless it is a debit that is refused. -/
theorem sent_of_next (moves : progress.next event = some target) (was : progress.sent type) :
    target.sent type ∨ event = .refused ∧ progress.delivering = some type := by
  cases type with
  | debit =>
    -- A debit that is refused counts as never sent.
    cases steps_of_next moves with
    | fail => exact Or.inr ⟨rfl, rfl⟩
    | create | submit | approve | reject | withdraw | release => exact absurd was id
    | postponeApproved parked => cases parked <;> simp [sent]
    | absorb progress snapshot => cases progress <;> exact Or.inl was
    | _ => exact Or.inl (by simp [sent])
  | credit =>
    cases steps_of_next moves with
    | postponeCredit version absorbed parked => cases parked <;> simp [sent]
    | claimCredit | refund | refuseCredit => exact Or.inl (by simp [sent])
    | absorb progress snapshot => cases progress <;> exact Or.inl was
    | _ => exact absurd was id

/-- The version of the debit is written by its acknowledgement and kept. -/
theorem debitVersion_of_next (moves : progress.next event = some target) {version : Int}
    (stamped : target.debitVersion = some version) :
    progress.debitVersion = some version ∨
      event = .acknowledged version ∧ progress.delivering = some .debit := by
  -- Only an acknowledged debit writes a version.
  cases steps_of_next moves with
  | commit acknowledged | overtake acknowledged =>
    exact Or.inr ⟨congrArg _ (Option.some.inj stamped), rfl⟩
  | absorb progress snapshot => exact Or.inl (by cases progress <;> exact stamped)
  | _ => exact Or.inl stamped

/-- A request is refunded by the acknowledgement of its credit. -/
theorem refunded_of_next (moves : progress.next event = some target) {version : Int}
    {absorbed : Bool} (refunded : target = .refunded version absorbed) :
    progress = .refunded version absorbed ∨
      (∃ credited, event = .acknowledged credited) ∧ progress.delivering = some .credit := by
  -- A refund is written once, and a snapshot only absorbs its commit.
  cases steps_of_next moves with
  | refund _ _ credited => exact Or.inr ⟨⟨credited, rfl⟩, rfl⟩
  | absorb progress snapshot =>
    apply Or.inl
    cases progress <;> simp_all [absorb]
  | _ => cases refunded

end Progress

/-- The acknowledgements kept for a request agree with its progress. -/
structure Coupled (applied : Table AppliedEntry.idempotencyKey) (id : String)
    (progress : Progress) : Prop where
  -- What was never sent, or was refused, is not applied.
  unsent : ∀ type, ¬progress.sent type → applied.find (type.key id) = none
  debited : ∀ version, progress.debitVersion = some version →
    ∃ entry, applied.find (debitKey id) = some entry ∧ entry.ack.version = version
  credited : ∀ version absorbed, progress = .refunded version absorbed →
    (applied.find (creditKey id)).isSome = true

namespace Coupled

variable {applied : Table AppliedEntry.idempotencyKey} {id : String} {progress target : Progress}

/-- What a request may hear of its delivery, given the acknowledgements. -/
def Sound (applied : Table AppliedEntry.idempotencyKey) (id : String) (progress : Progress) :
    Event → Prop
  | .acknowledged version => ∀ type, progress.delivering = some type →
      ∃ entry, applied.find (type.key id) = some entry ∧ entry.ack.version = version
  | .refused => ∀ type, progress.delivering = some type → applied.find (type.key id) = none
  | _ => True

/-- A request that hears the truth stays coupled. -/
theorem next {event : Event} (coupled : Coupled applied id progress)
    (moves : progress.next event = some target) (sound : Sound applied id progress event) :
    Coupled applied id target := by
  constructor
  · intro type notSent
    -- What was sent stays sent, unless it is refused, and then nothing was applied.
    by_cases was : progress.sent type
    · rcases Progress.sent_of_next moves was with still | ⟨rfl, delivering⟩
      · exact absurd still notSent
      · exact sound type delivering
    · exact coupled.unsent type was
  · intro version stamped
    rcases Progress.debitVersion_of_next moves stamped with earlier | ⟨rfl, delivering⟩
    · exact coupled.debited version earlier
    · exact sound .debit delivering
  · intro version absorbed refunded
    rcases Progress.refunded_of_next moves refunded with earlier | ⟨⟨credited, rfl⟩, delivering⟩
    · exact coupled.credited version absorbed earlier
    · obtain ⟨entry, found, _⟩ := sound .credit delivering
      exact Option.isSome_iff_exists.mpr ⟨entry, found⟩

/-- An acknowledgement under a key that is being delivered keeps every request coupled. -/
theorem save {entry : AppliedEntry} (coupled : Coupled applied id progress)
    (fresh : applied.find entry.idempotencyKey = none)
    (known : ∀ type, type.key id = entry.idempotencyKey → progress.sent type) :
    Coupled (applied.save entry) id progress := by
  -- The new key is none of those that are found already.
  have kept (k : String) (different : entry.idempotencyKey ≠ k) :
      (applied.save entry).find k = applied.find k := by
    rw [Table.find_save, if_neg different]
  constructor
  · intro type notSent
    rw [kept _ fun same => notSent (known type same.symm)]
    exact coupled.unsent type notSent
  · intro version stamped
    obtain ⟨old, found, same⟩ := coupled.debited version stamped
    refine ⟨old, ?_, same⟩
    rw [kept]
    · exact found
    · intro taken
      simp [← taken, fresh] at found
  · intro version absorbed refunded
    have found := coupled.credited version absorbed refunded
    rw [kept]
    · exact found
    · intro taken
      simp [← taken, fresh] at found

end Coupled

namespace HcmCore

/-- An adjustment acknowledges nothing. -/
theorem applied_adjust {core after : HcmCore} {now : Time} {employeeId locationId : String}
    {delta : Int} {row : HcmBalanceRow}
    (adjusted : core.adjust now employeeId locationId delta = .ok (after, row)) :
    after.applied = core.applied := by
  obtain ⟨_, _, _, _, _, rfl⟩ := adjust_ok adjusted
  rfl

/-- A read acknowledges nothing. -/
theorem applied_getBalance {core after : HcmCore} {now : Time} {employeeId locationId : String}
    {row : HcmBalanceRow}
    (answered : core.getBalance now employeeId locationId = .ok (after, row)) :
    after.applied = core.applied := by
  -- A read may create a row, and nothing else.
  rcases getBalance_ok answered with ⟨_, rfl⟩ | ⟨_, created⟩
  · rfl
  · cases created
    rfl

end HcmCore

namespace System

variable {before after : System} {action : Action}

/-- A step acknowledges nothing, or is the delivery of a message that arrives. -/
theorem arrival_of_step (taken : before.step action = some after) :
    (after.hcm.applied = before.hcm.applied ∧
        ∀ fate now, action = .deliver fate now → fate = .requestLost) ∨
      ∃ msg rest fate now, action = .deliver fate now ∧ fate ≠ .requestLost ∧
        before.service.processor.due = msg :: rest ∧
        before.service.processor.attempted = none ∧
        after.hcm = (before.hcm.applyDelta now msg.command).1 := by
  -- Of the calls to the other side, only a delivery leaves an acknowledgement.
  cases step_effect taken with
  | delivers msg rest fate now heard same due idle relayed _ hcm =>
    refine Or.inr ⟨msg, rest, fate, now, same, ?_, due, idle, hcm⟩
    rcases relayed with ⟨rfl, _⟩ | ⟨rfl, _⟩ <;> simp
  | operates _ same _ hcm => exact Or.inl ⟨by rw [hcm], by simp [same]⟩
  | loses _ same _ hcm => exact Or.inl ⟨by rw [hcm], by simp [same]⟩
  | reads _ _ _ _ answered _ same =>
    refine Or.inl ⟨HcmCore.applied_getBalance answered, ?_⟩
    rcases same with ⟨same, _⟩ | ⟨same, _⟩ <;> simp [same]
  | inserts _ _ same _ _ hcm => exact Or.inl ⟨by rw [hcm], by simp [same]⟩
  | reconciles _ _ _ same _ _ hcm =>
    refine Or.inl ⟨by rw [hcm], ?_⟩
    rcases same with ⟨_, same⟩ | ⟨_, same⟩ <;> simp [same]
  | crashes same _ hcm => exact Or.inl ⟨by rw [hcm], by simp [same]⟩
  | seeds _ _ _ _ same hcm => exact Or.inl ⟨by rw [hcm]; rfl, by simp [same]⟩
  | adjusts _ _ _ _ _ same adjusted =>
    exact Or.inl ⟨HcmCore.applied_adjust adjusted, by simp [same]⟩
  | configures _ same hcm => exact Or.inl ⟨by rw [hcm]; rfl, by simp [same]⟩

/-- What is read off the acknowledgements only changes when a message arrives that adds to it. -/
theorem acknowledged_step (taken : before.step action = some after) (seen : HcmCore → Prop)
    {adds : OutboxMessage → Prop}
    (reads : ∀ left right : HcmCore, left.applied = right.applied → (seen left ↔ seen right))
    (delivered : ∀ now msg,
      seen (before.hcm.applyDelta now msg.command).1 ↔ seen before.hcm ∨ adds msg) :
    seen after.hcm ↔ seen before.hcm ∨
      ∃ msg rest fate now, action = .deliver fate now ∧ fate ≠ .requestLost ∧
        before.service.processor.due = msg :: rest ∧ adds msg := by
  rcases arrival_of_step taken with ⟨applied, other⟩ |
    ⟨msg, rest, fate, now, same, arrived, due, _, hcm⟩
  · rw [reads _ _ applied]
    refine ⟨Or.inl, ?_⟩
    intro either
    rcases either with old | ⟨_, _, fate, now, same, arrived, _⟩
    · exact old
    · exact absurd (other fate now same) arrived
  · -- The delivered message is the only one that may add something.
    rw [hcm, delivered]
    refine or_congr Iff.rfl ⟨?_, ?_⟩
    · intro given
      exact ⟨msg, rest, fate, now, same, arrived, due, given⟩
    · intro given
      obtain ⟨other, _, _, _, _, _, dueToo, given⟩ := given
      rw [due] at dueToo
      cases dueToo
      exact given

/-- An acknowledgement is kept for good. -/
theorem applied_kept (taken : before.step action = some after) {k : String} {entry : AppliedEntry}
    (found : before.hcm.applied.find k = some entry) : after.hcm.applied.find k = some entry := by
  -- Only a delivery adds an acknowledgement, and it never replaces one.
  rcases arrival_of_step taken with ⟨same, _⟩ | ⟨msg, _, _, now, _, _, _, _, hcm⟩
  · rwa [same]
  · rw [hcm]
    exact (before.hcm.applyDelta_answer now msg.command).kept found

/-- What the processor was answered repeats what is remembered on the other side. -/
def Answered (system : System) : Prop :=
  ∀ msg ack, system.service.processor.attempted = some (msg, .acked ack) →
    ∃ entry, system.hcm.applied.find msg.idempotencyKey = some entry ∧
      ack = { entry.ack with replayed := ack.replayed }

/-- An acknowledgement that is answered is remembered, the first time and ever after. -/
theorem answer_ok {core : HcmCore} {cmd : ApplyDeltaCommand} {now : Time} {ack : ApplyDeltaAck}
    (answered : (core.applyDelta now cmd).2 = .ok ack) :
    ∃ entry, (core.applyDelta now cmd).1.applied.find cmd.idempotencyKey = some entry ∧
      ack = { entry.ack with replayed := ack.replayed } := by
  -- A repeated answer differs from the first one by its flag only.
  have answer := core.applyDelta_answer now cmd
  rw [answered] at answer
  cases answer with
  | repeated prior known same _ => exact ⟨prior, same ▸ known, rfl⟩
  | given ack unused same _ _ _ => exact ⟨_, same ▸ Table.find_save_self _ _, rfl⟩

/-- Without an answer that arrives, what the processor has heard it has heard before. -/
theorem attempted_of_unheard {serviceAction : ServiceAction} {msg : OutboxMessage}
    {ack : ApplyDeltaAck} (moved : before.service.step serviceAction = some after.service)
    (attempted : after.service.processor.attempted = some (msg, .acked ack))
    (unheard : ∀ ack, serviceAction ≠ .answer (.ok ack)) :
    before.service.processor.attempted = some (msg, .acked ack) := by
  -- An acknowledged attempt was there before, or was just answered with one.
  rcases Service.attempted_of_step moved attempted with
    same | ⟨result, _, answered, _, heard⟩ | ⟨_, _, _, heard⟩
  · exact same
  · cases result with
    | ok ack => exact absurd answered (unheard ack)
    | error error => cases error <;> cases heard
  · cases heard

/-- Every step keeps the answers what is remembered. -/
theorem step_answered (answered : before.Answered) (taken : before.step action = some after) :
    after.Answered := by
  intro msg ack attempted
  have kept (same : before.service.processor.attempted = some (msg, .acked ack)) :
      ∃ entry, after.hcm.applied.find msg.idempotencyKey = some entry ∧
        ack = { entry.ack with replayed := ack.replayed } := by
    obtain ⟨entry, found, repeats⟩ := answered msg ack same
    exact ⟨entry, applied_kept taken found, repeats⟩
  -- Only a delivery lets the processor hear anything new.
  cases step_effect taken with
  | operates _ _ moved => exact kept (attempted_of_unheard moved attempted (by simp))
  | loses _ _ moved => exact kept (attempted_of_unheard moved attempted (by simp))
  | inserts _ _ _ _ moved => exact kept (attempted_of_unheard moved attempted (by simp))
  | reconciles _ _ _ _ _ moved => exact kept (attempted_of_unheard moved attempted (by simp))
  | crashes _ moved => exact kept (attempted_of_unheard moved attempted (by simp))
  | reads _ _ _ _ _ same => exact kept (same ▸ attempted)
  | seeds _ _ _ _ _ _ same => exact kept (same ▸ attempted)
  | adjusts _ _ _ _ _ _ _ same => exact kept (same ▸ attempted)
  | configures _ _ _ same => exact kept (same ▸ attempted)
  | delivers other rest fate now heard _ due idle relayed moved hcm =>
    rcases Service.attempted_of_step moved attempted with
      same | ⟨result, _, answered, dueToo, acked⟩ | ⟨_, _, same, _⟩
    · simp [idle] at same
    · obtain rfl := ServiceAction.answer.inj answered
      rw [due] at dueToo
      cases dueToo
      rcases relayed with ⟨_, rfl⟩ | ⟨_, rfl⟩
      · cases result : (before.hcm.applyDelta now msg.command).2 with
        | ok given =>
          rw [result] at acked
          cases acked
          rw [hcm]
          exact answer_ok result
        | error error =>
          rw [result] at acked
          cases error <;> cases acked
      · -- A lost answer is heard as an error.
        cases acked
    · simp [idle] at same

/-- In every reachable state the answers are what is remembered. -/
theorem Reachable.answered {allowed : System → Action → Prop} {system : System}
    (reached : System.Reachable allowed system) : system.Answered :=
  Runs.Reachable.invariant (fun _ _ attempted => nomatch attempted)
    (fun _ _ _ _ answered _ taken => step_answered answered taken) reached

/-- The acknowledgements agree with every request, and with what the processor has heard. -/
structure Linked (system : System) : Prop where
  coupled : ∀ id progress, (system.service.store.dossier id).Shows progress →
    Coupled system.hcm.applied id progress
  acked : ∀ msg ack, system.service.processor.attempted = some (msg, .acked ack) →
    ∃ entry, system.hcm.applied.find msg.idempotencyKey = some entry ∧
      entry.ack.version = ack.version
  refused : ∀ msg message, system.service.processor.attempted = some (msg, .refused message) →
    system.hcm.applied.find msg.idempotencyKey = none

/-- What was answered carries the version that is remembered. -/
theorem Answered.acked {system : System} (answered : system.Answered) {msg : OutboxMessage}
    {ack : ApplyDeltaAck}
    (attempted : system.service.processor.attempted = some (msg, .acked ack)) :
    ∃ entry, system.hcm.applied.find msg.idempotencyKey = some entry ∧
      entry.ack.version = ack.version := by
  obtain ⟨entry, found, repeats⟩ := answered msg ack attempted
  exact ⟨entry, found, (congrArg ApplyDeltaAck.version repeats).symm⟩

/-- What is recorded of a delivery is what the other side answered. -/
theorem Linked.sound (linked : before.Linked) (coherent : before.service.Coherent)
    {serviceAction : ServiceAction} {id : String} {progress : Progress} {event : Event}
    (shown : (before.service.store.dossier id).Shows progress)
    (heard : before.service.event id serviceAction = some event) :
    Coupled.Sound before.hcm.applied id progress event := by
  cases event with
  | acknowledged version =>
    intro type delivering
    obtain ⟨msg, ack, _, _, _, _, attempted, rfl, rfl⟩ := (Service.event_cause heard).acknowledged
    have held : msg ∈ before.service.processor.held := by simp [OutboxProcessor.held, attempted]
    obtain ⟨concerns, request, _, _, own⟩ := coherent.of_held held shown
    obtain rfl := Option.some.inj (concerns.symm.trans delivering)
    -- The message names the request, so its key is the one that is looked up.
    have key := own.key
    rw [← own.owner] at key
    exact key ▸ linked.acked msg ack attempted
  | refused =>
    intro type delivering
    obtain ⟨msg, message, attempted, rfl⟩ := (Service.event_cause heard).refused
    have held : msg ∈ before.service.processor.held := by simp [OutboxProcessor.held, attempted]
    obtain ⟨concerns, request, _, _, own⟩ := coherent.of_held held shown
    obtain rfl := Option.some.inj (concerns.symm.trans delivering)
    have key := own.key
    rw [← own.owner] at key
    exact key ▸ linked.refused msg message attempted
  | _ => trivial

/-- A step of the service that is not an answer keeps it linked. -/
theorem Linked.served (linked : before.Linked) (answered : after.Answered)
    (coherent : before.service.Coherent) {serviceAction : ServiceAction}
    (taken : before.service.step serviceAction = some after.service)
    (applied : after.hcm.applied = before.hcm.applied)
    (unheard : ∀ result, serviceAction = .answer result → ∃ message,
      result = .error (.unavailable message)) : after.Linked := by
  constructor
  · intro id target reached
    rw [applied]
    -- A request that hears nothing stays as it is.
    rcases Service.shown_or_heard coherent taken reached with
      kept | ⟨progress, event, shown, heard, moves⟩
    · exact linked.coupled id target kept
    · exact (linked.coupled id progress shown).next moves (linked.sound coherent shown heard)
  · exact fun msg ack attempted => answered.acked attempted
  · intro msg message attempted
    rw [applied]
    rcases Service.attempted_of_step taken attempted with
      same | ⟨result, _, answered, _, heard⟩ | ⟨_, _, _, heard⟩
    · exact linked.refused msg message same
    · -- An answer that is lost is no refusal.
      obtain ⟨_, rfl⟩ := unheard result answered
      cases heard
    · cases heard

/-- A step outside the service that applies nothing keeps it linked. -/
theorem Linked.external (linked : before.Linked) (service : after.service = before.service)
    (applied : after.hcm.applied = before.hcm.applied) : after.Linked :=
  ⟨by rw [service, applied]; exact linked.coupled, by rw [service, applied]; exact linked.acked,
    by rw [service, applied]; exact linked.refused⟩

/-- A delivery that arrives keeps the service linked. -/
theorem Linked.delivered (linked : before.Linked) (answered : after.Answered)
    (coherent : before.service.Coherent) {msg : OutboxMessage} {rest : List OutboxMessage}
    {result heard : Except HcmError ApplyDeltaAck}
    (due : before.service.processor.due = msg :: rest)
    (idle : before.service.processor.attempted = none)
    (answer : HcmCore.Answer before.hcm msg.command after.hcm result)
    (relayed : heard = result ∨ heard = .error transportError)
    (taken : before.service.step (.answer heard) = some after.service) : after.Linked := by
  have held : msg ∈ before.service.processor.held := by simp [OutboxProcessor.held, due]
  have heardOf (other : OutboxMessage) (attempt : Attempt)
      (attempted : after.service.processor.attempted = some (other, attempt)) :
      other = msg ∧
        (attempt = Attempt.ofResult result ∨ ∃ message, attempt = .errored message) := by
    rcases Service.attempted_of_step taken attempted with
      same | ⟨_, _, same, dueToo, rfl⟩ | ⟨_, _, acked, _⟩
    · simp [idle] at same
    · cases same
      rw [due] at dueToo
      cases dueToo
      refine ⟨rfl, ?_⟩
      rcases relayed with rfl | rfl
      · exact Or.inl rfl
      · exact Or.inr ⟨_, rfl⟩
    · simp [idle] at acked
  constructor
  · intro id target reached
    obtain ⟨progress, shown, moves⟩ := Service.shows_before coherent taken reached
    obtain rfl : progress = target := Option.some.inj moves
    have coupled := linked.coupled id progress shown
    cases answer with
    | repeated _ _ same _ => rwa [same]
    | thrown _ _ same _ => rwa [same]
    | given ack unused same _ _ _ =>
      rw [same]
      refine coupled.save unused fun type named => ?_
      -- Only the request of the message has its key, and that request is waiting for it.
      obtain ⟨_, shownToo⟩ := coherent.shown msg.requestId
      obtain ⟨_, request, _, _, own⟩ := coherent.of_held held shownToo
      obtain ⟨rfl, rfl⟩ := OutboxType.key_injective (named.trans own.key)
      rw [← own.owner] at shown
      exact Progress.sent_of_delivering (coherent.of_held held shown).1
  · exact fun other ack attempted => answered.acked attempted
  · intro other message attempted
    obtain ⟨rfl, heard | ⟨_, heard⟩⟩ := heardOf other _ attempted
    · cases answer with
      | repeated _ _ _ _ => cases heard
      | thrown _ unused same _ => exact same ▸ unused
      | given _ _ _ _ _ _ => cases heard
    · cases heard

/-- Every step keeps the acknowledgements linked. -/
theorem step_linked (linked : before.Linked) (answered : after.Answered)
    (coherent : before.service.Coherent) (taken : before.step action = some after) :
    after.Linked := by
  -- Only a delivery adds an acknowledgement, and only the service moves a request.
  cases step_effect taken with
  | operates _ _ served hcm => exact linked.served answered coherent served (by rw [hcm]) (by simp)
  | loses _ _ served hcm =>
    exact linked.served answered coherent served (by rw [hcm])
      fun _ same => ⟨_, (ServiceAction.answer.inj same).symm⟩
  | delivers msg rest fate now heard _ due idle relayed served hcm =>
    refine linked.delivered answered coherent due idle ?_ (relayed.imp And.right And.right) served
    rw [hcm]
    exact before.hcm.applyDelta_answer now msg.command
  | reads _ _ _ _ answered service =>
    exact linked.external service (HcmCore.applied_getBalance answered)
  | inserts _ _ _ _ served hcm =>
    exact linked.served answered coherent served (by rw [hcm]) (by simp)
  | reconciles _ _ _ _ _ served hcm =>
    exact linked.served answered coherent served (by rw [hcm]) (by simp)
  | crashes _ served hcm => exact linked.served answered coherent served (by rw [hcm]) (by simp)
  | seeds _ _ _ _ _ hcm service => exact linked.external service (by rw [hcm]; rfl)
  | adjusts _ _ _ _ _ _ adjusted service =>
    exact linked.external service (HcmCore.applied_adjust adjusted)
  | configures _ _ hcm service => exact linked.external service (by rw [hcm]; rfl)

/-- At the start nothing is known on either side. -/
theorem linked_init : init.Linked := by
  -- Every request is unknown, and the processor has heard nothing.
  constructor
  · intro id progress shown
    obtain rfl := Progress.eq_unknown shown.status.symm
    refine ⟨fun _ _ => rfl, fun _ stamped => ?_, fun _ _ refunded => ?_⟩
    · cases stamped
    · cases refunded
  · intro msg ack attempted
    cases attempted
  · intro msg message attempted
    cases attempted

/-- In every reachable state the acknowledgements are linked. -/
theorem Reachable.linked {allowed : System → Action → Prop} {system : System}
    (reached : System.Reachable allowed system) : system.Linked :=
  Runs.Reachable.invariant linked_init
    (fun _ _ _ earlier linked _ taken =>
      step_linked linked (step_answered (System.Reachable.answered earlier) taken)
        (System.Reachable.service earlier).coherent taken) reached

end System

end TimeOff
