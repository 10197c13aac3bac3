import TimeOff.Lifecycle.Queue

/-! Every step of the service moves every request along the abstract event the step is for it. -/

namespace TimeOff

/-- What absorbing a snapshot does to the view of an entry. -/
def absorbedView (snapshot : Int) :
    LedgerPhase × LedgerState × Option Int → LedgerPhase × LedgerState × Option Int
  | (phase, state, version) =>
    (phase,
      if phase = .commit ∧ state = .active ∧ version.any (· ≤ snapshot) then .reconciled else state,
      version)

/-- An entry of the pair of an update is absorbed as its view is. -/
theorem BalanceLedgerEntry.view_matched {entry : BalanceLedgerEntry} {update : HcmBalanceUpdate}
    (pair : entry.pair = update.pair) :
    (if entry.matchedBy update then { entry with state := .reconciled } else entry).view =
      absorbedView update.version entry.view := by
  -- An entry without a version is never matched, an entry with one by the comparison.
  unfold matchedBy toCommitted CommittedEntry.absorbedBy view absorbedView
  cases version : entry.hcmVersion with
  | none => simp [pair, version]
  | some acknowledged =>
    by_cases matched : entry.state = .active ∧ entry.phase = .commit ∧
        acknowledged ≤ update.version
    · simp [pair, matched]
    · have unmatched : ¬(entry.phase = .commit ∧ entry.state = .active ∧
          acknowledged ≤ update.version) := fun ⟨commit, active, reached⟩ =>
        matched ⟨active, commit, reached⟩
      simp [pair, matched, unmatched, version]

/-- A snapshot absorbs the commit of a progress, if it is active and acknowledged in time. -/
theorem Progress.next_absorbed (progress : Progress) (snapshot : Int) :
    ∃ target, progress.next (.absorbed snapshot) = some target ∧
      target.status = progress.status ∧
      target.entries = progress.entries.map (absorbedView snapshot) ∧
      target.messages = progress.messages := by
  -- Only three kinds of progress hold a commit that may still be active.
  cases progress with
  | committed version absorbed | cancelling version absorbed _ | overtaken version absorbed =>
    refine ⟨_, rfl, rfl, ?_, rfl⟩
    cases absorbed <;> by_cases reached : version ≤ snapshot <;>
      simp [Progress.absorb, Progress.entries, absorbedView, reached]
  | refunded version absorbed =>
    refine ⟨_, rfl, rfl, ?_, rfl⟩
    cases absorbed <;> simp [Progress.absorb, Progress.entries, absorbedView]
  | _ => exact ⟨_, rfl, rfl, rfl, rfl⟩

namespace Store

variable {store after : Store} {id : String} {progress : Progress} {update : HcmBalanceUpdate}

/-- A fresh update rewrites the entries of every dossier. -/
theorem Absorbs.dossier (absorbs : Absorbs update store after) (id : String) :
    after.dossier id = (store.dossier id).mapEntries fun entry =>
      if entry.matchedBy update then { entry with state := .reconciled } else entry := by
  -- The matched entries keep their owner, so each dossier is rewritten in place.
  unfold Store.dossier Dossier.mapEntries
  simp only [entriesOf, messagesOf, absorbs.ledger, absorbs.outbox, absorbs.requests,
    List.filter_map]
  congr 2
  apply List.filter_congr
  intro entry _
  by_cases matched : entry.matchedBy update <;> simp [matched]

/-- A fresh update absorbs the commits of the requests for its pair, and of no others. -/
theorem Absorbs.shows (absorbs : Absorbs update store after)
    (shown : (store.dossier id).Shows progress) :
    ∃ target, progress.hear (if (store.requests.find id).map (·.pair) = some update.pair
        then some (.absorbed update.version) else none) = some target ∧
      (after.dossier id).Shows target := by
  -- The entries of a request are all for its pair, so they are matched together or not at all.
  rw [absorbs.dossier]
  cases found : store.requests.find id with
  | none =>
    -- Nothing is stored for an unknown request.
    refine ⟨progress, rfl, ?_⟩
    obtain rfl := unknown_of_absent shown found
    have empty := List.map_eq_nil_iff.mp shown.entries
    rw [Dossier.mapEntries_eq_self]
    · exact shown
    · simp [empty]
  | some request =>
    have owned := shown.owned request found
    have keeps : ∀ entry : BalanceLedgerEntry, entry.OwnedBy request.terms →
        (if entry.matchedBy update then { entry with state := .reconciled } else entry).OwnedBy
          request.terms := by
      intro entry own
      split
      · exact ⟨own.owner, own.pair, own.amount, own.positive⟩
      · exact own
    by_cases paired : request.pair = update.pair
    · obtain ⟨target, moves, status, entries, messages⟩ := progress.next_absorbed update.version
      refine ⟨target, by simpa [paired, Progress.hear] using moves, ?_⟩
      refine ⟨shown.status.trans status.symm, ?_, shown.messages.trans messages.symm, ?_⟩
      · rw [entries, ← shown.entries]
        simp only [Dossier.mapEntries, List.map_map]
        apply List.map_congr_left
        intro entry member
        -- Every entry of the dossier is for the pair of the update.
        have pair : entry.pair = update.pair := (owned.entries entry member).pair.trans paired
        exact entry.view_matched pair
      · intro other same
        cases found.symm.trans same
        exact owned.mapEntries keeps
    -- The snapshot is for another pair, so it matches none of these entries.
    · refine ⟨progress, by simp [paired, Progress.hear], ?_⟩
      rw [Dossier.mapEntries_eq_self]
      · exact shown
      · intro entry member
        have pair : entry.pair ≠ update.pair := fun same =>
          paired ((owned.entries entry member).pair.symm.trans same)
        simp [BalanceLedgerEntry.matchedBy, pair]

/-- A transaction that moves one request along one event. -/
structure Moves (subject : String) (event : Event) (before after : Store) : Prop where
  -- The other requests are left alone, and the subject takes the move.
  acts : ActsOn subject before after
  own : ∀ progress, (before.dossier subject).Shows progress →
    ∃ target, progress.next event = some target ∧ (after.dossier subject).Shows target

/-- A transaction on one request, seen from any request. -/
theorem Moves.shows {subject : String} {event : Event} (moves : Moves subject event store after)
    (shown : (store.dossier id).Shows progress) :
    ∃ target, progress.hear (if subject = id then some event else none) = some target ∧
      (after.dossier id).Shows target := by
  -- For the subject the transaction is a move, for any other request it is nothing.
  by_cases own : subject = id
  · subst own
    simpa [Progress.hear] using moves.own progress shown
  · refine ⟨progress, by simp [own, Progress.hear], ?_⟩
    rwa [moves.acts.others id (Ne.symm own)]

end Store

namespace Service

/-- The transactions that concern one request, with the event they are for it. -/
def subject (service : Service) : ServiceAction → Option (String × Event)
  | .operate (.create uuid _ idempotencyKey) =>
    if service.store.existingFor idempotencyKey = none then some (uuid, .created) else none
  | .operate (.submit id _) => some (id, .submitted)
  | .operate (.approve id _ _) => some (id, .approved)
  | .operate (.reject id) => some (id, .rejected)
  | .operate (.cancel id _ _) => some (id, .cancelled)
  | .operate (.record _ _ _) =>
    service.processor.attempted.map fun (msg, attempt) => (msg.requestId, attempt.event msg)
  | _ => none

/-- The abstract event that a step of the service is for one request. -/
def event (service : Service) (id : String) : ServiceAction → Option Event
  | .operate (.drain now) =>
    if (service.store.claimDue now).1.any (·.requestId = id) then some .claimed else none
  | .reconcileKey _ _ update =>
    if service.store.watermark update.pair < update.version ∧
        (service.store.requests.find id).map (·.pair) = some update.pair then
      some (.absorbed update.version)
    else none
  | action =>
    (service.subject action).bind fun (subject, event) => if subject = id then some event else none

/-- A transaction about one request is an event for that request only. -/
theorem event_of_subject {service : Service} {action : ServiceAction} {subject : String}
    {event : Event} (about : service.subject action = some (subject, event)) (id : String) :
    service.event id action = if subject = id then some event else none := by
  -- Drains and updates have no subject, and every other action is an event for its subject.
  cases action with
  | operate operation =>
    cases operation with
    | drain now => cases about
    | _ => simp [Service.event, about]
  | reconcileKey uuid now update => cases about
  | _ => simp [Service.event, about]

/-- What is heard of a transaction about one request is heard by that request. -/
theorem heard_of_subject {service : Service} {action : ServiceAction} {subject id : String}
    {named event : Event} (about : service.subject action = some (subject, named))
    (heard : service.event id action = some event) : subject = id ∧ named = event := by
  rw [event_of_subject about] at heard
  simpa using heard

/-- The steps that are an event for a request, each with what it says about the state before. -/
inductive Cause (service : Service) (id : String) : ServiceAction → Event → Prop
  | creates (dto : CreateTimeOffRequestDto) (idempotencyKey : Option String) :
      Cause service id (.operate (.create id dto idempotencyKey)) .created
  | submits (uuid : String) : Cause service id (.operate (.submit id uuid)) .submitted
  | approves (uuid : String) (now : Time) :
      Cause service id (.operate (.approve id uuid now)) .approved
  | rejects : Cause service id (.operate (.reject id)) .rejected
  | cancels (uuid : String) (now : Time) :
      Cause service id (.operate (.cancel id uuid now)) .cancelled
  | claims (now : Time) :
      (∃ msg ∈ (service.store.claimDue now).1, msg.requestId = id) →
      Cause service id (.operate (.drain now)) .claimed
  | records (msg : OutboxMessage) (attempt : Attempt) (entryId eventId : String) (now : Time) :
      service.processor.attempted = some (msg, attempt) → msg.requestId = id →
      Cause service id (.operate (.record entryId eventId now)) (attempt.event msg)
  | absorbs (uuid : String) (now : Time) (update : HcmBalanceUpdate) :
      service.store.watermark update.pair < update.version →
      (service.store.requests.find id).map (·.pair) = some update.pair →
      Cause service id (.reconcileKey uuid now update) (.absorbed update.version)

/-- An event is one for a reason. -/
theorem event_cause {service : Service} {id : String} {action : ServiceAction} {event : Event}
    (heard : service.event id action = some event) : service.Cause id action event := by
  -- The event is defined by the action, so the action is taken apart first.
  cases action with
  | operate operation =>
    cases operation with
    | drain now =>
      simp only [Service.event, Option.ite_none_right_eq_some, List.any_eq_true,
        decide_eq_true_eq, Option.some.injEq] at heard
      obtain ⟨claimed, rfl⟩ := heard
      exact .claims now claimed
    | create uuid dto idempotencyKey =>
      by_cases unseen : service.store.existingFor idempotencyKey = none
      · have about : service.subject (.operate (.create uuid dto idempotencyKey)) =
            some (uuid, .created) := if_pos unseen
        obtain ⟨rfl, rfl⟩ := heard_of_subject about heard
        exact .creates dto idempotencyKey
      · simp [Service.event, subject, unseen] at heard
    | record entryId eventId now =>
      cases attempted : service.processor.attempted with
      | none => simp [Service.event, subject, attempted] at heard
      | some pair =>
        have about : service.subject (.operate (.record entryId eventId now)) =
            some (pair.1.requestId, pair.2.event pair.1) := by
          simp [subject, attempted]
        obtain ⟨belongs, rfl⟩ := heard_of_subject about heard
        exact .records pair.1 pair.2 entryId eventId now attempted belongs
    | recordFails message => cases heard
    | submit subject uuid =>
      obtain ⟨rfl, rfl⟩ := heard_of_subject rfl heard
      exact .submits uuid
    | approve subject uuid now =>
      obtain ⟨rfl, rfl⟩ := heard_of_subject rfl heard
      exact .approves uuid now
    | reject subject =>
      obtain ⟨rfl, rfl⟩ := heard_of_subject rfl heard
      exact .rejects
    | cancel subject uuid now =>
      obtain ⟨rfl, rfl⟩ := heard_of_subject rfl heard
      exact .cancels uuid now
  | reconcileKey uuid now update =>
    simp only [Service.event, Option.ite_none_right_eq_some, Option.some.injEq] at heard
    obtain ⟨⟨fresh, pair⟩, rfl⟩ := heard
    exact .absorbs uuid now update fresh pair
  | answer result => cases heard
  | insertBalance employeeId locationId row => cases heard
  | crash => cases heard

/-- An acknowledgement is heard when the success of a delivery is recorded. -/
theorem Cause.acknowledged {service : Service} {id : String} {action : ServiceAction}
    {version : Int} (cause : service.Cause id action (.acknowledged version)) :
    ∃ msg ack entryId eventId now, action = .operate (.record entryId eventId now) ∧
      service.processor.attempted = some (msg, .acked ack) ∧ msg.requestId = id ∧
      ack.version = version := by
  -- Only the record of an acknowledged attempt raises this event.
  generalize heard : Event.acknowledged version = event at cause
  cases cause with
  | records msg attempt entryId eventId now attempted belongs =>
    cases attempt with
    | acked ack =>
      exact ⟨msg, ack, entryId, eventId, now, rfl, attempted, belongs,
        (Event.acknowledged.inj heard).symm⟩
    | _ => cases heard
  | _ => cases heard

/-- A refusal is heard when it is recorded. -/
theorem Cause.refused {service : Service} {id : String} {action : ServiceAction}
    (cause : service.Cause id action .refused) :
    ∃ msg message, service.processor.attempted = some (msg, .refused message) ∧
      msg.requestId = id := by
  -- Only the record of a refused attempt raises this event.
  generalize heard : Event.refused = event at cause
  cases cause with
  | records msg attempt entryId eventId now attempted belongs =>
    cases attempt with
    | refused message => exact ⟨msg, message, attempted, belongs⟩
    | _ => cases heard
  | _ => cases heard

/-- A submission is heard when it is made. -/
theorem Cause.submitted {service : Service} {id : String} {action : ServiceAction}
    (cause : service.Cause id action .submitted) :
    ∃ uuid, action = .operate (.submit id uuid) := by
  -- No attempt is recorded as a submission.
  generalize heard : Event.submitted = event at cause
  cases cause with
  | submits uuid => exact ⟨uuid, rfl⟩
  | records msg attempt entryId eventId now attempted belongs => cases attempt <;> cases heard
  | _ => cases heard

/-- A claim is heard in a drain that takes a message of the request. -/
theorem Cause.claimed {service : Service} {id : String} {action : ServiceAction}
    (cause : service.Cause id action .claimed) :
    ∃ now, action = .operate (.drain now) ∧
      ∃ msg ∈ (service.store.claimDue now).1, msg.requestId = id := by
  -- No attempt is recorded as a claim.
  generalize heard : Event.claimed = event at cause
  cases cause with
  | claims now due => exact ⟨now, rfl, due⟩
  | records msg attempt entryId eventId now attempted belongs => cases attempt <;> cases heard
  | _ => cases heard

/-- A cancellation is heard when it is made. -/
theorem Cause.cancelled {service : Service} {id : String} {action : ServiceAction}
    (cause : service.Cause id action .cancelled) :
    ∃ uuid now, action = .operate (.cancel id uuid now) := by
  -- No attempt is recorded as a cancellation.
  generalize heard : Event.cancelled = event at cause
  cases cause with
  | cancels uuid now => exact ⟨uuid, now, rfl⟩
  | records msg attempt entryId eventId now attempted belongs => cases attempt <;> cases heard
  | _ => cases heard

/-- A snapshot is taken over when its update is reconciled, for a request that is stored. -/
theorem Cause.absorbed {service : Service} {id : String} {action : ServiceAction} {version : Int}
    (cause : service.Cause id action (.absorbed version)) :
    ∃ uuid now update, action = .reconcileKey uuid now update ∧ update.version = version ∧
      service.store.watermark update.pair < update.version ∧
      (service.store.requests.find id).map (·.pair) = some update.pair := by
  -- No attempt is recorded as an absorption.
  generalize heard : Event.absorbed version = event at cause
  cases cause with
  | absorbs uuid now update fresh pair =>
    exact ⟨uuid, now, update, rfl, (Event.absorbed.inj heard).symm, fresh, pair⟩
  | records msg attempt entryId eventId now attempted belongs => cases attempt <;> cases heard
  | _ => cases heard

/-- What holds of the service between any two transactions. -/
structure Coherent (service : Service) : Prop where
  -- Every dossier shows some progress of its request.
  shown : ∀ id, ∃ progress, (service.store.dossier id).Shows progress
  -- Every ledger entry belongs to a request.
  orphans : service.store.orphans = []
  -- Days are only ever held for a pair whose balance is cached.
  loaded : ∀ entry ∈ service.store.ledger.rows,
    (service.store.balances.find entry.pair).isSome = true
  -- Every claimed message in memory is the copy of a row in flight.
  held : ∀ msg ∈ service.processor.held, msg.claimedRow ∈ service.store.outbox.rows
  -- No message is held twice, and none while no drain runs.
  distinct : (service.processor.held.map (·.id)).Nodup
  idle : service.processor.draining = false → service.processor.held = []

/-- The service starts with empty tables and an empty memory. -/
theorem coherent_init : init.Coherent where
  -- Nothing is known of any request yet.
  shown _ := ⟨.unknown, rfl, rfl, rfl, fun _ found => nomatch found⟩
  orphans := rfl
  loaded _ member := nomatch member
  held _ member := nomatch member
  distinct := List.nodup_nil
  idle _ := rfl

variable {before after : Service} {action : ServiceAction}

/-- A transaction that leaves a dossier showing what the event says is a move of it. -/
theorem Coherent.moves (coherent : before.Coherent) {id : String} {event : Event} {store : Store}
    (shows : ∀ progress, (before.store.dossier id).Shows progress →
      Store.ActsOn id before.store store ∧
        ∃ target, progress.next event = some target ∧ (store.dossier id).Shows target) :
    Store.Moves id event before.store store := by
  -- Some progress is shown by every dossier, and the others are left alone whatever it is.
  obtain ⟨current, shown⟩ := coherent.shown id
  exact ⟨(shows current shown).1, fun progress shown => (shows progress shown).2⟩

/-- Recording an attempt moves the request of its message. -/
theorem record_moves (coherent : before.Coherent) {entryId eventId : String} {now : Time}
    {msg : OutboxMessage} {attempt : Attempt}
    (attempted : before.processor.attempted = some (msg, attempt))
    (taken : before.step (.operate (.record entryId eventId now)) = some after) :
    Store.Moves msg.requestId (attempt.event msg) before.store after.store := by
  cases step_move taken with
  | records _ _ _ _ _ again fresh =>
    cases attempted.symm.trans again
    -- The attempted message is one of those in memory, so its row is in flight.
    have held := coherent.held msg (by simp [OutboxProcessor.held, attempted])
    exact coherent.moves fun _ shown =>
      Store.recordAttempt_shows attempt now rfl held fresh shown

/-- A transaction about one request moves that request along its event. -/
theorem step_moves (coherent : before.Coherent) (taken : before.step action = some after)
    {id : String} {event : Event} (about : before.subject action = some (id, event)) :
    Store.Moves id event before.store after.store := by
  -- What a transaction leaves of the dossier was shown for each of them.
  cases step_move taken with
  | creates _ _ _ _ _ fresh created =>
    simp only [subject] at about
    split at about
    · rename_i unseen
      cases about
      exact coherent.moves fun _ shown => Store.create_shows created unseen fresh shown
    · cases about
  | submits _ _ _ _ _ _ _ fresh submitted =>
    cases about
    exact coherent.moves fun _ shown => Store.submit_shows submitted fresh shown
  | approves _ _ _ _ _ fresh approved =>
    cases about
    exact coherent.moves fun _ shown => Store.approve_shows approved fresh shown
  | rejects _ _ _ rejected =>
    cases about
    exact coherent.moves fun _ shown => Store.reject_shows rejected shown
  | cancels _ _ _ _ _ fresh cancelled =>
    cases about
    exact coherent.moves fun _ shown => Store.cancel_shows cancelled fresh shown
  | records _ _ _ _ _ attempted =>
    simp only [subject, attempted, Option.map_some, Option.some.injEq, Prod.mk.injEq] at about
    obtain ⟨rfl, rfl⟩ := about
    exact record_moves coherent attempted taken
  | drains | catches | escapes | hears | loads | reconciles | crashes => cases about

/-- Everything a step can do to the database. -/
inductive Change (before : Service) (action : ServiceAction) (after : Store) : Prop
  | moves (id : String) (event : Event) :
      before.subject action = some (id, event) →
      Store.Moves id event before.store after → Change before action after
  | claims (now : Time) :
      action = .operate (.drain now) → before.processor.draining = false →
      after = (before.store.claimDue now).2 → Change before action after
  | loads (employeeId locationId : String) (row : HcmBalanceRow) :
      action = .insertBalance employeeId locationId row →
      after = before.store.insertBalance employeeId locationId row → Change before action after
  | absorbs (uuid : String) (now : Time) (update : HcmBalanceUpdate) :
      action = .reconcileKey uuid now update →
      before.store.watermark update.pair < update.version →
      Store.Absorbs update before.store after → Change before action after
  | nothing :
      (∀ id, before.event id action = none) → after = before.store → Change before action after

/-- Besides a drain and an update, an action is an event for its subject only. -/
theorem event_eq_none (about : before.subject action = none)
    (noDrain : ∀ now, action ≠ .operate (.drain now))
    (noUpdate : ∀ uuid now update, action ≠ .reconcileKey uuid now update) (id : String) :
    before.event id action = none := by
  -- Drains and updates are the actions that concern many requests at once.
  cases action with
  | operate operation =>
    cases operation with
    | drain now => exact absurd rfl (noDrain now)
    | _ => simp [event, about]
  | reconcileKey uuid now update => exact absurd rfl (noUpdate uuid now update)
  | _ => simp [event, about]

/-- A step is one of the changes. -/
theorem step_change (coherent : before.Coherent) (taken : before.step action = some after) :
    Change before action after.store := by
  -- A step about one request is a move, and what is left is told apart by its action.
  cases about : before.subject action with
  | some pair => exact .moves pair.1 pair.2 about (step_moves coherent taken about)
  | none =>
    cases step_move taken with
    | creates _ _ _ _ _ _ created =>
      refine .nothing (event_eq_none about (by simp) (by simp)) ?_
      simp only [subject, ite_eq_right_iff, reduceCtorEq, imp_false] at about
      -- A repeated call returns the earlier request and writes nothing.
      rcases Store.create_ok created with ⟨_, rfl⟩ | ⟨unseen, _⟩
      · rfl
      · exact absurd unseen about
    | drains now idle => exact .claims now rfl idle rfl
    | records _ _ _ _ _ attempted => simp [subject, attempted] at about
    | loads employeeId locationId row => exact .loads employeeId locationId row rfl rfl
    | reconciles uuid now update =>
      by_cases fresh : before.store.watermark update.pair < update.version
      · exact .absorbs uuid now update rfl fresh
          (before.store.reconcileKey_fresh uuid now fresh).2.2
      · refine .nothing (fun id => by simp [event, fresh]) ?_
        exact (before.store.reconcileKey_stale uuid now (Int.not_lt.mp fresh)).2
    | catches | escapes | hears | crashes =>
      exact .nothing (event_eq_none about (by simp) (by simp)) rfl
    | submits | approves | rejects | cancels => cases about

/-- Every step moves every request along its event, and the moved dossier shows the move. -/
theorem step_shows (coherent : before.Coherent) (taken : before.step action = some after)
    (id : String) {progress : Progress} (shown : (before.store.dossier id).Shows progress) :
    ∃ target, progress.hear (before.event id action) = some target ∧
      (after.store.dossier id).Shows target := by
  -- Each change was shown to move the dossiers as the event says, one kind at a time.
  cases step_change coherent taken with
  | moves subject event about moved =>
    rw [event_of_subject about]
    exact moved.shows shown
  | claims now drained _ same =>
    subst drained
    rw [same]
    exact Store.claimDue_shows shown
  | loads employeeId locationId row inserted same =>
    subst inserted
    rw [same]
    exact ⟨progress, rfl, shown⟩
  | absorbs uuid now update reconciled fresh absorbs =>
    subst reconciled
    simp only [event, fresh, true_and]
    exact absorbs.shows shown
  | nothing quiet same =>
    rw [quiet, same]
    exact ⟨progress, rfl, shown⟩

/-- What a dossier shows after a step, it shows because of what it showed before. -/
theorem shows_before (coherent : before.Coherent) (taken : before.step action = some after)
    {id : String} {target : Progress} (reached : (after.store.dossier id).Shows target) :
    ∃ progress, (before.store.dossier id).Shows progress ∧
      progress.hear (before.event id action) = some target := by
  -- The step moves whatever was shown before, and a dossier shows one progress only.
  obtain ⟨progress, shown⟩ := coherent.shown id
  obtain ⟨moved, next, reachedToo⟩ := step_shows coherent taken id shown
  exact ⟨progress, shown, reached.unique reachedToo ▸ next⟩

/-- What a dossier shows after a step, it showed before, or the step was an event for it. -/
theorem shown_or_heard (coherent : before.Coherent) (taken : before.step action = some after)
    {id : String} {target : Progress} (reached : (after.store.dossier id).Shows target) :
    (before.store.dossier id).Shows target ∨
      ∃ progress event, (before.store.dossier id).Shows progress ∧
        before.event id action = some event ∧ progress.next event = some target := by
  obtain ⟨progress, shown, next⟩ := shows_before coherent taken reached
  cases heard : before.event id action with
  | none =>
    rw [heard] at next
    cases next
    exact Or.inl shown
  | some event =>
    rw [heard] at next
    exact Or.inr ⟨progress, event, shown, rfl, next⟩

end Service

end TimeOff
