import TimeOff.Lifecycle.Simulation

/-! The database and the memory of the service stay coherent over every run. -/

namespace TimeOff

/-- Only a submission writes a first ledger entry. -/
theorem Progress.entries_of_next {progress target : Progress} {event : Event}
    (moves : progress.next event = some target) (holding : target.entries ≠ []) :
    progress.entries ≠ [] ∨ event = .submitted := by
  -- The hold is the first entry of every progress that lists any.
  cases Progress.steps_of_next moves with
  | create => simp [Progress.entries] at holding
  | withdraw => simp [Progress.entries] at holding
  | submit => exact Or.inr rfl
  | absorb progress snapshot =>
    cases progress <;> simp_all [Progress.entries, Progress.absorb]
  | _ => exact Or.inl (by simp [Progress.entries])

namespace Service

variable {before after : Service} {action : ServiceAction}

/-- A stored request stays stored, and keeps its terms. -/
theorem step_terms (coherent : before.Coherent) (taken : before.step action = some after)
    {id : String} {request : TimeOffRequest}
    (found : before.store.requests.find id = some request) :
    ∃ moved, after.store.requests.find id = some moved ∧ moved.terms = request.terms := by
  -- Only a transaction about the request writes its row, and it keeps the terms.
  cases step_change coherent taken with
  | moves subject event about moves =>
    by_cases own : id = subject
    · subst own
      exact moves.acts.terms request found
    · have kept := congrArg Dossier.request (moves.acts.others id own)
      exact ⟨request, kept.trans found, rfl⟩
  | claims _ _ _ same => exact ⟨request, same ▸ found, rfl⟩
  | loads _ _ _ _ same => exact ⟨request, same ▸ found, rfl⟩
  | absorbs _ _ _ _ _ absorbs => exact ⟨request, absorbs.requests ▸ found, rfl⟩
  | nothing _ same => exact ⟨request, same ▸ found, rfl⟩

/-- No step deletes a ledger entry or changes anything of it but its state. -/
theorem step_entries (coherent : before.Coherent) (taken : before.step action = some after) :
    Store.KeepsEntries before.store after.store := by
  cases step_change coherent taken with
  | moves _ _ _ moves => exact moves.acts.entries
  | claims _ _ _ same => exact same ▸ Store.KeepsEntries.refl before.store
  | loads _ _ _ _ same => exact same ▸ Store.KeepsEntries.refl before.store
  | absorbs _ _ update _ _ absorbs =>
    intro entry member
    rw [absorbs.ledger]
    -- An absorbed entry is found again with its new state, any other as it was.
    by_cases matched : entry.matchedBy update
    · exact ⟨.reconciled, List.mem_map.mpr ⟨entry, member, by simp [matched]⟩⟩
    · exact ⟨entry.state, List.mem_map.mpr ⟨entry, member, by simp [matched]⟩⟩
  | nothing _ same => exact same ▸ Store.KeepsEntries.refl before.store

/-- A cached balance is never dropped. -/
theorem step_cached (coherent : before.Coherent) (taken : before.step action = some after)
    {pair : String × String} (cached : (before.store.balances.find pair).isSome = true) :
    (after.store.balances.find pair).isSome = true := by
  -- The two writers of balances write a row, and the other steps leave the table alone.
  cases step_change coherent taken with
  | moves _ _ _ moves => rwa [moves.acts.balances]
  | claims _ _ _ same => rwa [same]
  | loads _ _ _ _ same =>
    rw [same, Store.insertBalance, Table.find_insertOrIgnore]
    split
    · rfl
    · exact cached
  | absorbs _ _ _ _ _ absorbs =>
    obtain ⟨_, saved⟩ := absorbs.balance
    rw [saved, Table.find_save]
    split
    · rfl
    · exact cached
  | nothing _ same => rwa [same]

/-- A balance that is cached after a step was so before, was just read, or was just reconciled. -/
theorem cached_of_step (coherent : before.Coherent) (taken : before.step action = some after)
    {balance : Balance} (cached : balance ∈ after.store.balances.rows) :
    balance ∈ before.store.balances.rows ∨
      (∃ row, action = .insertBalance balance.employeeId balance.locationId row ∧
        balance.hcmBalance = row.balance ∧ balance.lastReconciledVersion = row.version) ∨
      ∃ uuid now update, action = .reconcileKey uuid now update ∧
        balance.employeeId = update.employeeId ∧ balance.locationId = update.locationId ∧
        balance.hcmBalance = update.balance ∧ balance.lastReconciledVersion = update.version := by
  -- A row of the table was there before, or is the one that was just written.
  cases step_change coherent taken with
  | moves _ _ _ moves => exact Or.inl (moves.acts.balances ▸ cached)
  | claims _ _ _ same => exact Or.inl (by rwa [same] at cached)
  | loads employeeId locationId row inserted same =>
    simp only [same, Store.insertBalance, Table.insertOrIgnore] at cached
    split at cached
    · exact Or.inl cached
    · rcases Table.mem_save.mp cached with rfl | ⟨old, _⟩
      · exact Or.inr (Or.inl ⟨row, inserted, rfl, rfl⟩)
      · exact Or.inl old
  | absorbs uuid now update reconciled _ absorbs =>
    obtain ⟨asOf, saved⟩ := absorbs.balance
    rw [saved] at cached
    rcases Table.mem_save.mp cached with rfl | ⟨old, _⟩
    · exact Or.inr (Or.inr ⟨uuid, now, update, reconciled, rfl, rfl, rfl, rfl⟩)
    · exact Or.inl old
  | nothing _ same => exact Or.inl (by rwa [same] at cached)

/-- A submission starts from a draft whose days fit what is available of a cached pair. -/
theorem submit_some {id uuid : String}
    (taken : before.step (.operate (.submit id uuid)) = some after) :
    ∃ request balance, before.store.requests.find id = some request ∧ request.status = .draft ∧
      0 < request.days ∧
      request.days ≤ before.store.available request.employeeId request.locationId ∧
      before.store.balances.find request.pair = some balance := by
  -- The guard of the step asks for the balance, and the transaction for the rest.
  cases step_move taken with
  | submits _ _ request _ _ found cached _ submitted =>
    obtain ⟨again, foundToo, draft, positive, fits, _⟩ := Store.submit_ok submitted
    cases found.symm.trans foundToo
    obtain ⟨balance, cached⟩ := Option.isSome_iff_exists.mp cached
    exact ⟨request, balance, found, draft, positive, fits, cached⟩

/-- A submission only holds days for a pair whose balance is cached. -/
theorem cached_of_submitted {id : String}
    (taken : before.step action = some after)
    (about : before.subject action = some (id, .submitted)) :
    ∃ request, before.store.requests.find id = some request ∧
      (before.store.balances.find request.pair).isSome = true := by
  -- The submit is the only action with this event, and its guard asks for the balance.
  cases action with
  | operate operation =>
    cases operation with
    | submit subject uuid =>
      cases about
      obtain ⟨request, balance, found, _, _, _, cached⟩ := submit_some taken
      exact ⟨request, found, by simp [cached]⟩
    | create uuid dto idempotencyKey =>
      simp only [subject] at about
      split at about <;> simp at about
    | record entryId eventId now =>
      simp only [subject, Option.map_eq_some_iff, Prod.mk.injEq] at about
      obtain ⟨⟨msg, attempt⟩, _, _, clash⟩ := about
      cases attempt <;> simp [Attempt.event] at clash
    | _ => simp [subject] at about
  | _ => simp [subject] at about

/-- Every ledger entry has an owner whose dossier holds it. -/
theorem Coherent.owner (coherent : before.Coherent) {entry : BalanceLedgerEntry}
    (stored : entry ∈ before.store.ledger.rows) :
    ∃ id, entry ∈ before.store.entriesOf id := by
  -- An entry without an owner would be an orphan.
  cases owner : entry.requestId with
  | some id => exact ⟨id, Store.mem_entriesOf.mpr ⟨stored, owner⟩⟩
  | none =>
    have orphan : entry ∈ before.store.orphans := by simp [Store.orphans, stored, owner]
    rw [coherent.orphans] at orphan
    cases orphan

/-- No step writes an entry without an owner. -/
theorem step_orphans (coherent : before.Coherent) (taken : before.step action = some after) :
    after.store.orphans = [] := by
  cases step_change coherent taken with
  | moves _ _ _ moves => exact moves.acts.orphans.trans coherent.orphans
  | claims _ _ _ same => exact same ▸ coherent.orphans
  | loads _ _ _ _ same => exact same ▸ coherent.orphans
  | absorbs _ _ update _ _ absorbs =>
    -- Absorbing leaves every entry its owner.
    have owned := coherent.orphans
    simp only [Store.orphans, List.filter_eq_nil_iff] at owned ⊢
    intro entry member
    rw [absorbs.ledger] at member
    obtain ⟨source, stored, rfl⟩ := List.mem_map.mp member
    by_cases matched : source.matchedBy update
    · simpa [matched] using owned source stored
    · simpa [matched] using owned source stored
  | nothing _ same => exact same ▸ coherent.orphans

/-- An entry of a shown dossier has the pair of its request. -/
theorem pair_of_shown {store : Store} {id : String} {progress : Progress}
    (shown : (store.dossier id).Shows progress) {entry : BalanceLedgerEntry}
    (member : entry ∈ store.entriesOf id) :
    ∃ request, store.requests.find id = some request ∧ entry.pair = request.pair := by
  cases found : store.requests.find id with
  | none =>
    -- A dossier without a request holds no entry.
    obtain rfl := Store.unknown_of_absent shown found
    have empty : store.entriesOf id = [] := List.map_eq_nil_iff.mp shown.entries
    rw [empty] at member
    cases member
  | some request => exact ⟨request, rfl, ((shown.owned request found).entries entry member).pair⟩

/-- A request whose progress holds days has an entry for them, with its own pair. -/
theorem exists_entry_of_shown {store : Store} {id : String} {progress : Progress}
    (shown : (store.dossier id).Shows progress) (holding : progress.entries ≠ []) :
    ∃ entry ∈ store.entriesOf id,
      ∃ request, store.requests.find id = some request ∧ entry.pair = request.pair := by
  have some_ : store.entriesOf id ≠ [] := fun empty =>
    holding (shown.entries.symm.trans (congrArg (List.map (·.view)) empty))
  obtain ⟨entry, member⟩ := List.exists_mem_of_ne_nil _ some_
  exact ⟨entry, member, pair_of_shown shown member⟩

/-- A request that holds days is for a pair whose balance is cached. -/
theorem Coherent.cached_of_holding (coherent : before.Coherent) {id : String}
    {progress : Progress} (shown : (before.store.dossier id).Shows progress)
    (holding : progress.entries ≠ []) :
    ∃ request, before.store.requests.find id = some request ∧
      (before.store.balances.find request.pair).isSome = true := by
  -- Any entry of the dossier carries the pair of the request.
  obtain ⟨entry, member, request, found, pair⟩ := exists_entry_of_shown shown holding
  exact ⟨request, found, pair ▸ coherent.loaded entry (Store.mem_entriesOf.mp member).1⟩

/-- An entry after a move belongs to a request that had one before, or is being submitted. -/
theorem source_of_moves (coherent : before.Coherent) {id : String} {event : Event}
    (moves : Store.Moves id event before.store after.store) {entry : BalanceLedgerEntry}
    (member : entry ∈ after.store.entriesOf id) :
    ∃ moved, after.store.requests.find id = some moved ∧ entry.pair = moved.pair ∧
      ((∃ old ∈ before.store.entriesOf id,
          ∃ request, before.store.requests.find id = some request ∧ old.pair = request.pair) ∨
        event = .submitted) := by
  obtain ⟨progress, shown⟩ := coherent.shown id
  obtain ⟨target, next, reached⟩ := moves.own progress shown
  obtain ⟨moved, found, pair⟩ := pair_of_shown reached member
  have holding : target.entries ≠ [] := by
    rw [← reached.entries]
    exact List.ne_nil_of_mem (List.mem_map_of_mem member)
  -- Only a submission writes the first entry.
  refine ⟨moved, found, pair, ?_⟩
  exact (Progress.entries_of_next next holding).imp_left (exists_entry_of_shown shown)

/-- After a move, the days its request holds are for a pair whose balance was cached. -/
theorem loaded_of_moves (coherent : before.Coherent) (taken : before.step action = some after)
    {id : String} {event : Event} (about : before.subject action = some (id, event))
    (moves : Store.Moves id event before.store after.store) {entry : BalanceLedgerEntry}
    (member : entry ∈ after.store.entriesOf id) :
    (before.store.balances.find entry.pair).isSome = true := by
  obtain ⟨moved, found, pair, source⟩ := source_of_moves coherent moves member
  -- The request held days before, or its submission has just found the balance cached.
  have cached : ∃ request, before.store.requests.find id = some request ∧
      (before.store.balances.find request.pair).isSome = true := by
    rcases source with ⟨old, listed, request, earlier, same⟩ | rfl
    · exact ⟨request, earlier, same ▸ coherent.loaded old (Store.mem_entriesOf.mp listed).1⟩
    · exact cached_of_submitted taken about
  obtain ⟨request, earlier, loaded⟩ := cached
  -- The move keeps the terms, so the entry is for the pair that the request already had.
  obtain ⟨_, again, terms⟩ := step_terms coherent taken earlier
  cases found.symm.trans again
  rwa [pair, TimeOffRequest.pair_of_terms terms]

/-- After every step, days are only held for pairs whose balance is cached. -/
theorem step_loaded (coherent : before.Coherent) (taken : before.step action = some after) :
    ∀ entry ∈ after.store.ledger.rows, (after.store.balances.find entry.pair).isSome = true := by
  intro entry stored
  apply step_cached coherent taken
  cases step_change coherent taken with
  | moves subject event about moves =>
    cases owner : entry.requestId with
    | none =>
      have orphan : entry ∈ after.store.orphans := by simp [Store.orphans, stored, owner]
      rw [step_orphans coherent taken] at orphan
      cases orphan
    | some id =>
      have member : entry ∈ after.store.entriesOf id := Store.mem_entriesOf.mpr ⟨stored, owner⟩
      by_cases own : id = subject
      · subst own
        exact loaded_of_moves coherent taken about moves member
      · -- The entries of every other request are the ones it had before.
        have kept : after.store.entriesOf id = before.store.entriesOf id :=
          congrArg Dossier.entries (moves.acts.others id own)
        rw [kept] at member
        exact coherent.loaded entry (Store.mem_entriesOf.mp member).1
  | claims _ _ _ same =>
    rw [same] at stored
    exact coherent.loaded entry stored
  | loads _ _ _ _ same =>
    rw [same] at stored
    exact coherent.loaded entry stored
  | absorbs _ _ update _ _ absorbs =>
    rw [absorbs.ledger] at stored
    obtain ⟨source, member, rfl⟩ := List.mem_map.mp stored
    have loaded := coherent.loaded source member
    split
    · exact loaded
    · exact loaded
  | nothing _ same =>
    rw [same] at stored
    exact coherent.loaded entry stored

/-- No step rewrites a message that is neither open nor being settled. -/
theorem step_messages (taken : before.step action = some after) {msg : OutboxMessage}
    (stored : msg ∈ before.store.outbox.rows)
    (closed : msg.status ≠ .pending ∧ msg.status ≠ .failed)
    (unsettled : before.settles action ≠ some msg.id) : msg ∈ after.store.outbox.rows := by
  -- Cancellations and claims look for open messages, and a record for the one being settled.
  cases step_queue taken with
  | kept _ rows _ | heard _ _ _ _ _ _ rows _ | caught _ _ _ _ _ rows _ | escaped _ _ _ _ _ _ rows _
  | crashed _ rows _ => rwa [rows]
  | enqueued _ _ _ _ _ rows _ =>
    rw [rows]
    exact List.mem_append_left _ stored
  | stopped _ _ _ _ rows _ =>
    rw [rows]
    exact List.mem_map.mpr ⟨msg, stored, by simp [OutboxMessage.stopped, closed]⟩
  | claimed now _ _ rows _ =>
    rw [rows, Store.rows_claimDue]
    refine List.mem_map.mpr ⟨msg, stored, ?_⟩
    rw [if_neg]
    intro named
    -- A claimed row is open.
    have due := (Store.mem_dueMessages (Store.mem_dueMessages_of_id stored named)).2
    exact (OutboxMessage.open_of_due due).elim closed.1 closed.2
  | recorded other attempt entryId eventId now settling attempted rows _ =>
    rw [rows]
    refine List.mem_map.mpr ⟨msg, stored, ?_⟩
    rw [if_neg]
    intro named
    simp [settles, settling, attempted, named] at unsettled

/-- After every step, the memory holds copies of rows in flight, each once. -/
theorem step_held (coherent : before.Coherent) (taken : before.step action = some after) :
    (∀ msg ∈ after.processor.held, msg.claimedRow ∈ after.store.outbox.rows) ∧
      (after.processor.held.map (·.id)).Nodup ∧
      (after.processor.draining = false → after.processor.held = []) := by
  -- A row in flight is not open, so it stays unless it is the one being settled.
  have stays : ∀ msg ∈ before.processor.held, before.settles action ≠ some msg.id →
      msg.claimedRow ∈ after.store.outbox.rows := fun msg held other =>
    step_messages taken (coherent.held msg held) (by simp) other
  have keeps (same : after.processor = before.processor) (nothing : before.settles action = none) :
      (∀ msg ∈ after.processor.held, msg.claimedRow ∈ after.store.outbox.rows) ∧
        (after.processor.held.map (·.id)).Nodup ∧
        (after.processor.draining = false → after.processor.held = []) := by
    rw [same]
    exact ⟨fun msg held => stays msg held (by simp [nothing]), coherent.distinct, coherent.idle⟩
  cases step_queue taken with
  | kept nothing _ same => exact keeps same nothing
  | enqueued _ nothing _ _ _ _ same => exact keeps same nothing
  | stopped _ _ _ cancelled _ same => exact keeps same (by simp [settles, cancelled])
  | claimed now _ _ rows same =>
    refine ⟨fun msg handed => ?_, ?_, ?_⟩
    · rw [rows]
      exact Store.claimedRow_mem _ _ _ (by simpa [same, OutboxProcessor.held] using handed)
    · simpa [same, OutboxProcessor.held] using Store.claimDue_nodup before.store now _
    · simp [same, OutboxProcessor.held]
  | heard msg rest result answered due attempted _ same =>
    -- The message moves from the claimed ones to the attempted one.
    have held : after.processor.held = before.processor.held := by
      simp [same, OutboxProcessor.held, due, attempted]
    have busy : before.processor.draining = true := by
      by_contra idle
      have empty := coherent.idle (by simpa using idle)
      simp [OutboxProcessor.held, due] at empty
    rw [held]
    refine ⟨fun msg member => stays msg member (by simp [settles, answered]),
      coherent.distinct, ?_⟩
    simp [same, busy]
  | recorded msg attempt entryId eventId now recorded attempted _ same =>
    -- The settled message leaves the memory, and the others are different from it.
    have held : before.processor.held = msg :: after.processor.held := by
      simp [same, OutboxProcessor.held, OutboxProcessor.settled, attempted]
    have distinct := coherent.distinct
    rw [held, List.map_cons, List.nodup_cons] at distinct
    refine ⟨fun other member => stays other (by simp [held, member]) ?_, distinct.2, ?_⟩
    · simp only [settles, recorded, attempted, Option.map_some, ne_eq, Option.some.injEq]
      intro named
      exact distinct.1 (named ▸ List.mem_map_of_mem member)
    · simp [same, OutboxProcessor.held, OutboxProcessor.settled]
  | caught msg ack message failed attempted _ same =>
    -- The message stays the attempted one, only its outcome is a different one.
    have held : after.processor.held = before.processor.held := by
      simp [same, OutboxProcessor.held, attempted]
    rw [held]
    refine ⟨fun msg member => stays msg member (by simp [settles, failed]),
      coherent.distinct, ?_⟩
    intro idle
    exact coherent.idle (by simpa [same] using idle)
  | escaped _ _ _ _ _ _ _ same | crashed _ _ same =>
    -- The two steps that empty the memory leave nothing to hold.
    have empty : after.processor.held = [] := by
      simp [same, OutboxProcessor.held]
    rw [empty]
    exact ⟨fun _ member => absurd member List.not_mem_nil, List.nodup_nil, fun _ => rfl⟩

/-- A message that was delivered or parked is never touched again. -/
theorem step_final (coherent : before.Coherent) (taken : before.step action = some after)
    {msg : OutboxMessage} (stored : msg ∈ before.store.outbox.rows)
    (final : msg.status = .done ∨ msg.status = .dead) : msg ∈ after.store.outbox.rows := by
  refine step_messages taken stored ⟨?_, ?_⟩ ?_
  · rcases final with done | dead <;> simp_all
  · rcases final with done | dead <;> simp_all
  · -- The message that a step settles is a row in flight.
    intro settled
    cases action with
    | operate operation =>
      cases operation with
      | record entryId eventId now =>
        obtain ⟨⟨claimed, attempt⟩, attempted, named⟩ := Option.map_eq_some_iff.mp settled
        have row := coherent.held claimed (by simp [OutboxProcessor.held, attempted])
        rw [← Table.eq_of_key_eq row stored named] at final
        simp at final
      | _ => cases settled
    | _ => cases settled

/-- Every step keeps the service coherent. -/
theorem step_coherent (coherent : before.Coherent) (taken : before.step action = some after) :
    after.Coherent where
  -- Each part is kept by its own lemma.
  shown id := by
    obtain ⟨progress, shown⟩ := coherent.shown id
    obtain ⟨target, _, reached⟩ := step_shows coherent taken id shown
    exact ⟨target, reached⟩
  orphans := step_orphans coherent taken
  loaded := step_loaded coherent taken
  held := (step_held coherent taken).1
  distinct := (step_held coherent taken).2.1
  idle := (step_held coherent taken).2.2

/-- Whatever the system of record answers, the service is coherent in every state it reaches. -/
theorem Reachable.coherent {service : Service} (reached : Reachable service) : service.Coherent :=
  Runs.Reachable.invariant coherent_init
    (fun _ _ _ _ coherent _ taken => step_coherent coherent taken) reached

/-- A claimed message belongs to a stored request, which is still concerned with it. -/
theorem Coherent.of_held {service : Service} (coherent : service.Coherent) {msg : OutboxMessage}
    (held : msg ∈ service.processor.held) {progress : Progress}
    (shown : (service.store.dossier msg.requestId).Shows progress) :
    progress.delivering = some msg.type ∧
      ∃ request, service.store.requests.find msg.requestId = some request ∧
        progress.status = some request.status ∧ msg.OwnedBy request.terms := by
  -- The row in flight carries the owner, and the copy differs from it in no owned column.
  have row := coherent.held msg held
  obtain ⟨request, found, _, status, owned⟩ := Store.exists_request_of_held rfl row shown
  have own := owned.messages _ (Store.mem_dossier rfl row)
  exact ⟨Store.delivering_of_held rfl row shown, request, found, status,
    ⟨own.owner, own.key, own.payload, own.positive⟩⟩

end Service

end TimeOff
