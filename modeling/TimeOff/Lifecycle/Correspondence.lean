import TimeOff.Lifecycle.Coherence

/-! What the ledger and the outbox hold for a request in each status, in every reachable state. -/

namespace TimeOff

namespace Progress

variable {progress : Progress} {status : RequestStatus}

/-- A progress lists an open hold exactly while its request is waiting or approved. -/
theorem openHolds (current : progress.status = some status) :
    (progress.entries.filter fun seen => seen.1 = .reserve ∧ seen.2.1 = .active) =
      if status = .pendingApproval ∨ status = .approved
        then [(.reserve, .active, none)] else [] := by
  -- The status column decides the kind up to the cancelled ones, none of which holds days.
  cases progress <;> cases current <;> simp [entries]

/-- A progress lists at most one commit. -/
theorem commits_length : (progress.entries.filter fun seen => seen.1 = .commit).length ≤ 1 := by
  cases progress <;> simp [entries]

/-- A committed request, its cancellation pending or not, has a commit that was not released. -/
theorem openCommit (current : progress.status = some status)
    (committed : status = .committed ∨ status = .cancellationPending) :
    ∃ version absorbed, (progress.entries.filter fun seen => seen.1 = .commit) =
      [(.commit, if absorbed = true then .reconciled else .active, some version)] := by
  -- Two kinds of progress have these statuses, and both list their commit last.
  cases progress with
  | committed version absorbed => exact ⟨version, absorbed, by simp [entries]⟩
  | cancelling version absorbed credit => exact ⟨version, absorbed, by simp [entries]⟩
  | _ => cases current <;> simp at committed

/-- A progress lists at most one message of each type. -/
theorem messages_length (type : OutboxType) :
    (progress.messages.filter fun seen => seen.1 = type).length ≤ 1 := by
  cases type <;> cases progress <;> simp [messages]

/-- Before an approval, and after a rejection, no message is listed. -/
theorem messages_early (current : progress.status = some status)
    (early : status = .draft ∨ status = .pendingApproval ∨ status = .rejected) :
    progress.messages = [] := by
  -- No message is written before the approval, and a rejection comes instead of it.
  cases progress <;> cases current <;> simp [messages] at early ⊢

theorem eq_cancelling (pending : progress.status = some .cancellationPending) :
    ∃ version absorbed credit, progress = .cancelling version absorbed credit := by
  cases progress <;> simp_all [Progress.status]

theorem eq_failed (failed : progress.status = some .failed) : progress = .failed := by
  cases progress <;> simp_all [Progress.status]

/-- Among the cancelled kinds of progress, only the refunded one lists a credit. -/
theorem eq_refunded (cancelled : progress.status = some .cancelled) {delivery : OutboxStatus}
    (listed : (.credit, delivery) ∈ progress.messages) :
    ∃ version absorbed, progress = .refunded version absorbed := by
  -- The other cancelled kinds list a debit at most.
  cases progress <;> simp_all [Progress.status, messages]

end Progress

namespace Store

/-- The holds of a request that are still open. -/
def activeHolds (store : Store) (id : String) : List BalanceLedgerEntry :=
  (store.entriesOf id).filter fun entry => entry.phase = .reserve ∧ entry.state = .active

/-- Every commit a request ever had. -/
def commits (store : Store) (id : String) : List BalanceLedgerEntry :=
  (store.entriesOf id).filter fun entry => entry.phase = .commit

/-- The messages of one type a request ever had. -/
def messagesOfType (store : Store) (id : String) (type : OutboxType) : List OutboxMessage :=
  (store.messagesOf id).filter fun msg => msg.type = type

/-- What the ledger holds for a request, by its status. -/
structure LedgerMatches (store : Store) (request : TimeOffRequest) : Prop where
  -- One open hold of the requested days while the request waits or is approved, else none.
  holding : request.status = .pendingApproval ∨ request.status = .approved →
    ∃ hold, store.activeHolds request.id = [hold] ∧ hold.amount = request.days ∧
      hold.pair = request.pair
  free : ¬(request.status = .pendingApproval ∨ request.status = .approved) →
    store.activeHolds request.id = []
  -- At most one commit ever, and one that still counts after the acknowledgement.
  oneCommit : (store.commits request.id).length ≤ 1
  committed : request.status = .committed ∨ request.status = .cancellationPending →
    ∃ commit, store.commits request.id = [commit] ∧ commit.amount = request.days ∧
      (commit.state = .active ∨ commit.state = .reconciled)
  draft : request.status = .draft → store.entriesOf request.id = []

/-- What the outbox holds for a request, by its status. -/
structure OutboxMatches (store : Store) (request : TimeOffRequest) : Prop where
  -- Never a second message of one type.
  oneOfEach : ∀ type, (store.messagesOfType request.id type).length ≤ 1
  early : request.status = .draft ∨ request.status = .pendingApproval ∨
    request.status = .rejected → store.messagesOf request.id = []
  approved : request.status = .approved →
    ∃ debit, store.messagesOf request.id = [debit] ∧ debit.type = .debit ∧
      debit.payload.amount = request.days ∧ debit.status ≠ .done
  committed : request.status = .committed →
    ∃ debit, store.messagesOf request.id = [debit] ∧ debit.type = .debit ∧ debit.status = .done
  -- The credit waits behind the delivered debit.
  cancellationPending : request.status = .cancellationPending →
    ∃ debit credit, store.messagesOf request.id = [debit, credit] ∧
      debit.type = .debit ∧ debit.status = .done ∧ credit.type = .credit ∧ credit.status ≠ .done
  failed : request.status = .failed →
    ∃ debit, store.messagesOf request.id = [debit] ∧ debit.type = .debit ∧ debit.status = .dead
  -- A cancelled request with a credit was committed, and both messages are delivered.
  cancelled : request.status = .cancelled →
    (∃ credit ∈ store.messagesOf request.id, credit.type = .credit) →
      ∃ debit credit, store.messagesOf request.id = [debit, credit] ∧
        debit.type = .debit ∧ debit.status = .done ∧ credit.type = .credit ∧ credit.status = .done

section Reading

variable {store : Store} {request : TimeOffRequest} {progress : Progress}

/-- The views of the open holds are the open holds among the listed views. -/
theorem map_view_activeHolds (shown : (store.dossier request.id).Shows progress) :
    (store.activeHolds request.id).map (·.view) =
      progress.entries.filter fun seen => seen.1 = .reserve ∧ seen.2.1 = .active := by
  -- Selecting entries by phase and state is selecting their views.
  rw [← shown.entries]
  simp [activeHolds, dossier, List.filter_map, Function.comp_def, BalanceLedgerEntry.view]

/-- The views of the commits are the commits among the listed views. -/
theorem map_view_commits (shown : (store.dossier request.id).Shows progress) :
    (store.commits request.id).map (·.view) =
      progress.entries.filter fun seen => seen.1 = .commit := by
  rw [← shown.entries]
  simp [commits, dossier, List.filter_map, Function.comp_def, BalanceLedgerEntry.view]

/-- A dossier that shows a progress is matched by the ledger. -/
theorem ledgerMatches_of_shows (found : store.requests.find request.id = some request)
    (shown : (store.dossier request.id).Shows progress) : store.LedgerMatches request := by
  -- Each part is read off the list of entries that the progress stands for.
  have status := shown.status_eq found
  have holds := map_view_activeHolds shown
  have commits := map_view_commits shown
  have owned := shown.owned request found
  constructor
  · intro waiting
    rw [Progress.openHolds status, if_pos waiting] at holds
    obtain ⟨hold, only, _⟩ := List.map_eq_singleton_iff.mp holds
    have member : hold ∈ store.entriesOf request.id :=
      (List.mem_filter.mp (only ▸ List.mem_singleton_self hold)).1
    exact ⟨hold, only, (owned.entries hold member).amount, (owned.entries hold member).pair⟩
  · intro settled
    rw [Progress.openHolds status, if_neg settled] at holds
    exact List.map_eq_nil_iff.mp holds
  · rw [← List.length_map (·.view), commits]
    exact Progress.commits_length
  · intro committed
    obtain ⟨version, absorbed, listed⟩ := Progress.openCommit status committed
    obtain ⟨commit, only, seen⟩ := List.map_eq_singleton_iff.mp (commits.trans listed)
    have member : commit ∈ store.entriesOf request.id :=
      (List.mem_filter.mp (only ▸ List.mem_singleton_self commit)).1
    refine ⟨commit, only, (owned.entries commit member).amount, ?_⟩
    -- The state column tells whether a snapshot has absorbed the commit.
    have state : commit.state = if absorbed = true then .reconciled else .active :=
      congrArg (·.2.1) seen
    cases absorbed
    · exact Or.inl state
    · exact Or.inr state
  · intro draft
    obtain rfl := Progress.eq_draft (status.trans (congrArg some draft))
    exact List.map_eq_nil_iff.mp shown.entries

/-- The views of the messages of one type are those of the type among the listed views. -/
theorem map_view_messagesOfType (shown : (store.dossier request.id).Shows progress)
    (type : OutboxType) :
    (store.messagesOfType request.id type).map (·.view) =
      progress.messages.filter fun seen => seen.1 = type := by
  rw [← shown.messages]
  simp [messagesOfType, dossier, List.filter_map, Function.comp_def, OutboxMessage.view]

/-- Two listed messages are a pair of messages with those views. -/
theorem messages_of_pair {first second : OutboxType × OutboxStatus}
    (listed : (store.messagesOf request.id).map (·.view) = [first, second]) :
    ∃ debit credit, store.messagesOf request.id = [debit, credit] ∧
      debit.view = first ∧ credit.view = second := by
  -- The list is taken apart from its head, as its views are.
  obtain ⟨debit, rest, same, seen, restSeen⟩ := List.map_eq_cons_iff.mp listed
  obtain ⟨credit, rfl, creditSeen⟩ := List.map_eq_singleton_iff.mp restSeen
  exact ⟨debit, credit, same, seen, creditSeen⟩

/-- A dossier that shows a progress is matched by the outbox. -/
theorem outboxMatches_of_shows (found : store.requests.find request.id = some request)
    (shown : (store.dossier request.id).Shows progress) : store.OutboxMatches request := by
  -- Each part is read off the list of messages that the progress stands for.
  have status := shown.status_eq found
  have owned := shown.owned request found
  have listed : (store.messagesOf request.id).map (·.view) = progress.messages := shown.messages
  constructor
  · intro type
    rw [← List.length_map (·.view), map_view_messagesOfType shown]
    exact Progress.messages_length type
  · intro early
    rw [Progress.messages_early status early] at listed
    exact List.map_eq_nil_iff.mp listed
  · intro approved
    obtain ⟨debit, rfl⟩ := Progress.eq_approved (status.trans (congrArg some approved))
    obtain ⟨msg, only, seen⟩ := List.map_eq_singleton_iff.mp listed
    have member : msg ∈ store.messagesOf request.id := only ▸ List.mem_singleton_self msg
    have payload := (owned.messages msg member).payload
    refine ⟨msg, only, congrArg Prod.fst seen, congrArg OutboxPayload.amount payload, ?_⟩
    -- The debit of an approved request is not delivered, whatever became of it.
    have delivery : msg.status = debit.status := congrArg Prod.snd seen
    exact delivery ▸ debit.status_ne_done
  · intro committed
    obtain ⟨_, _, rfl⟩ := Progress.eq_committed (status.trans (congrArg some committed))
    obtain ⟨msg, only, seen⟩ := List.map_eq_singleton_iff.mp listed
    exact ⟨msg, only, congrArg Prod.fst seen, congrArg Prod.snd seen⟩
  · intro pending
    obtain ⟨_, _, open_, rfl⟩ := Progress.eq_cancelling (status.trans (congrArg some pending))
    obtain ⟨debit, credit, only, debitSeen, creditSeen⟩ := messages_of_pair listed
    have delivery : credit.status = open_.status := congrArg Prod.snd creditSeen
    exact ⟨debit, credit, only, congrArg Prod.fst debitSeen, congrArg Prod.snd debitSeen,
      congrArg Prod.fst creditSeen, delivery ▸ open_.status_ne_done⟩
  · intro failed
    obtain rfl := Progress.eq_failed (status.trans (congrArg some failed))
    obtain ⟨msg, only, seen⟩ := List.map_eq_singleton_iff.mp listed
    exact ⟨msg, only, congrArg Prod.fst seen, congrArg Prod.snd seen⟩
  · rintro cancelled ⟨credit, member, typed⟩
    -- A credit is listed, so the request was committed and is refunded.
    have creditListed : (OutboxType.credit, credit.status) ∈ progress.messages := by
      rw [← listed, ← typed]
      exact List.mem_map_of_mem member
    obtain ⟨_, _, rfl⟩ :=
      Progress.eq_refunded (status.trans (congrArg some cancelled)) creditListed
    obtain ⟨debit, credit, only, debitSeen, creditSeen⟩ := messages_of_pair listed
    exact ⟨debit, credit, only, congrArg Prod.fst debitSeen, congrArg Prod.snd debitSeen,
      congrArg Prod.fst creditSeen, congrArg Prod.snd creditSeen⟩

end Reading

end Store

namespace Service

variable {service after : Service} {action : ServiceAction}

/--
The ledger agrees with the status of every request, and no step rewrites its history.

A step may change the state of an entry; it never deletes one or changes its amount, phase or owner.
-/
theorem ledger_matches (reached : Service.Reachable service) :
    (∀ id request, service.store.requests.find id = some request →
      service.store.LedgerMatches request) ∧
    ∀ action after, service.step action = some after →
      ∀ entry ∈ service.store.ledger.rows,
        ∃ state, { entry with state := state } ∈ after.store.ledger.rows := by
  -- Every dossier shows some progress, and no step loses an entry.
  constructor
  · intro id request found
    obtain rfl := Table.key_of_find found
    obtain ⟨progress, shown⟩ := reached.coherent.shown request.id
    exact Store.ledgerMatches_of_shows found shown
  · intro action after taken
    exact step_entries reached.coherent taken

/-- A request for three days, from the first load of its balance to its pending cancellation. -/
def cancellingRun : List ServiceAction :=
  [.insertBalance "e" "l" ⟨"e", "l", 10, 1, 0⟩,
    .operate (.create "r" ⟨"e", "l", "2025-01-06", "2025-01-08", 3, none, true⟩ none),
    .operate (.submit "r" "hold"),
    .operate (.approve "r" "debit" 0),
    .operate (.drain 0),
    .answer (.ok ⟨"hcm-ref-1", 7, 2, true, false⟩),
    .operate (.record "commit" "drift" 0),
    .operate (.cancel "r" "credit" 1)]

/-- The run ends in a reachable state in which the cancellation of the request is pending. -/
theorem cancellingRun_reachable : ∃ service, Service.Reachable service ∧
    ∃ request, service.store.requests.find "r" = some request ∧
      request.status = .cancellationPending := by
  -- The run is executed, and its last state is asked for the status.
  have executed : (run cancellingRun).map (fun service =>
      (service.store.requests.find "r").any (·.status = .cancellationPending)) = some true := by
    decide
  obtain ⟨service, reached, found⟩ := exists_reachable_of_run executed
  obtain ⟨request, stored, pending⟩ := (Option.any_eq_true _ _).mp found
  exact ⟨service, reached, request, stored, of_decide_eq_true pending⟩

/-- The ledger matches the request whose cancellation is pending. -/
theorem ledger_matches_cancelling : ∃ (service : Service) (request : TimeOffRequest),
    service.store.requests.find "r" = some request ∧ request.status = .cancellationPending ∧
      Store.LedgerMatches service.store request := by
  obtain ⟨service, reached, request, stored, pending⟩ := cancellingRun_reachable
  exact ⟨service, request, stored, pending, (ledger_matches reached).1 "r" request stored⟩

/-- The outbox agrees with the status of every request, and delivered or parked messages stay. -/
theorem outbox_matches (reached : Service.Reachable service) :
    (∀ id request, service.store.requests.find id = some request →
      service.store.OutboxMatches request) ∧
    ∀ action after, service.step action = some after →
      ∀ msg ∈ service.store.outbox.rows, msg.status = .done ∨ msg.status = .dead →
        msg ∈ after.store.outbox.rows := by
  -- Every dossier shows some progress, and no step reaches a closed message.
  constructor
  · intro id request found
    obtain rfl := Table.key_of_find found
    obtain ⟨progress, shown⟩ := reached.coherent.shown request.id
    exact Store.outboxMatches_of_shows found shown
  · intro action after taken msg stored final
    exact step_final reached.coherent taken stored final

/-- The outbox matches the request whose cancellation is pending. -/
theorem outbox_matches_cancelling : ∃ (service : Service) (request : TimeOffRequest),
    service.store.requests.find "r" = some request ∧ request.status = .cancellationPending ∧
      Store.OutboxMatches service.store request := by
  obtain ⟨service, reached, request, stored, pending⟩ := cancellingRun_reachable
  exact ⟨service, request, stored, pending, (outbox_matches reached).1 "r" request stored⟩

end Service

end TimeOff
