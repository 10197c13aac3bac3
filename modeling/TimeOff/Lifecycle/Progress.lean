import TimeOff.Lifecycle.Dossier

/-! The abstract life of one request, and the dossiers that show it. -/

namespace TimeOff

/-- Delivery status of a message that is not delivered. -/
inductive Undelivered where
  | pending
  | inflight
  | failed
  | dead
  deriving DecidableEq, Repr

namespace Undelivered

/-- The status such a message is stored with. -/
def status : Undelivered → OutboxStatus
  | .pending => .pending
  | .inflight => .inflight
  | .failed => .failed
  | .dead => .dead

@[simp] theorem status_ne_done (open_ : Undelivered) : open_.status ≠ .done := by
  cases open_ <;> decide

theorem status_injective {left right : Undelivered} (same : left.status = right.status) :
    left = right := by
  cases left <;> cases right <;> first | rfl | cases same

/-- Only a new message and a failed one can be claimed. -/
def claim : Undelivered → Option Undelivered
  | .pending => some .inflight
  | .failed => some .inflight
  | _ => none

/-- A cancellation stops a message unless it is being delivered. -/
def stop : Undelivered → Undelivered
  | .inflight => .inflight
  | _ => .dead

/-- A failed delivery leaves the message for a retry or parks it. -/
def postpone (parked : Bool) : Undelivered → Option Undelivered
  | .inflight => some (if parked then .dead else .failed)
  | _ => none

/-- A refused delivery parks the message. -/
def refuse : Undelivered → Option Undelivered
  | .inflight => some .dead
  | _ => none

/-- A message that is claimed was new or failed, and is in flight afterwards. -/
theorem claim_some {open_ after : Undelivered} (claimed : open_.claim = some after) :
    (open_ = .pending ∨ open_ = .failed) ∧ after = .inflight := by
  -- A drain takes what waits or has failed, and nothing else.
  cases open_ with
  | pending => cases claimed; exact ⟨Or.inl rfl, rfl⟩
  | failed => cases claimed; exact ⟨Or.inr rfl, rfl⟩
  | inflight | dead => cases claimed

/-- Only a message in flight is postponed. -/
theorem postpone_some {parked : Bool} {open_ after : Undelivered}
    (postponed : open_.postpone parked = some after) :
    open_ = .inflight ∧ after = if parked then .dead else .failed := by
  cases open_ with
  | inflight => cases postponed; exact ⟨rfl, rfl⟩
  | pending | failed | dead => cases postponed

/-- Only a message in flight is refused. -/
theorem refuse_some {open_ after : Undelivered} (refused : open_.refuse = some after) :
    open_ = .inflight ∧ after = .dead := by
  cases open_ with
  | inflight => cases refused; exact ⟨rfl, rfl⟩
  | pending | failed | dead => cases refused

end Undelivered

/--
Where a request stands, together with what the ledger and the outbox hold for it.

A commit carries the version of its acknowledgement, and whether a snapshot has absorbed it.
-/
inductive Progress where
  | unknown
  | draft
  | withdrawn
  | held
  | rejected
  | released
  | approved (debit : Undelivered)
  | failed
  | committed (version : Int) (absorbed : Bool)
  | cancelling (version : Int) (absorbed : Bool) (credit : Undelivered)
  | refunded (version : Int) (absorbed : Bool)
  -- Cancelled while approved, with the debit message not delivered.
  | abandoned (debit : Undelivered)
  -- Cancelled while approved, and acknowledged all the same.
  | overtaken (version : Int) (absorbed : Bool)
  deriving DecidableEq, Repr

/-- What can happen to one request. -/
inductive Event where
  | created
  | submitted
  | approved
  | rejected
  | cancelled
  | claimed
  | acknowledged (version : Int)
  | refused
  | postponed (parked : Bool)
  -- A snapshot of its balance was taken over, with its version.
  | absorbed (version : Int)
  deriving DecidableEq, Repr

namespace Progress

/-- A snapshot absorbs an active commit that was acknowledged in time. -/
def absorb (snapshot : Int) : Progress → Progress
  | .committed version absorbed => .committed version (absorbed || decide (version ≤ snapshot))
  | .cancelling version absorbed credit =>
    .cancelling version (absorbed || decide (version ≤ snapshot)) credit
  | .overtaken version absorbed => .overtaken version (absorbed || decide (version ≤ snapshot))
  -- A snapshot says nothing about a request without an active commit.
  | progress => progress

/-- The legal moves of one request. -/
def next : Progress → Event → Option Progress
  | .unknown, .created => some .draft
  | .draft, .submitted => some .held
  | .held, .approved => some (.approved .pending)
  | .held, .rejected => some .rejected
  | .draft, .cancelled => some .withdrawn
  | .held, .cancelled => some .released
  | .approved debit, .cancelled => some (.abandoned debit.stop)
  | .committed version absorbed, .cancelled => some (.cancelling version absorbed .pending)
  | .approved debit, .claimed => debit.claim.map .approved
  | .abandoned debit, .claimed => debit.claim.map .abandoned
  | .cancelling version absorbed credit, .claimed => credit.claim.map (.cancelling version absorbed)
  | .approved .inflight, .acknowledged version => some (.committed version false)
  -- A late acknowledgement is taken over although the request is cancelled.
  | .abandoned .inflight, .acknowledged version => some (.overtaken version false)
  | .cancelling version absorbed .inflight, .acknowledged _ => some (.refunded version absorbed)
  | .approved .inflight, .refused => some .failed
  | .abandoned debit, .refused => debit.refuse.map .abandoned
  | .cancelling version absorbed credit, .refused =>
    credit.refuse.map (.cancelling version absorbed)
  | .approved debit, .postponed parked => (debit.postpone parked).map .approved
  | .abandoned debit, .postponed parked => (debit.postpone parked).map .abandoned
  | .cancelling version absorbed credit, .postponed parked =>
    (credit.postpone parked).map (.cancelling version absorbed)
  | progress, .absorbed snapshot => some (progress.absorb snapshot)
  | _, _ => none

/-- The legal moves, one by one. -/
inductive Steps : Progress → Event → Progress → Prop
  | create : Steps .unknown .created .draft
  | submit : Steps .draft .submitted .held
  | approve : Steps .held .approved (.approved .pending)
  | reject : Steps .held .rejected .rejected
  | withdraw : Steps .draft .cancelled .withdrawn
  | release : Steps .held .cancelled .released
  | abandon (debit : Undelivered) : Steps (.approved debit) .cancelled (.abandoned debit.stop)
  | compensate (version : Int) (absorbed : Bool) :
      Steps (.committed version absorbed) .cancelled (.cancelling version absorbed .pending)
  | claimApproved {debit : Undelivered} : debit = .pending ∨ debit = .failed →
      Steps (.approved debit) .claimed (.approved .inflight)
  | claimAbandoned {debit : Undelivered} : debit = .pending ∨ debit = .failed →
      Steps (.abandoned debit) .claimed (.abandoned .inflight)
  | claimCredit (version : Int) (absorbed : Bool) {credit : Undelivered} :
      credit = .pending ∨ credit = .failed →
      Steps (.cancelling version absorbed credit) .claimed (.cancelling version absorbed .inflight)
  | commit (version : Int) :
      Steps (.approved .inflight) (.acknowledged version) (.committed version false)
  | overtake (version : Int) :
      Steps (.abandoned .inflight) (.acknowledged version) (.overtaken version false)
  | refund (version : Int) (absorbed : Bool) (credited : Int) :
      Steps (.cancelling version absorbed .inflight) (.acknowledged credited)
        (.refunded version absorbed)
  | fail : Steps (.approved .inflight) .refused .failed
  | refuseAbandoned : Steps (.abandoned .inflight) .refused (.abandoned .dead)
  | refuseCredit (version : Int) (absorbed : Bool) :
      Steps (.cancelling version absorbed .inflight) .refused (.cancelling version absorbed .dead)
  | postponeApproved (parked : Bool) :
      Steps (.approved .inflight) (.postponed parked)
        (.approved (if parked then .dead else .failed))
  | postponeAbandoned (parked : Bool) :
      Steps (.abandoned .inflight) (.postponed parked)
        (.abandoned (if parked then .dead else .failed))
  | postponeCredit (version : Int) (absorbed parked : Bool) :
      Steps (.cancelling version absorbed .inflight) (.postponed parked)
        (.cancelling version absorbed (if parked then .dead else .failed))
  | absorb (progress : Progress) (snapshot : Int) :
      Steps progress (.absorbed snapshot) (progress.absorb snapshot)

/-- A request moves along an event, and stays where it is without one. -/
def hear (progress : Progress) : Option Event → Option Progress
  | some event => progress.next event
  | none => some progress

/-- Every move of a request is one of the legal ones. -/
theorem steps_of_next {progress target : Progress} {event : Event}
    (moves : progress.next event = some target) : Steps progress event target := by
  -- The moves are listed event by event, as the message column decides them.
  cases event with
  | absorbed snapshot =>
    -- A snapshot is taken over in every state, and may change nothing.
    have same : progress.absorb snapshot = target := by
      cases progress <;> exact Option.some.inj moves
    exact same ▸ .absorb progress snapshot
  | claimed =>
    cases progress with
    | approved debit =>
      obtain ⟨_, claimed, rfl⟩ := Option.map_eq_some_iff.mp moves
      obtain ⟨open_, rfl⟩ := Undelivered.claim_some claimed
      exact .claimApproved open_
    | abandoned debit =>
      obtain ⟨_, claimed, rfl⟩ := Option.map_eq_some_iff.mp moves
      obtain ⟨open_, rfl⟩ := Undelivered.claim_some claimed
      exact .claimAbandoned open_
    | cancelling version absorbed credit =>
      obtain ⟨_, claimed, rfl⟩ := Option.map_eq_some_iff.mp moves
      obtain ⟨open_, rfl⟩ := Undelivered.claim_some claimed
      exact .claimCredit version absorbed open_
    | _ => cases moves
  | postponed parked =>
    cases progress with
    | approved debit =>
      obtain ⟨_, postponed, rfl⟩ := Option.map_eq_some_iff.mp moves
      obtain ⟨rfl, rfl⟩ := Undelivered.postpone_some postponed
      exact .postponeApproved parked
    | abandoned debit =>
      obtain ⟨_, postponed, rfl⟩ := Option.map_eq_some_iff.mp moves
      obtain ⟨rfl, rfl⟩ := Undelivered.postpone_some postponed
      exact .postponeAbandoned parked
    | cancelling version absorbed credit =>
      obtain ⟨_, postponed, rfl⟩ := Option.map_eq_some_iff.mp moves
      obtain ⟨rfl, rfl⟩ := Undelivered.postpone_some postponed
      exact .postponeCredit version absorbed parked
    | _ => cases moves
  | acknowledged version =>
    -- An answer concerns the message that is being delivered, whatever the request waits for.
    cases progress with
    | approved debit =>
      cases debit with
      | inflight => cases moves; exact .commit version
      | _ => cases moves
    | abandoned debit =>
      cases debit with
      | inflight => cases moves; exact .overtake version
      | _ => cases moves
    | cancelling debited absorbed credit =>
      cases credit with
      | inflight => cases moves; exact .refund debited absorbed version
      | _ => cases moves
    | _ => cases moves
  | refused =>
    cases progress with
    | approved debit =>
      cases debit with
      | inflight => cases moves; exact .fail
      | _ => cases moves
    | abandoned debit =>
      obtain ⟨_, refused, rfl⟩ := Option.map_eq_some_iff.mp moves
      obtain ⟨rfl, rfl⟩ := Undelivered.refuse_some refused
      exact .refuseAbandoned
    | cancelling version absorbed credit =>
      obtain ⟨_, refused, rfl⟩ := Option.map_eq_some_iff.mp moves
      obtain ⟨rfl, rfl⟩ := Undelivered.refuse_some refused
      exact .refuseCredit version absorbed
    | _ => cases moves
  | _ => cases progress <;> cases moves <;> constructor

/-- The status column of the request. -/
def status : Progress → Option RequestStatus
  | .unknown => none
  | .draft => some .draft
  | .held => some .pendingApproval
  | .rejected => some .rejected
  | .approved _ => some .approved
  | .failed => some .failed
  | .committed _ _ => some .committed
  | .cancelling _ _ _ => some .cancellationPending
  | .withdrawn | .released | .refunded _ _ | .abandoned _ | .overtaken _ _ => some .cancelled

/-- Phase, state and version of each ledger entry of the request. -/
def entries : Progress → List (LedgerPhase × LedgerState × Option Int)
  | .unknown | .draft | .withdrawn => []
  | .held | .approved _ => [(.reserve, .active, none)]
  | .rejected | .released | .failed | .abandoned _ => [(.reserve, .released, none)]
  | .committed version absorbed | .cancelling version absorbed _ | .overtaken version absorbed =>
    [(.reserve, .released, none),
      (.commit, if absorbed then .reconciled else .active, some version)]
  | .refunded version absorbed =>
    [(.reserve, .released, none),
      (.commit, if absorbed then .reconciled else .released, some version)]

/-- Type and status of each outbox message of the request. -/
def messages : Progress → List (OutboxType × OutboxStatus)
  | .unknown | .draft | .withdrawn | .held | .rejected | .released => []
  | .approved debit | .abandoned debit => [(.debit, debit.status)]
  | .failed => [(.debit, .dead)]
  | .committed _ _ | .overtaken _ _ => [(.debit, .done)]
  | .cancelling _ _ credit => [(.debit, .done), (.credit, credit.status)]
  | .refunded _ _ => [(.debit, .done), (.credit, .done)]

/-- The message of the request that is being delivered. -/
def delivering : Progress → Option OutboxType
  | .approved .inflight | .abandoned .inflight => some .debit
  | .cancelling _ _ .inflight => some .credit
  | _ => none

/-- What the columns and rows of a request read as decides its progress. -/
theorem eq_of_reads {left right : Progress} (status : left.status = right.status)
    (entries : left.entries = right.entries) (messages : left.messages = right.messages) :
    left = right := by
  -- The status column leaves only the kinds of a cancelled request to be told apart.
  cases left <;> cases right <;> cases status <;>
    simp only [Progress.entries, Progress.messages, List.cons.injEq, Prod.mk.injEq, and_true,
      true_and, and_false, List.nil_eq, List.cons_ne_nil, Option.some.injEq] at entries messages
  all_goals grind [Undelivered.status_injective, Undelivered.status]

end Progress

/-- The key under which a message of a request is delivered. -/
def OutboxType.key : OutboxType → String → String
  | .debit => debitKey
  | .credit => creditKey

/-- The part of an entry that the progress of its request decides. -/
def BalanceLedgerEntry.view (entry : BalanceLedgerEntry) :
    LedgerPhase × LedgerState × Option Int :=
  (entry.phase, entry.state, entry.hcmVersion)

/-- The part of a message that the progress of its request decides. -/
def OutboxMessage.view (msg : OutboxMessage) : OutboxType × OutboxStatus :=
  (msg.type, msg.status)

/-- The part of an entry that the terms of its request decide. -/
structure BalanceLedgerEntry.OwnedBy (entry : BalanceLedgerEntry) (terms : Terms) : Prop where
  owner : entry.requestId = some terms.id
  pair : entry.pair = (terms.employeeId, terms.locationId)
  amount : entry.amount = terms.days
  positive : 0 < terms.days

/-- The part of a message that the terms of its request decide. -/
structure OutboxMessage.OwnedBy (msg : OutboxMessage) (terms : Terms) : Prop where
  owner : msg.requestId = terms.id
  key : msg.idempotencyKey = msg.type.key terms.id
  payload : msg.payload = ⟨terms.employeeId, terms.locationId, terms.days⟩
  positive : 0 < terms.days

namespace Dossier

/-- A dossier whose entries and messages all belong to one request. -/
structure OwnedBy (dossier : Dossier) (terms : Terms) : Prop where
  entries : ∀ entry ∈ dossier.entries, entry.OwnedBy terms
  messages : ∀ msg ∈ dossier.messages, msg.OwnedBy terms

/-- What a dossier reads as: the status column, the views of its rows, and one owner of all. -/
structure Reads (dossier : Dossier) (status : Option RequestStatus)
    (entries : List (LedgerPhase × LedgerState × Option Int))
    (messages : List (OutboxType × OutboxStatus)) : Prop where
  status : dossier.request.map (·.status) = status
  entries : dossier.entries.map (·.view) = entries
  messages : dossier.messages.map (·.view) = messages
  owned : ∀ request, dossier.request = some request → dossier.OwnedBy request.terms

/-- A dossier shows how far its request has come. -/
abbrev Shows (dossier : Dossier) (progress : Progress) : Prop :=
  dossier.Reads progress.status progress.entries progress.messages

namespace OwnedBy

variable {dossier : Dossier} {terms : Terms}

theorem withRequest (owned : dossier.OwnedBy terms) (request : TimeOffRequest) :
    (dossier.withRequest request).OwnedBy terms :=
  ⟨owned.entries, owned.messages⟩

theorem addEntry (owned : dossier.OwnedBy terms) {entry : BalanceLedgerEntry}
    (own : entry.OwnedBy terms) : (dossier.addEntry entry).OwnedBy terms where
  entries := by
    -- The new entry comes last.
    intro other member
    rcases List.mem_append.mp member with old | new
    · exact owned.entries other old
    · exact List.mem_singleton.mp new ▸ own
  messages := owned.messages

theorem addMessage (owned : dossier.OwnedBy terms) {msg : OutboxMessage}
    (own : msg.OwnedBy terms) : (dossier.addMessage msg).OwnedBy terms where
  entries := owned.entries
  messages := by
    -- The new message comes last.
    intro other member
    rcases List.mem_append.mp member with old | new
    · exact owned.messages other old
    · exact List.mem_singleton.mp new ▸ own

theorem mapEntries (owned : dossier.OwnedBy terms)
    {set : BalanceLedgerEntry → BalanceLedgerEntry}
    (keeps : ∀ entry, entry.OwnedBy terms → (set entry).OwnedBy terms) :
    (dossier.mapEntries set).OwnedBy terms where
  entries := by
    -- Every rewritten entry comes from a stored one.
    intro entry member
    obtain ⟨source, stored, rfl⟩ := List.mem_map.mp member
    exact keeps source (owned.entries source stored)
  messages := owned.messages

theorem mapMessages (owned : dossier.OwnedBy terms) {set : OutboxMessage → OutboxMessage}
    (keeps : ∀ msg, msg.OwnedBy terms → (set msg).OwnedBy terms) :
    (dossier.mapMessages set).OwnedBy terms where
  entries := owned.entries
  messages := by
    intro msg member
    obtain ⟨source, stored, rfl⟩ := List.mem_map.mp member
    exact keeps source (owned.messages source stored)

end OwnedBy

namespace Shows

variable {dossier : Dossier} {progress : Progress}

/-- A dossier shows one progress only. -/
theorem unique (shown : dossier.Shows progress) {other : Progress}
    (shownToo : dossier.Shows other) : progress = other :=
  Progress.eq_of_reads (shown.status.symm.trans shownToo.status)
    (shown.entries.symm.trans shownToo.entries) (shown.messages.symm.trans shownToo.messages)

/-- A stored request has the status of its progress. -/
theorem status_eq (shown : dossier.Shows progress) {request : TimeOffRequest}
    (found : dossier.request = some request) : progress.status = some request.status := by
  rw [← shown.status, found]
  rfl

/-- An entry of the dossier is one of those the progress lists. -/
theorem entry_mem (shown : dossier.Shows progress) {entry : BalanceLedgerEntry}
    (member : entry ∈ dossier.entries) : entry.view ∈ progress.entries := by
  rw [← shown.entries]
  exact List.mem_map_of_mem member

/-- A message of the dossier is one of those the progress lists. -/
theorem message_mem (shown : dossier.Shows progress) {msg : OutboxMessage}
    (member : msg ∈ dossier.messages) : msg.view ∈ progress.messages := by
  rw [← shown.messages]
  exact List.mem_map_of_mem member

/-- Two messages that are both not delivered are one message. -/
theorem eq_of_undelivered (shown : dossier.Shows progress) {left right : OutboxMessage}
    (leftMember : left ∈ dossier.messages) (rightMember : right ∈ dossier.messages)
    (leftOpen : left.status ≠ .done) (rightOpen : right.status ≠ .done) : left = right := by
  -- A progress lists at most one message that is not delivered.
  have listed := shown.messages
  cases progress <;>
    simp only [Progress.messages, List.map_eq_nil_iff, List.map_eq_cons_iff] at listed
  all_goals grind [OutboxMessage.view]

/-- A message that is not delivered belongs to a request that is still concerned with it. -/
theorem exists_delivering (shown : dossier.Shows progress) {msg : OutboxMessage}
    (member : msg ∈ dossier.messages) (inflight : msg.status = .inflight) :
    progress.delivering = some msg.type := by
  -- A message in flight is on the list of three kinds of progress only.
  have listed := shown.message_mem member
  unfold OutboxMessage.view at listed
  rw [inflight] at listed
  cases progress with
  | approved debit | abandoned debit =>
    cases debit <;> simp_all [Progress.messages, Progress.delivering, Undelivered.status]
  | cancelling version absorbed credit =>
    cases credit <;> simp_all [Progress.messages, Progress.delivering, Undelivered.status]
  | _ => simp [Progress.messages] at listed

end Shows

end Dossier

end TimeOff
