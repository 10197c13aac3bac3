import TimeOff.Propagation.ExactlyOnce
import TimeOff.Transport.Linkage

/-!
Debits and credits over a network that delays, loses and reorders requests.

Each of them still counts once, whichever of its requests arrives first.
-/

namespace TimeOff

namespace Progress

variable {progress : Progress} {type : OutboxType}

/-- A message that is done belongs to a request that has recorded its acknowledgement. -/
theorem settled_of_done (listed : (type, OutboxStatus.done) ∈ progress.messages) :
    (type = .debit ∧ ∃ version, progress.debitVersion = some version) ∨
      type = .credit ∧ ∃ version absorbed, progress = .refunded version absorbed := by
  -- The message list of each progress says which of its messages are done.
  cases progress with
  | approved debit | abandoned debit =>
    rw [messages, List.mem_singleton] at listed
    exact absurd (Prod.mk.inj listed).2.symm debit.status_ne_done
  | committed version _ | overtaken version _ =>
    rw [messages, List.mem_singleton] at listed
    exact Or.inl ⟨(Prod.mk.inj listed).1, version, rfl⟩
  | cancelling version _ credit =>
    rcases List.mem_cons.mp listed with debit | rest
    · exact Or.inl ⟨(Prod.mk.inj debit).1, version, rfl⟩
    · rw [List.mem_singleton] at rest
      exact absurd (Prod.mk.inj rest).2.symm credit.status_ne_done
  | refunded version absorbed =>
    rcases List.mem_cons.mp listed with debit | rest
    · exact Or.inl ⟨(Prod.mk.inj debit).1, version, rfl⟩
    · rw [List.mem_singleton] at rest
      exact Or.inr ⟨(Prod.mk.inj rest).1, version, absorbed, rfl⟩
  | failed => cases List.mem_singleton.mp listed
  | _ => cases listed

/-- A commit carries the version with which the debit was acknowledged. -/
theorem stamped_of_commit {state : LedgerState} {stamp : Option Int}
    (listed : (LedgerPhase.commit, state, stamp) ∈ progress.entries) :
    ∃ version, stamp = some version ∧ progress.debitVersion = some version := by
  -- A commit is listed in the four progresses that have one, with the version of the debit.
  cases progress with
  | committed version _ | cancelling version _ _ | overtaken version _ | refunded version _ =>
    simp only [entries, List.mem_cons, Prod.mk.injEq, reduceCtorEq, false_and, false_or,
      true_and, List.not_mem_nil, or_false] at listed
    exact ⟨version, listed.2, rfl⟩
  | held | approved | rejected | released | failed | abandoned =>
    cases List.mem_singleton.mp listed
  | _ => cases listed

/-- Three of the statuses say that nothing was written to the outbox. -/
theorem messages_of_status {request : TimeOffRequest}
    (status : progress.status = some request.status)
    (unapproved : request.status = .draft ∨ request.status = .pendingApproval ∨
      request.status = .rejected) : progress.messages = [] := by
  -- Each of them is the status of one progress.
  cases progress with
  | unknown => cases status
  | draft | withdrawn | held | rejected | released => rfl
  | _ => rcases unapproved with same | same | same <;> cases status.trans (congrArg some same)

/-- Nothing is handed over of a request that has no message. -/
theorem not_handed (none_ : progress.messages = []) : ¬progress.Handed type := by
  -- A failed request has the debit that was refused, and any other has sent what it has.
  rintro (sent | ⟨_, rfl⟩)
  · cases progress with
    | unknown | draft | withdrawn | held | rejected | released => cases type <;> exact sent
    | _ => cases none_
  · cases none_

end Progress

namespace Deployment

variable {deployment : Deployment}

/-- A request that was not approved: an approval writes a message, and no message is deleted. -/
def Unapproved (deployment : Deployment) (request : TimeOffRequest) : Prop :=
  request.status = .draft ∨ request.status = .pendingApproval ∨ request.status = .rejected ∨
    ∀ msg ∈ deployment.service.store.outbox.rows, msg.requestId ≠ request.id

/-- What one request has done to the account on the other side of the network. -/
structure Propagates (deployment : Deployment) (request : TimeOffRequest) : Prop where
  -- A debit or a credit changes the row of its pair once, by its days, or nothing at all.
  once : ∀ (type : OutboxType) k, HcmCore.changesBy (type.key request.id) k deployment.account =
    if k = key request.employeeId request.locationId ∧
        deployment.exchange.core.applies (type.key request.id) = true then
      [type.signed request.days]
    else []
  -- A credit is served after the debit was acknowledged.
  ordered : ∀ made ∈ deployment.account, HcmCore.Carries (creditKey request.id) made →
    ∃ ack, made.1.Acknowledged (debitKey request.id) ack
  -- What counts as delivered was acknowledged, and its commit has the version of that.
  delivered : ∀ msg ∈ deployment.service.store.outbox.rows, msg.requestId = request.id →
    msg.status = .done → ∃ ack, deployment.exchange.core.Acknowledged msg.idempotencyKey ack
  stamped : ∀ entry ∈ deployment.service.store.ledger.rows, entry.requestId = some request.id →
    entry.phase = .commit → ∃ ack,
      deployment.exchange.core.Acknowledged (debitKey request.id) ack ∧
        entry.hcmVersion = some ack.version
  -- Nothing of a request reaches the other side that was not approved.
  unsent : deployment.Unapproved request → ∀ made ∈ deployment.account, ∀ type : OutboxType,
    ¬HcmCore.Carries (type.key request.id) made

/-- Every delta that was served is that of a message that was handed over. -/
theorem Linked.handed (linked : deployment.Linked) {cmd : ApplyDeltaCommand} {now : Time}
    (asked : .applyDelta cmd now ∈ deployment.exchange.log.filterMap Happening.asCall) :
    ∃ msg : OutboxMessage, msg.command = cmd ∧ deployment.service.Handed msg := by
  obtain ⟨happening, logged, named⟩ := List.mem_filterMap.mp asked
  -- Only calls are deltas, and every call was made by the client.
  cases happening with
  | controlled control at_ => cases control <;> cases named
  | served index call at_ =>
    obtain ⟨made, listed, rfl⟩ := linked.logged index call at_ logged
    apply linked.sent made listed
    cases called : made.call with
    | getBalance => simp [called, Happening.asCall, HcmRequest.asCall] at named
    | applyDelta other =>
      simp only [called, Happening.asCall, HcmRequest.asCall, Option.some.injEq,
        HcmCall.applyDelta.injEq] at named
      rw [named.1]

/-- A message with a key of a stored request is one of its messages. -/
theorem owner_of_key {service : Service} {msg : OutboxMessage} (handed : service.Handed msg)
    {request : TimeOffRequest} (found : service.store.requests.find request.id = some request)
    {type : OutboxType} (same : msg.idempotencyKey = type.key request.id) :
    msg.type = type ∧ msg.requestId = request.id ∧ msg.OwnedBy request.terms := by
  -- The key names the type and the request.
  obtain ⟨other, stored, own⟩ := handed.owned
  have named : other.id = msg.requestId := Table.key_of_find stored
  obtain ⟨rfl, sameId⟩ := OutboxType.key_injective (own.key.symm.trans same)
  have here : other.id = request.id := sameId
  rw [← named, here, found] at stored
  cases stored
  exact ⟨rfl, named.symm, own⟩

/-- A call with a key of a stored request delivers a message that was handed over for it. -/
theorem Linked.handed_of_carries (linked : deployment.Linked) {request : TimeOffRequest}
    (found : deployment.service.store.requests.find request.id = some request)
    {progress : Progress}
    (shown : (deployment.service.store.dossier request.id).Shows progress)
    {made : HcmCore × HcmCall} (member : made ∈ deployment.account) {type : OutboxType}
    (carries : HcmCore.Carries (type.key request.id) made) : progress.Handed type := by
  -- The call is in the log, so its message was handed over.
  have asked := HcmCore.mem_of_history member
  obtain ⟨_, cmd, now, rfl, named⟩ := HcmCore.exists_command carries
  obtain ⟨msg, rfl, handed⟩ := linked.handed asked
  obtain ⟨rfl, belongs, _⟩ := owner_of_key handed found named
  exact handed.handed progress (belongs ▸ shown)

/-- A request that was not approved has no message, also when it was withdrawn. -/
theorem Unapproved.messages {request : TimeOffRequest}
    (unapproved : deployment.Unapproved request)
    (found : deployment.service.store.requests.find request.id = some request)
    {progress : Progress}
    (shown : (deployment.service.store.dossier request.id).Shows progress) :
    progress.messages = [] := by
  have status := shown.status_eq found
  rcases unapproved with draft | pending | rejected | unwritten
  · exact Progress.messages_of_status status (Or.inl draft)
  · exact Progress.messages_of_status status (Or.inr (Or.inl pending))
  · exact Progress.messages_of_status status (Or.inr (Or.inr rejected))
  · -- The messages of a progress are those that are stored for the request.
    rw [← shown.messages, List.map_eq_nil_iff]
    refine List.eq_nil_iff_forall_not_mem.mpr fun msg member => ?_
    obtain ⟨stored, belongs⟩ := Store.mem_messagesOf.mp member
    exact unwritten msg stored belongs

/-- Where the two sides are linked, every message of a stored request counts once. -/
theorem Linked.propagates (linked : deployment.Linked) {id : String} {request : TimeOffRequest}
    (found : deployment.service.store.requests.find id = some request) :
    deployment.Propagates request := by
  obtain rfl := Table.key_of_find found
  obtain ⟨progress, shown⟩ := linked.coherent.shown request.id
  constructor
  · -- Every call with the key is that of one message, which fixes the row and the days.
    intro type k
    rw [account, ← linked.core_eq]
    refine HcmCore.changesBy_history rfl (fun cmd now asked named => ?_) k
    obtain ⟨msg, rfl, handed⟩ := linked.handed asked
    obtain ⟨rfl, _, own⟩ := owner_of_key handed found named
    exact ⟨own.rowKey, own.signed, own.signed_ne_zero⟩
  · exact linked.ordered request.id
  · intro msg stored belongs done
    have member := Store.mem_messagesOf.mpr ⟨stored, belongs⟩
    have own := (shown.owned request found).messages msg member
    have listed : (msg.type, OutboxStatus.done) ∈ progress.messages := by
      rw [← shown.messages, ← done]
      exact List.mem_map_of_mem member
    -- A message that is done is recorded in the progress, and so acknowledged.
    have settled := linked.settled request.id progress shown
    have key : msg.idempotencyKey = msg.type.key request.id := own.key
    rw [key]
    rcases Progress.settled_of_done listed with ⟨type, version, stamped⟩ | ⟨type, version, _, same⟩
    · rw [type]
      obtain ⟨ack, known, _⟩ := settled.debited version stamped
      exact ⟨ack, known⟩
    · rw [type]
      exact settled.credited version _ same
  · intro entry stored belongs commit
    have member := Store.mem_entriesOf.mpr ⟨stored, belongs⟩
    have listed : (LedgerPhase.commit, entry.state, entry.hcmVersion) ∈ progress.entries := by
      rw [← shown.entries, ← commit]
      exact List.mem_map_of_mem member
    -- The version of the commit is that of the acknowledgement.
    obtain ⟨version, stamp, stamped⟩ := Progress.stamped_of_commit listed
    obtain ⟨ack, known, rfl⟩ :=
      (linked.settled request.id progress shown).debited version stamped
    exact ⟨ack, known, stamp⟩
  · intro unapproved made member type carries
    exact Progress.not_handed (unapproved.messages found shown)
      (linked.handed_of_carries found shown member carries)

/--
Over a network that delays, loses, reorders and repeats requests, with a circuit that opens and
processes that crash, every debit and every credit still counts once.

A request that its caller has given up may arrive at any later time: it is the one that counts, or
it changes nothing.
-/
theorem propagates_over_http {failureThreshold cooldownMs : Option Int}
    (reached : Deployment.Reachable WithoutReset failureThreshold cooldownMs deployment)
    {id : String} {request : TimeOffRequest}
    (found : deployment.service.store.requests.find id = some request) :
    deployment.Propagates request :=
  reached.linked.propagates found

/-- A debit times out, is sent again and committed, and then the first request arrives after all. -/
def lateRun : List DeploymentAction :=
  [.control (.seed "e" "l" 10) 0, .read .firstLoad "e" "l" 0, .arrive 0 0, .respond 0 0,
    .finishRead 0 "unused" 0,
    .operate (.create "r" ⟨"e", "l", "2025-01-06", "2025-01-08", 3, none, true⟩ none),
    .operate (.submit "r" "hold"), .operate (.approve "r" "debit" 0), .operate (.drain 0),
    .deliver 0, .fail 1 "timeout" 5000, .hear, .operate (.record "unused" "drift" 5000),
    .operate (.drain 6000), .deliver 6000, .arrive 2 6100, .respond 2 6200, .hear,
    .operate (.record "commit" "drift" 6300), .arrive 1 9000]

/-- Both requests of that run have arrived, and the days were taken once. -/
theorem propagates_over_http_late : ∃ deployment request,
    deployment.service.store.requests.find "r" = some request ∧ request.status = .committed ∧
      deployment.exchange.log.length = 4 ∧ Propagates deployment request ∧
      HcmCore.changesBy (debitKey request.id) (key "e" "l") deployment.account = [-3] := by
  have executed : (Runs.run step (fun deployment action => decide (deployment.WithoutReset action))
      (init none none) lateRun).map (fun deployment =>
        decide ((deployment.service.store.requests.find "r").any fun request =>
          request.status = .committed ∧ request.employeeId = "e" ∧ request.locationId = "l" ∧
            request.days = 3 ∧ request.id = "r") &&
          decide (deployment.exchange.log.length = 4) &&
          deployment.exchange.core.applies (debitKey "r")) = some true := by
    decide +kernel
  obtain ⟨deployment, reached, ended⟩ :=
    Runs.exists_reachable_of_run (fun _ _ permitted => of_decide_eq_true permitted) executed
  simp only [Bool.and_eq_true, decide_eq_true_eq] at ended
  obtain ⟨⟨stored, arrived⟩, applied⟩ := ended
  obtain ⟨request, found, terms⟩ := (Option.any_eq_true _ _).mp stored
  obtain ⟨committed, employee, location, days, named⟩ := of_decide_eq_true terms
  have propagates := propagates_over_http reached found
  refine ⟨deployment, request, found, committed, arrived, propagates, ?_⟩
  -- The debit has an effect, so its one change is in the account.
  have once := propagates.once .debit (key "e" "l")
  rw [OutboxType.key, named, employee, location, applied, if_pos ⟨rfl, rfl⟩, days] at once
  rw [named]
  exact once

end Deployment

end TimeOff
