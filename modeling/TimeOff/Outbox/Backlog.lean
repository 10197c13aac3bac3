import TimeOff.Outbox.Reclaim
import TimeOff.Outbox.Rows
import TimeOff.System.Calls
import TimeOff.System.Draining

/-! Drains of a system of record that answers clear the backlog, fifty messages at a time. -/

namespace TimeOff

/-- The messages that wait for a delivery. -/
def Store.backlog (store : Store) : List OutboxMessage :=
  store.outbox.rows.filter fun msg => msg.status = .pending ∨ msg.status = .failed

/-- Drain at one instant after the other, each time to the end. -/
def Store.drainEach {σ : Type} (hcm : IHcmClient σ) (draws : Nat → Draw) :
    List Time → Store → σ → Store × σ
  | [], store, remote => (store, remote)
  | now :: rest, store, remote =>
    -- A claim is limited, so the draws of the later drains are counted off first.
    let (_, drained, remote) := store.drainOnce hcm remote false now fun i =>
      draws (rest.length * OutboxService.claimLimit + i)
    drainEach hcm draws rest drained remote

namespace Progress

variable {progress middle target : Progress}

/-- Whether a message of the request waits for a delivery. -/
def Waiting (progress : Progress) : Prop :=
  ∃ type, (type, .pending) ∈ progress.messages ∨ (type, .failed) ∈ progress.messages

/-- What an answer makes of a request whose message is in flight. -/
inductive Delivered : Progress → Progress → Prop
  | committed (version : Int) : Delivered (.approved .inflight) (.committed version false)
  | failed : Delivered (.approved .inflight) .failed
  | overtaken (version : Int) : Delivered (.abandoned .inflight) (.overtaken version false)
  | stopped : Delivered (.abandoned .inflight) (.abandoned .dead)
  | refunded (version : Int) (absorbed : Bool) :
      Delivered (.cancelling version absorbed .inflight) (.refunded version absorbed)
  | parked (version : Int) (absorbed : Bool) :
      Delivered (.cancelling version absorbed .inflight) (.cancelling version absorbed .dead)

/-- What a drain makes of a request whose message has waited. -/
inductive Caught : Progress → Progress → Prop
  | committed (debit : Undelivered) (version : Int) :
      Caught (.approved debit) (.committed version false)
  | failed (debit : Undelivered) : Caught (.approved debit) .failed
  | overtaken (debit : Undelivered) (version : Int) :
      Caught (.abandoned debit) (.overtaken version false)
  | stopped (debit : Undelivered) : Caught (.abandoned debit) (.abandoned .dead)
  | refunded (version : Int) (absorbed : Bool) (credit : Undelivered) :
      Caught (.cancelling version absorbed credit) (.refunded version absorbed)
  -- A refused credit stays behind, for a human to look at.
  | parked (version : Int) (absorbed : Bool) (credit : Undelivered) :
      Caught (.cancelling version absorbed credit) (.cancelling version absorbed .dead)

/-- An answer that is recorded delivers the message in flight. -/
theorem delivered_of_next {event : Event} (moves : progress.next event = some target)
    (answer : (∃ version, event = .acknowledged version) ∨ event = .refused) :
    Delivered progress target := by
  -- Only an answer to what is in flight is recorded.
  cases steps_of_next moves with
  | commit version => exact .committed version
  | overtake version => exact .overtaken version
  | refund version absorbed credited => exact .refunded version absorbed
  | fail => exact .failed
  | refuseAbandoned => exact .stopped
  | refuseCredit version absorbed => exact .parked version absorbed
  | _ => simp at answer

/-- Nothing of a request is in flight once it is delivered. -/
theorem Delivered.delivering (delivered : Delivered progress target) :
    target.delivering = none := by
  cases delivered <;> rfl

/-- Nothing of a request waits once it is delivered. -/
theorem Caught.not_waiting (caught : Caught progress target) : ¬target.Waiting := by
  rintro ⟨type, listed⟩
  cases caught <;> simp [messages, Undelivered.status] at listed

/-- A request whose message is claimed and then delivered is caught up with. -/
theorem caught_of_claimed (claimed : progress.next .claimed = some middle)
    (delivered : Delivered middle target) : Caught progress target := by
  -- A claim puts in flight what waited, and the answer delivers it from there.
  cases steps_of_next claimed with
  | claimApproved _ =>
    cases delivered with
    | committed version => exact .committed _ version
    | failed => exact .failed _
  | claimAbandoned _ =>
    cases delivered with
    | overtaken version => exact .overtaken _ version
    | stopped => exact .stopped _
  | claimCredit version absorbed _ =>
    cases delivered with
    | refunded => exact .refunded version absorbed _
    | parked => exact .parked version absorbed _

/-- What is claimed has waited. -/
theorem waiting_of_claimed (claimed : progress.next .claimed = some middle) :
    progress.Waiting := by
  -- A claim takes a debit or the credit, and only while it is open.
  cases steps_of_next claimed with
  | claimApproved open_ =>
    exact ⟨.debit, by rcases open_ with rfl | rfl <;> simp [messages, Undelivered.status]⟩
  | claimAbandoned open_ =>
    exact ⟨.debit, by rcases open_ with rfl | rfl <;> simp [messages, Undelivered.status]⟩
  | claimCredit _ _ open_ =>
    exact ⟨.credit, by rcases open_ with rfl | rfl <;> simp [messages, Undelivered.status]⟩

end Progress

/-- Only a transient failure counts as an error. -/
theorem Attempt.unavailable_of_errored {result : Except HcmError ApplyDeltaAck} {message : String}
    (errored : Attempt.ofResult result = .errored message) :
    result = .error (.unavailable message) := by
  cases result with
  | ok ack => cases errored
  | error error =>
    cases error with
    | rejection code reason => cases errored
    | unavailable text =>
      cases errored
      rfl

/-- With no failure left to inject every call is answered, and none is left afterwards. -/
theorem HcmCore.applyDelta_healthy {core : HcmCore} (healthy : core.faults.failuresToInject ≤ 0)
    (now : Time) (cmd : ApplyDeltaCommand) :
    (core.applyDelta now cmd).1.faults.failuresToInject ≤ 0 ∧
      ∀ message, Attempt.ofResult (core.applyDelta now cmd).2 ≠ .errored message := by
  have spent : ¬0 < core.faults.failuresToInject := Int.not_lt.mpr healthy
  refine ⟨?_, fun message errored => ?_⟩
  · rw [failures_applyDelta, if_neg fun failing => spent failing.2]
    exact healthy
  · exact spent (applyDelta_unavailable (Attempt.unavailable_of_errored errored)).2

/-- An answer takes the row of its message out of the queue. -/
theorem Attempt.settledRow_answered {attempt : Attempt}
    (answered : ∀ message, attempt ≠ .errored message) (msg row : OutboxMessage) (now : Time) :
    (attempt.settledRow msg now row).status = .done ∨
      (attempt.settledRow msg now row).status = .dead := by
  cases attempt with
  | acked ack => exact Or.inl rfl
  | refused message => exact Or.inr rfl
  | errored message => exact absurd rfl (answered message)

/-- An answer is an acknowledgement or a refusal for its request. -/
theorem Attempt.event_answered {attempt : Attempt}
    (answered : ∀ message, attempt ≠ .errored message) (msg : OutboxMessage) :
    (∃ version, attempt.event msg = .acknowledged version) ∨ attempt.event msg = .refused := by
  cases attempt with
  | acked ack => exact Or.inl ⟨ack.version, rfl⟩
  | refused message => exact Or.inr rfl
  | errored message => exact absurd rfl (answered message)

namespace Store

variable {store after : Store} {now : Time}

/-- Settled rows leave the queue, and the others stay in it. -/
theorem backlog_settled {settle : OutboxMessage → OutboxMessage} {ids : List String}
    (rows : after.outbox.rows = store.outbox.rows.map settle)
    (settles : ∀ row,
      (row.id ∈ ids → (settle row).status = .done ∨ (settle row).status = .dead) ∧
        (row.id ∉ ids → settle row = row)) :
    after.backlog = store.backlog.filter fun msg => msg.id ∉ ids := by
  -- Row by row, a settled one leaves the queue and another stays in it.
  unfold backlog
  rw [rows]
  induction store.outbox.rows with
  | nil => rfl
  | cons row rest ih =>
    rw [List.map_cons, List.filter_cons, ih, List.filter_cons]
    by_cases taken : row.id ∈ ids
    · have left : ¬((settle row).status = .pending ∨ (settle row).status = .failed) := by
        rcases (settles row).1 taken with done | dead
        · simp [done]
        · simp [dead]
      simp only [left, decide_false, Bool.false_eq_true, if_false]
      split
      · simp [taken]
      · rfl
    · rw [(settles row).2 taken]
      split
      · simp [taken]
      · rfl

/-- While every message that waits is due, these are all that are due. -/
theorem filter_due (due : ∀ msg ∈ store.backlog, msg.due now = true) :
    store.outbox.rows.filter (·.due now) = store.backlog := by
  apply List.filter_congr
  intro msg stored
  rw [Bool.eq_iff_iff, decide_eq_true_eq]
  exact ⟨OutboxMessage.open_of_due, fun open_ => due msg (by simp [backlog, stored, open_])⟩

/-- While every message that waits is due, a claim takes as many of them as it may. -/
theorem length_backlog_left (due : ∀ msg ∈ store.backlog, msg.due now = true) (limit : Nat) :
    (store.backlog.filter fun msg =>
      msg.id ∉ (store.dueMessages now limit).map (·.id)).length =
        store.backlog.length - limit := by
  have same := filter_due due
  have claimed : (store.dueMessages now limit).length = min limit store.backlog.length := by
    rw [dueMessages, List.length_take, (store.perm_dueByAge now).length_eq, same]
  have unique : store.outbox.rows.Nodup := List.Nodup.of_map _ store.outbox.nodup
  have taken : (store.backlog.filter fun msg =>
      msg.id ∈ (store.dueMessages now limit).map (·.id)).Perm (store.dueMessages now limit) := by
    have queue : store.backlog.Nodup := unique.filter _
    have sorted := (store.perm_dueByAge now).nodup_iff.mpr (unique.filter _)
    have chosen : (store.dueMessages now limit).Nodup := (List.take_sublist limit _).nodup sorted
    rw [List.perm_ext_iff_of_nodup (queue.filter _) chosen]
    intro msg
    rw [List.mem_filter, decide_eq_true_eq]
    constructor
    · rintro ⟨waits, named⟩
      exact mem_dueMessages_of_id (List.mem_filter.mp waits).1 named
    · intro selected
      obtain ⟨stored, open_⟩ := mem_dueMessages selected
      exact ⟨same ▸ List.mem_filter.mpr ⟨stored, open_⟩, List.mem_map_of_mem selected⟩
  -- What a claim takes and what it leaves make up the queue.
  have both := store.backlog.length_eq_length_filter_add fun msg =>
    decide (msg.id ∈ (store.dueMessages now limit).map (·.id))
  rw [taken.length_eq, claimed] at both
  simp only [← decide_not] at both
  omega

/-- From some instant on every message that waits is due. -/
theorem exists_due (scheduled : ∀ row ∈ store.outbox.rows, row.status = .failed →
      row.nextAttemptAt.isSome = true) :
    ∃ later, ∀ now, later ≤ now → ∀ msg ∈ store.backlog, msg.due now = true := by
  have reclaimable : ∀ msg ∈ store.backlog, msg.Reclaimable := by
    intro msg member
    obtain ⟨stored, open_⟩ := List.mem_filter.mp member
    exact OutboxMessage.reclaimable (scheduled msg stored) (of_decide_eq_true open_)
  generalize store.backlog = queue at reclaimable ⊢
  induction queue with
  | nil => exact ⟨0, fun _ _ _ member => nomatch member⟩
  | cons msg rest ih =>
    obtain ⟨first, own⟩ := reclaimable msg List.mem_cons_self
    obtain ⟨later, others⟩ := ih fun other member =>
      reclaimable other (List.mem_cons_of_mem _ member)
    -- The last of these instants is late enough for all of them.
    refine ⟨max first later, fun now after other member => ?_⟩
    rcases List.mem_cons.mp member with rfl | member
    · exact own now ((le_max_left first later).trans after)
    · exact others now ((le_max_right first later).trans after) other member

end Store

/-- In every reachable state, a message to be retried has its date. -/
theorem Service.Reachable.scheduled {service : Service} (reached : Service.Reachable service) :
    ∀ row ∈ service.store.outbox.rows, row.status = .failed →
      row.nextAttemptAt.isSome = true := by
  -- Only a retry puts a row back as failed, and it does so with a date.
  induction reached with
  | start => exact fun _ member => nomatch member
  | step earlier _ taken scheduled =>
    intro row member failed
    cases step_queue taken with
    | kept _ rows _ | heard _ _ _ _ _ _ rows _ | caught _ _ _ _ _ rows _
    | escaped _ _ _ _ _ _ rows _ | crashed _ rows _ =>
      exact scheduled row (rows ▸ member) failed
    | enqueued msg _ pending _ _ rows _ =>
      rw [rows] at member
      rcases List.mem_append.mp member with old | new
      · exact scheduled row old failed
      · obtain rfl := List.mem_singleton.mp new
        cases pending.symm.trans failed
    | stopped id _ _ _ rows _ =>
      rw [rows] at member
      obtain ⟨source, stored, rfl⟩ := List.mem_map.mp member
      split at failed
      · rename_i own
        rw [if_pos own]
        unfold OutboxMessage.stopped at failed ⊢
        split at failed
        · cases failed
        · rename_i closed
          rw [if_neg closed]
          exact scheduled source stored failed
      · rename_i other
        simpa [other] using scheduled source stored failed
    | claimed now _ _ rows _ =>
      rw [rows, Store.rows_claimDue] at member
      obtain ⟨source, stored, rfl⟩ := List.mem_map.mp member
      split at failed
      · cases failed
      · rename_i other
        simpa [other] using scheduled source stored failed
    | recorded msg attempt _ _ now _ _ rows _ =>
      rw [rows] at member
      obtain ⟨source, stored, rfl⟩ := List.mem_map.mp member
      split at failed
      · rename_i own
        simpa [own] using (tracked_settledRow [] attempt msg source now).scheduled failed
      · rename_i other
        simpa [other] using scheduled source stored failed

namespace System

variable {draws : Nat → Draw} {due : List OutboxMessage} {before after : System}

/-- Deliveries that are answered settle the rows that were claimed, and no others. -/
theorem Delivers.rows (delivers : Delivers draws due before after)
    (healthy : before.hcm.faults.failuresToInject ≤ 0) :
    after.hcm.faults.failuresToInject ≤ 0 ∧ ∃ settle : OutboxMessage → OutboxMessage,
      after.service.store.outbox.rows = before.service.store.outbox.rows.map settle ∧
      ∀ row, (settle row).id = row.id ∧
        (row.id ∈ due.map (·.id) → (settle row).status = .done ∨ (settle row).status = .dead) ∧
        (row.id ∉ due.map (·.id) → settle row = row) := by
  -- One delivery settles one row, and the later ones leave it settled.
  induction delivers with
  | ended => exact ⟨healthy, id, by simp, fun row => ⟨rfl, by simp, fun _ => rfl⟩⟩
  | @next msg rest before called recorded after _ _ _ _ _ both _ ih =>
    obtain ⟨store, hcm⟩ := Prod.mk.inj both
    obtain ⟨still, answered⟩ := HcmCore.applyDelta_healthy healthy (draws rest.length).called
      msg.command
    obtain ⟨last, settle, rows, settles⟩ := ih (hcm ▸ still)
    let attempt := Attempt.ofResult
      (before.hcm.applyDelta (draws rest.length).called msg.command).2
    refine ⟨last, fun row => settle (if row.id = msg.id then
      attempt.settledRow msg (draws rest.length).recorded row else row), ?_, fun row => ?_⟩
    · rw [rows, store]
      simp only [inProcessHcmClient, Store.rows_recordAttempt, List.map_map]
      rfl
    · by_cases own : row.id = msg.id
      · have named := attempt.settledRow_id msg (draws rest.length).recorded row
        have kept := settles (attempt.settledRow msg (draws rest.length).recorded row)
        simp only [own, if_true, List.map_cons, List.mem_cons, true_or, not_true_eq_false,
          false_implies, and_true, true_implies]
        refine ⟨kept.1.trans (named.trans own), ?_⟩
        by_cases again : msg.id ∈ rest.map (·.id)
        · exact kept.2.1 (by rwa [named, own])
        · rw [kept.2.2 (by rwa [named, own])]
          exact Attempt.settledRow_answered answered msg row _
      · have kept := settles row
        simp only [own, if_false, List.map_cons, List.mem_cons, false_or]
        exact kept

/-- Deliveries that are answered deliver the requests of their messages, and no others. -/
theorem Delivers.progress (delivers : Delivers draws due before after)
    (reached : System.Reachable (fun _ _ => True) before)
    (healthy : before.hcm.faults.failuresToInject ≤ 0) {id : String} {progress : Progress}
    (shown : (before.service.store.dossier id).Shows progress) :
    System.Reachable (fun _ _ => True) after ∧
      ∃ target, (after.service.store.dossier id).Shows target ∧
        ((∃ msg ∈ due, msg.requestId = id) → progress.Delivered target) ∧
        ((∀ msg ∈ due, msg.requestId ≠ id) → target = progress) := by
  -- A request is delivered once, for nothing of it is in flight afterwards.
  induction delivers generalizing progress with
  | ended => exact ⟨reached, progress, shown, by simp, fun _ => rfl⟩
  | @next msg rest before called recorded after _ first same attempted second both _ ih =>
    obtain ⟨_, hcm⟩ := Prod.mk.inj both
    obtain ⟨still, answered⟩ := HcmCore.applyDelta_healthy healthy (draws rest.length).called
      msg.command
    have heard : System.Reachable (fun _ _ => True) called := .step reached trivial first
    have settled : System.Reachable (fun _ _ => True) recorded := .step heard trivial second
    obtain ⟨moved, next, shows⟩ := Service.step_shows heard.service.coherent
      (step_operate second).1 id (same ▸ shown)
    have event : called.service.event id (.operate (.record (draws rest.length).entryId
        (draws rest.length).eventId (draws rest.length).recorded)) =
          if msg.requestId = id then some ((Attempt.ofResult (before.hcm.applyDelta
            (draws rest.length).called msg.command).2).event msg) else none :=
      Service.event_of_subject (by simp [Service.subject, attempted]) id
    obtain ⟨final, target, reads, rests, stays⟩ := ih settled (hcm ▸ still) shows
    refine ⟨final, target, reads, ?_⟩
    rw [event] at next
    by_cases own : msg.requestId = id
    · rw [if_pos own] at next
      have delivered := Progress.delivered_of_next next (Attempt.event_answered answered msg)
      have kept : target = moved := by
        refine stays fun other member named => ?_
        have twice := rests ⟨other, member, named⟩
        have none_ := delivered.delivering
        cases twice <;> cases none_
      exact ⟨fun _ => kept ▸ delivered, fun none_ => absurd own (none_ msg List.mem_cons_self)⟩
    · rw [if_neg own] at next
      cases next
      refine ⟨fun some_ => rests ?_, fun none_ => stays fun other member =>
        none_ other (List.mem_cons_of_mem _ member)⟩
      obtain ⟨other, member, named⟩ := some_
      rcases List.mem_cons.mp member with rfl | member
      · exact absurd named own
      · exact ⟨other, member, named⟩

/-- The system between two drains, while its other side answers every call. -/
structure Ready (system : System) : Prop where
  reached : System.Reachable (fun _ _ => True) system
  idle : system.service.processor.draining = false
  healthy : system.hcm.faults.failuresToInject ≤ 0

/-- The steps a drain consists of. -/
def Drains : Action → Prop
  | .operate (.drain _) | .operate (.record _ _ _) | .deliver .answered _ => True
  | _ => False

/-- What drains have done when so many messages could be taken from the queue. -/
structure Drained (before after : System) (taken : Nat) : Prop where
  ready : after.Ready
  ran : ∃ actions, (∀ action ∈ actions, Drains action) ∧
    Runs.run step (fun _ _ => true) before actions = some after
  fewer : after.service.store.backlog.length = before.service.store.backlog.length - taken
  queued : ∀ msg ∈ after.service.store.backlog, msg ∈ before.service.store.backlog
  -- A request is caught up with, or is where it was.
  moved : ∀ id progress, (before.service.store.dossier id).Shows progress →
    ∃ target, (after.service.store.dossier id).Shows target ∧
      (target = progress ∨ progress.Waiting ∧ progress.Caught target)

/-- Before the first drain nothing is done. -/
theorem Ready.drained {system : System} (ready : system.Ready) : Drained system system 0 :=
  ⟨ready, ⟨[], fun _ member => (nomatch member), rfl⟩, rfl, fun _ member => member,
    fun _ progress shown => ⟨progress, shown, Or.inl rfl⟩⟩

/-- Drains that follow one another add up. -/
theorem Drained.trans {before middle after : System} {first second : Nat}
    (earlier : Drained before middle first) (later : Drained middle after second) :
    Drained before after (first + second) where
  ready := later.ready
  ran := by
    obtain ⟨once, own, first⟩ := earlier.ran
    obtain ⟨again, others, second⟩ := later.ran
    refine ⟨once ++ again, fun action member => ?_, Runs.run_append first second⟩
    exact (List.mem_append.mp member).elim (own action) (others action)
  fewer := by rw [later.fewer, earlier.fewer, Nat.sub_sub]
  queued msg member := earlier.queued msg (later.queued msg member)
  moved id progress shown := by
    obtain ⟨caught, shows, once⟩ := earlier.moved id progress shown
    obtain ⟨target, reads, twice⟩ := later.moved id caught shows
    refine ⟨target, reads, ?_⟩
    -- What was caught up with does not wait any more, and stays where it is.
    rcases once with rfl | ⟨waiting, caughtUp⟩
    · exact twice
    · rcases twice with rfl | ⟨again, _⟩
      · exact Or.inr ⟨waiting, caughtUp⟩
      · exact absurd again caughtUp.not_waiting

/-- A drain delivers and records, and nothing else. -/
theorem drains_of_deliveries (draws : Nat → Draw) (due : List OutboxMessage) :
    ∀ action ∈ deliveries draws due, Drains action := by
  -- Each message is one delivery and one record.
  induction due with
  | nil => exact fun _ member => nomatch member
  | cons msg rest ih =>
    intro action member
    simp only [deliveries, List.mem_cons] at member
    rcases member with rfl | rfl | member
    · exact trivial
    · exact trivial
    · exact ih action member

/-- A drain takes fifty messages from the queue, or all there are. -/
theorem Ready.exists_drained {system : System} (ready : system.Ready) {now : Time}
    (due : ∀ msg ∈ system.service.store.backlog, msg.due now = true) {draws : Nat → Draw}
    {base : Nat}
    (fresh : system.service.store.FreshDraws draws (base + OutboxService.claimLimit)) :
    ∃ final, Drained system final OutboxService.claimLimit ∧
      (final.service.store, final.hcm) = (system.service.store.drainOnce inProcessHcmClient
        system.hcm false now fun i => draws (base + i)).2 ∧
      final.service.store.FreshDraws draws base := by
  obtain ⟨claimed, first, store, hcm, held⟩ := step_claim now ready.idle
  have limited : (system.service.store.claimDue now).1.length ≤ OutboxService.claimLimit := by
    simp only [Store.claimDue, Store.dueMessages, List.length_map, List.length_take]
    exact Nat.min_le_left _ _
  have unused : claimed.service.store.FreshDraws draws
      (base + (system.service.store.claimDue now).1.length) := by
    have few := fresh.mono (Nat.add_le_add_left limited base)
    rw [store]
    exact ⟨few.entry, few.event, few.entries, few.events⟩
  obtain ⟨final, delivers, left⟩ := exists_delivers draws base _ held unused
  have reached : System.Reachable (fun _ _ => True) claimed := .step ready.reached trivial first
  obtain ⟨healthy, settle, rows, settles⟩ := delivers.rows (hcm ▸ ready.healthy)
  -- A claimed row is settled, and every other row is the one it was.
  have ids : (system.service.store.claimDue now).1.map (·.id) =
      (system.service.store.dueMessages now OutboxService.claimLimit).map (·.id) := by
    simp [Store.claimDue, Function.comp_def]
  rw [ids] at settles
  have queue : final.service.store.backlog = system.service.store.backlog.filter fun msg =>
      msg.id ∉ (system.service.store.dueMessages now OutboxService.claimLimit).map (·.id) := by
    rw [store, Store.rows_claimDue, List.map_map] at rows
    refine Store.backlog_settled rows fun row => ⟨fun named => ?_, fun other => ?_⟩
    · rw [Function.comp_apply, if_pos named]
      exact (settles row.claimedRow).2.1 named
    · rw [Function.comp_apply, if_neg other]
      exact (settles row).2.2 other
  refine ⟨final, ⟨⟨?_, by rw [delivers.run.2], healthy⟩, ?_, ?_, ?_, ?_⟩, ?_, left⟩
  · exact Runs.reachable_of_run (fun _ _ _ => trivial) reached delivers.run.1
  · refine ⟨.operate (.drain now) :: deliveries (fun i => draws (base + i))
      (system.service.store.claimDue now).1, fun action member => ?_, ?_⟩
    · rcases List.mem_cons.mp member with rfl | member
      · exact trivial
      · exact drains_of_deliveries _ _ action member
    · simp only [Runs.run, if_true, first, Option.bind_some]
      exact delivers.run.1
  · rw [queue]
    exact Store.length_backlog_left due OutboxService.claimLimit
  · intro msg member
    rw [queue] at member
    exact (List.mem_filter.mp member).1
  · intro id progress shown
    obtain ⟨middle, next, shows⟩ := Service.step_shows ready.reached.service.coherent
      (step_operate first).1 id shown
    obtain ⟨_, target, reads, delivered, stays⟩ := delivers.progress reached
      (hcm ▸ ready.healthy) shows
    refine ⟨target, reads, ?_⟩
    simp only [Service.event, List.any_eq_true, decide_eq_true_eq] at next
    split at next
    · rename_i some_
      exact Or.inr ⟨Progress.waiting_of_claimed next,
        Progress.caught_of_claimed next (delivered some_)⟩
    · rename_i none_
      cases next
      exact Or.inl (stays fun msg member named => none_ ⟨msg, member, named⟩)
  · have done := delivers.deliverEach
    rw [store, hcm] at done
    simp only [Store.drainOnce, Bool.false_eq_true, if_false, done]

/-- Drains at instants when everything is due take fifty messages each. -/
theorem Ready.exists_drainedEach {times : List Time} : ∀ {system : System}, system.Ready →
    (∀ now ∈ times, ∀ msg ∈ system.service.store.backlog, msg.due now = true) →
    ∀ {draws : Nat → Draw},
      system.service.store.FreshDraws draws (times.length * OutboxService.claimLimit) →
    ∃ final, Drained system final (times.length * OutboxService.claimLimit) ∧
      system.service.store.drainEach inProcessHcmClient draws times system.hcm =
        (final.service.store, final.hcm) := by
  -- What waits after the first drain waited before, so it is due at the later instants too.
  induction times with
  | nil =>
    intro system ready _ draws _
    rw [List.length_nil, Nat.zero_mul]
    exact ⟨system, ready.drained, rfl⟩
  | cons now rest ih =>
    intro system ready due draws fresh
    rw [List.length_cons, Nat.succ_mul] at fresh ⊢
    obtain ⟨middle, drained, same, left⟩ :=
      ready.exists_drained (due now List.mem_cons_self) fresh
    obtain ⟨final, others, ended⟩ := ih drained.ready
      (fun at_ member msg queued =>
        due at_ (List.mem_cons_of_mem _ member) msg (drained.queued msg queued)) left
    refine ⟨final, Nat.add_comm .. ▸ drained.trans others, ?_⟩
    rw [Store.drainEach]
    simp only [← same, ended]

/-- Late enough, drains that may take as many messages as there are leave none. -/
theorem Ready.exists_cleared {system : System} (ready : system.Ready) :
    ∃ later, ∀ times : List Time, (∀ now ∈ times, later ≤ now) →
      system.service.store.backlog.length ≤ times.length * OutboxService.claimLimit →
      ∀ draws, system.service.store.FreshDraws draws (times.length * OutboxService.claimLimit) →
      ∃ final, Drained system final (times.length * OutboxService.claimLimit) ∧
        system.service.store.drainEach inProcessHcmClient draws times system.hcm =
          (final.service.store, final.hcm) ∧ final.service.store.backlog = [] := by
  -- Late enough everything is due, and each drain takes as many as it may.
  obtain ⟨later, due⟩ := Store.exists_due ready.reached.service.scheduled
  refine ⟨later, fun times late enough draws fresh => ?_⟩
  obtain ⟨final, drained, ended⟩ :=
    ready.exists_drainedEach (fun now member => due now (late now member)) fresh
  refine ⟨final, drained, ended, ?_⟩
  apply List.eq_nil_of_length_eq_zero
  rw [drained.fewer]
  exact Nat.sub_eq_zero_of_le enough

/-- Without a queue no request waits. -/
theorem not_waiting_of_empty {store : Store} (empty : store.backlog = []) {id : String}
    {progress : Progress} (shown : (store.dossier id).Shows progress) : ¬progress.Waiting := by
  -- A message of the request that waits is one that is queued.
  have queued (type : OutboxType) (status : OutboxStatus)
      (open_ : status = .pending ∨ status = .failed) : (type, status) ∉ progress.messages := by
    intro listed
    rw [← shown.messages] at listed
    obtain ⟨msg, member, view⟩ := List.mem_map.mp listed
    have stored : msg ∈ store.outbox.rows := (Store.mem_messagesOf.mp member).1
    have claimable : msg.status = .pending ∨ msg.status = .failed := (Prod.mk.inj view).2 ▸ open_
    have waits : msg ∈ store.backlog := List.mem_filter.mpr ⟨stored, decide_eq_true claimable⟩
    rw [empty] at waits
    cases waits
  rintro ⟨type, pending | failed⟩
  · exact queued type .pending (Or.inl rfl) pending
  · exact queued type .failed (Or.inr rfl) failed

/--
From every reachable state there is an instant after which drains of a system of record that
answers clear the queue, fifty messages at a time.

Every request whose message has waited is caught up with then, and no other has moved.
-/
theorem backlog_clears {system : System} (reached : System.Reachable (fun _ _ => True) system)
    (idle : system.service.processor.draining = false)
    (healthy : system.hcm.faults.failuresToInject ≤ 0) :
    ∃ later, ∀ times : List Time, (∀ now ∈ times, later ≤ now) →
      system.service.store.backlog.length ≤ times.length * OutboxService.claimLimit →
      ∀ draws, system.service.store.FreshDraws draws (times.length * OutboxService.claimLimit) →
      ∃ final, System.Reachable (fun _ _ => True) final ∧
        system.service.store.drainEach inProcessHcmClient draws times system.hcm =
          (final.service.store, final.hcm) ∧
        final.service.store.backlog = [] ∧ final.service.processor.draining = false ∧
        ∀ id progress, (system.service.store.dossier id).Shows progress →
          ∃ target, (final.service.store.dossier id).Shows target ∧
            (progress.Waiting → progress.Caught target) ∧
            (¬progress.Waiting → target = progress) := by
  have ready : system.Ready := ⟨reached, idle, healthy⟩
  obtain ⟨later, clears⟩ := ready.exists_cleared
  refine ⟨later, fun times late enough draws fresh => ?_⟩
  obtain ⟨final, drained, ended, empty⟩ := clears times late enough draws fresh
  refine ⟨final, drained.ready.reached, ended, empty, drained.ready.idle,
    fun id progress shown => ?_⟩
  obtain ⟨target, reads, moved⟩ := drained.moved id progress shown
  refine ⟨target, reads, fun waiting => ?_, fun still => ?_⟩
  · -- A request that is where it was would still wait.
    rcases moved with rfl | ⟨_, caught⟩
    · exact absurd waiting (not_waiting_of_empty empty reads)
    · exact caught
  · rcases moved with rfl | ⟨waiting, _⟩
    · rfl
    · exact absurd waiting still

/-- After that run one message waits, and nothing keeps it from being delivered. -/
theorem approvedRun_waits : ∃ system, System.Reachable WithoutGhosts system ∧
    system.service.store.backlog.length = 1 ∧ system.service.processor.draining = false ∧
      system.hcm.faults.failuresToInject ≤ 0 ∧
      ∀ b ∈ system.service.store.balances.rows,
        key b.employeeId b.locationId ∉ system.hcm.faults.invalidDimensions := by
  have executed : (run WithoutGhosts approvedRun).map (fun system =>
      decide (system.service.store.backlog.length = 1) &&
        decide (system.service.processor.draining = false) &&
        decide (system.hcm.faults.failuresToInject ≤ 0) &&
        decide (∀ b ∈ system.service.store.balances.rows,
          key b.employeeId b.locationId ∉ system.hcm.faults.invalidDimensions)) = some true := by
    decide +kernel
  obtain ⟨system, reached, ended⟩ := exists_reachable_of_run executed
  simp only [Bool.and_eq_true, decide_eq_true_eq] at ended
  obtain ⟨⟨⟨one, idle⟩, healthy⟩, valid⟩ := ended
  exact ⟨system, reached, one, idle, healthy, valid⟩

/-- One message is claimed by one drain. -/
theorem backlog_le_one {store : Store} (one : store.backlog.length = 1) (later : Time) :
    store.backlog.length ≤ [later].length * OutboxService.claimLimit := by
  rw [one, List.length_singleton]
  decide

/-- A debit that was approved is delivered by one drain, late enough. -/
theorem backlog_clears_approved : ∃ (system final : System) (now : Time) (draws : Nat → Draw),
    system.service.store.backlog.length = 1 ∧ System.Reachable (fun _ _ => True) final ∧
      system.service.store.drainEach inProcessHcmClient draws [now] system.hcm =
        (final.service.store, final.hcm) ∧ final.service.store.backlog = [] := by
  obtain ⟨system, reached, one, idle, healthy, _⟩ := approvedRun_waits
  obtain ⟨later, clears⟩ := backlog_clears (reached.mono fun _ _ _ => trivial) idle healthy
  obtain ⟨draws, fresh⟩ := system.service.store.exists_freshDraws
    ([later].length * OutboxService.claimLimit)
  obtain ⟨final, drained, ended, empty, _⟩ := clears [later]
    (fun now member => (List.mem_singleton.mp member).ge) (backlog_le_one one later) draws fresh
  exact ⟨system, final, later, draws, one, drained, ended, empty⟩

end System

end TimeOff
