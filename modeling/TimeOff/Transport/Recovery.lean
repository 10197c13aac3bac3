import TimeOff.Outbox.Backlog
import TimeOff.Transport.Exchange

/-! After an outage, once the circuit has cooled down, drains over HTTP clear the queue. -/

namespace TimeOff

/-- Two clients that answer deltas alike, as long as their states correspond. -/
structure IHcmClient.Agrees {σ τ : Type} (left : IHcmClient σ) (right : IHcmClient τ)
    (since : Time) (same : σ → τ → Prop) : Prop where
  applyDelta : ∀ {one : σ} {other : τ} {now : Time}, since ≤ now → same one other →
    ∀ cmd, (left.applyDelta one now cmd).2 = (right.applyDelta other now cmd).2 ∧
      same (left.applyDelta one now cmd).1 (right.applyDelta other now cmd).1

namespace Store

variable {σ τ : Type} {left : IHcmClient σ} {right : IHcmClient τ} {since : Time}
  {same : σ → τ → Prop}

/-- Deliveries cannot tell such clients apart. -/
theorem deliverEach_agrees (agrees : left.Agrees right since same) {draws : Nat → Draw} :
    ∀ {due : List OutboxMessage} {store : Store} {one : σ} {other : τ}, same one other →
      (∀ i < due.length, since ≤ (draws i).called) →
      (deliverEach left draws due store one).1 = (deliverEach right draws due store other).1 ∧
        (deliverEach left draws due store one).2.1 =
          (deliverEach right draws due store other).2.1 ∧
        same (deliverEach left draws due store one).2.2
          (deliverEach right draws due store other).2.2 := by
  intro due
  induction due with
  | nil => exact fun corresponds _ => ⟨rfl, rfl, corresponds⟩
  | cons msg rest ih =>
    intro store one other corresponds late
    -- The first message is answered alike, so the same is recorded of it.
    let draw := draws rest.length
    obtain ⟨answer, kept⟩ := agrees.applyDelta (late rest.length (by simp)) corresponds msg.command
    have delivered :
        (store.deliver left one draw msg).1 = (store.deliver right other draw msg).1 := by
      simp only [deliver, answer, draw]
    -- What a drain delivers first, and the rest from what that leaves.
    have unfolded {υ : Type} (client : IHcmClient υ) (remote : υ) :
        deliverEach client draws (msg :: rest) store remote =
          let first := store.deliver client remote draw msg
          ((deliverEach client draws rest first.1 first.2).1 + 1,
            (deliverEach client draws rest first.1 first.2).2) := rfl
    obtain ⟨count, final, still⟩ := @ih (store.deliver right other draw msg).1
      (store.deliver left one draw msg).2 (store.deliver right other draw msg).2 kept
      fun i below => late i (Nat.lt_succ_of_lt below)
    rw [unfolded, unfolded]
    dsimp only
    rw [delivered]
    exact ⟨congrArg (· + 1) count, final, still⟩

/-- Drains cannot tell such clients apart. -/
theorem drainEach_agrees (agrees : left.Agrees right since same) {draws : Nat → Draw} :
    ∀ {times : List Time} {store : Store} {one : σ} {other : τ}, same one other →
      (∀ i < times.length * OutboxService.claimLimit, since ≤ (draws i).called) →
      (store.drainEach left draws times one).1 = (store.drainEach right draws times other).1 ∧
        same (store.drainEach left draws times one).2
          (store.drainEach right draws times other).2 := by
  intro times
  induction times with
  | nil => exact fun corresponds _ => ⟨rfl, corresponds⟩
  | cons now rest ih =>
    intro store one other corresponds late
    let drawn : Nat → Draw := fun i => draws (rest.length * OutboxService.claimLimit + i)
    -- A drain claims at most fifty messages, and so uses at most fifty draws.
    have limited : (store.claimDue now).1.length ≤ OutboxService.claimLimit := by
      simp only [claimDue, dueMessages, List.length_map, List.length_take]
      exact Nat.min_le_left _ _
    rw [List.length_cons, Nat.succ_mul] at late
    obtain ⟨_, drained, kept⟩ := @deliverEach_agrees _ _ _ _ _ _ agrees drawn
      (store.claimDue now).1 (store.claimDue now).2 one other corresponds fun i below =>
        late _ (Nat.add_lt_add_left (below.trans_le limited) _)
    have unfolded {υ : Type} (client : IHcmClient υ) (remote : υ) :
        store.drainEach client draws (now :: rest) remote =
          let first := deliverEach client drawn (store.claimDue now).1 (store.claimDue now).2 remote
          first.2.1.drainEach client draws rest first.2.2 := rfl
    -- After the first drain the databases are the same, and the clients still correspond.
    rw [unfolded, unfolded]
    dsimp only
    rw [drained]
    exact ih kept fun i below => late i (Nat.lt_of_lt_of_le below (Nat.le_add_right _ _))

end Store

/--
The HTTP client before a server that it reaches at once.

A call is let through, responded to and answered, with its outcome recorded by the circuit.
-/
def HttpHcmClient.through {α : Type} (client : HttpHcmClient) (now : Time) (core : HcmCore)
    (response : HcmCore × HttpReply α) : (HttpHcmClient × HcmCore) × Except HcmError α :=
  let (client, admitted) := client.enter now
  if admitted then
    let (client, told) := client.guarded now response.2
    ((client, response.1), told)
  else ((client, core), .error HttpHcmClient.circuitOpen)

/-- The HTTP client and the server behind it, as a client of the service. -/
def httpHcmClient : IHcmClient (HttpHcmClient × HcmCore) where
  getBalance both now employeeId locationId :=
    both.1.through now both.2 <|
      match (HcmRequest.getBalance employeeId locationId).route with
      | .endpoint =>
        let (core, result) := inProcessHcmClient.getBalance both.2 now employeeId locationId
        (core, MockHcmController.guard result)
      | .corpus => (both.2, .ok (.blank employeeId locationId now))
      | .missing url => (both.2, MockHcmController.notFound url)
  applyDelta both now cmd :=
    let (core, result) := inProcessHcmClient.applyDelta both.2 now cmd
    both.1.through now both.2 (core, MockHcmController.guard result)

/-- A client that counts the calls that it was refused, for statements. -/
def IHcmClient.counting {σ : Type} (client : IHcmClient σ) (refuses : σ → Time → Bool) :
    IHcmClient (σ × Nat) where
  getBalance state now employeeId locationId :=
    let (next, result) := client.getBalance state.1 now employeeId locationId
    ((next, state.2 + if refuses state.1 now then 1 else 0), result)
  applyDelta state now cmd :=
    let (next, result) := client.applyDelta state.1 now cmd
    ((next, state.2 + if refuses state.1 now then 1 else 0), result)

/-- The HTTP client with the number of calls that met an open circuit. -/
def countedHcmClient : IHcmClient ((HttpHcmClient × HcmCore) × Nat) :=
  httpHcmClient.counting fun both now => !(both.1.enter now).2

namespace HttpHcmClient

variable {client : HttpHcmClient} {now since : Time}

/-- The circuit is not open, or has cooled down by some instant. -/
def Cooled (client : HttpHcmClient) (since : Time) : Prop :=
  client.breaker.state = .opened →
    client.breaker.openedAt + client.breaker.opts.cooldownMs ≤ since

/-- A circuit that has cooled down lets a call through, and is not open then. -/
theorem Cooled.enter (cooled : client.Cooled since) (late : since ≤ now) :
    (client.enter now).2 = true ∧ (client.enter now).1.breaker.state ≠ .opened := by
  -- An open circuit that has cooled down half opens when it is asked.
  have probes : (client.breaker.getState now).state ≠ .opened := by
    unfold CircuitBreaker.getState
    split
    · exact nofun
    · rename_i waits
      intro opened
      exact waits ⟨opened, Int.le_sub_left_of_add_le ((cooled opened).trans late)⟩
  exact ⟨decide_eq_true probes, probes⟩

end HttpHcmClient

/-- A server that injects no failure is the same over HTTP, once the circuit has cooled down. -/
theorem httpHcmClient_agrees (since : Time) :
    httpHcmClient.Agrees inProcessHcmClient since fun both core =>
      both.2 = core ∧ both.1.Cooled since ∧ core.faults.failuresToInject ≤ 0 where
  applyDelta {both core now} late corresponds cmd := by
    obtain ⟨rfl, cooled, healthy⟩ := corresponds
    obtain ⟨admitted, open_⟩ := cooled.enter late
    obtain ⟨still, answered⟩ := HcmCore.applyDelta_healthy healthy now cmd
    -- A call that is let through is served, and its outcome is told through the guard.
    have sent : httpHcmClient.applyDelta both now cmd =
        ((((both.1.enter now).1.guarded now
            (MockHcmController.guard (both.2.applyDelta now cmd).2)).1,
          (both.2.applyDelta now cmd).1),
          ((both.1.enter now).1.guarded now
            (MockHcmController.guard (both.2.applyDelta now cmd).2)).2) := by
      simp only [httpHcmClient, HttpHcmClient.through, admitted, if_true, inProcessHcmClient]
    rw [sent, HttpHcmClient.guarded, parse_guard]
    show _ = (both.2.applyDelta now cmd).2 ∧ _ = (both.2.applyDelta now cmd).1 ∧ _
    cases result : (both.2.applyDelta now cmd).2 with
    | ok ack => exact ⟨rfl, rfl, (fun opened => by cases opened), still⟩
    | error error =>
      cases error with
      | rejection code message =>
        -- A refusal leaves the circuit as it was entered.
        exact ⟨rfl, rfl, fun opened => absurd opened open_, still⟩
      | unavailable message => exact absurd (congrArg Attempt.ofResult result) (answered message)

/-- Counting the refused calls changes nothing else. -/
theorem countedHcmClient_counts (since : Time) :
    countedHcmClient.Agrees httpHcmClient since fun counted both => counted.1 = both where
  applyDelta {counted both now} _ same cmd := by
    cases same
    exact ⟨rfl, rfl⟩

/-- Nor does such a client meet an open circuit. -/
theorem countedHcmClient_agrees (since : Time) :
    countedHcmClient.Agrees inProcessHcmClient since fun counted core =>
      (counted.1.2 = core ∧ counted.1.1.Cooled since ∧ core.faults.failuresToInject ≤ 0) ∧
        counted.2 = 0 where
  applyDelta {counted core now} late corresponds cmd := by
    obtain ⟨matched, none_⟩ := corresponds
    obtain ⟨same, still⟩ := (httpHcmClient_agrees since).applyDelta late matched cmd
    refine ⟨same, still, ?_⟩
    -- A circuit that has cooled down refuses nothing.
    have admitted := (matched.2.1.enter late).1
    simp [countedHcmClient, IHcmClient.counting, admitted, none_]

namespace System

/--
After an outage the circuit stands in nobody's way.

Whatever it has counted, once it has cooled down and the system of record answers again, drains
over HTTP leave the service and the other side as drains in the process would, and clear the queue.
None of their calls meets an open circuit.
-/
theorem recovers_over_http {system : System}
    (reached : System.Reachable (fun _ _ => True) system)
    (idle : system.service.processor.draining = false)
    (healthy : system.hcm.faults.failuresToInject ≤ 0) {client : HttpHcmClient} {since : Time}
    (cooled : client.Cooled since) :
    ∃ later, ∀ times : List Time, (∀ now ∈ times, later ≤ now) →
      system.service.store.backlog.length ≤ times.length * OutboxService.claimLimit →
      ∀ draws, system.service.store.FreshDraws draws (times.length * OutboxService.claimLimit) →
      (∀ i < times.length * OutboxService.claimLimit, since ≤ (draws i).called) →
      ∃ (final : System) (reset : HttpHcmClient),
        System.Reachable (fun _ _ => True) final ∧
        system.service.store.drainEach httpHcmClient draws times (client, system.hcm) =
          (final.service.store, reset, final.hcm) ∧
        system.service.store.drainEach inProcessHcmClient draws times system.hcm =
          (final.service.store, final.hcm) ∧
        system.service.store.drainEach countedHcmClient draws times ((client, system.hcm), 0) =
          (final.service.store, (reset, final.hcm), 0) ∧
        final.service.store.backlog = [] ∧ reset.Cooled since := by
  -- The drains in the process clear the queue, and those over HTTP do the same.
  have ready : system.Ready := ⟨reached, idle, healthy⟩
  obtain ⟨later, clears⟩ := ready.exists_cleared
  refine ⟨later, fun times late enough draws fresh afterwards => ?_⟩
  obtain ⟨final, drained, ended, empty⟩ := clears times late enough draws fresh
  have start : (client, system.hcm).2 = system.hcm ∧ (client, system.hcm).1.Cooled since ∧
      system.hcm.faults.failuresToInject ≤ 0 := ⟨rfl, cooled, healthy⟩
  obtain ⟨same, hcm, still, _⟩ := @Store.drainEach_agrees _ _ _ _ _ _ (httpHcmClient_agrees since)
    draws times system.service.store _ _ start afterwards
  rw [ended] at same hcm
  refine ⟨final, _, drained.ready.reached, Prod.ext same (Prod.ext rfl hcm), ended, ?_, empty,
    still⟩
  -- Counting the refused calls changes nothing, and there are none.
  obtain ⟨_, none_⟩ := (@Store.drainEach_agrees _ _ _ _ _ _ (countedHcmClient_agrees since)
    draws times system.service.store ((client, system.hcm), 0) _ ⟨start, rfl⟩ afterwards).2
  obtain ⟨alike, both⟩ := @Store.drainEach_agrees _ _ _ _ _ _ (countedHcmClient_counts since)
    draws times system.service.store ((client, system.hcm), 0) _ rfl afterwards
  exact Prod.ext (alike.trans same) (Prod.ext (both.trans (Prod.ext rfl hcm)) none_)

/-- A client whose calls have failed five times, so that its circuit has just opened. -/
def openedClient : HttpHcmClient :=
  ⟨{ opts := ⟨5, 10000⟩, state := .opened, consecutiveFailures := 5, openedAt := 0 }⟩

/-- Ten seconds after the circuit has opened, an approved debit is delivered over HTTP. -/
theorem recovers_over_http_opened : ∃ (system final : System) (now : Time) (draws : Nat → Draw)
    (reset : HttpHcmClient),
    openedClient.breaker.state = .opened ∧ system.service.store.backlog.length = 1 ∧
      System.Reachable (fun _ _ => True) final ∧
      system.service.store.drainEach httpHcmClient draws [now] (openedClient, system.hcm) =
        (final.service.store, reset, final.hcm) ∧ final.service.store.backlog = [] := by
  obtain ⟨system, reached, one, idle, healthy, _⟩ := approvedRun_waits
  have cooled : openedClient.Cooled 10000 := fun _ => by decide
  obtain ⟨later, recovers⟩ :=
    recovers_over_http (reached.mono fun _ _ _ => trivial) idle healthy cooled
  obtain ⟨draws, fresh⟩ := system.service.store.exists_freshDraws
    ([later].length * OutboxService.claimLimit)
  -- The same names, drawn ten seconds after the circuit has opened.
  let late : Nat → Draw := fun i => { draws i with called := 10000 }
  have unused : system.service.store.FreshDraws late ([later].length * OutboxService.claimLimit) :=
    ⟨fresh.entry, fresh.event, fresh.entries, fresh.events⟩
  obtain ⟨final, reset, drained, ended, _, _, empty, _⟩ := recovers [later]
    (fun now member => (List.mem_singleton.mp member).ge) (backlog_le_one one later) late unused
    fun _ _ => le_rfl
  exact ⟨system, final, later, late, reset, rfl, one, drained, ended, empty⟩

end System

end TimeOff
