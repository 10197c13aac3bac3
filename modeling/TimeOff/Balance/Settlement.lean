import TimeOff.Balance.Books
import TimeOff.Balance.Views
import TimeOff.Ingestion.SafetyNet
import TimeOff.Outbox.Backlog

/-!
Once the queue is drained and every pair was re-pulled, the two sides agree about every day.
-/

namespace TimeOff

namespace Store

variable {store after : Store} {pair : String × String} {balance version : Int}

/-- Absorbing commits leaves the holds alone. -/
theorem activeTotal_absorb (version : Int) (entries : List BalanceLedgerEntry) :
    activeTotal .reserve (entries.map (absorb version)) = activeTotal .reserve entries := by
  have unmoved (entry : BalanceLedgerEntry) : (absorb version entry).amount = entry.amount := by
    unfold absorb
    split <;> rfl
  have counted (entry : BalanceLedgerEntry) :
      ((absorb version entry).state = .active ∧ (absorb version entry).phase = .reserve) ↔
        (entry.state = .active ∧ entry.phase = .reserve) := by
    by_cases absorbed : entry.absorbedAt version
    · -- What is absorbed is a commit.
      have commit : entry.phase = .commit := by
        simp only [BalanceLedgerEntry.absorbedAt, decide_eq_true_eq] at absorbed
        exact absorbed.2.1
      simp [absorb, absorbed, commit]
    · simp [absorb, absorbed]
  -- So the same entries count, each with what it had.
  rw [activeTotal, activeTotal, List.filter_map, List.map_map]
  simp only [Function.comp_def, counted, unmoved]

/-- A re-pull leaves the holds of its pair alone. -/
theorem Repulled.reserved (repulled : Repulled pair balance version store after) :
    activeTotal .reserve (after.entriesAt pair) = activeTotal .reserve (store.entriesAt pair) := by
  -- A re-pull absorbs commits or does nothing.
  rcases Int.lt_or_le (store.watermark pair) version with fresh | stale
  · rw [(repulled.fresh fresh).2, activeTotal_absorb]
  · rw [(repulled.stale stale).2]

end Store

namespace System

/-- Whether a request holds days as a commit at a row that is cached already. -/
def unabsorbed (system : System) (request : TimeOffRequest) : Bool :=
  system.service.store.holding .commit request ∧
    system.hcm.versionOf (key request.employeeId request.locationId) ≤
      system.service.store.watermark request.pair

variable {system before after : System} {action : Action}

/-- A step of a drain leaves the cached balances, the faults and what the other side changed. -/
theorem Drains.kept (drains : Drains action) (coherent : before.service.Coherent)
    (taken : before.step action = some after) :
    after.service.store.balances = before.service.store.balances ∧
      after.hcm.faults.invalidDimensions = before.hcm.faults.invalidDimensions ∧
      ∀ k, after.history.ownChanges k = before.history.ownChanges k := by
  -- Neither a claim nor a record touches a balance, and neither does an answer.
  have balances {serviceAction : ServiceAction}
      (served : before.service.step serviceAction = some after.service)
      (writes : ∀ employeeId locationId row,
        serviceAction ≠ .insertBalance employeeId locationId row)
      (ingests : ∀ uuid now update, serviceAction ≠ .reconcileKey uuid now update) :
      after.service.store.balances = before.service.store.balances := by
    cases Service.step_change coherent served with
    | moves _ _ _ moves => exact moves.acts.balances
    | claims _ _ _ same => rw [same]; rfl
    | loads employeeId locationId row inserted _ => exact absurd inserted (writes _ _ _)
    | absorbs uuid now update reconciled _ => exact absurd reconciled (ingests _ _ _)
    | nothing _ same => rw [same]
  -- A drain claims, delivers and records, and takes no other step.
  cases step_effect taken with
  | operates operation same served hcm _ _ history =>
    refine ⟨balances served (by simp) (by simp), by rw [hcm], fun k => ?_⟩
    rw [history]
    rfl
  | delivers msg _ _ now _ _ _ _ _ served hcm _ _ history =>
    refine ⟨balances served (by simp) (by simp), by rw [hcm, HcmCore.faults_applyDelta],
      fun k => ?_⟩
    -- What a delivery changes has its message for a cause.
    have nothing : (postingBetween before.hcm after.hcm
        (key msg.payload.employeeId msg.payload.locationId) (some msg.idempotencyKey)).filter
          (fun posting => posting.rowKey = k ∧ posting.cause = none) = [] := by
      rw [List.filter_eq_nil_iff]
      intro posting member
      simp [(rowKey_of_mem_postingBetween member).2.2]
    rw [history, History.ownChanges, History.observe, List.filter_append, nothing,
      List.append_nil]
    rfl
  | loses _ same | crashes same | seeds _ _ _ _ same | adjusts _ _ _ _ _ same
  | configures _ same | inserts _ _ same =>
    subst same
    exact absurd drains id
  | reads _ _ _ _ _ _ same =>
    rcases same with ⟨rfl, _⟩ | ⟨rfl, _⟩ <;> exact absurd drains id
  | reconciles _ _ _ same =>
    rcases same with ⟨_, rfl⟩ | ⟨_, rfl⟩ <;> exact absurd drains id

/-- What a run of drains leaves of the system it started from. -/
structure OnlyDrained (before after : System) : Prop where
  reached : System.Reachable WithoutGhosts after
  balances : after.service.store.balances = before.service.store.balances
  valid : after.hcm.faults.invalidDimensions = before.hcm.faults.invalidDimensions
  own : ∀ k, after.history.ownChanges k = before.history.ownChanges k

/-- Drains change neither the cached balances nor what the other side has changed itself. -/
theorem Drained.onlyDrained {count : Nat} (drained : Drained before after count)
    (reached : System.Reachable WithoutGhosts before) : OnlyDrained before after := by
  -- The run consists of steps of drains, each of which keeps all of it.
  obtain ⟨actions, drains, ran⟩ := drained.ran
  refine Runs.invariant_of_run (OnlyDrained before) ?_ ⟨reached, rfl, rfl, fun _ => rfl⟩ ran
  intro middle action later member settled taken
  obtain ⟨balances, valid, own⟩ := (drains action member).kept
    (System.Reachable.service settled.reached).coherent taken
  -- None of them touches the faults.
  have allowed : middle.WithoutGhosts action := by
    have step := drains action member
    cases action with
    | configureFaults patch => exact absurd step id
    | _ => trivial
  exact ⟨.step settled.reached allowed taken, balances.trans settled.balances,
    valid.trans settled.valid, fun k => (own k).trans (settled.own k)⟩

/-- After a re-pull, the commits that are still subtracted are those at a row cached already. -/
theorem committed_of_repulled (posted : system.Posted) (linked : system.Linked)
    (coherent : system.service.Coherent) {pair : String × String} {after : Store}
    (repulled : Store.Repulled pair (system.hcm.balanceOf (key pair.1 pair.2))
      (system.hcm.versionOf (key pair.1 pair.2)) system.service.store after) :
    activeTotal .commit (after.entriesAt pair) =
      system.service.store.daysOf fun request =>
        request.pair = pair ∧ system.unabsorbed request := by
  rcases Int.lt_or_le (system.service.store.watermark pair)
    (system.hcm.versionOf (key pair.1 pair.2)) with fresh | stale
  · -- A newer row has absorbed every commit of the pair.
    rw [(committed_repulled posted linked coherent repulled).mpr fun _ _ _ _ => fresh,
      Store.daysOf, List.filter_eq_nil_iff.mpr]
    · rfl
    · intro request _ counted
      obtain ⟨same, held⟩ := of_decide_eq_true counted
      rw [unabsorbed, decide_eq_true_eq, same] at held
      have newer : system.service.store.watermark pair <
          system.hcm.versionOf (key request.employeeId request.locationId) := by
        rw [← same] at fresh
        exact same ▸ fresh
      omega
  · -- A row that is not newer leaves them all.
    rw [(repulled.stale stale).2, coherent.activeTotal]
    apply Store.daysOf_congr
    intro request _
    rw [decide_eq_decide]
    refine and_congr_right fun same => ?_
    rw [unabsorbed, decide_eq_true_eq, same]
    have own : system.hcm.versionOf (key request.employeeId request.locationId) ≤
        system.service.store.watermark pair := by
      rw [← same] at stale
      exact same ▸ stale
    exact (and_iff_left own).symm

/-- After a re-pull, what is available of a pair is accounted for by the requests. -/
theorem available_repulled (reached : System.Reachable WithoutGhosts system) {final : Store}
    {b : Balance} (found : final.balances.find b.pair = some b)
    (repulled : Store.Repulled b.pair (system.hcm.balanceOf (key b.pair.1 b.pair.2))
      (system.hcm.versionOf (key b.pair.1 b.pair.2)) system.service.store final) :
    final.available b.employeeId b.locationId =
      system.history.ownChanges (key b.employeeId b.locationId) -
        system.daysOut (key b.employeeId b.locationId) -
        (system.service.store.daysOf fun request => request.pair = b.pair ∧
          (request.status = .pendingApproval ∨ request.status = .approved)) -
        system.service.store.daysOf fun request =>
          request.pair = b.pair ∧ system.unabsorbed request := by
  -- The balance that was re-pulled is that of the books, and the entries are those of the requests.
  have coherent := (System.Reachable.service reached).coherent
  have current := (System.Reachable.explained reached).repulled_current found repulled
  have books := balance_of_books reached (key b.employeeId b.locationId)
  have reserved := repulled.reserved.trans (coherent.reserved b.pair)
  have committed := committed_of_repulled (System.Reachable.posted reached)
    (System.Reachable.linked reached) coherent repulled
  -- What is left is the difference of these four.
  simp only [Store.available, computeAvailable, Store.computeComponents]
  simp only [Balance.pair] at found reserved committed ⊢
  simp only [found, Option.map_some, Option.getD_some]
  omega

/--
From every reachable state of a run without ghost successes, once the other side answers, drains
clear the queue, and one reconcile of all balances then makes the two sides agree.

What is available of a pair is what was granted, less the days that are out, less those on hold, and
less the commits whose row was cached before they were recorded.
-/
theorem agrees_at_rest (reached : System.Reachable WithoutGhosts system)
    (idle : system.service.processor.draining = false)
    (healthy : system.hcm.faults.failuresToInject ≤ 0)
    (valid : ∀ b ∈ system.service.store.balances.rows,
      key b.employeeId b.locationId ∉ system.hcm.faults.invalidDimensions) :
    ∃ later, ∀ times : List Time, (∀ now ∈ times, later ≤ now) →
      system.service.store.backlog.length ≤ times.length * OutboxService.claimLimit →
      ∀ draws, system.service.store.FreshDraws draws (times.length * OutboxService.claimLimit) →
      ∀ (uuids : Nat → String) (clock : Nat → Time), ∃ (drained : System) (final : Store),
        system.service.store.drainEach inProcessHcmClient draws times system.hcm =
          (drained.service.store, drained.hcm) ∧
        drained.service.store.backlog = [] ∧
        drained.service.store.reconcileAll drained.hcm uuids clock =
          (.ok system.service.store.balances.rows.length, drained.hcm, final) ∧
        ∀ b ∈ final.balances.rows, final.available b.employeeId b.locationId =
          system.history.ownChanges (key b.employeeId b.locationId) -
            drained.daysOut (key b.employeeId b.locationId) -
            (drained.service.store.daysOf fun request => request.pair = b.pair ∧
              (request.status = .pendingApproval ∨ request.status = .approved)) -
            drained.service.store.daysOf fun request =>
              request.pair = b.pair ∧ drained.unabsorbed request := by
  have anyhow : System.Reachable (fun _ _ => True) system :=
    Runs.Reachable.mono (fun _ _ _ => trivial) reached
  have ready : system.Ready := ⟨anyhow, idle, healthy⟩
  obtain ⟨later, clears⟩ := ready.exists_cleared
  refine ⟨later, fun times late enough draws fresh uuids clock => ?_⟩
  obtain ⟨drained, drains, ended, empty⟩ := clears times late enough draws fresh
  -- The drains change neither what is cached nor what the other side did itself.
  have only := drains.onlyDrained reached
  have explained := System.Reachable.explained only.reached
  have answers : Store.Answers drained.hcm drained.service.store.balances.rows := by
    intro b cached
    have known := cached
    rw [only.balances] at known
    rw [only.valid]
    exact ⟨valid b known, (explained.cached_current cached).2.2⟩
  -- Then every pair that is cached is re-pulled, and each of them for itself.
  obtain ⟨final, looped, others, repulled⟩ := Store.reconcileEach_spec uuids clock
    drained.service.store.balances.rows drained.service.store answers
    drained.service.store.balances.nodup
  refine ⟨drained, final, ended, empty, only.balances ▸ looped, fun b cached => ?_⟩
  have found := Table.find_of_mem cached
  -- A pair that is cached at the end was so before, for a reconcile adds none.
  have listed : b.pair ∈ drained.service.store.balances.rows.map Balance.pair := by
    by_contra absent
    have stored := (others _ absent).found.trans found
    exact absent (List.mem_map.mpr ⟨b, Table.mem_of_find stored, rfl⟩)
  rw [← only.own]
  exact available_repulled only.reached found (repulled b.pair listed)

/-- One approved debit: one drain late enough and one reconcile settle its pair. -/
theorem agrees_at_rest_approved : ∃ (system drained : System) (final : Store) (now : Time)
    (draws : Nat → Draw),
    system.service.store.backlog.length = 1 ∧
      system.service.store.drainEach inProcessHcmClient draws [now] system.hcm =
        (drained.service.store, drained.hcm) ∧
      drained.service.store.backlog = [] ∧
      (drained.service.store.reconcileAll drained.hcm (fun _ => "") fun _ => 0).2.2 = final ∧
      ∀ b ∈ final.balances.rows, final.available b.employeeId b.locationId =
        system.history.ownChanges (key b.employeeId b.locationId) -
          drained.daysOut (key b.employeeId b.locationId) -
          (drained.service.store.daysOf fun request => request.pair = b.pair ∧
            (request.status = .pendingApproval ∨ request.status = .approved)) -
          drained.service.store.daysOf fun request =>
            request.pair = b.pair ∧ drained.unabsorbed request := by
  obtain ⟨system, reached, one, idle, healthy, valid⟩ := approvedRun_waits
  obtain ⟨later, settles⟩ := agrees_at_rest reached idle healthy valid
  obtain ⟨draws, fresh⟩ := system.service.store.exists_freshDraws
    ([later].length * OutboxService.claimLimit)
  obtain ⟨drained, final, ended, empty, looped, agrees⟩ := settles [later]
    (fun now member => (List.mem_singleton.mp member).ge) (backlog_le_one one later) draws fresh
    (fun _ => "") fun _ => 0
  exact ⟨system, drained, final, later, draws, one, ended, empty, by rw [looped], agrees⟩

end System

end TimeOff
