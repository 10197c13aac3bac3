import TimeOff.Lifecycle.Keys
import TimeOff.Transport.Propagation

/-!
From the key of a client to the account on the other side.

However often a client sends a request again, it is one request, and it is paid for once.
-/

namespace TimeOff

namespace Deployment

/-- The create call with some key that a step answers. -/
def creation (deployment : Deployment) (k : String) : DeploymentAction → Option Creation
  | .operate operation => deployment.service.creation k (.operate operation)
  | _ => none

/-- The create calls with a key that a run has answered, in their order. -/
def creations (taken : List (Deployment × DeploymentAction)) (k : String) : List Creation :=
  taken.filterMap fun made => made.1.creation k made.2

/-- A run written out. -/
abbrev Trace (failureThreshold cooldownMs : Option Int) :
    List (Deployment × DeploymentAction) → Deployment → Prop :=
  Runs.Trace step (init failureThreshold cooldownMs)

variable {before after final : Deployment} {action : DeploymentAction} {k : String}
  {taken : List (Deployment × DeploymentAction)} {failureThreshold cooldownMs : Option Int}

/-- A step answers the create call that the service answers in it, or none. -/
theorem creation_of_step (moved : before.step action = some after) (k : String) :
    after.service = before.service ∧ before.creation k action = none ∨
      ∃ serviceAction, before.service.step serviceAction = some after.service ∧
        before.creation k action = before.service.creation k serviceAction := by
  -- Only a transaction that is called by itself can be a create call.
  by_cases operates : ∃ operation, action = .operate operation
  · obtain ⟨operation, rfl⟩ := operates
    obtain ⟨service, served, rfl⟩ := serve_some moved
    exact Or.inr ⟨.operate operation, served, rfl⟩
  · have unasked : before.creation k action = none := by
      cases action with
      | operate operation => exact absurd ⟨operation, rfl⟩ operates
      | _ => rfl
    refine (served_of_step moved).imp (fun same => ⟨same, unasked⟩) ?_
    rintro ⟨serviceAction, served, operated⟩
    -- A step of the service that is no transaction answers no call.
    refine ⟨serviceAction, served, unasked.trans ?_⟩
    cases serviceAction with
    | operate operation => exact absurd ⟨operation, operated operation rfl⟩ operates
    | _ => rfl

/-- In every run, what is stored under a key answers all the calls with it. -/
theorem Trace.answered (trace : Trace failureThreshold cooldownMs taken final) (k : String) :
    Service.Answered k (creations taken k) final.service.store := by
  induction trace with
  | start =>
    -- At first there are no requests.
    exact ⟨fun _ _ member => (by cases member), fun some_ => absurd rfl some_⟩
  | @step shorter before after action earlier moved answered =>
    have reached : Deployment.Reachable (fun _ _ => True) failureThreshold cooldownMs before :=
      Runs.Trace.reachable earlier fun _ _ _ => trivial
    have grown : creations (shorter ++ [(before, action)]) k =
        creations shorter k ++ (before.creation k action).toList := by
      rw [creations, List.filterMap_append, ← creations]
      cases asked : before.creation k action with
      | none => simp [asked]
      | some call => simp [asked]
    rw [grown]
    rcases creation_of_step moved k with ⟨same, unasked⟩ | ⟨serviceAction, served, asked⟩
    · rw [same, unasked, Option.toList_none, List.append_nil]
      exact answered
    · rw [asked]
      exact answered.step reached.service.coherent served

/--
A key of a client counts once from end to end, whatever happens between its calls.

All calls with it that are answered are given one request, with the terms of the first of them. No
other request has the key, and its debit and its credit count once on the other side of the network.
-/
theorem keys_count_once (trace : Trace failureThreshold cooldownMs taken final)
    (kept : ∀ before action, (before, action) ∈ taken → before.WithoutReset action) (k : String) :
    (creations taken k = [] →
        ∀ request ∈ final.service.store.requests.rows, request.idempotencyKey ≠ some k) ∧
      (creations taken k ≠ [] → ∃ request,
        Service.Names k (creations taken k) final.service.store request ∧
          final.Propagates request) := by
  -- The key names one request, and every request counts once.
  have answered := trace.answered k
  refine ⟨answered.unused, fun some_ => ?_⟩
  obtain ⟨request, names⟩ := answered.used some_
  have reached := Runs.Trace.reachable trace kept
  exact ⟨request, names, (Reachable.linked reached).propagates names.stored⟩

/-- A request is sent again with other terms while its debit is late, and is committed then. -/
def retriedRun : List DeploymentAction :=
  [.control (.seed "e" "l" 10) 0, .read .firstLoad "e" "l" 0, .arrive 0 0, .respond 0 0,
    .finishRead 0 "unused" 0,
    .operate (.create "r" ⟨"e", "l", "2025-01-06", "2025-01-08", 3, none, true⟩ (some "key")),
    .operate (.submit "r" "hold"), .operate (.approve "r" "debit" 0), .operate (.drain 0),
    .deliver 0, .fail 1 "timeout" 5000, .hear, .operate (.record "unused" "drift" 5000),
    .operate (.create "s" ⟨"e", "l", "2025-01-06", "2025-01-10", 5, none, true⟩ (some "key")),
    .operate (.drain 6000), .deliver 6000, .arrive 2 6100, .respond 2 6200, .hear,
    .operate (.record "commit" "drift" 6300), .arrive 1 9000]

/-- The key of that run names the request of three days, which were taken once. -/
theorem keys_count_once_retried :
    ∃ (taken : List (Deployment × DeploymentAction)) (final : Deployment)
      (request : TimeOffRequest), taken.map Prod.snd = retriedRun ∧
      Service.Names "key" (creations taken "key") final.service.store request ∧
      request.status = .committed ∧ final.Propagates request ∧
      HcmCore.changesBy (debitKey request.id) (key "e" "l") final.account = [-3] := by
  have executed : (Runs.run step (fun deployment action => decide (deployment.WithoutReset action))
      (init none none) retriedRun).map (fun deployment =>
        decide ((deployment.service.store.requests.find "r").any fun request =>
          request.status = .committed ∧ request.employeeId = "e" ∧ request.locationId = "l" ∧
            request.days = 3 ∧ request.id = "r" ∧ request.idempotencyKey = some "key") &&
          deployment.exchange.core.applies (debitKey "r")) = some true := by
    decide +kernel
  obtain ⟨final, ended, passed⟩ := Option.map_eq_some_iff.mp executed
  obtain ⟨taken, trace, same, checked⟩ := Runs.trace_of_run .start ended
  simp only [List.nil_append] at trace
  simp only [Bool.and_eq_true, decide_eq_true_eq] at passed
  obtain ⟨stored, applied⟩ := passed
  obtain ⟨own, found, terms⟩ := (Option.any_eq_true _ _).mp stored
  obtain ⟨committed, employee, location, days, named, keyed⟩ := of_decide_eq_true terms
  obtain ⟨unused, used⟩ := keys_count_once trace
    (fun before action member => of_decide_eq_true (checked before action member)) "key"
  -- A request with the key is stored, so a call with it was answered.
  have listed := Table.mem_of_find found
  obtain ⟨request, names, propagates⟩ := used fun none_ => unused none_ own listed keyed
  obtain rfl := names.alone own listed keyed
  refine ⟨taken, final, own, same, names, committed, propagates, ?_⟩
  -- The debit has an effect, so its one change is in the account.
  have once := propagates.once .debit (key "e" "l")
  rw [OutboxType.key, named, employee, location, applied, if_pos ⟨rfl, rfl⟩, days] at once
  rw [named]
  exact once

end Deployment

end TimeOff
