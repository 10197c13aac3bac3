import TimeOff.System.Composed

/-! What each step of the composed system does to its parts. -/

namespace TimeOff

namespace System

/-- The rows a store-bound update may come from: one pulled earlier, or any row once held. -/
def Offers (system : System) (update : HcmBalanceUpdate) : Prop :=
  update ∈ system.pulls ∨ ∃ row ∈ system.history.rows, update = row.update

/-- Everything a step can do, with the part of the system that takes it. -/
inductive Effect (before : System) (action : Action) (after : System) : Prop
  -- The service takes a step of its own.
  | operates (operation : Operation) :
      action = .operate operation →
      before.service.step (.operate operation) = some after.service →
      after.hcm = before.hcm → after.loads = before.loads → after.pulls = before.pulls →
      after.history = { before.history with
        claimed := before.history.claimed ++ before.claims operation } →
      Effect before action after
  -- A delivery that never arrives.
  | loses (now : Time) :
      action = .deliver .requestLost now →
      before.service.step (.answer (.error transportError)) = some after.service →
      after.hcm = before.hcm → after.loads = before.loads → after.pulls = before.pulls →
      after.history = before.history → Effect before action after
  -- A delivery that arrives, whether its answer is heard or not.
  | delivers (msg : OutboxMessage) (rest : List OutboxMessage) (fate : Fate) (now : Time)
      (heard : Except HcmError ApplyDeltaAck) :
      action = .deliver fate now → before.service.processor.due = msg :: rest →
      before.service.processor.attempted = none →
      (fate = .answered ∧ heard = (before.hcm.applyDelta now msg.command).2 ∨
        fate = .answerLost ∧ heard = .error transportError) →
      before.service.step (.answer heard) = some after.service →
      after.hcm = (before.hcm.applyDelta now msg.command).1 →
      after.loads = before.loads → after.pulls = before.pulls →
      after.history = before.history.observe before.hcm after.hcm
        (key msg.payload.employeeId msg.payload.locationId) (some msg.idempotencyKey) →
      Effect before action after
  -- A balance is read, for a first load or for a reconcile-all.
  | reads (employeeId locationId : String) (now : Time) (row : HcmBalanceRow) :
      before.hcm.getBalance now employeeId locationId = .ok (after.hcm, row) →
      after.service = before.service →
      (action = .readBalance employeeId locationId now ∧
          after.loads = before.loads ++ [PendingLoad.mk employeeId locationId row] ∧
          after.pulls = before.pulls ∨
        action = .pull employeeId locationId now ∧
          (before.service.store.balances.find (employeeId, locationId)).isSome = true ∧
          after.loads = before.loads ∧
          after.pulls = before.pulls ++
            [{ employeeId, locationId, balance := row.balance, version := row.version
               asOf := some row.asOf }]) →
      after.history = before.history.observe before.hcm after.hcm (key employeeId locationId) none →
      Effect before action after
  -- A row that was read is inserted, or ignored.
  | inserts (index : Nat) (load : PendingLoad) :
      action = .insertBalance index → load ∈ before.loads →
      before.service.step (.insertBalance load.employeeId load.locationId load.row) =
        some after.service →
      after.hcm = before.hcm → (∀ other ∈ after.loads, other ∈ before.loads) →
      after.pulls = before.pulls → after.history = before.history → Effect before action after
  -- A snapshot is reconciled.
  | reconciles (uuid : String) (now : Time) (update : HcmBalanceUpdate) :
      (∃ index, action = .reconcilePulled index uuid now) ∨
        (∃ row, action = .ingest uuid now row) →
      before.Offers update →
      before.service.step (.reconcileKey uuid now update) = some after.service →
      after.hcm = before.hcm → after.loads = before.loads →
      (∀ other ∈ after.pulls, other ∈ before.pulls) → after.history = before.history →
      Effect before action after
  | crashes :
      action = .crash → before.service.step .crash = some after.service →
      after.hcm = before.hcm → after.loads = [] → after.pulls = [] →
      after.history = before.history → Effect before action after
  -- A balance is provisioned or adjusted on the other side.
  | seeds (employeeId locationId : String) (balance : Int) (now : Time) :
      action = .seed employeeId locationId balance now →
      after.hcm = (before.hcm.seed now employeeId locationId balance).1 →
      after.service = before.service → after.loads = before.loads → after.pulls = before.pulls →
      after.history = before.history.observe before.hcm after.hcm (key employeeId locationId) none →
      Effect before action after
  | adjusts (employeeId locationId : String) (delta : Int) (now : Time) (row : HcmBalanceRow) :
      action = .adjust employeeId locationId delta now →
      before.hcm.adjust now employeeId locationId delta = .ok (after.hcm, row) →
      after.service = before.service → after.loads = before.loads → after.pulls = before.pulls →
      after.history = before.history.observe before.hcm after.hcm (key employeeId locationId) none →
      Effect before action after
  | configures (patch : HcmFaultPatch) :
      action = .configureFaults patch → after.hcm = before.hcm.configureFaults patch →
      after.service = before.service → after.loads = before.loads → after.pulls = before.pulls →
      after.history = before.history → Effect before action after

variable {before after : System} {action : Action}

/-- A served step changes the service and nothing else. -/
theorem serve_some {system after : System} {action : ServiceAction}
    (served : system.serve action = some after) :
    ∃ service, system.service.step action = some service ∧ after = { system with service } := by
  -- A refused step of the service is no step of the system either.
  obtain ⟨service, moved, rfl⟩ := Option.map_eq_some_iff.mp served
  exact ⟨service, moved, rfl⟩

/-- A delivery is lost before it arrives, or arrives. -/
theorem deliver_effect {fate : Fate} {now : Time}
    (delivered : before.deliver fate now = some after) :
    Effect before (.deliver fate now) after := by
  -- The fate decides whether the other side is called and what is heard of it.
  unfold deliver at delivered
  split at delivered
  · rename_i msg rest due attempted
    cases fate with
    | requestLost =>
      obtain ⟨service, moved, rfl⟩ := serve_some delivered
      exact .loses now rfl moved rfl rfl rfl rfl
    | answered =>
      obtain ⟨service, moved, rfl⟩ := serve_some delivered
      exact .delivers msg rest .answered now _ rfl due attempted (Or.inl ⟨rfl, rfl⟩) moved
        rfl rfl rfl rfl
    | answerLost =>
      obtain ⟨service, moved, rfl⟩ := serve_some delivered
      exact .delivers msg rest .answerLost now _ rfl due attempted (Or.inr ⟨rfl, rfl⟩) moved
        rfl rfl rfl rfl
  · cases delivered

/-- A step of the composed system is one of these effects. -/
theorem step_effect (taken : before.step action = some after) : Effect before action after := by
  -- Each action unfolds to its guard, its call and its answer.
  cases action with
  | operate operation =>
    obtain ⟨middle, served, rfl⟩ := Option.map_eq_some_iff.mp taken
    obtain ⟨service, moved, rfl⟩ := serve_some served
    exact .operates operation rfl moved rfl rfl rfl rfl
  | deliver fate now => exact deliver_effect taken
  | readBalance employeeId locationId now =>
    simp only [step] at taken
    split at taken
    · cases taken
    · rename_i hcm row answered
      cases taken
      exact .reads employeeId locationId now row answered rfl (Or.inl ⟨rfl, rfl, rfl⟩) rfl
  | insertBalance index =>
    simp only [step] at taken
    split at taken
    · cases taken
    · rename_i load found
      obtain ⟨service, moved, rfl⟩ := serve_some taken
      -- Whichever load is inserted, the others stay as they were.
      exact .inserts index load rfl (List.mem_of_getElem? found) moved rfl
        (fun _ member => List.mem_of_mem_eraseIdx member) rfl rfl
  | pull employeeId locationId now =>
    simp only [step] at taken
    split at taken
    · rename_i cached
      split at taken
      · cases taken
      · rename_i hcm row answered
        cases taken
        exact .reads employeeId locationId now row answered rfl
          (Or.inr ⟨rfl, cached, rfl, rfl⟩) rfl
    · cases taken
  | reconcilePulled index uuid now =>
    simp only [step] at taken
    split at taken
    · cases taken
    · rename_i update found
      obtain ⟨service, moved, rfl⟩ := serve_some taken
      exact .reconciles uuid now update (Or.inl ⟨index, rfl⟩)
        (Or.inl (List.mem_of_getElem? found)) moved rfl rfl
        (fun _ member => List.mem_of_mem_eraseIdx member) rfl
  | ingest uuid now row =>
    simp only [step] at taken
    split at taken
    · rename_i held
      obtain ⟨service, moved, rfl⟩ := serve_some taken
      exact .reconciles uuid now row.update (Or.inr ⟨row, rfl⟩) (Or.inr ⟨row, held, rfl⟩) moved
        rfl rfl (fun _ member => member) rfl
    · cases taken
  | crash =>
    obtain ⟨service, moved, rfl⟩ := serve_some taken
    exact .crashes rfl moved rfl rfl rfl rfl
  | seed employeeId locationId balance now =>
    cases taken
    exact .seeds employeeId locationId balance now rfl rfl rfl rfl rfl rfl
  | adjust employeeId locationId delta now =>
    simp only [step] at taken
    split at taken
    · cases taken
    · rename_i hcm row answered
      cases taken
      exact .adjusts employeeId locationId delta now row rfl answered rfl rfl rfl rfl
  | configureFaults patch =>
    cases taken
    exact .configures patch rfl rfl rfl rfl rfl rfl

/-- An operation is a step of the service alone. -/
theorem step_operate {operation : Operation}
    (taken : before.step (.operate operation) = some after) :
    before.service.step (.operate operation) = some after.service ∧ after.hcm = before.hcm := by
  obtain ⟨middle, served, rfl⟩ := Option.map_eq_some_iff.mp taken
  obtain ⟨service, moved, rfl⟩ := serve_some served
  exact ⟨moved, rfl⟩

/-- The service takes a step of its own in a step of the system, or none. -/
theorem step_service (taken : before.step action = some after) :
    (after.service = before.service ∧ ∀ operation, action ≠ .operate operation) ∨
      ∃ serviceAction, before.service.step serviceAction = some after.service ∧
        ∀ operation, serviceAction = .operate operation ↔ action = .operate operation := by
  -- The effects that leave the service alone are reads and changes of the other side.
  cases step_effect taken with
  | operates operation same moved => exact Or.inr ⟨_, moved, by simp [same]⟩
  | loses now same moved => exact Or.inr ⟨_, moved, by simp [same]⟩
  | delivers msg rest fate now heard same _ _ _ moved => exact Or.inr ⟨_, moved, by simp [same]⟩
  | reads _ _ _ _ _ same listing =>
    refine Or.inl ⟨same, fun operation => ?_⟩
    rcases listing with ⟨rfl, _⟩ | ⟨rfl, _⟩ <;> simp
  | inserts index load same _ moved => exact Or.inr ⟨_, moved, by simp [same]⟩
  | reconciles uuid now update same _ moved =>
    refine Or.inr ⟨_, moved, fun operation => ?_⟩
    rcases same with ⟨_, rfl⟩ | ⟨_, rfl⟩ <;> simp
  | crashes same moved => exact Or.inr ⟨_, moved, by simp [same]⟩
  | seeds _ _ _ _ named _ same => exact Or.inl ⟨same, by simp [named]⟩
  | adjusts _ _ _ _ _ named _ same => exact Or.inl ⟨same, by simp [named]⟩
  | configures _ named _ same => exact Or.inl ⟨same, by simp [named]⟩

/-- In every reachable state of the system, the service is in one of its reachable states. -/
theorem Reachable.service {allowed : System → Action → Prop} {system : System}
    (reached : System.Reachable allowed system) : Service.Reachable system.service := by
  -- A step of the other side is a stuttering step of the service.
  refine Runs.Reachable.simulate System.service ?_ reached
  intro before action after _ taken
  rcases step_service taken with ⟨same, _⟩ | ⟨serviceAction, moved, _⟩
  · exact Or.inl same
  · exact Or.inr ⟨serviceAction, trivial, moved⟩

/-- The service of every state that a run of the system passes through is reachable. -/
theorem Trace.service {taken : List (System × Action)} {final state : System}
    (trace : System.Trace taken final) (visited : Runs.Visits taken final state) :
    Service.Reachable state.service :=
  (trace.reached visited).service

end System

end TimeOff
