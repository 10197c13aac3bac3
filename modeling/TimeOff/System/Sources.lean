import TimeOff.Lifecycle.Coherence
import TimeOff.System.Calls
import TimeOff.System.Effects

/-! Where the balances come from that are on their way to the service, or cached there. -/

namespace TimeOff

namespace System

variable {before after : System} {action : Action} {k : String}

/-- What a step does to the rows of the system of record and to the history of them. -/
inductive Observation (before after : System) : Prop
  | quiet : after.hcm.balances = before.hcm.balances →
      after.history.rows = before.history.rows →
      after.history.postings = before.history.postings → Observation before after
  | touched (k : String) (cause : Option String) :
      HcmCore.Touches before.hcm after.hcm k →
      after.history.rows = before.history.rows ++ after.hcm.dumpCorpus →
      after.history.postings =
        before.history.postings ++ postingBetween before.hcm after.hcm k cause →
      Observation before after

/-- Every step leaves the rows alone, or is one observed call that concerns one key. -/
theorem step_observation (taken : before.step action = some after) :
    Observation before after := by
  -- Only deliveries, reads, seeds and adjustments call the other side.
  cases step_effect taken with
  | operates _ _ _ hcm _ _ history => exact .quiet (by rw [hcm]) (by rw [history]) (by rw [history])
  | loses _ _ _ hcm _ _ history => exact .quiet (by rw [hcm]) (by rw [history]) (by rw [history])
  | inserts _ _ _ _ _ hcm _ _ history =>
    exact .quiet (by rw [hcm]) (by rw [history]) (by rw [history])
  | reconciles _ _ _ _ _ _ hcm _ _ history =>
    exact .quiet (by rw [hcm]) (by rw [history]) (by rw [history])
  | crashes _ _ hcm _ _ history => exact .quiet (by rw [hcm]) (by rw [history]) (by rw [history])
  | configures _ _ hcm _ _ _ history =>
    exact .quiet (by rw [hcm]; rfl) (by rw [history]) (by rw [history])
  | delivers msg rest fate now heard _ _ _ _ _ hcm _ _ history =>
    exact .touched _ _ (hcm ▸ before.hcm.applyDelta_touches now msg.command) (by rw [history]; rfl)
      (by rw [history]; rfl)
  | reads _ _ _ _ answered _ _ history =>
    exact .touched _ _ (HcmCore.getBalance_touches answered) (by rw [history]; rfl)
      (by rw [history]; rfl)
  | seeds employeeId locationId balance now _ hcm _ _ _ history =>
    exact .touched _ _ (hcm ▸ before.hcm.seed_touches now employeeId locationId balance)
      (by rw [history]; rfl) (by rw [history]; rfl)
  | adjusts _ _ _ _ _ _ adjusted _ _ _ history =>
    exact .touched _ _ (HcmCore.adjust_touches adjusted) (by rw [history]; rfl)
      (by rw [history]; rfl)

/-- Every balance, on its way or cached, has a property together with its key and its version. -/
structure Sourced (genuine : String → Int → Int → Prop) (system : System) : Prop where
  rows : ∀ row ∈ system.history.rows, genuine row.key row.version row.balance
  loads : ∀ load ∈ system.loads,
    genuine (key load.employeeId load.locationId) load.row.version load.row.balance
  pulls : ∀ update ∈ system.pulls,
    genuine (key update.employeeId update.locationId) update.version update.balance
  cached : ∀ balance ∈ system.service.store.balances.rows,
    genuine (key balance.employeeId balance.locationId) balance.lastReconciledVersion
      balance.hcmBalance

/-- At the start there is no balance anywhere. -/
theorem sourced_init (genuine : String → Int → Int → Prop) : init.Sourced genuine := by
  -- The four tables are empty.
  constructor
  all_goals
    intro _ member
    exact absurd member List.not_mem_nil

variable {earlier later : String → Int → Int → Prop}

/-- What the store may reconcile has the property. -/
theorem Sourced.offers (sourced : before.Sourced earlier) {update : HcmBalanceUpdate}
    (offered : before.Offers update) :
    earlier (key update.employeeId update.locationId) update.version update.balance := by
  rcases offered with pulled | ⟨row, held, rfl⟩
  · exact sourced.pulls update pulled
  · exact sourced.rows row held

section Step

variable (sourced : before.Sourced earlier) (taken : before.step action = some after)
  (kept : ∀ k version balance, earlier k version balance → later k version balance)

include sourced taken kept

/-- The rows that are remembered were remembered before, or are stored now. -/
theorem Sourced.rows_step
    (current : ∀ k row, after.hcm.balances.find k = some row → later k row.version row.balance)
    {row : HcmBalanceRow} (member : row ∈ after.history.rows) :
    later row.key row.version row.balance := by
  -- An observed call remembers the rows as it leaves them.
  cases step_observation taken with
  | quiet _ rows _ => exact kept _ _ _ (sourced.rows row (rows ▸ member))
  | touched _ _ _ rows _ =>
    rw [rows] at member
    rcases List.mem_append.mp member with old | new
    · exact kept _ _ _ (sourced.rows row old)
    · exact current _ row (Table.find_of_mem new)

/-- What a first load has read was read before, or is stored now. -/
theorem Sourced.loads_step
    (current : ∀ k row, after.hcm.balances.find k = some row → later k row.version row.balance)
    {load : PendingLoad} (listed : load ∈ after.loads) :
    later (key load.employeeId load.locationId) load.row.version load.row.balance := by
  -- Only a read adds a load, and what it read is stored then.
  have old (member : load ∈ before.loads) := kept _ _ _ (sourced.loads load member)
  cases step_effect taken with
  | reads employeeId locationId now row answered _ listing =>
    rcases listing with ⟨_, loads, _⟩ | ⟨_, _, loads, _⟩
    · rw [loads] at listed
      rcases List.mem_append.mp listed with member | new
      · exact old member
      · rw [List.mem_singleton.mp new]
        exact current _ _ (HcmCore.getBalance_found answered)
    · exact old (loads ▸ listed)
  | inserts _ _ _ _ _ _ loads => exact old (loads load listed)
  | crashes _ _ _ loads => simp [loads] at listed
  | operates _ _ _ _ loads => exact old (loads ▸ listed)
  | loses _ _ _ _ loads => exact old (loads ▸ listed)
  | delivers _ _ _ _ _ _ _ _ _ _ _ loads => exact old (loads ▸ listed)
  | reconciles _ _ _ _ _ _ _ loads => exact old (loads ▸ listed)
  | seeds _ _ _ _ _ _ _ loads => exact old (loads ▸ listed)
  | adjusts _ _ _ _ _ _ _ _ loads => exact old (loads ▸ listed)
  | configures _ _ _ _ loads => exact old (loads ▸ listed)

/-- What a reconcile-all has read was read before, or is stored now. -/
theorem Sourced.pulls_step
    (current : ∀ k row, after.hcm.balances.find k = some row → later k row.version row.balance)
    {update : HcmBalanceUpdate} (listed : update ∈ after.pulls) :
    later (key update.employeeId update.locationId) update.version update.balance := by
  -- Only a read adds a pull, and what it read is stored then.
  have old (member : update ∈ before.pulls) := kept _ _ _ (sourced.pulls update member)
  cases step_effect taken with
  | reads employeeId locationId now row answered _ listing =>
    rcases listing with ⟨_, _, pulls⟩ | ⟨_, _, _, pulls⟩
    · exact old (pulls ▸ listed)
    · rw [pulls] at listed
      rcases List.mem_append.mp listed with member | new
      · exact old member
      · rw [List.mem_singleton.mp new]
        exact current _ _ (HcmCore.getBalance_found answered)
  | reconciles _ _ _ _ _ _ _ _ pulls => exact old (pulls update listed)
  | crashes _ _ _ _ pulls => simp [pulls] at listed
  | operates _ _ _ _ _ pulls => exact old (pulls ▸ listed)
  | loses _ _ _ _ _ pulls => exact old (pulls ▸ listed)
  | delivers _ _ _ _ _ _ _ _ _ _ _ _ pulls => exact old (pulls ▸ listed)
  | inserts _ _ _ _ _ _ _ pulls => exact old (pulls ▸ listed)
  | seeds _ _ _ _ _ _ _ _ pulls => exact old (pulls ▸ listed)
  | adjusts _ _ _ _ _ _ _ _ _ pulls => exact old (pulls ▸ listed)
  | configures _ _ _ _ _ pulls => exact old (pulls ▸ listed)

/-- What is cached was cached before, was loaded first, or was offered. -/
theorem Sourced.cached_step (coherent : before.service.Coherent) {balance : Balance}
    (cached : balance ∈ after.service.store.balances.rows) :
    later (key balance.employeeId balance.locationId) balance.lastReconciledVersion
      balance.hcmBalance := by
  have old (member : balance ∈ before.service.store.balances.rows) :=
    kept _ _ _ (sourced.cached balance member)
  -- Only an inserted or a reconciled row can be new.
  have served {serviceAction : ServiceAction}
      (moved : before.service.step serviceAction = some after.service)
      (noInsert : ∀ employeeId locationId row,
        serviceAction ≠ .insertBalance employeeId locationId row)
      (noUpdate : ∀ uuid now update, serviceAction ≠ .reconcileKey uuid now update) :
      balance ∈ before.service.store.balances.rows := by
    rcases Service.cached_of_step coherent moved cached with member | ⟨_, clash, _⟩ |
      ⟨_, _, _, clash, _⟩
    · exact member
    · exact absurd clash (noInsert _ _ _)
    · exact absurd clash (noUpdate _ _ _)
  cases step_effect taken with
  | reads _ _ _ _ _ same => exact old (same ▸ cached)
  | seeds _ _ _ _ _ _ same => exact old (same ▸ cached)
  | adjusts _ _ _ _ _ _ _ same => exact old (same ▸ cached)
  | configures _ _ _ same => exact old (same ▸ cached)
  | inserts index load _ listed moved =>
    rcases Service.cached_of_step coherent moved cached with member | ⟨row, same, amount, version⟩ |
      ⟨_, _, _, clash, _⟩
    · exact old member
    · simp only [ServiceAction.insertBalance.injEq] at same
      rw [amount, version, ← same.1, ← same.2.1, ← same.2.2]
      exact kept _ _ _ (sourced.loads load listed)
    · cases clash
  | reconciles uuid now update _ offered moved =>
    rcases Service.cached_of_step coherent moved cached with member | ⟨_, clash, _⟩ |
      ⟨_, _, _, same, employee, location, amount, version⟩
    · exact old member
    · cases clash
    · cases same
      rw [employee, location, amount, version]
      exact kept _ _ _ (sourced.offers offered)
  | operates _ _ moved => exact old (served moved (by simp) (by simp))
  | loses _ _ moved => exact old (served moved (by simp) (by simp))
  | delivers _ _ _ _ _ _ _ _ _ moved => exact old (served moved (by simp) (by simp))
  | crashes _ moved => exact old (served moved (by simp) (by simp))

/-- A step keeps the property everywhere once the rows stored after it have it. -/
theorem Sourced.step (coherent : before.service.Coherent)
    (current : ∀ k row, after.hcm.balances.find k = some row → later k row.version row.balance) :
    after.Sourced later :=
  ⟨fun _ => sourced.rows_step taken kept current, fun _ => sourced.loads_step taken kept current,
    fun _ => sourced.pulls_step taken kept current,
    fun _ => sourced.cached_step taken kept coherent⟩

end Step

end System

end TimeOff
