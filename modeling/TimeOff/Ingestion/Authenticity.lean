import TimeOff.Balance.Watermark
import TimeOff.System.Sources

/-! Every cached snapshot is one that was held on the other side, and newer ones replace older. -/

namespace TimeOff

/-- A cached balance before and after a step: it only moves forward, and only as a whole. -/
structure Balance.Succeeds (before after : Balance) : Prop where
  watermark : before.lastReconciledVersion ≤ after.lastReconciledVersion
  changed : after.hcmBalance ≠ before.hcmBalance →
    before.lastReconciledVersion < after.lastReconciledVersion

/-- A cached balance succeeds itself. -/
theorem Balance.Succeeds.refl (balance : Balance) : balance.Succeeds balance :=
  ⟨le_rfl, fun changed => absurd rfl changed⟩

/-- A step of the service keeps every cached pair, with a row that succeeds the one before. -/
theorem Service.step_succeeds {before after : Service} {action : ServiceAction}
    (coherent : before.Coherent) (taken : before.step action = some after)
    {pair : String × String} {old : Balance} (found : before.store.balances.find pair = some old) :
    ∃ new, after.store.balances.find pair = some new ∧ old.Succeeds new := by
  rcases found_of_step coherent taken pair fun _ => by simp [found] with
    same | ⟨update, rfl, fresh, absorbs⟩
  · exact ⟨old, same.trans found, .refl old⟩
  · -- A fresh update is above the watermark, whatever balance it brings.
    obtain ⟨asOf, replaced⟩ := absorbs.found
    have above : old.lastReconciledVersion < update.version :=
      Store.watermark_of_find found ▸ fresh
    exact ⟨_, replaced, above.le, fun _ => above⟩

namespace System

/-- At some moment of a run a row with a version and a balance was stored under a key. -/
def HeldOnce (taken : List (System × Action)) (final : System) (k : String)
    (version balance : Int) : Prop :=
  ∃ state, Runs.Visits taken final state ∧ ∃ row, state.hcm.balances.find k = some row ∧
    row.version = version ∧ row.balance = balance

variable {taken : List (System × Action)} {before after final : System} {action : Action}

/-- A longer run passes through the states of the shorter one. -/
theorem HeldOnce.extend {k : String} {version balance : Int}
    (held : HeldOnce taken before k version balance) :
    HeldOnce (taken ++ [(before, action)]) after k version balance := by
  -- A state that the shorter run visits, the longer one visits as well.
  obtain ⟨state, visited, row⟩ := held
  refine ⟨state, Or.inr ?_, row⟩
  rcases visited with rfl | ⟨following, member⟩
  · exact ⟨action, List.mem_append_right _ (List.mem_singleton_self _)⟩
  · exact ⟨following, List.mem_append_left _ member⟩

/-- Along a run every balance, on its way or cached, was held at an earlier moment. -/
theorem Trace.sourced (trace : System.Trace taken final) :
    final.Sourced (HeldOnce taken final) := by
  induction trace with
  | start => exact sourced_init _
  | @step shorter before after action earlier next ih =>
    -- The rows stored after the last step are held in the state it leads to.
    have coherent := (System.Trace.service earlier (Or.inl rfl)).coherent
    exact ih.step next (fun _ _ _ held => held.extend) coherent
      fun k row found => ⟨after, Or.inl rfl, row, found, rfl, rfl⟩

/-- A step of the system keeps every cached pair, with a row that succeeds the one before. -/
theorem step_succeeds (coherent : before.service.Coherent)
    (taken : before.step action = some after) {pair : String × String} {old : Balance}
    (found : before.service.store.balances.find pair = some old) :
    ∃ new, after.service.store.balances.find pair = some new ∧ old.Succeeds new := by
  rcases step_service taken with ⟨same, _⟩ | ⟨serviceAction, served, _⟩
  · exact ⟨old, same ▸ found, .refl old⟩
  · exact Service.step_succeeds coherent served found

/--
Every cached snapshot is a balance and a version that were held together at some moment of the run.

Along the run a watermark never goes down, and a cached balance changes only with a higher one.
-/
theorem cached_authentic (trace : System.Trace taken final) :
    (∀ balance ∈ final.service.store.balances.rows,
      HeldOnce taken final (key balance.employeeId balance.locationId)
        balance.lastReconciledVersion balance.hcmBalance) ∧
    ∀ before action after, (before, action) ∈ taken → before.step action = some after →
      ∀ pair old, before.service.store.balances.find pair = some old →
        ∃ new, after.service.store.balances.find pair = some new ∧ old.Succeeds new := by
  refine ⟨trace.sourced.cached, ?_⟩
  intro before action after member moved pair old found
  exact step_succeeds (System.Trace.service trace (Or.inr ⟨action, member⟩)).coherent moved found

/-- A first load overtaken by a newer snapshot, and then an older snapshot that comes late. -/
def overtakenRun : List Action :=
  [.seed "e" "l" 10 0, .readBalance "e" "l" 0, .adjust "e" "l" 5 1,
    .ingest "newer" 1 ⟨"e", "l", 15, 2, 1⟩, .insertBalance 0,
    .ingest "older" 2 ⟨"e", "l", 10, 1, 0⟩]

/-- In that run the cached snapshot is the newer one, and both were held once. -/
theorem cached_authentic_overtaken : ∃ taken final, System.Trace taken final ∧
    taken.map Prod.snd = overtakenRun ∧
    (∀ balance ∈ final.service.store.balances.rows,
      HeldOnce taken final (key balance.employeeId balance.locationId)
        balance.lastReconciledVersion balance.hcmBalance) ∧
    ∀ before action after, (before, action) ∈ taken → before.step action = some after →
      ∀ pair old, before.service.store.balances.find pair = some old →
        ∃ new, after.service.store.balances.find pair = some new ∧ old.Succeeds new := by
  have executed : (run WithoutGhosts overtakenRun).isSome = true := by decide +kernel
  obtain ⟨taken, final, trace, same⟩ := exists_trace_of_run executed
  exact ⟨taken, final, trace, same, cached_authentic trace⟩

end System

end TimeOff
