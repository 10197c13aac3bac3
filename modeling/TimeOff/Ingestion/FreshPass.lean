import TimeOff.Balance.Watermark
import TimeOff.System.Postings

/-! A pass of the safety net, whatever it overlaps with, is as new as the instant it began at. -/

namespace TimeOff

namespace System

variable {before after : System} {action : Action} {pair : String × String} {version : Int}

/-- A pair is cached, as new as a version or with a row that new on its way to be reconciled. -/
structure AsNew (system : System) (pair : String × String) (version : Int) : Prop where
  cached : (system.service.store.balances.find pair).isSome = true
  newer : version ≤ system.service.store.watermark pair ∨
    ∃ update ∈ system.pulls, update.pair = pair ∧ version ≤ update.version

/-- Short of a crash, a row on its way stays there until it is reconciled. -/
theorem pulls_of_step (taken : before.step action = some after) (alive : action ≠ .crash)
    {update : HcmBalanceUpdate} (pending : update ∈ before.pulls) :
    update ∈ after.pulls ∨ ∃ uuid now,
      before.service.step (.reconcileKey uuid now update) = some after.service := by
  -- Only a pull and a reconcile of a pulled row write this list.
  cases step_effect taken with
  | operates _ _ _ _ _ pulls | loses _ _ _ _ _ pulls | delivers _ _ _ _ _ _ _ _ _ _ _ _ pulls
  | inserts _ _ _ _ _ _ _ pulls | seeds _ _ _ _ _ _ _ _ pulls | adjusts _ _ _ _ _ _ _ _ _ pulls
  | configures _ _ _ _ _ pulls => exact Or.inl (pulls ▸ pending)
  | reads _ _ _ _ _ _ listing =>
    rcases listing with ⟨_, _, pulls⟩ | ⟨_, _, _, pulls⟩
    · exact Or.inl (pulls ▸ pending)
    · exact Or.inl (pulls ▸ List.mem_append_left _ pending)
  | reconciles uuid now _ delivered =>
    rcases delivered with ⟨index, rfl⟩ | ⟨row, rfl⟩
    · simp only [step] at taken
      split at taken
      · cases taken
      · rename_i pulled found
        obtain ⟨service, moved, rfl⟩ := serve_some taken
        -- The row is the one that is reconciled now, or it stays in the list.
        obtain ⟨other, listed⟩ := List.mem_iff_getElem?.mp pending
        by_cases same : other = index
        · subst same
          obtain rfl := Option.some.inj (listed.symm.trans found)
          exact Or.inr ⟨uuid, now, moved⟩
        · exact Or.inl (List.mem_eraseIdx_iff_getElem?.mpr ⟨other, same, listed⟩)
    · simp only [step] at taken
      split at taken
      · obtain ⟨service, _, rfl⟩ := serve_some taken
        exact Or.inl pending
      · cases taken
  | crashes crashed => exact absurd crashed alive

/-- Short of a crash, what is as new as a version stays so. -/
theorem AsNew.step (fresh : before.AsNew pair version) (coherent : before.service.Coherent)
    (taken : before.step action = some after) (alive : action ≠ .crash) :
    after.AsNew pair version := by
  -- A step neither drops a cached pair nor takes its watermark back.
  have cached : (after.service.store.balances.find pair).isSome = true := by
    rcases step_service taken with ⟨same, _⟩ | ⟨_, moved, _⟩
    · rw [same]
      exact fresh.cached
    · exact Service.step_cached coherent moved fresh.cached
  have higher : before.service.store.watermark pair ≤ after.service.store.watermark pair := by
    rcases step_service taken with ⟨same, _⟩ | ⟨_, moved, _⟩
    · rw [same]
    · exact Service.watermark_le_of_step coherent moved fresh.cached
  refine ⟨cached, ?_⟩
  rcases fresh.newer with reached | ⟨update, pending, named, newer⟩
  · exact Or.inl (reached.trans higher)
  · rcases pulls_of_step taken alive pending with still | ⟨uuid, now, moved⟩
    · exact Or.inr ⟨update, still, named, newer⟩
    · -- Reconciled, the row is taken over, or an equal or newer one was there.
      subst named
      rcases Int.lt_or_le (before.service.store.watermark update.pair) update.version with
        above | below
      · rw [Service.watermark_of_reconcileKey moved above]
        exact Or.inl newer
      · exact Or.inl ((newer.trans below).trans higher)

/-- A row that is pulled is as new as the row was before. -/
theorem asNew_of_pull {employeeId locationId : String} {now : Time}
    (taken : before.step (.pull employeeId locationId now) = some after) :
    after.AsNew (employeeId, locationId) (before.hcm.versionOf (key employeeId locationId)) := by
  -- The pull reads the row as it is by then, and its version has not gone down.
  have grown := versionOf_step taken (key employeeId locationId)
  cases step_effect taken with
  | reads _ _ _ row read same listing =>
    rcases listing with ⟨other, _⟩ | ⟨named, cached, _, pulls⟩
    · cases other
    · cases named
      rw [HcmCore.versionOf_of_find (HcmCore.getBalance_found read)] at grown
      have pending := pulls ▸ List.mem_append_right before.pulls (List.mem_singleton_self _)
      exact ⟨same ▸ cached, Or.inr ⟨_, pending, rfl, grown⟩⟩
  | operates _ named | loses _ named | delivers _ _ _ _ _ named | inserts _ _ named
  | crashes named | seeds _ _ _ _ named | adjusts _ _ _ _ _ named | configures _ named =>
    cases named
  | reconciles _ _ _ named =>
    rcases named with ⟨_, other⟩ | ⟨_, other⟩
    · cases other
    · cases other

variable {start final : System} {taken : List (System × Action)} {employeeId locationId : String}

/-- What a run that is extended has posted. -/
theorem postings_of_step (moved : before.step action = some after) :
    ∃ more, after.history.postings = before.history.postings ++ more := by
  -- Postings are only ever added.
  cases row_of_step moved "" with
  | still more _ postings _ => exact ⟨more, postings⟩
  | raised _ _ _ _ postings => exact ⟨_, postings⟩

/-- What a run keeps of its start, and what it comes to for a pair that it has pulled. -/
structure Passed (start : System) (employeeId locationId : String)
    (taken : List (System × Action)) (state : System) : Prop where
  reached : System.Reachable (fun _ _ => True) state
  grown : start.hcm.versionOf (key employeeId locationId) ≤
    state.hcm.versionOf (key employeeId locationId)
  posted : ∃ more, state.history.postings = start.history.postings ++ more
  pulled : (∃ made ∈ taken, ∃ now, made.2 = .pull employeeId locationId now) →
    state.AsNew (employeeId, locationId) (start.hcm.versionOf (key employeeId locationId))

/-- Every run without a crash is followed in this way. -/
theorem passed_of_trace (reached : System.Reachable (fun _ _ => True) start)
    (pass : Runs.Trace System.step start taken final) (alive : ∀ made ∈ taken, made.2 ≠ .crash)
    (employeeId locationId : String) : Passed start employeeId locationId taken final := by
  -- Only a pull makes the pair as new as the start, and every later step keeps it so.
  induction pass with
  | start => exact ⟨reached, le_rfl, ⟨[], (List.append_nil _).symm⟩, by simp⟩
  | @step taken before after action _ moved ih =>
    have passed := ih fun made member => alive made (List.mem_append_left _ member)
    have living : action ≠ .crash :=
      alive (before, action) (List.mem_append_right _ (List.mem_singleton_self _))
    obtain ⟨first, earlier⟩ := passed.posted
    obtain ⟨more, later⟩ := postings_of_step moved
    refine ⟨.step passed.reached trivial moved,
      passed.grown.trans (versionOf_step moved (key employeeId locationId)),
      ⟨first ++ more, by rw [later, earlier, List.append_assoc]⟩, fun pulled => ?_⟩
    obtain ⟨made, member, now, named⟩ := pulled
    rcases List.mem_append.mp member with old | new
    · exact (passed.pulled ⟨made, old, now, named⟩).step
        (System.Reachable.service passed.reached).coherent moved living
    · obtain rfl := List.mem_singleton.mp new
      subst named
      have pulled := asNew_of_pull moved
      refine ⟨pulled.cached, pulled.newer.imp passed.grown.trans ?_⟩
      rintro ⟨update, pending, same, newer⟩
      exact ⟨update, pending, same, passed.grown.trans newer⟩

/--
A pass of the safety net is fresh, whatever it overlaps with: once every row that was pulled for a
pair is reconciled, the cached balance lacks exactly changes that were made since the pass began.
-/
theorem pass_is_fresh (reached : System.Reachable (fun _ _ => True) start)
    (pass : Runs.Trace System.step start taken final) (alive : ∀ made ∈ taken, made.2 ≠ .crash)
    (pulled : ∃ made ∈ taken, ∃ now, made.2 = .pull employeeId locationId now)
    (ended : ∀ update ∈ final.pulls, update.pair ≠ (employeeId, locationId)) :
    ∃ b more, final.service.store.balances.find (employeeId, locationId) = some b ∧
      final.history.postings = start.history.postings ++ more ∧
      final.hcm.balanceOf (key employeeId locationId) = b.hcmBalance +
        ((more.filter fun posting => posting.rowKey = key employeeId locationId ∧
          b.lastReconciledVersion < posting.version).map (·.delta)).sum := by
  have passed := passed_of_trace reached pass alive employeeId locationId
  obtain ⟨cached, newer⟩ := passed.pulled pulled
  obtain ⟨b, found⟩ := Option.isSome_iff_exists.mp cached
  obtain ⟨more, posted⟩ := passed.posted
  -- No row is on its way any more, so the cached one is as new as the start.
  have fresh : start.hcm.versionOf (key employeeId locationId) ≤ b.lastReconciledVersion := by
    rcases newer with reached | ⟨update, pending, named, _⟩
    · rwa [Store.watermark_of_find found] at reached
    · exact absurd named (ended update pending)
  have attested := passed.reached.explained.cached b (Table.mem_of_find found)
  have named : b.pair = (employeeId, locationId) := Table.key_of_find found
  obtain ⟨rfl, rfl⟩ := Prod.mk.inj named
  -- Nothing that was posted before the pass is newer than the cached row.
  have nothing : (start.history.postings.filter fun posting =>
      posting.rowKey = key b.employeeId b.locationId ∧
        b.lastReconciledVersion < posting.version) = [] := by
    rw [List.filter_eq_nil_iff]
    intro posting member
    simp only [decide_eq_true_eq, not_and]
    intro same
    have dated := reached.explained.dated posting member
    rw [same] at dated
    omega
  -- The balance is the cached one and what was posted above its version since.
  have explains := attested.explains
  rw [History.since_append _ _ posted, History.since, nothing] at explains
  simp only [List.map_nil, List.sum_nil, zero_add] at explains
  exact ⟨b, more, found, posted, explains⟩

/-- A balance is cached, and a day is granted that the service does not hear of. -/
def unheardRun : List Action :=
  [.seed "e" "l" 10 0, .readBalance "e" "l" 0, .insertBalance 0, .adjust "e" "l" 1 0]

/-- Five days are granted between the read of a pass and its reconcile. -/
def overlappedPass : List Action :=
  [.pull "e" "l" 1, .adjust "e" "l" 5 2, .reconcilePulled 0 "event" 3]

/-- That pass takes over the first grant, and lacks exactly the second. -/
theorem pass_is_fresh_overlapped : ∃ (start final : System) (b : Balance) (more : List Posting),
    final.service.store.balances.find ("e", "l") = some b ∧
      final.history.postings = start.history.postings ++ more ∧
      start.service.store.available "e" "l" = 10 ∧ final.service.store.available "e" "l" = 11 ∧
      final.hcm.balanceOf (key "e" "l") = b.hcmBalance +
        ((more.filter fun posting => posting.rowKey = key "e" "l" ∧
          b.lastReconciledVersion < posting.version).map (·.delta)).sum := by
  have executed : (run (fun _ _ => True) unheardRun).map (fun start =>
      decide (start.service.store.available "e" "l" = 10) &&
        decide ((Runs.run System.step (fun _ _ => true) start overlappedPass).map (fun final =>
          decide (final.pulls.map (·.pair) = []) &&
            decide (final.service.store.available "e" "l" = 11)) = some true)) = some true := by
    decide +kernel
  obtain ⟨start, reached, shown⟩ := exists_reachable_of_run executed
  rw [Bool.and_eq_true, decide_eq_true_eq, decide_eq_true_eq] at shown
  obtain ⟨before, passed⟩ := shown
  obtain ⟨final, ran, ended⟩ := Option.map_eq_some_iff.mp passed
  rw [Bool.and_eq_true, decide_eq_true_eq, decide_eq_true_eq] at ended
  obtain ⟨taken, pass, actions, _⟩ := Runs.trace_of_run .start ran
  rw [List.nil_append] at pass
  have listed (action : Action) : action ∈ taken.map Prod.snd ↔ action ∈ overlappedPass := by
    rw [actions]
  have alive : ∀ made ∈ taken, made.2 ≠ .crash := by
    intro made member crashed
    have crash := (listed made.2).mp (List.mem_map_of_mem member)
    simp [crashed, overlappedPass] at crash
  obtain ⟨made, member, named⟩ := List.mem_map.mp
    ((listed (.pull "e" "l" 1)).mpr (by simp [overlappedPass]))
  have none_ : final.pulls = [] := List.map_eq_nil_iff.mp ended.1
  obtain ⟨b, more, found, posted, lacks⟩ := pass_is_fresh reached pass alive
    ⟨made, member, 1, named⟩ (by simp [none_])
  exact ⟨start, final, b, more, found, posted, before, ended.2, lacks⟩

end System

end TimeOff
