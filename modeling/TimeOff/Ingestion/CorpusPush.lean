import TimeOff.Balance.Settlement
import TimeOff.Ingestion.Bootstrap
import TimeOff.Ingestion.Interrupted

/-! A push of the whole corpus does for every row of the other side what a re-pull of it does. -/

namespace TimeOff

/-- The body a push of the corpus has, as the batch endpoint reads it. -/
def MockHcmController.emitBatch (core : HcmCore) : List HcmBalanceUpdate :=
  core.dumpCorpus.map fun row => row.updateAt (some row.asOf)

namespace Store

variable {store after other : Store} {pair : String × String} {balance version : Int}

/-- A reconciliation is applied exactly when its version is above the watermark. -/
theorem applied_reconcileKey (store : Store) (uuid : String) (now : Time)
    (update : HcmBalanceUpdate) :
    (store.reconcileKey uuid now update).1.applied =
      decide (store.watermark update.pair < update.version) := by
  -- Above the watermark an update is applied, and otherwise it is stale.
  rcases Int.lt_or_le (store.watermark update.pair) update.version with fresh | stale
  · rw [(store.reconcileKey_fresh uuid now fresh).2.1, decide_eq_true fresh]
  · rw [(store.reconcileKey_stale uuid now stale).1, decide_eq_false (by omega)]

/-- A batch with one row for a pair re-pulls these pairs and leaves the others. -/
theorem ingestBatch_spec (uuids : Nat → String) (clock : Nat → Time) :
    ∀ (updates : List HcmBalanceUpdate) (store : Store),
      (updates.map HcmBalanceUpdate.pair).Nodup →
      let made := store.ingestBatch uuids clock updates
      made.1.processed = updates.length ∧
        made.1.applied =
          updates.countP (fun update => store.watermark update.pair < update.version) ∧
        (∀ pair, pair ∉ updates.map HcmBalanceUpdate.pair → SamePair pair store made.2) ∧
        ∀ update ∈ updates, Repulled update.pair update.balance update.version store made.2 := by
  intro updates
  induction updates with
  | nil => exact fun store _ => ⟨rfl, rfl, fun pair _ => .refl pair store, by simp⟩
  | cons update rest ih =>
    intro store distinct
    simp only [List.map_cons, List.nodup_cons] at distinct
    let reconciled :=
      (store.reconcileKey (uuids rest.length) (clock rest.length) update).2
    -- The rest is ingested into what the first update leaves.
    obtain ⟨processed, applied, others, repulled⟩ := ih reconciled distinct.2
    have away {pair : String × String} (different : update.pair ≠ pair) :
        SamePair pair store reconciled :=
      samePair_reconcileKey store _ _ different
    -- No later row has the pair of the first one, so it finds its watermark unchanged.
    have later {row : HcmBalanceUpdate} (member : row ∈ rest) : update.pair ≠ row.pair :=
      fun same => distinct.1 (same ▸ List.mem_map_of_mem member)
    have counted :
        rest.countP (fun row => reconciled.watermark row.pair < row.version) =
          rest.countP (fun row => store.watermark row.pair < row.version) := by
      refine List.countP_congr fun row member => ?_
      rw [(away (later member)).watermark]
    refine ⟨congrArg (· + 1) processed, ?_, ?_, ?_⟩
    · have step : (store.ingestBatch uuids clock (update :: rest)).1.applied =
          (reconciled.ingestBatch uuids clock rest).1.applied +
            if (store.reconcileKey (uuids rest.length) (clock rest.length) update).1.applied then 1
            else 0 := rfl
      rw [step, List.countP_cons, applied, counted, applied_reconcileKey]
    · intro pair absent
      simp only [List.map_cons, List.mem_cons, not_or] at absent
      exact (away (Ne.symm absent.1)).trans (others pair absent.2)
    · intro row member
      rcases List.mem_cons.mp member with rfl | member
      · have pulled : Repulled row.pair row.balance row.version store reconciled :=
          repulled_reconcileKey store _ _ row
        exact pulled.of_samePair (.refl _ _) (others row.pair distinct.1)
      · exact (repulled row member).of_samePair (away (later member)) (.refl _ _)

/-- Rows that are all stale change nothing. -/
theorem ingestBatch_stale (uuids : Nat → String) (clock : Nat → Time) :
    ∀ updates : List HcmBalanceUpdate,
      (∀ update ∈ updates, update.version ≤ store.watermark update.pair) →
      (store.ingestBatch uuids clock updates).2 = store := by
  -- The first update changes nothing, so the others are still stale.
  intro updates
  induction updates with
  | nil => exact fun _ => rfl
  | cons update rest ih =>
    intro stale
    obtain ⟨_, same⟩ := store.reconcileKey_stale (uuids rest.length) (clock rest.length)
      (stale update List.mem_cons_self)
    simp only [ingestBatch, same]
    exact ih fun row member => stale row (List.mem_cons_of_mem _ member)

/-- What is available of a pair that is known. -/
theorem available_of_snapshot (known : store.snapshot pair = some (balance, version)) :
    store.available pair.1 pair.2 =
      balance - activeTotal .reserve (store.entriesAt pair) -
        activeTotal .commit (store.entriesAt pair) := by
  -- The components of a pair are its cached balance and its active entries.
  obtain ⟨b, found, shown⟩ := Option.map_eq_some_iff.mp known
  obtain ⟨rfl, _⟩ := Prod.mk.inj shown
  simp only [available, computeAvailable, computeComponents, found, Option.map_some,
    Option.getD_some]

/-- Two re-pulls of one row from one store show the same. -/
theorem Repulled.agree (left : Repulled pair balance version store after)
    (right : Repulled pair balance version store other) :
    after.snapshot pair = other.snapshot pair ∧
      after.available pair.1 pair.2 = other.available pair.1 pair.2 := by
  -- Both are applied or both are stale, for the watermark and the version are the same.
  have same : after.snapshot pair = other.snapshot pair ∧
      after.entriesAt pair = other.entriesAt pair := by
    rcases Int.lt_or_le (store.watermark pair) version with fresh | stale
    · obtain ⟨⟨_, leftFound⟩, leftEntries⟩ := left.fresh fresh
      obtain ⟨⟨_, rightFound⟩, rightEntries⟩ := right.fresh fresh
      exact ⟨by rw [snapshot, snapshot, leftFound, rightFound]; rfl,
        leftEntries.trans rightEntries.symm⟩
    · obtain ⟨leftFound, leftEntries⟩ := left.stale stale
      obtain ⟨rightFound, rightEntries⟩ := right.stale stale
      exact ⟨by rw [snapshot, snapshot, leftFound, rightFound],
        leftEntries.trans rightEntries.symm⟩
  -- What is available is computed from the cached balance and the entries.
  have values := congrArg (Option.map Prod.fst) same.1
  simp only [snapshot, Option.map_map, Function.comp_def] at values
  refine ⟨same.1, ?_⟩
  simp only [available, computeAvailable, computeComponents, Prod.mk.eta, values, same.2]

end Store

namespace System

variable {system : System} {final : Store} {row : HcmBalanceRow}

/-- A re-pull leaves the balance and the version of a row that is held. -/
theorem Explained.snapshot_repulled (explained : system.Explained)
    (held : row ∈ system.hcm.dumpCorpus)
    (repulled : Store.Repulled row.pair row.balance row.version system.service.store final) :
    final.snapshot row.pair = some (row.balance, row.version) := by
  have found : system.hcm.balances.find (key row.employeeId row.locationId) = some row :=
    Table.find_of_mem held
  rcases Int.lt_or_le (system.service.store.watermark row.pair) row.version with fresh | stale
  · obtain ⟨⟨_, replaced⟩, _⟩ := repulled.fresh fresh
    rw [Store.snapshot, replaced]
    rfl
  · -- The row is cached at its own version already, for no cached one is newer than it.
    rw [Store.snapshot, (repulled.stale stale).1]
    have positive := explained.positive _ _ found
    cases cached : system.service.store.balances.find row.pair with
    | none =>
      rw [Store.watermark, cached] at stale
      simp only [Option.map_none, Option.getD_none] at stale
      omega
    | some b =>
      obtain ⟨below, same, _⟩ := explained.cached_current (Table.mem_of_find cached)
      have named : b.pair = row.pair := Table.key_of_find cached
      obtain ⟨employee, location⟩ := Prod.mk.inj named
      rw [employee, location, HcmCore.versionOf_of_find found] at below same
      rw [HcmCore.balanceOf_of_find found] at same
      rw [Store.watermark_of_find cached] at stale
      have current : b.lastReconciledVersion = row.version := le_antisymm below stale
      rw [Option.map_some, same current, current]

/-- The rows of the corpus are for different pairs. -/
theorem nodup_emitBatch (core : HcmCore) :
    ((MockHcmController.emitBatch core).map HcmBalanceUpdate.pair).Nodup := by
  -- Rows of one pair would have one key.
  rw [MockHcmController.emitBatch, List.map_map]
  have keys := core.balances.nodup
  refine List.Nodup.of_map (fun pair => key pair.1 pair.2) ?_
  rw [List.map_map]
  exact keys

/-- What a push does to every row: the pairs of the rows are re-pulled, the others left alone. -/
theorem push_repulls (core : HcmCore) (store : Store) (uuids : Nat → String) (clock : Nat → Time) :
    let pushed := (store.ingestBatch uuids clock (MockHcmController.emitBatch core)).2
    (∀ pair, pair ∉ core.dumpCorpus.map HcmBalanceRow.pair → Store.SamePair pair store pushed) ∧
      ∀ row ∈ core.dumpCorpus,
        Store.Repulled row.pair row.balance row.version store pushed := by
  -- The corpus is a batch with one update for each row.
  obtain ⟨_, _, others, repulled⟩ := store.ingestBatch_spec uuids clock
    (MockHcmController.emitBatch core) (nodup_emitBatch core)
  refine ⟨fun pair absent => others pair ?_, fun row held => ?_⟩
  · rw [MockHcmController.emitBatch, List.map_map]
    exact absent
  · exact repulled (row.updateAt (some row.asOf)) (List.mem_map_of_mem held)

/--
In every reachable state, one push of the corpus takes the service to what the other side holds.

It applies exactly the rows that are ahead of the service, accounts for every request of their
pairs, leaves the other pairs alone, and pushed again it changes nothing.
-/
theorem push_synchronises (reached : System.Reachable (fun _ _ => True) system)
    (uuids again : Nat → String) (clock later : Nat → Time) :
    ∃ report pushed,
      system.service.store.ingestBatch uuids clock (MockHcmController.emitBatch system.hcm) =
        (report, pushed) ∧
      report.processed = system.hcm.dumpCorpus.length ∧
      report.applied = (system.hcm.dumpCorpus.countP fun row =>
        system.service.store.watermark row.pair < row.version) ∧
      (∀ row ∈ system.hcm.dumpCorpus,
        pushed.snapshot row.pair = some (row.balance, row.version) ∧
        pushed.available row.employeeId row.locationId =
          row.balance -
            (system.service.store.daysOf fun request => request.pair = row.pair ∧
              (request.status = .pendingApproval ∨ request.status = .approved)) -
            system.service.store.daysOf fun request =>
              request.pair = row.pair ∧ system.unabsorbed request) ∧
      (∀ pair, pair ∉ system.hcm.dumpCorpus.map HcmBalanceRow.pair →
        Store.SamePair pair system.service.store pushed) ∧
      (pushed.ingestBatch again later (MockHcmController.emitBatch system.hcm)).2 = pushed := by
  have coherent := (System.Reachable.service reached).coherent
  obtain ⟨processed, applied, _, _⟩ := system.service.store.ingestBatch_spec uuids clock
    (MockHcmController.emitBatch system.hcm) (nodup_emitBatch system.hcm)
  -- Each row is re-pulled by its own update.
  obtain ⟨others, repulled⟩ := push_repulls system.hcm system.service.store uuids clock
  refine ⟨_, _, rfl, ?_, ?_, fun row held => ?_, others, ?_⟩
  · rw [processed, MockHcmController.emitBatch, List.length_map]
  · rw [applied, MockHcmController.emitBatch, List.countP_map]
    rfl
  · have known := reached.explained.snapshot_repulled held (repulled row held)
    refine ⟨known, ?_⟩
    have found := Table.find_of_mem held
    have pulled := repulled row held
    rw [← HcmCore.balanceOf_of_find found, ← HcmCore.versionOf_of_find found] at pulled
    have available := Store.available_of_snapshot known
    rw [pulled.reserved, coherent.reserved, committed_of_repulled reached.posted reached.linked
      coherent pulled] at available
    exact available
  · -- Every row is cached at its own version now.
    refine Store.ingestBatch_stale again later _ fun update pushed => ?_
    obtain ⟨row, held, rfl⟩ := List.mem_map.mp pushed
    have known := reached.explained.snapshot_repulled held (repulled row held)
    obtain ⟨b, found, shown⟩ := Option.map_eq_some_iff.mp known
    have mark := Store.watermark_of_find found
    exact ((Prod.mk.inj shown).2.symm.trans mark.symm).le

/-- After a debit, a grant and a second debit, one push takes over the row as it is. -/
theorem push_synchronises_booked : ∃ (system : System) (pushed : Store),
    system.service.store.watermark ("e", "l") = 1 ∧
      (system.service.store.ingestBatch (fun _ => "") (fun _ => 0)
        (MockHcmController.emitBatch system.hcm)).2 = pushed ∧
      pushed.snapshot ("e", "l") = some (6, 4) := by
  have executed : (run (fun _ _ => True) bookedRun).map (fun system =>
      decide (system.service.store.watermark ("e", "l") = 1) &&
        decide ((system.hcm.dumpCorpus.map fun row => (row.pair, row.balance, row.version)) =
          [(("e", "l"), 6, 4)])) = some true := by decide +kernel
  obtain ⟨system, reached, ended⟩ := exists_reachable_of_run executed
  simp only [Bool.and_eq_true, decide_eq_true_eq] at ended
  obtain ⟨behind, corpus⟩ := ended
  obtain ⟨row, held, shown⟩ := List.map_eq_singleton_iff.mp corpus
  obtain ⟨_, pushed, made, _, _, taken, _⟩ := push_synchronises reached (fun _ => "") (fun _ => "")
    (fun _ => 0) fun _ => 0
  obtain ⟨named, balance, version⟩ : row.pair = ("e", "l") ∧ row.balance = 6 ∧ row.version = 4 := by
    simpa only [Prod.mk.injEq] using shown
  have known := (taken row (held ▸ List.mem_singleton_self row)).1
  rw [named, balance, version] at known
  exact ⟨system, pushed, behind, congrArg Prod.snd made, known⟩

/--
The push and the safety net agree: for every cached pair that has a row of its own, both end with
the same balance at the same version, and leave the same days available.
-/
theorem push_agrees_with_pull (reached : System.Reachable (fun _ _ => True) system)
    (answered : ∀ b ∈ system.service.store.balances.rows, ∀ now, ∃ reply,
      system.hcm.getBalance now b.employeeId b.locationId = .ok reply)
    (uuids drawn : Nat → String) (clock instants : Nat → Time) :
    ∃ pulled, system.service.store.reconcileAll system.hcm drawn instants =
        (.ok system.service.store.balances.rows.length, system.hcm, pulled) ∧
      ∀ b ∈ system.service.store.balances.rows, ∀ row ∈ system.hcm.dumpCorpus, row.pair = b.pair →
        let pushed := (system.service.store.ingestBatch uuids clock
          (MockHcmController.emitBatch system.hcm)).2
        pulled.snapshot b.pair = pushed.snapshot b.pair ∧
          pulled.available b.employeeId b.locationId =
            pushed.available b.employeeId b.locationId := by
  obtain ⟨pulled, looped, _, repulled⟩ := Store.reconcileEach_spec drawn instants
    system.service.store.balances.rows system.service.store
    (reached.explained.answers answered) system.service.store.balances.nodup
  -- The push re-pulls every row, and the pull every pair that is cached.
  obtain ⟨_, pushes⟩ := push_repulls system.hcm system.service.store uuids clock
  refine ⟨pulled, looped, fun b cached row held named => ?_⟩
  -- Both are re-pulls of the one row that the pair has.
  have found := Table.find_of_mem held
  have own := repulled b.pair (List.mem_map_of_mem cached)
  have push := pushes row held
  rw [← HcmCore.balanceOf_of_find found, ← HcmCore.versionOf_of_find found] at push
  rw [← named] at own
  obtain ⟨snapshot, available⟩ := own.agree push
  rw [named] at snapshot
  obtain ⟨employee, location⟩ := Prod.mk.inj named
  rw [← employee, ← location]
  exact ⟨snapshot, available⟩

/-- There, a push and a reconcile of all balances leave the same. -/
theorem push_agrees_with_pull_booked : ∃ (system : System) (pulled pushed : Store),
    system.service.store.watermark ("e", "l") = 1 ∧
      (system.service.store.reconcileAll system.hcm (fun _ => "") fun _ => 0).2.2 = pulled ∧
      (system.service.store.ingestBatch (fun _ => "") (fun _ => 0)
        (MockHcmController.emitBatch system.hcm)).2 = pushed ∧
      pulled.snapshot ("e", "l") = pushed.snapshot ("e", "l") := by
  have executed : (run (fun _ _ => True) bookedRun).map (fun system =>
      decide (system.service.store.watermark ("e", "l") = 1) &&
        decide (system.hcm.dumpCorpus.map (·.pair) = [("e", "l")]) &&
        decide (system.service.store.balances.rows.map Balance.pair = [("e", "l")]) &&
        decide (system.hcm.faults.invalidDimensions = [])) = some true := by decide +kernel
  obtain ⟨system, reached, ended⟩ := exists_reachable_of_run executed
  simp only [Bool.and_eq_true, decide_eq_true_eq] at ended
  obtain ⟨⟨⟨behind, corpus⟩, balances⟩, faultless⟩ := ended
  obtain ⟨row, held, named⟩ := List.map_eq_singleton_iff.mp corpus
  obtain ⟨b, cached, pair⟩ := List.map_eq_singleton_iff.mp balances
  have answered : ∀ b ∈ system.service.store.balances.rows, ∀ now, ∃ reply,
      system.hcm.getBalance now b.employeeId b.locationId = .ok reply := by
    intro other member now
    obtain ⟨_, _, known⟩ := reached.explained.cached_current member
    obtain ⟨found, present⟩ := Option.isSome_iff_exists.mp known
    exact ⟨(system.hcm, found), by simp [HcmCore.getBalance, faultless, present]⟩
  obtain ⟨pulled, looped, agree⟩ := push_agrees_with_pull reached answered (fun _ => "")
    (fun _ => "") (fun _ => 0) fun _ => 0
  have same := (agree b (cached ▸ List.mem_singleton_self b) row
    (held ▸ List.mem_singleton_self row) (named.trans pair.symm)).1
  rw [pair] at same
  exact ⟨system, pulled, _, behind, by rw [looped], rfl, same⟩

end System

end TimeOff
