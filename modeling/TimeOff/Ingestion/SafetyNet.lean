import Mathlib.Algebra.Order.Group.Int
import TimeOff.Balance.DoubleCount
import TimeOff.Ingestion.OrderIndependence
import TimeOff.Ingestion.Reporting
import TimeOff.Propagation.Compensation

/-! Which reachable states the safety-net reconcile takes to what the other side holds. -/

namespace TimeOff

namespace Store

/-- What a snapshot of some version makes of an entry of its pair. -/
def absorb (version : Int) (entry : BalanceLedgerEntry) : BalanceLedgerEntry :=
  if entry.absorbedAt version then { entry with state := .reconciled } else entry

/-- What one re-pull of a row does to its pair: a newer row is taken over, another one ignored. -/
structure Repulled (pair : String × String) (balance version : Int) (before after : Store) :
    Prop where
  fresh : before.watermark pair < version →
    (∃ asOf, after.balances.find pair = some
      { employeeId := pair.1, locationId := pair.2, hcmBalance := balance
        lastReconciledVersion := version, asOf }) ∧
    after.entriesAt pair = (before.entriesAt pair).map (absorb version)
  stale : version ≤ before.watermark pair →
    after.balances.find pair = before.balances.find pair ∧
      after.entriesAt pair = before.entriesAt pair

/-- Two stores show the same balance and the same entries for a pair. -/
structure SamePair (pair : String × String) (left right : Store) : Prop where
  found : left.balances.find pair = right.balances.find pair
  entries : left.entriesAt pair = right.entriesAt pair

variable {store middle after : Store} {update : HcmBalanceUpdate} {pair : String × String}

theorem SamePair.refl (pair : String × String) (store : Store) : SamePair pair store store :=
  ⟨rfl, rfl⟩

/-- The entries of a pair after a fresh update of any pair. -/
theorem Absorbs.entriesAt (absorbs : Absorbs update store after) (pair : String × String) :
    after.entriesAt pair =
      (store.entriesAt pair).map fun entry =>
        if entry.matchedBy update then { entry with state := .reconciled } else entry := by
  -- Marking an entry leaves its pair, so the slice is marked in place.
  rw [Store.entriesAt, absorbs.ledger, List.filter_map, Store.entriesAt]
  congr 1
  apply List.filter_congr
  intro entry _
  simp only [Function.comp_apply]
  split <;> rfl

/-- A reconciliation leaves the other pairs alone. -/
theorem samePair_reconcileKey (store : Store) (uuid : String) (now : Time)
    (other : update.pair ≠ pair) :
    SamePair pair store (store.reconcileKey uuid now update).2 := by
  rcases Int.lt_or_le (store.watermark update.pair) update.version with fresh | stale
  · obtain ⟨_, _, absorbs⟩ := store.reconcileKey_fresh uuid now fresh
    refine ⟨(absorbs.found_other other).symm, ?_⟩
    rw [absorbs.entriesAt, List.map_congr_left, List.map_id]
    intro entry member
    -- Only entries of the update's own pair are matched.
    have unmatched : entry.matchedBy update = false := by
      simp [BalanceLedgerEntry.matchedBy, (mem_entriesAt.mp member).2, Ne.symm other]
    simp [unmatched]
  · rw [(store.reconcileKey_stale uuid now stale).2]
    exact .refl pair store

/-- A reconciliation re-pulls its own pair. -/
theorem repulled_reconcileKey (store : Store) (uuid : String) (now : Time)
    (update : HcmBalanceUpdate) :
    Repulled update.pair update.balance update.version store
      (store.reconcileKey uuid now update).2 := by
  constructor
  · intro fresh
    obtain ⟨_, _, absorbs⟩ := store.reconcileKey_fresh uuid now fresh
    refine ⟨absorbs.found, ?_⟩
    rw [absorbs.entriesAt]
    apply List.map_congr_left
    intro entry member
    -- Inside its pair, an update matches the active commits it absorbs.
    simp [BalanceLedgerEntry.matchedBy, absorb, BalanceLedgerEntry.absorbedAt,
      (mem_entriesAt.mp member).2]
  · intro stale
    rw [(store.reconcileKey_stale uuid now stale).2]
    exact ⟨rfl, rfl⟩

/-- A re-pull is the same from stores that agree about its pair. -/
theorem Repulled.of_samePair {balance version : Int} {left right : Store}
    (repulled : Repulled pair balance version store after) (before : SamePair pair left store)
    (afterwards : SamePair pair after right) : Repulled pair balance version left right := by
  have mark : left.watermark pair = store.watermark pair := by
    simp only [watermark, before.found]
  -- Both stores look the same to the re-pull, so it does the same.
  constructor
  · intro fresh
    obtain ⟨⟨asOf, found⟩, entries⟩ := repulled.fresh (mark ▸ fresh)
    exact ⟨⟨asOf, afterwards.found.symm.trans found⟩,
      by rw [← afterwards.entries, entries, before.entries]⟩
  · intro stale
    obtain ⟨found, entries⟩ := repulled.stale (mark ▸ stale)
    exact ⟨by rw [← afterwards.found, found, before.found],
      by rw [← afterwards.entries, entries, before.entries]⟩

/-- Every balance of a list has a row on the other side, which is asked for without a fault. -/
def Answers (hcm : HcmCore) (balances : List Balance) : Prop :=
  ∀ b ∈ balances, TimeOff.key b.employeeId b.locationId ∉ hcm.faults.invalidDimensions ∧
    (hcm.balances.find (TimeOff.key b.employeeId b.locationId)).isSome = true

/-- What the loop of the safety net does, one balance after the other. -/
theorem reconcileEach_spec {hcm : HcmCore} (uuids : Nat → String) (clock : Nat → Time) :
    ∀ (balances : List Balance) (store : Store), Answers hcm balances →
      (balances.map Balance.pair).Nodup →
      ∃ final, reconcileEach uuids clock balances hcm store = (.ok balances.length, hcm, final) ∧
        (∀ pair, pair ∉ balances.map Balance.pair → SamePair pair store final) ∧
        ∀ pair ∈ balances.map Balance.pair,
          Repulled pair (hcm.balanceOf (TimeOff.key pair.1 pair.2))
            (hcm.versionOf (TimeOff.key pair.1 pair.2)) store final := by
  intro balances
  induction balances with
  | nil => exact fun store _ _ => ⟨store, rfl, fun pair _ => .refl pair store, by simp⟩
  | cons b rest ih =>
    intro store answers distinct
    obtain ⟨valid, present⟩ := answers b List.mem_cons_self
    obtain ⟨row, found⟩ := Option.isSome_iff_exists.mp present
    simp only [List.map_cons, List.nodup_cons] at distinct
    -- The first balance is pulled from a row that is stored, which changes nothing over there.
    have answered : hcm.getBalance (clock rest.length) b.employeeId b.locationId =
        .ok (hcm, row) := by
      simp [HcmCore.getBalance, valid, found]
    let update : HcmBalanceUpdate :=
      { employeeId := b.employeeId, locationId := b.locationId
        balance := row.balance, version := row.version, asOf := some row.asOf }
    let reconciled := (store.reconcileKey (uuids rest.length) (clock rest.length) update).2
    obtain ⟨final, looped, others, repulled⟩ := ih reconciled
      (fun other member => answers other (List.mem_cons_of_mem _ member)) distinct.2
    refine ⟨final, ?_, ?_, ?_⟩
    · simp only [reconcileEach, reconcileEachWith, answered] at looped ⊢
      rw [show (store.reconcileKey (uuids rest.length) (clock rest.length) update).2 =
        reconciled from rfl, looped]
      rfl
    · intro pair absent
      simp only [List.map_cons, List.mem_cons, not_or] at absent
      have first : SamePair pair store reconciled :=
        samePair_reconcileKey store _ _ (Ne.symm absent.1)
      have later := others pair absent.2
      exact ⟨first.found.trans later.found, first.entries.trans later.entries⟩
    · intro pair member
      simp only [List.map_cons, List.mem_cons] at member
      by_cases own : pair = b.pair
      · -- No later balance has the pair of the first one.
        subst own
        have pulled : Repulled b.pair row.balance row.version store reconciled :=
          repulled_reconcileKey store _ _ update
        rw [show TimeOff.key b.pair.1 b.pair.2 = TimeOff.key b.employeeId b.locationId from rfl,
          HcmCore.balanceOf_of_find found, HcmCore.versionOf_of_find found]
        exact pulled.of_samePair (.refl _ _) (others b.pair distinct.1)
      · have first : SamePair pair store reconciled := samePair_reconcileKey store _ _ (Ne.symm own)
        exact (repulled pair (member.resolve_left own)).of_samePair first (.refl _ _)

/-- Every cached balance is that of the other side, and only holds are left to subtract. -/
def Converged (store : Store) (hcm : HcmCore) : Prop :=
  ∀ b ∈ store.balances.rows,
    b.hcmBalance = hcm.balanceOf (TimeOff.key b.employeeId b.locationId) ∧
    (store.computeComponents b.employeeId b.locationId).committedPending = 0 ∧
    store.available b.employeeId b.locationId =
      hcm.balanceOf (TimeOff.key b.employeeId b.locationId) -
        (store.computeComponents b.employeeId b.locationId).reservedOpen

/-- Where no entry of a phase is active, nothing of it is counted. -/
theorem activeTotal_eq_zero {phase : LedgerPhase} {entries : List BalanceLedgerEntry}
    (none_ : ∀ entry ∈ entries, entry.state = .active → entry.phase ≠ phase) :
    activeTotal phase entries = 0 := by
  -- The filter keeps nothing, and an empty sum is zero.
  rw [activeTotal, List.filter_eq_nil_iff.mpr, List.map_nil, List.sum_nil]
  intro entry member
  simp only [decide_eq_true_eq]
  rintro ⟨active, same⟩
  exact none_ entry member active same

/-- Entries of positive amounts add up to nothing only where none of them is active. -/
theorem activeTotal_eq_zero_iff {phase : LedgerPhase} {entries : List BalanceLedgerEntry}
    (positive : ∀ entry ∈ entries, entry.state = .active → entry.phase = phase →
      0 < entry.amount) :
    activeTotal phase entries = 0 ↔
      ∀ entry ∈ entries, entry.state = .active → entry.phase ≠ phase := by
  refine ⟨fun settled entry member active same => ?_, activeTotal_eq_zero⟩
  -- An active entry is one of the terms, and none of them is negative.
  have counted : entry.amount ≤ activeTotal phase entries := by
    refine List.single_le_sum ?_ _ (List.mem_map.mpr
      ⟨entry, List.mem_filter.mpr ⟨member, by simp [active, same]⟩, rfl⟩)
    intro amount listed
    obtain ⟨other, open_, rfl⟩ := List.mem_map.mp listed
    obtain ⟨otherMember, otherOpen⟩ := List.mem_filter.mp open_
    simp only [decide_eq_true_eq] at otherOpen
    exact (positive other otherMember otherOpen.1 otherOpen.2).le
  have more := positive entry member active same
  omega

/-- A cached balance without pending commits leaves what its holds leave. -/
theorem available_of_settled {b : Balance} (found : store.balances.find b.pair = some b)
    (settled : activeTotal .commit (store.entriesAt b.pair) = 0) :
    (store.computeComponents b.employeeId b.locationId).committedPending = 0 ∧
      store.available b.employeeId b.locationId =
        b.hcmBalance - (store.computeComponents b.employeeId b.locationId).reservedOpen := by
  simp only [Balance.pair] at found settled
  simp [available, computeAvailable, computeComponents, found, settled]

end Store

/-- The version of an active commit is the one its debit was acknowledged with. -/
theorem Progress.debitVersion_of_listed {progress : Progress} {stamp : Option Int}
    (listed : (.commit, .active, stamp) ∈ progress.entries) :
    ∃ version, stamp = some version ∧ progress.debitVersion = some version := by
  -- An active commit is listed only where the debit has been acknowledged.
  cases progress with
  | committed version absorbed | cancelling version absorbed _ | overtaken version absorbed =>
    cases absorbed <;> simp [Progress.entries] at listed
    exact ⟨version, listed, rfl⟩
  | refunded version absorbed => cases absorbed <;> simp [Progress.entries] at listed
  | _ => simp [Progress.entries] at listed

namespace System

variable {system : System}

/-- An active commit was acknowledged at a version of its row, for a positive number of days. -/
theorem active_commit (posted : system.Posted) (linked : system.Linked)
    (coherent : system.service.Coherent) {entry : BalanceLedgerEntry}
    (stored : entry ∈ system.service.store.ledger.rows) (active : entry.state = .active)
    (commit : entry.phase = .commit) :
    ∃ version, entry.hcmVersion = some version ∧
      version ≤ system.hcm.versionOf (key entry.pair.1 entry.pair.2) ∧ 0 < entry.amount := by
  obtain ⟨id, member⟩ := coherent.owner stored
  obtain ⟨progress, shown⟩ := coherent.shown id
  have listed := shown.entry_mem member
  simp only [BalanceLedgerEntry.view, active, commit] at listed
  obtain ⟨version, stamped, known⟩ := Progress.debitVersion_of_listed listed
  -- The acknowledgement of the debit is remembered, and its version is one of the row.
  obtain ⟨debit, acknowledged, same⟩ := (linked.coupled id progress shown).debited version known
  obtain ⟨request, found, pair⟩ := Service.pair_of_shown shown member
  have own := (shown.owned request found).entries entry member
  obtain rfl := Table.key_of_find found
  have dated := posted.dated _ request found .debit debit acknowledged
  refine ⟨version, stamped, ?_, own.amount ▸ own.positive⟩
  rw [pair]
  exact same ▸ dated

/-- Every active commit is for a row that is newer than the cached balance of its pair. -/
def Refreshable (system : System) : Prop :=
  ∀ entry ∈ system.service.store.ledger.rows, entry.state = .active → entry.phase = .commit →
    system.service.store.watermark entry.pair <
      system.hcm.versionOf (key entry.pair.1 entry.pair.2)

/-- A cached balance is at most as new as its row, and equal to it when it is as new. -/
theorem Explained.cached_current (explained : system.Explained) {b : Balance}
    (cached : b ∈ system.service.store.balances.rows) :
    b.lastReconciledVersion ≤ system.hcm.versionOf (key b.employeeId b.locationId) ∧
      (b.lastReconciledVersion = system.hcm.versionOf (key b.employeeId b.locationId) →
        b.hcmBalance = system.hcm.balanceOf (key b.employeeId b.locationId)) ∧
      (system.hcm.balances.find (key b.employeeId b.locationId)).isSome = true := by
  have attested := explained.cached b cached
  have positive := attested.positive
  have known := attested.known
  cases found : system.hcm.balances.find (key b.employeeId b.locationId) with
  | none =>
    -- A version of at least one is only known of a row that exists.
    simp only [HcmCore.versionOf, found, Option.map_none, Option.getD_none] at known
    omega
  | some row =>
    refine ⟨known, fun same => ?_, rfl⟩
    -- Nothing was posted after the current row, so its balance is the attested one.
    have current := (attests_current explained.positive explained.dated found).explains
    have explains := attested.explains
    rw [HcmCore.balanceOf_of_find found] at current explains ⊢
    rw [same, HcmCore.versionOf_of_find found] at explains
    omega

/-- A re-pull leaves the pending commits of a pair exactly when its row is not newer. -/
theorem committed_repulled (posted : system.Posted) (linked : system.Linked)
    (coherent : system.service.Coherent) {pair : String × String} {after : Store}
    (repulled : Store.Repulled pair (system.hcm.balanceOf (key pair.1 pair.2))
      (system.hcm.versionOf (key pair.1 pair.2)) system.service.store after) :
    activeTotal .commit (after.entriesAt pair) = 0 ↔
      ∀ entry ∈ system.service.store.entriesAt pair, entry.state = .active →
        entry.phase = .commit → system.service.store.watermark pair <
          system.hcm.versionOf (key pair.1 pair.2) := by
  have commits {entry : BalanceLedgerEntry}
      (member : entry ∈ system.service.store.entriesAt pair) (active : entry.state = .active)
      (commit : entry.phase = .commit) :
      ∃ version, entry.hcmVersion = some version ∧
        version ≤ system.hcm.versionOf (key pair.1 pair.2) ∧ 0 < entry.amount := by
    obtain ⟨stored, same⟩ := Store.mem_entriesAt.mp member
    have known := active_commit posted linked coherent stored active commit
    rwa [same] at known
  rcases Int.lt_or_le (system.service.store.watermark pair)
    (system.hcm.versionOf (key pair.1 pair.2)) with fresh | stale
  · -- A newer row absorbs every commit, for all of them were acknowledged before it.
    refine ⟨fun _ _ _ _ _ => fresh, fun _ => ?_⟩
    rw [(repulled.fresh fresh).2]
    apply Store.activeTotal_eq_zero
    intro entry listed
    obtain ⟨source, member, rfl⟩ := List.mem_map.mp listed
    unfold Store.absorb
    split
    · simp
    · rename_i kept
      intro active commit
      obtain ⟨version, stamped, below, _⟩ := commits member active commit
      exact kept (by simp [BalanceLedgerEntry.absorbedAt, active, commit,
        CommittedEntry.absorbedBy, BalanceLedgerEntry.toCommitted, stamped, below])
  · -- A row that is not newer changes nothing, so any commit stays pending.
    have positive : ∀ entry ∈ system.service.store.entriesAt pair, entry.state = .active →
        entry.phase = .commit → 0 < entry.amount := by
      intro entry member active commit
      obtain ⟨_, _, _, positive⟩ := commits member active commit
      exact positive
    rw [(repulled.stale stale).2, Store.activeTotal_eq_zero_iff positive]
    constructor
    · intro none_ entry member active commit
      exact absurd commit (none_ entry member active)
    · intro refreshable entry member active commit
      have fresh := refreshable entry member active commit
      omega

/-- Every cached balance has a row on the other side, so a read that succeeds changes nothing. -/
theorem Explained.answers (explained : system.Explained)
    (answered : ∀ b ∈ system.service.store.balances.rows, ∀ now, ∃ reply,
      system.hcm.getBalance now b.employeeId b.locationId = .ok reply) :
    Store.Answers system.hcm system.service.store.balances.rows := by
  intro b cached
  refine ⟨fun invalid => ?_, (explained.cached_current cached).2.2⟩
  -- A faulty dimension would have answered with an error.
  obtain ⟨reply, replied⟩ := answered b cached 0
  simp [HcmCore.getBalance, invalid] at replied

/-- A re-pulled balance is that of the other side. -/
theorem Explained.repulled_current (explained : system.Explained) {final : Store} {b : Balance}
    (found : final.balances.find b.pair = some b)
    (repulled : Store.Repulled b.pair (system.hcm.balanceOf (key b.pair.1 b.pair.2))
      (system.hcm.versionOf (key b.pair.1 b.pair.2)) system.service.store final) :
    b.hcmBalance = system.hcm.balanceOf (key b.employeeId b.locationId) := by
  rcases Int.lt_or_le (system.service.store.watermark b.pair)
    (system.hcm.versionOf (key b.pair.1 b.pair.2)) with fresh | stale
  · obtain ⟨asOf, replaced⟩ := (repulled.fresh fresh).1
    exact congrArg Balance.hcmBalance (Option.some.inj (found.symm.trans replaced))
  · -- A row that is not newer is the one that was cached before.
    have earlier := (repulled.stale stale).1.symm.trans found
    obtain ⟨below, same, _⟩ := explained.cached_current (Table.mem_of_find earlier)
    have mark : system.service.store.watermark b.pair = b.lastReconciledVersion :=
      Store.watermark_of_find earlier
    rw [mark] at stale
    exact same (le_antisymm below stale)

/-- After every pair was re-pulled, the store has converged exactly when it could be refreshed. -/
theorem converged_iff (explained : system.Explained) (posted : system.Posted)
    (linked : system.Linked) (coherent : system.service.Coherent) {final : Store}
    (others : ∀ pair, pair ∉ system.service.store.balances.rows.map Balance.pair →
      Store.SamePair pair system.service.store final)
    (repulled : ∀ pair ∈ system.service.store.balances.rows.map Balance.pair,
      Store.Repulled pair (system.hcm.balanceOf (key pair.1 pair.2))
        (system.hcm.versionOf (key pair.1 pair.2)) system.service.store final) :
    final.Converged system.hcm ↔ system.Refreshable := by
  constructor
  · intro converged entry stored active commit
    obtain ⟨b, found⟩ := Option.isSome_iff_exists.mp (coherent.loaded entry stored)
    have listed : entry.pair ∈ system.service.store.balances.rows.map Balance.pair :=
      List.mem_map.mpr ⟨b, Table.mem_of_find found, Table.key_of_find found⟩
    -- The pair is still cached after the re-pull, whether or not its row was newer.
    obtain ⟨after, foundAfter⟩ : ∃ after, final.balances.find entry.pair = some after := by
      rcases Int.lt_or_le (system.service.store.watermark entry.pair)
        (system.hcm.versionOf (key entry.pair.1 entry.pair.2)) with fresh | stale
      · obtain ⟨asOf, replaced⟩ := ((repulled _ listed).fresh fresh).1
        exact ⟨_, replaced⟩
      · exact ⟨b, ((repulled _ listed).stale stale).1.trans found⟩
    obtain ⟨_, settled, _⟩ := converged after (Table.mem_of_find foundAfter)
    have named : after.pair = entry.pair := Table.key_of_find foundAfter
    have pair : (after.employeeId, after.locationId) = entry.pair := named
    simp only [Store.computeComponents, pair] at settled
    exact (committed_repulled posted linked coherent (repulled _ listed)).mp settled entry
      (Store.mem_entriesAt.mpr ⟨stored, rfl⟩) active commit
  · intro refreshable after cached
    have foundAfter := Table.find_of_mem cached
    have listed : after.pair ∈ system.service.store.balances.rows.map Balance.pair := by
      by_contra absent
      have found := (others _ absent).found.trans foundAfter
      exact absent (List.mem_map.mpr ⟨after, Table.mem_of_find found, rfl⟩)
    have settled : activeTotal .commit (final.entriesAt after.pair) = 0 := by
      rw [committed_repulled posted linked coherent (repulled _ listed)]
      intro entry member active commit
      obtain ⟨stored, same⟩ := Store.mem_entriesAt.mp member
      exact same ▸ refreshable entry stored active commit
    have current := explained.repulled_current foundAfter (repulled _ listed)
    obtain ⟨nothing, left⟩ := Store.available_of_settled foundAfter settled
    exact ⟨current, nothing, current ▸ left⟩

/-- As long as no debit is recorded late, every pending commit can be refreshed away. -/
theorem refreshable_of_timely (reached : System.Reachable Timely system) : system.Refreshable := by
  intro entry stored active commit
  obtain ⟨version, stamped, below, _⟩ := active_commit reached.posted reached.linked
    (System.Reachable.service reached).coherent stored active commit
  -- An active commit is above the watermark, and not above the row.
  have once := countsOnce_of_timely reached
  rw [Store.countsOnce_iff _ (System.Reachable.service reached).coherent.loaded] at once
  have above := once entry stored version
    (by simp [BalanceLedgerEntry.view, active, commit, stamped])
  omega

/--
In every reachable state the safety-net reconcile ends with the balances of the other side if and
only if every active commit is for a row that is newer than the cached balance.

In particular it does so after every run that records no debit below the watermark of its pair.
-/
theorem reconcileAll_converges_iff (reached : System.Reachable (fun _ _ => True) system)
    (answered : ∀ b ∈ system.service.store.balances.rows, ∀ now, ∃ reply,
      system.hcm.getBalance now b.employeeId b.locationId = .ok reply)
    (uuids : Nat → String) (clock : Nat → Time) :
    ∃ final, system.service.store.reconcileAll system.hcm uuids clock =
        (.ok system.service.store.balances.rows.length, system.hcm, final) ∧
      (final.Converged system.hcm ↔ system.Refreshable) ∧
      (System.Reachable Timely system → final.Converged system.hcm) := by
  -- The loop re-pulls every cached pair once, whatever the order.
  obtain ⟨final, looped, others, repulled⟩ := Store.reconcileEach_spec uuids clock
    system.service.store.balances.rows system.service.store
    (reached.explained.answers answered) system.service.store.balances.nodup
  have converged := converged_iff reached.explained reached.posted reached.linked
    (System.Reachable.service reached).coherent others repulled
  exact ⟨final, looped, converged, fun timely => converged.mpr (refreshable_of_timely timely)⟩

/-- A debit that is acknowledged without being applied, at the version that is cached already. -/
def ghostRun : List Action :=
  [.seed "e" "l" 10 0, .readBalance "e" "l" 0, .insertBalance 0,
    .operate (.create "r" ⟨"e", "l", "2025-01-06", "2025-01-08", 3, none, true⟩ none),
    .operate (.submit "r" "hold"), .operate (.approve "r" "debit" 0),
    .configureFaults { ghostSuccess := some true }, .operate (.drain 0), .deliver .answered 0,
    .operate (.record "commit" "drift" 0)]

/-- After that run nothing is on its way, every key is answered, and a commit is out of reach. -/
theorem exists_ghostRun : ∃ system, System.Reachable (fun _ _ => True) system ∧ system.Quiet ∧
    (∀ b ∈ system.service.store.balances.rows, ∀ now, ∃ reply,
      system.hcm.getBalance now b.employeeId b.locationId = .ok reply) ∧ ¬system.Refreshable := by
  -- Everything that is claimed of the end of the run is decided there.
  have executed : (run (fun _ _ => True) ghostRun).map (fun system =>
      (system.service.store.outbox.rows.all fun msg =>
        msg.status ≠ .pending ∧ msg.status ≠ .inflight ∧ msg.status ≠ .failed) &&
      (system.service.store.balances.rows.all fun b =>
        key b.employeeId b.locationId ∉ system.hcm.faults.invalidDimensions ∧
          (system.hcm.balances.find (key b.employeeId b.locationId)).isSome = true) &&
      system.service.store.ledger.rows.any fun entry =>
        entry.state = .active ∧ entry.phase = .commit ∧
          system.hcm.versionOf (key entry.pair.1 entry.pair.2) ≤
            system.service.store.watermark entry.pair) = some true := by
    decide +kernel
  obtain ⟨system, reached, ended⟩ := exists_reachable_of_run executed
  simp only [Bool.and_eq_true, List.all_eq_true, List.any_eq_true, decide_eq_true_eq] at ended
  obtain ⟨⟨quiet, valid⟩, entry, stored, active, commit, stale⟩ := ended
  refine ⟨system, reached, quiet, ?_, fun refreshable => ?_⟩
  · intro b cached now
    obtain ⟨allowed, present⟩ := valid b cached
    obtain ⟨row, found⟩ := Option.isSome_iff_exists.mp present
    exact ⟨(system.hcm, row), by simp [HcmCore.getBalance, allowed, found]⟩
  · have fresh := refreshable entry stored active commit
    omega

/-- In that state the safety-net reconcile keeps subtracting the days that were never taken. -/
theorem ghostRun_diverges :
    ¬∀ system, System.Reachable (fun _ _ => True) system → system.Quiet →
      (∀ b ∈ system.service.store.balances.rows, ∀ now, ∃ reply,
        system.hcm.getBalance now b.employeeId b.locationId = .ok reply) →
      ∀ uuids clock processed final, system.service.store.reconcileAll system.hcm uuids clock =
        (.ok processed, system.hcm, final) → final.Converged system.hcm := by
  intro converges
  obtain ⟨system, reached, quiet, answered, stuck⟩ := exists_ghostRun
  obtain ⟨final, looped, others, repulled⟩ := Store.reconcileEach_spec (fun _ => "event")
    (fun _ => 0) system.service.store.balances.rows system.service.store
    (reached.explained.answers answered) system.service.store.balances.nodup
  -- A reconcile that converged would make the state a refreshable one.
  have converged := converges system reached quiet answered _ _ _ final looped
  exact stuck ((converged_iff reached.explained reached.posted reached.linked
    (System.Reachable.service reached).coherent others repulled).mp converged)

/-- The equivalence holds of the state after that run. -/
theorem reconcileAll_converges_iff_ghostRun : ∃ system final,
    ¬Refreshable system ∧
      Store.reconcileAll system.service.store system.hcm (fun _ => "event") (fun _ => 0) =
        (.ok system.service.store.balances.rows.length, system.hcm, final) ∧
      (final.Converged system.hcm ↔ Refreshable system) ∧
      (System.Reachable Timely system → final.Converged system.hcm) := by
  -- The ghost run reaches a state that a full pass cannot refresh.
  obtain ⟨system, reached, _, answered, stuck⟩ := exists_ghostRun
  obtain ⟨final, looped, converged, timely⟩ :=
    reconcileAll_converges_iff reached answered (fun _ => "event") fun _ => 0
  exact ⟨system, final, stuck, looped, converged, timely⟩

end System

end TimeOff
