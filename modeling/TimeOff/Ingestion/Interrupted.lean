import TimeOff.Ingestion.SafetyNet

/-! What the safety-net reconcile leaves undone when the other side fails for some balances. -/

namespace TimeOff

namespace Store

/-- A system of record that answers each pair with a row or an error of its own. -/
def answering (answers : String → String → Except HcmError HcmBalanceRow) :
    Unit → Time → String → String → Except HcmError (Unit × HcmBalanceRow) :=
  fun _ _ employeeId locationId => (answers employeeId locationId).map fun row => ((), row)

/-- The safety-net reconcile of every cached balance, over given answers. -/
def reconcileAllOver (store : Store) (answers : String → String → Except HcmError HcmBalanceRow)
    (uuids : Nat → String) (clock : Nat → Time) : Except HcmError Nat × Store :=
  let (processed, _, final) :=
    reconcileEachWith (answering answers) uuids clock store.balances.rows () store
  (processed, final)

/-- Every balance that was answered is reconciled, and every other one is as it was. -/
def EachReconciled (answers : String → String → Except HcmError HcmBalanceRow)
    (balances : List Balance) (before after : Store) : Prop :=
  ∀ b ∈ balances,
    (∀ row, answers b.employeeId b.locationId = .ok row →
      Repulled b.pair row.balance row.version before after) ∧
    ∀ error, answers b.employeeId b.locationId = .error error → SamePair b.pair before after

/-- No balance behind a failing one is answered with a version above its watermark. -/
def NothingBehind (answers : String → String → Except HcmError HcmBalanceRow)
    (balances : List Balance) (store : Store) : Prop :=
  balances.Pairwise fun earlier later =>
    ∀ error, answers earlier.employeeId earlier.locationId = .error error →
      ∀ row, answers later.employeeId later.locationId = .ok row →
        row.version ≤ store.watermark later.pair

variable {answers : String → String → Except HcmError HcmBalanceRow} {before middle after : Store}
  {balances : List Balance} {pair : String × String}

/-- A pair that looks as before has the watermark of before. -/
theorem SamePair.watermark (same : SamePair pair before after) :
    before.watermark pair = after.watermark pair := by
  simp only [Store.watermark, same.found]

/-- A re-pull that changes nothing is one of a row that is not newer. -/
theorem repulled_self_iff {balance version : Int} :
    Repulled pair balance version before before ↔ version ≤ before.watermark pair := by
  constructor
  · intro repulled
    refine Int.not_lt.mp fun fresh => ?_
    -- A newer row would have become the watermark it is above.
    obtain ⟨⟨asOf, found⟩, _⟩ := repulled.fresh fresh
    simp [Store.watermark, found] at fresh
  · intro stale
    exact ⟨fun fresh => absurd fresh (Int.not_lt.mpr stale), fun _ => ⟨rfl, rfl⟩⟩

theorem SamePair.symm (same : SamePair pair before after) : SamePair pair after before :=
  ⟨same.found.symm, same.entries.symm⟩

theorem SamePair.trans (first : SamePair pair before middle) (second : SamePair pair middle after) :
    SamePair pair before after :=
  ⟨first.found.trans second.found, first.entries.trans second.entries⟩

/-- Whether balances were reconciled does not depend on how the rest looked before. -/
theorem eachReconciled_congr (same : ∀ b ∈ balances, SamePair b.pair before middle) :
    EachReconciled answers balances before after ↔
      EachReconciled answers balances middle after := by
  -- The pair of each balance looks the same, and it is all that its outcome depends on.
  refine forall₂_congr fun b member => and_congr (forall₂_congr fun row _ => ?_)
    (forall₂_congr fun error _ => ?_)
  · exact ⟨fun repulled => repulled.of_samePair (same b member).symm (.refl _ _),
      fun repulled => repulled.of_samePair (same b member) (.refl _ _)⟩
  · exact ⟨(same b member).symm.trans, (same b member).trans⟩

/-- What is behind a failing balance depends on the watermarks alone. -/
theorem nothingBehind_congr (same : ∀ b ∈ balances, SamePair b.pair before middle) :
    NothingBehind answers balances before ↔ NothingBehind answers balances middle := by
  refine List.Pairwise.iff_of_mem fun {earlier later} _ member => ?_
  rw [(same later member).watermark]

/-- The loop leaves the pairs it does not come to. -/
theorem samePair_reconcileEachWith (uuids : Nat → String) (clock : Nat → Time)
    (absent : pair ∉ balances.map Balance.pair) (store : Store) :
    SamePair pair store
      (reconcileEachWith (answering answers) uuids clock balances () store).2.2 := by
  induction balances generalizing store with
  | nil => exact .refl pair store
  | cons b rest ih =>
    simp only [List.map_cons, List.mem_cons, not_or] at absent
    simp only [reconcileEachWith, answering]
    cases answers b.employeeId b.locationId with
    | error error => exact .refl pair store
    | ok row => exact (samePair_reconcileKey store _ _ (Ne.symm absent.1)).trans (ih absent.2 _)

/-- The loop reconciles every answered balance exactly if it finds nothing behind a failing one. -/
theorem eachReconciled_reconcileEachWith (uuids : Nat → String) (clock : Nat → Time)
    (distinct : (balances.map Balance.pair).Nodup) (store : Store) :
    EachReconciled answers balances store
        (reconcileEachWith (answering answers) uuids clock balances () store).2.2 ↔
      NothingBehind answers balances store := by
  induction balances generalizing store with
  | nil => simp [EachReconciled, NothingBehind]
  | cons b rest ih =>
    obtain ⟨alone, distinct⟩ := List.nodup_cons.mp distinct
    rw [EachReconciled, List.forall_mem_cons, NothingBehind, List.pairwise_cons]
    simp only [reconcileEachWith, answering]
    cases answered : answers b.employeeId b.locationId with
    | error error =>
      -- The loop ends here, so everything behind has to be as old as it was.
      simp only [Except.map, reduceCtorEq, false_implies, implies_true, Except.error.injEq,
        forall_eq', true_and]
      constructor
      · intro given
        obtain ⟨_, each⟩ := given
        have stale (later : Balance) (member : later ∈ rest) (row : HcmBalanceRow)
            (newer : answers later.employeeId later.locationId = .ok row) :
            row.version ≤ store.watermark later.pair :=
          repulled_self_iff.mp ((each later member).1 row newer)
        exact ⟨stale, List.pairwise_of_forall_mem_list fun _ _ later member _ _ =>
          stale later member⟩
      · intro given
        obtain ⟨stale, _⟩ := given
        refine ⟨.refl _ _, fun later member => ⟨fun row newer => ?_, fun _ _ => .refl _ _⟩⟩
        exact repulled_self_iff.mpr (stale later member row newer)
    | ok row =>
      -- The first balance is reconciled, and nothing behind it touches its pair.
      simp only [Except.map, reduceCtorEq, false_implies, implies_true, Except.ok.injEq,
        forall_eq', and_true, true_and]
      let update : HcmBalanceUpdate :=
        { employeeId := b.employeeId, locationId := b.locationId
          balance := row.balance, version := row.version, asOf := some row.asOf }
      have pulled : Repulled b.pair row.balance row.version store
          (store.reconcileKey (uuids rest.length) (clock rest.length) update).2 :=
        repulled_reconcileKey store _ _ update
      have others : ∀ later ∈ rest, SamePair later.pair store
          (store.reconcileKey (uuids rest.length) (clock rest.length) update).2 := by
        intro later member
        refine samePair_reconcileKey store _ _ fun same => alone ?_
        exact List.mem_map.mpr ⟨later, member, same.symm⟩
      rw [and_iff_right (pulled.of_samePair (.refl _ _)
        (samePair_reconcileEachWith uuids clock alone _))]
      exact (eachReconciled_congr others).trans
        ((ih distinct _).trans (nothingBehind_congr others).symm)

/-- A balance that fails is left as it was. -/
theorem samePair_of_failed (uuids : Nat → String) (clock : Nat → Time)
    (distinct : (balances.map Balance.pair).Nodup) (store : Store) {b : Balance}
    (member : b ∈ balances) {error : HcmError}
    (failed : answers b.employeeId b.locationId = .error error) :
    SamePair b.pair store
      (reconcileEachWith (answering answers) uuids clock balances () store).2.2 := by
  induction balances generalizing store with
  | nil => cases member
  | cons first rest ih =>
    obtain ⟨alone, distinct⟩ := List.nodup_cons.mp distinct
    simp only [reconcileEachWith, answering]
    cases answered : answers first.employeeId first.locationId with
    | error error => exact .refl _ _
    | ok row =>
      -- The balance that fails is not the first one, so it is among the rest.
      rcases List.mem_cons.mp member with rfl | later
      · cases answered.symm.trans failed
      · refine SamePair.trans (samePair_reconcileKey store _ _ fun same => alone ?_)
          (ih distinct _ later)
        exact List.mem_map.mpr ⟨b, later, same.symm⟩

/--
One call of the safety net does all it can exactly if nothing newer is behind a failing balance.

The balances that fail are left as they were in any case.
-/
theorem eachReconciled_iff (store : Store)
    (answers : String → String → Except HcmError HcmBalanceRow) (uuids : Nat → String)
    (clock : Nat → Time) :
    (EachReconciled answers store.balances.rows store
        (store.reconcileAllOver answers uuids clock).2 ↔
      NothingBehind answers store.balances.rows store) ∧
    ∀ b ∈ store.balances.rows, ∀ error, answers b.employeeId b.locationId = .error error →
      SamePair b.pair store (store.reconcileAllOver answers uuids clock).2 :=
  ⟨eachReconciled_reconcileEachWith uuids clock store.balances.nodup store,
    fun _ member _ failed =>
      samePair_of_failed uuids clock store.balances.nodup store member failed⟩

/-- Two cached balances at version one. -/
def twoCached : Store :=
  (({} : Store).insertBalance "first" "l" ⟨"first", "l", 10, 1, 0⟩).insertBalance "second" "l"
    ⟨"second", "l", 10, 1, 0⟩

/-- The first of them is refused, and the second one has changed over there. -/
def firstRefused (employeeId _locationId : String) : Except HcmError HcmBalanceRow :=
  if employeeId = "first" then .error (HcmCore.unknownDimensions "first|l")
  else .ok ⟨"second", "l", 4, 2, 0⟩

/-- One failing balance disables the safety net for the one behind it. -/
theorem not_eachReconciled_firstRefused :
    ¬EachReconciled firstRefused twoCached.balances.rows twoCached
      (twoCached.reconcileAllOver firstRefused (fun _ => "event") fun _ => 0).2 := by
  intro each
  -- The second balance is answered with version two, and still has version one.
  have repulled := (each ⟨"second", "l", 10, 1, some 0⟩ (by decide)).1 ⟨"second", "l", 4, 2, 0⟩ rfl
  obtain ⟨⟨asOf, found⟩, _⟩ := repulled.fresh (by decide)
  have kept : ((twoCached.reconcileAllOver firstRefused (fun _ => "event")
    fun _ => 0).2.balances.find ("second", "l")).map (·.hcmBalance) = some 10 := by decide
  rw [show (Balance.pair ⟨"second", "l", 10, 1, some 0⟩) = ("second", "l") from rfl] at found
  simp [found] at kept

end Store

end TimeOff
