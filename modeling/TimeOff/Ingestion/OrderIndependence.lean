import TimeOff.Library.Latest
import TimeOff.Service.SyncService

/-! Ingestion has a closed form, in which neither order nor repetition of the updates occurs. -/

namespace TimeOff

open Latest

/-- The part of an update that its pair's register keeps. -/
def HcmBalanceUpdate.stamped (update : HcmBalanceUpdate) : Stamped Int Int :=
  { version := update.version, value := update.balance }

/-- The updates for one pair. -/
def updatesFor (pair : String × String) (updates : List HcmBalanceUpdate) : List HcmBalanceUpdate :=
  updates.filter fun update => update.pair = pair

/-- An active commit that was acknowledged at or below a version. -/
def BalanceLedgerEntry.absorbedAt (version : Int) (entry : BalanceLedgerEntry) : Bool :=
  entry.state = .active ∧ entry.phase = .commit ∧ entry.toCommitted.absorbedBy version

/-- A call of one of the two channels, with the ids and instants its transactions draw. -/
inductive IngestCall where
  | realtime (uuid : String) (now : Time) (update : HcmBalanceUpdate)
  | batch (uuids : Nat → String) (clock : Nat → Time) (updates : List HcmBalanceUpdate)

/-- The updates a call delivers, in order. -/
def IngestCall.updates : IngestCall → List HcmBalanceUpdate
  | .realtime _ _ update => [update]
  | .batch _ _ updates => updates

/-- The updates a sequence of calls delivers, in order. -/
def updatesOf (calls : List IngestCall) : List HcmBalanceUpdate :=
  calls.flatMap (·.updates)

namespace Store

/-- What one call leaves behind. -/
def ingest (store : Store) : IngestCall → Store
  | .realtime uuid now update => (store.ingestRealtime uuid now update).2
  | .batch uuids clock updates => (store.ingestBatch uuids clock updates).2

/-- What a sequence of calls leaves behind. -/
def ingestAll (store : Store) (calls : List IngestCall) : Store :=
  calls.foldl ingest store

/-- The register of a pair: its watermark with the cached balance. -/
def register (store : Store) (pair : String × String) : Stamped Int Int :=
  { version := store.watermark pair
    value := ((store.balances.find pair).map (·.hcmBalance)).getD 0 }

/-- What ingesting updates does to a store, asOf and the audit events aside. -/
structure Ingested (updates : List HcmBalanceUpdate) (before after : Store) : Prop where
  register : ∀ pair, after.register pair =
    absorb (before.register pair) ((updatesFor pair updates).map (·.stamped))
  -- A pair whose watermark stays keeps its row, and one whose watermark rises has a row.
  untouched : ∀ pair, after.watermark pair = before.watermark pair →
    after.balances.find pair = before.balances.find pair
  present : ∀ pair, before.watermark pair < after.watermark pair →
    (after.balances.find pair).isSome = true
  -- The active commits up to the new watermark are absorbed.
  ledger : after.ledger.rows = before.ledger.rows.map fun entry =>
    if before.watermark entry.pair < after.watermark entry.pair ∧
        entry.absorbedAt (after.watermark entry.pair) then
      { entry with state := .reconciled }
    else entry
  outbox : after.outbox = before.outbox
  requests : after.requests = before.requests

variable {before middle after : Store} {update : HcmBalanceUpdate}
  {updates : List HcmBalanceUpdate}

/-- Ingesting nothing changes nothing. -/
theorem Ingested.nil (store : Store) : Ingested [] store store where
  -- No version is larger than itself, so nothing went up.
  register _ := rfl
  untouched _ _ := rfl
  present _ up := absurd up (lt_irrefl _)
  ledger := by simp
  outbox := rfl
  requests := rfl

/-- The watermark of a pair after its updates were ingested. -/
theorem Ingested.watermark (ingested : Ingested updates before after) (pair : String × String) :
    after.watermark pair =
      ((updatesFor pair updates).map (·.version)).foldl max (before.watermark pair) := by
  -- The version of the register is a maximum, which is what the fold computes.
  have version := congrArg Stamped.version (ingested.register pair)
  rw [version_absorb, List.map_map] at version
  exact version

/-- A watermark never goes down. -/
theorem Ingested.le_watermark (ingested : Ingested updates before after) (pair : String × String) :
    before.watermark pair ≤ after.watermark pair := by
  -- The register never falls behind its start.
  have version := congrArg Stamped.version (ingested.register pair)
  exact (le_version_absorb _ _).trans_eq version.symm

/-- A fresh update absorbs the active commits of its pair up to the new watermark. -/
theorem Absorbs.rows (absorbs : Absorbs update before after)
    (fresh : before.watermark update.pair < update.version) :
    after.ledger.rows = before.ledger.rows.map fun entry =>
      if before.watermark entry.pair < after.watermark entry.pair ∧
          entry.absorbedAt (after.watermark entry.pair) then
        { entry with state := .reconciled }
      else entry := by
  -- Row by row, for only the watermark of the updated pair goes up.
  rw [absorbs.ledger]
  apply List.map_congr_left
  intro entry _
  by_cases own : update.pair = entry.pair
  · have matched : entry.matchedBy update = entry.absorbedAt update.version := by
      simp [BalanceLedgerEntry.matchedBy, BalanceLedgerEntry.absorbedAt, own]
    rw [absorbs.watermark, if_pos own, matched, ← own]
    simp only [fresh, true_and]
  · have unmatched : entry.matchedBy update = false := by
      simp [BalanceLedgerEntry.matchedBy, Ne.symm own]
    rw [absorbs.watermark, if_neg own, unmatched]
    simp

/-- A fresh update is taken by the register of its pair. -/
theorem Ingested.of_absorbs (absorbs : Absorbs update before after)
    (fresh : before.watermark update.pair < update.version) :
    Ingested [update] before after where
  register pair := by
    by_cases own : update.pair = pair
    · subst own
      obtain ⟨_, found⟩ := absorbs.found
      have newer : (before.register update.pair).version < update.stamped.version := fresh
      simp [updatesFor, take, newer]
      simp [Store.register, absorbs.watermark, found, HcmBalanceUpdate.stamped]
    · simp [updatesFor, own, Store.register, absorbs.watermark, absorbs.found_other own]
  untouched pair same := by
    -- The watermark of the updated pair went up, so the pair is another one.
    apply absorbs.found_other
    rintro rfl
    rw [absorbs.watermark, if_pos rfl] at same
    omega
  present pair up := by
    by_cases own : update.pair = pair
    · obtain ⟨_, found⟩ := absorbs.found
      rw [← own, found]
      rfl
    · rw [absorbs.watermark, if_neg own] at up
      exact absurd up (lt_irrefl _)
  ledger := absorbs.rows fresh
  outbox := absorbs.outbox
  requests := absorbs.requests

/-- A stale update is taken by no register. -/
theorem Ingested.of_stale (stale : ¬before.watermark update.pair < update.version) :
    Ingested [update] before before where
  register pair := by
    by_cases own : update.pair = pair
    · have older : ¬(before.register pair).version < update.stamped.version := own ▸ stale
      simp [updatesFor, own, take, older]
    · simp [updatesFor, own]
  untouched _ _ := rfl
  present _ up := absurd up (lt_irrefl _)
  ledger := by simp
  outbox := rfl
  requests := rfl

/-- Reconciling one update ingests it. -/
theorem ingested_reconcileKey (store : Store) (uuid : String) (now : Time)
    (update : HcmBalanceUpdate) :
    Ingested [update] store (store.reconcileKey uuid now update).2 := by
  -- A fresh update is absorbed, and a stale one changes nothing.
  by_cases fresh : store.watermark update.pair < update.version
  · exact .of_absorbs (store.reconcileKey_fresh uuid now fresh).2.2 fresh
  · rw [(store.reconcileKey_stale uuid now (Int.not_lt.mp fresh)).2]
    exact .of_stale fresh

/-- A commit that a version absorbs is absorbed by every later one. -/
theorem absorbedAt_mono {entry : BalanceLedgerEntry} {version later : Int} (le : version ≤ later)
    (absorbed : entry.absorbedAt version = true) : entry.absorbedAt later = true := by
  -- Only the comparison of versions depends on the version.
  simp only [BalanceLedgerEntry.absorbedAt, decide_eq_true_eq] at absorbed ⊢
  obtain ⟨active, commit, reached⟩ := absorbed
  refine ⟨active, commit, ?_⟩
  unfold CommittedEntry.absorbedBy at reached ⊢
  cases seen : entry.toCommitted.hcmVersion with
  | none => simp [seen] at reached
  | some acknowledged =>
    simp only [seen, decide_eq_true_eq] at reached ⊢
    omega

/-- Absorbing up to a version and then up to a later one absorbs up to the later one. -/
theorem absorb_absorb (entry : BalanceLedgerEntry) {first second third : Int}
    (le : first ≤ second) (leToo : second ≤ third) :
    (if second < third ∧
        (if first < second ∧ entry.absorbedAt second then { entry with state := .reconciled }
          else entry).absorbedAt third then
      { (if first < second ∧ entry.absorbedAt second then { entry with state := .reconciled }
          else entry) with state := .reconciled }
    else if first < second ∧ entry.absorbedAt second then { entry with state := .reconciled }
    else entry) =
      if first < third ∧ entry.absorbedAt third then { entry with state := .reconciled }
      else entry := by
  by_cases early : first < second ∧ entry.absorbedAt second = true
  · -- What was absorbed early is no longer active, and would be absorbed later as well.
    have late : first < third ∧ entry.absorbedAt third = true :=
      ⟨by omega, absorbedAt_mono leToo early.2⟩
    simp only [early, late, and_self, if_true]
    simp
  · rw [if_neg early]
    rcases Int.lt_or_eq_of_le leToo with above | same
    · have whole : first < third := by omega
      simp only [above, whole, true_and]
    · subst same
      simp [early]

/-- Ingesting updates in two parts ingests them all. -/
theorem Ingested.append {more : List HcmBalanceUpdate} (first : Ingested updates before middle)
    (second : Ingested more middle after) : Ingested (updates ++ more) before after where
  register pair := by
    rw [second.register, first.register, updatesFor, updatesFor, updatesFor, List.filter_append,
      List.map_append, absorb, absorb, absorb, List.foldl_append]
  untouched pair same := by
    have up := first.le_watermark pair
    have upToo := second.le_watermark pair
    rw [second.untouched pair (by omega), first.untouched pair (by omega)]
  present pair up := by
    have upToo := second.le_watermark pair
    -- The last part that raised the watermark has written the row.
    rcases Int.lt_or_eq_of_le upToo with above | same
    · exact second.present pair above
    · rw [second.untouched pair same.symm]
      exact first.present pair (by omega)
  ledger := by
    rw [second.ledger, first.ledger, List.map_map]
    apply List.map_congr_left
    intro entry _
    -- An absorbed entry keeps its pair, so the second part looks at the same watermark.
    have pair : (if before.watermark entry.pair < middle.watermark entry.pair ∧
        entry.absorbedAt (middle.watermark entry.pair) then { entry with state := .reconciled }
      else entry).pair = entry.pair := by split <;> rfl
    simp only [Function.comp_apply, pair]
    exact absorb_absorb entry (first.le_watermark entry.pair) (second.le_watermark entry.pair)
  outbox := second.outbox.trans first.outbox
  requests := second.requests.trans first.requests

/-- A batch ingests its rows. -/
theorem ingested_batch (store : Store) (uuids : Nat → String) (clock : Nat → Time)
    (updates : List HcmBalanceUpdate) :
    Ingested updates store (store.ingestBatch uuids clock updates).2 := by
  -- The rows after the first are ingested into the store that the first one leaves.
  induction updates generalizing store with
  | nil => exact .nil store
  | cons update rest ih => exact (ingested_reconcileKey store _ _ update).append (ih _)

/-- Each call ingests the updates it delivers. -/
theorem ingested_call (store : Store) (call : IngestCall) :
    Ingested call.updates store (store.ingest call) := by
  cases call with
  | realtime uuid now update => exact ingested_reconcileKey store uuid now update
  | batch uuids clock updates => exact ingested_batch store uuids clock updates

/-- A sequence of calls, of either channel, ingests the updates they deliver. -/
theorem ingested_all (store : Store) (calls : List IngestCall) :
    Ingested (updatesOf calls) store (store.ingestAll calls) := by
  -- The calls after the first are made on the store that the first one leaves.
  induction calls generalizing store with
  | nil => exact .nil store
  | cons call rest ih => exact (ingested_call store call).append (ih _)

/-- Updates in which pair and version determine the balance. -/
def ConsistentUpdates (updates : List HcmBalanceUpdate) : Prop :=
  ∀ left ∈ updates, ∀ right ∈ updates, left.pair = right.pair → left.version = right.version →
    left.balance = right.balance

theorem ConsistentUpdates.updatesFor (consistent : ConsistentUpdates updates)
    (pair : String × String) : Consistent ((updatesFor pair updates).map (·.stamped)) := by
  -- Two stamps of one pair and version carry one balance, so they are one stamp.
  intro left leftMember right rightMember same
  obtain ⟨first, firstMember, rfl⟩ := List.mem_map.mp leftMember
  obtain ⟨second, secondMember, rfl⟩ := List.mem_map.mp rightMember
  obtain ⟨firstStored, firstPair⟩ := List.mem_filter.mp firstMember
  obtain ⟨secondStored, secondPair⟩ := List.mem_filter.mp secondMember
  have balance := consistent first firstStored second secondStored
    ((of_decide_eq_true firstPair).trans (of_decide_eq_true secondPair).symm) same
  simp only [HcmBalanceUpdate.stamped, Stamped.mk.injEq] at same ⊢
  exact ⟨same, balance⟩

/-- Two stores that agree on cached values, watermarks, ledger and available balances. -/
structure Agree (left right : Store) : Prop where
  cached : ∀ pair,
    (left.balances.find pair).map (fun b => (b.hcmBalance, b.lastReconciledVersion)) =
      (right.balances.find pair).map (fun b => (b.hcmBalance, b.lastReconciledVersion))
  ledger : left.ledger.rows = right.ledger.rows
  available : ∀ employeeId locationId,
    left.available employeeId locationId = right.available employeeId locationId

/-- A cached pair shows its register. -/
theorem map_find_of_isSome {store : Store} {pair : String × String}
    (cached : (store.balances.find pair).isSome = true) :
    (store.balances.find pair).map (fun b => (b.hcmBalance, b.lastReconciledVersion)) =
      some ((store.register pair).value, (store.register pair).version) := by
  -- The register is made of the two columns of the cached row.
  obtain ⟨balance, found⟩ := Option.isSome_iff_exists.mp cached
  simp [register, watermark, found]

/-- What is available depends on the cached value and on the ledger. -/
theorem available_congr {left right : Store} (ledger : left.ledger.rows = right.ledger.rows)
    {employeeId locationId : String}
    (cached : (left.balances.find (employeeId, locationId)).map (·.hcmBalance) =
      (right.balances.find (employeeId, locationId)).map (·.hcmBalance)) :
    left.available employeeId locationId = right.available employeeId locationId := by
  simp only [available, computeComponents, entriesAt, ledger, cached]

/-- The same set of consistent updates leads to stores that agree. -/
theorem agree_of_same_updates {left right : Store} {more : List HcmBalanceUpdate}
    (consistent : ConsistentUpdates updates) (same : ∀ update, update ∈ updates ↔ update ∈ more)
    (first : Ingested updates before left) (second : Ingested more before right) :
    Agree left right := by
  -- The registers agree by the library, and everything else is a function of them.
  have registers (pair : String × String) : left.register pair = right.register pair := by
    rw [first.register, second.register]
    apply absorb_congr _ (consistent.updatesFor pair)
    intro stamped
    simp only [updatesFor, List.mem_map, List.mem_filter, same]
  have watermarks (pair : String × String) : left.watermark pair = right.watermark pair :=
    congrArg Stamped.version (registers pair)
  have ledger : left.ledger.rows = right.ledger.rows := by
    rw [first.ledger, second.ledger]
    simp only [watermarks]
  have cached (pair : String × String) :
      (left.balances.find pair).map (fun b => (b.hcmBalance, b.lastReconciledVersion)) =
        (right.balances.find pair).map fun b => (b.hcmBalance, b.lastReconciledVersion) := by
    -- A watermark that rose has its row, one that did not has the row from before.
    rcases Int.lt_or_eq_of_le (first.le_watermark pair) with up | still
    · rw [map_find_of_isSome (first.present pair up),
        map_find_of_isSome (second.present pair (watermarks pair ▸ up)), registers]
    · rw [first.untouched pair still.symm,
        second.untouched pair ((watermarks pair).symm.trans still.symm)]
  refine ⟨cached, ledger, ?_⟩
  intro employeeId locationId
  apply available_congr ledger
  have values := congrArg (Option.map Prod.fst) (cached (employeeId, locationId))
  simpa [Option.map_map, Function.comp_def] using values

/-- Rows that were ingested before are all stale when they come again in a batch. -/
theorem ingestBatch_replayed {replayed : List HcmBalanceUpdate}
    (ingested : Ingested updates before after) (known : ∀ update ∈ replayed, update ∈ updates)
    (uuids : Nat → String) (clock : Nat → Time) :
    (after.ingestBatch uuids clock replayed).1.applied = 0 := by
  -- Every row is at or below the watermark it has raised, so it changes nothing.
  induction replayed with
  | nil => rfl
  | cons update rest ih =>
    have member : update.stamped ∈ (updatesFor update.pair updates).map (·.stamped) :=
      List.mem_map_of_mem (List.mem_filter.mpr ⟨known update (by simp), by simp⟩)
    have reached : update.version ≤ after.watermark update.pair := by
      have version := congrArg Stamped.version (ingested.register update.pair)
      exact (version_le_absorb _ member).trans_eq version.symm
    obtain ⟨skipped, same⟩ :=
      after.reconcileKey_stale (uuids rest.length) (clock rest.length) reached
    simp only [ingestBatch, skipped, same]
    exact ih fun other later => known other (List.mem_cons_of_mem _ later)

/-- The balance a pair ends with is that of the update with its final version. -/
theorem Ingested.balance (ingested : Ingested updates before after)
    (consistent : ConsistentUpdates updates) {pair : String × String}
    (up : before.watermark pair < after.watermark pair) :
    (∃ update ∈ updates, update.pair = pair ∧ update.version = after.watermark pair) ∧
      ∀ update ∈ updates, update.pair = pair → update.version = after.watermark pair →
        ∃ balance, after.balances.find pair = some balance ∧
          balance.hcmBalance = update.balance := by
  -- A register that has risen holds one of the updates it was given.
  have register := ingested.register pair
  have version : (after.register pair).version = after.watermark pair := rfl
  rcases absorb_cases (before.register pair) ((updatesFor pair updates).map (·.stamped)) with
    kept | ⟨member, _⟩
  · rw [← register] at kept
    have still := congrArg Stamped.version kept
    rw [version] at still
    exact absurd still (ne_of_gt up)
  · rw [← register] at member
    obtain ⟨source, sourceMember, stamped⟩ := List.mem_map.mp member
    obtain ⟨sourceStored, sourcePair⟩ := List.mem_filter.mp sourceMember
    have sourcePair := of_decide_eq_true sourcePair
    have sourceVersion : source.version = after.watermark pair := congrArg Stamped.version stamped
    refine ⟨⟨source, sourceStored, sourcePair, sourceVersion⟩, ?_⟩
    intro update stored named at_
    obtain ⟨balance, found⟩ := Option.isSome_iff_exists.mp (ingested.present pair up)
    have value : source.balance = (after.register pair).value := congrArg Stamped.value stamped
    refine ⟨balance, found, ?_⟩
    have shown : (after.register pair).value = balance.hcmBalance := by simp [Store.register, found]
    rw [← shown, ← value]
    -- Both updates have the final version, so they carry one balance.
    exact consistent source sourceStored update stored (sourcePair.trans named.symm)
      (sourceVersion.trans at_.symm)

/--
Ingestion in closed form, and what follows from the closed form.

Per pair, the watermark becomes the highest version ingested, the balance that of the update with
that version, and the active commits up to that version are absorbed. Nothing else changes, so
neither order nor repetition of the updates matters.
-/
theorem ingestAll_closed_form (store : Store) (calls : List IngestCall)
    (consistent : ConsistentUpdates (updatesOf calls)) :
    (∀ pair, (store.ingestAll calls).watermark pair =
      ((updatesFor pair (updatesOf calls)).map (·.version)).foldl max (store.watermark pair)) ∧
    (∀ pair, store.watermark pair < (store.ingestAll calls).watermark pair →
      (∃ update ∈ updatesOf calls, update.pair = pair ∧
        update.version = (store.ingestAll calls).watermark pair) ∧
      ∀ update ∈ updatesOf calls, update.pair = pair →
        update.version = (store.ingestAll calls).watermark pair →
          ∃ balance, (store.ingestAll calls).balances.find pair = some balance ∧
            balance.hcmBalance = update.balance) ∧
    (∀ pair, (store.ingestAll calls).watermark pair = store.watermark pair →
      (store.ingestAll calls).balances.find pair = store.balances.find pair) ∧
    (store.ingestAll calls).ledger.rows = store.ledger.rows.map (fun entry =>
      if store.watermark entry.pair < (store.ingestAll calls).watermark entry.pair ∧
          entry.absorbedAt ((store.ingestAll calls).watermark entry.pair) then
        { entry with state := .reconciled }
      else entry) ∧
    (store.ingestAll calls).requests = store.requests ∧
    (store.ingestAll calls).outbox = store.outbox ∧
    (∀ others, (updatesOf others).Perm (updatesOf calls) →
      Agree (store.ingestAll calls) (store.ingestAll others)) ∧
    (∀ others times, updatesOf others = (List.replicate (times + 1) (updatesOf calls)).flatten →
      Agree (store.ingestAll calls) (store.ingestAll others)) ∧
    ∀ uuids clock replayed, (∀ update ∈ replayed, update ∈ updatesOf calls) →
      ((store.ingestAll calls).ingestBatch uuids clock replayed).1.applied = 0 := by
  -- The closed form is the ingested store read off, and the rest follows from it.
  have ingested := ingested_all store calls
  refine ⟨ingested.watermark, fun pair up => ingested.balance consistent up, ingested.untouched,
    ingested.ledger, ingested.requests, ingested.outbox, ?_, ?_, ?_⟩
  · intro others permuted
    exact agree_of_same_updates consistent (fun _ => permuted.mem_iff.symm) ingested
      (ingested_all store others)
  · intro others times repeated
    refine agree_of_same_updates consistent (fun update => ?_) ingested (ingested_all store others)
    rw [repeated]
    simp [List.mem_flatten, List.mem_replicate]
  · intro uuids clock replayed known
    exact ingestBatch_replayed ingested known uuids clock

/-- A batch with a debit, and an old row that arrives once more on the other channel. -/
def delayedCalls : List IngestCall :=
  [.batch (fun _ => "event") (fun _ => 0) [⟨"e", "l", 10, 1, none⟩, ⟨"e", "l", 7, 2, none⟩],
    .realtime "late" 1 ⟨"e", "l", 10, 1, none⟩]

/-- The closed form gives the watermark of the delayed calls on an empty store. -/
theorem ingestAll_closed_form_delayed :
    (({} : Store).ingestAll delayedCalls).watermark ("e", "l") = 2 := by
  -- The updates are checked for consistency, and the fold is evaluated.
  have consistent : ConsistentUpdates (updatesOf delayedCalls) := by
    unfold ConsistentUpdates
    decide
  rw [(ingestAll_closed_form {} delayedCalls consistent).1 ("e", "l")]
  decide

end Store

end TimeOff
