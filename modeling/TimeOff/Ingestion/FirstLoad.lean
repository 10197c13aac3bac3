import TimeOff.Concurrency.Races
import TimeOff.Ingestion.Bootstrap
import TimeOff.Library.Beside

/-! The first load of a pair and its first update, whose statements interleave. -/

namespace TimeOff

open Programs

/-- The statements of a first load that is answered with a row. -/
def loadBalance (row : HcmBalanceRow) : Section Unit := do
  let existing : Option Balance ← send (.findBalance row.employeeId row.locationId)
  match existing with
  | some _ => return ()
  | none => send (.insertBalance row.employeeId row.locationId row)

/-- A call that goes on after the lazy load starts with these statements. -/
theorem ensureBalanceLoaded_eq (row : HcmBalanceRow)
    (next : Section (Ending String Statement.Answer CallResult)) :
    ensureBalanceLoaded row.employeeId row.locationId (.ok row) next =
      (loadBalance row).bind fun _ => next := by
  simp only [ensureBalanceLoaded, loadBalance, Prog.bind_eq, Prog.perform_bind, Prog.call_bind]
  congr 1
  funext existing
  cases existing <;> rfl

/-- A first load on the left and a reconciliation on the right, over one database. -/
abbrev Contact := Beside Statement.Answer Store Unit CallResult

/-- Both at their start. Only the reconciliation is under the mutex, so neither waits. -/
def Contact.start (store : Store) (row : HcmBalanceRow) (uuid : String) (now : Time)
    (update : HcmBalanceUpdate) : Contact where
  state := store
  left := loadBalance row
  right := reconcileSection uuid now update

/-- A run of the two, statement by statement. -/
abbrev Contact.Trace (start : Contact) : List (Contact × Side) → Contact → Prop :=
  Runs.Trace (Beside.step Statement.exec) start

/-- In a run, the lookup of one of the two has found a row for the pair. -/
def Contact.Found (pair : String × String) (side : Side) (taken : List (Contact × Side)) : Prop :=
  ∃ before, (before, side) ∈ taken ∧ before.head side = some (.findBalance pair.1 pair.2) ∧
    (before.state.snapshot pair).isSome = true

/-- The balance with the larger one of the two versions. -/
def newest (row : HcmBalanceRow) (update : HcmBalanceUpdate) : Int × Int :=
  if update.version < row.version then (row.balance, row.version)
  else (update.balance, update.version)

/--
The newer one of the values that were read is stored, with its version.

A first load whose lookup finds a row reads none of its own.
-/
structure KeepsNewest (row : HcmBalanceRow) (update : HcmBalanceUpdate)
    (taken : List (Contact × Side)) (final : Contact) : Prop where
  loaded : ¬Contact.Found row.pair .left taken →
    final.state.snapshot row.pair = some (newest row update)
  unloaded : Contact.Found row.pair .left taken →
    final.state.snapshot row.pair = some (update.balance, update.version)

/-- A statement that neither looks up the balance of a pair nor changes it. -/
def Statement.Leaves (pair : String × String) (statement : Statement) : Prop :=
  statement ≠ .findBalance pair.1 pair.2 ∧
    ∀ store, (statement.exec store).2.snapshot pair = store.snapshot pair

/-- A program that saves a balance for a pair, once and whatever it is answered. -/
def Saves {α : Type} (pair : String × String) (snapshot : Int × Int) : Section α → Prop
  | .ret _ => False
  | .call statement next =>
    (statement ≠ .findBalance pair.1 pair.2 ∧
      (∀ store, (statement.exec store).2.snapshot pair = some snapshot) ∧
      ∀ answer, (next answer).Only (Statement.Leaves pair)) ∨
    statement.Leaves pair ∧ ∀ answer, Saves pair snapshot (next answer)

variable {pair : String × String} {row : HcmBalanceRow} {update : HcmBalanceUpdate}
  {uuid : String} {now : Time} {before after : Contact} {side : Side}

theorem leaves_findActive (employeeId locationId : String) (phase : LedgerPhase) :
    (Statement.findActive employeeId locationId phase).Leaves pair :=
  ⟨by simp, fun _ => rfl⟩

theorem leaves_markReconciled (ids : List String) : (Statement.markReconciled ids).Leaves pair :=
  ⟨by simp, fun _ => rfl⟩

theorem leaves_insertEvent (event : ReconciliationEvent) :
    (Statement.insertEvent event).Leaves pair :=
  ⟨by simp, fun _ => rfl⟩

/-- What saves a balance still does so after statements that leave it. -/
theorem saves_bind {α β : Type} {snapshot : Int × Int} {program : Section α}
    {next : α → Section β} (first : program.Only (Statement.Leaves pair))
    (second : ∀ result, Saves pair snapshot (next result)) :
    Saves pair snapshot (program.bind next) := by
  induction program with
  | ret result => exact second result
  | call statement rest ih => exact Or.inr ⟨first.1, fun answer => ih answer (first.2 answer)⟩

/-- The writes of a reconciliation save the snapshot that was decided on. -/
theorem saves_applyReconciliation {balance : Balance} (own : balance.pair = pair)
    (result : ReconcileResult) :
    Saves pair (result.newHcmBalance, result.newLastReconciledVersion)
      (applyReconciliation uuid now update balance result) := by
  refine saves_bind (only_onlyIf (Prog.only_perform (leaves_markReconciled _))) fun _ =>
    Or.inl ⟨by simp, fun store => ?_, fun _ => ?_⟩
  · -- The saved row has the pair of the one that was read.
    subst own
    have saved := Table.find_save_self store.balances
      { balance with
        hcmBalance := result.newHcmBalance
        lastReconciledVersion := result.newLastReconciledVersion
        asOf := some (update.asOf.getD now) }
    exact congrArg (Option.map fun b => (b.hcmBalance, b.lastReconciledVersion)) saved
  · show Prog.Only _ ((onlyIf _ _).bind _)
    exact Prog.only_bind (only_onlyIf (Prog.only_perform (leaves_insertEvent _))) fun _ => trivial

/-- What a reconciliation decides on, from the row and the entries that it has read. -/
def pulledInput (update : HcmBalanceUpdate) (balance : Balance)
    (reservedRows committedRows : List BalanceLedgerEntry) : ReconcileInput where
  currentHcmBalance := balance.hcmBalance
  lastReconciledVersion := balance.lastReconciledVersion
  reservedOpen := (reservedRows.map (·.amount)).sum
  committedEntries := committedRows.map (·.toCommitted)
  authoritativeBalance := update.balance
  authoritativeVersion := update.version

/-- What a reconciliation does after its lookup, which tells it the version it has to beat. -/
def reconcileFrom (uuid : String) (now : Time) (update : HcmBalanceUpdate)
    (found : Option Balance) : Section CallResult := do
  let balance : Balance := found.getD
    { employeeId := update.employeeId, locationId := update.locationId
      hcmBalance := 0, lastReconciledVersion := 0, asOf := none }
  let reservedRows ← send (.findActive update.employeeId update.locationId .reserve)
  let committedRows ← send (.findActive update.employeeId update.locationId .commit)
  let result := reconcile (pulledInput update balance reservedRows committedRows)
  if !result.applied then return .reconciled result
  else applyReconciliation uuid now update balance result

theorem reconcileSection_eq : reconcileSection uuid now update =
    .call (.findBalance update.employeeId update.locationId) (reconcileFrom uuid now update) := rfl

/-- A reconciliation that has found an older version, or no row, saves the update. -/
theorem saves_reconcileFrom {found : Option Balance}
    (own : ∀ balance ∈ found, balance.pair = update.pair)
    (fresh : (found.map (·.lastReconciledVersion)).getD 0 < update.version) :
    Saves update.pair (update.balance, update.version) (reconcileFrom uuid now update found) := by
  refine Or.inr ⟨leaves_findActive .., fun reserved => Or.inr ⟨leaves_findActive ..,
    fun committed => ?_⟩⟩
  let balance : Balance := found.getD
    { employeeId := update.employeeId, locationId := update.locationId
      hcmBalance := 0, lastReconciledVersion := 0, asOf := none }
  -- Whatever entries are read in between, the version of the update is the larger one.
  have above : balance.lastReconciledVersion < update.version := by cases found <;> exact fresh
  have named : balance.pair = update.pair := by
    cases found with
    | none => rfl
    | some stored => exact own stored rfl
  let input := pulledInput update balance reserved committed
  have applied := (reconcile_applied_iff input).mpr above
  have saves : Saves update.pair _
      (applyReconciliation uuid now update balance (reconcile input)) :=
    saves_applyReconciliation named (reconcile input)
  have newer : input.lastReconciledVersion < input.authoritativeVersion := above
  rw [(reconcile_snapshot newer).1, (reconcile_snapshot newer).2] at saves
  show Saves _ _ (if !(reconcile input).applied then _ else _)
  simp only [applied, Bool.not_true, Bool.false_eq_true, if_false]
  exact saves

/-- A reconciliation that has found a version it does not beat leaves the balance. -/
theorem leaves_reconcileFrom {balance : Balance}
    (stale : update.version ≤ balance.lastReconciledVersion) :
    (reconcileFrom uuid now update (some balance)).Only (Statement.Leaves pair) := by
  refine ⟨leaves_findActive .., fun reserved => ⟨leaves_findActive .., fun committed => ?_⟩⟩
  let input := pulledInput update balance reserved committed
  have skipped : (reconcile input).applied = false := by
    rw [Bool.eq_false_iff, ne_eq, reconcile_applied_iff]
    exact Int.not_lt.mpr stale
  show Prog.Only _ (if !(reconcile input).applied then _ else _)
  simp only [skipped, Bool.not_false, if_true]
  trivial

/-- How far a first load has come, with the snapshot that it has left. -/
inductive Loading (row : HcmBalanceRow) : Section Unit → Option (Int × Int) → Prop
  | unread : Loading row (loadBalance row) none
  | read : Loading row (send (.insertBalance row.employeeId row.locationId row)) none
  | inserted : Loading row (.ret ()) (some (row.balance, row.version))

/-- A program of the first load that has found no row yet, or will insert one, or has ended. -/
def LoadStage (row : HcmBalanceRow) (program : Section Unit) : Prop :=
  program = loadBalance row ∨
    program = send (.insertBalance row.employeeId row.locationId row) ∨ program = .ret ()

/--
Where the two stand, and what their lookups have found so far.

Up to the save of the reconciliation only the first load can have written a row.
-/
inductive Story (row : HcmBalanceRow) (uuid : String) (now : Time) (update : HcmBalanceUpdate)
    (loadFound pullFound : Prop) (contact : Contact) : Prop
  | unread : contact.right = reconcileSection uuid now update →
      Loading row contact.left (contact.state.snapshot row.pair) → ¬loadFound → ¬pullFound →
      Story row uuid now update loadFound pullFound contact
  | saving : Saves row.pair (update.balance, update.version) contact.right →
      Loading row contact.left (contact.state.snapshot row.pair) → ¬loadFound →
      (pullFound → row.version < update.version ∧ contact.left = .ret ()) →
      Story row uuid now update loadFound pullFound contact
  | saved : contact.right.Only (Statement.Leaves row.pair) →
      contact.state.snapshot row.pair = some (update.balance, update.version) →
      LoadStage row contact.left →
      (pullFound → row.version < update.version ∧ contact.left = .ret () ∧ ¬loadFound) →
      Story row uuid now update loadFound pullFound contact
  | kept : contact.right.Only (Statement.Leaves row.pair) →
      contact.state.snapshot row.pair = some (row.balance, row.version) →
      contact.left = .ret () → ¬loadFound → pullFound → update.version ≤ row.version →
      Story row uuid now update loadFound pullFound contact

variable {loadFound pullFound : Prop}

/-- An insert that ignores a conflict leaves a snapshot that is there. -/
theorem Store.snapshot_insertBalance_of_some {store : Store} {snapshot : Int × Int}
    (stored : store.snapshot row.pair = some snapshot) :
    (store.insertBalance row.employeeId row.locationId row).snapshot row.pair = some snapshot := by
  obtain ⟨balance, found, rfl⟩ := Option.map_eq_some_iff.mp stored
  -- The stored row wins over the one that is inserted.
  simp only [Store.snapshot, Store.insertBalance, Table.find_insertOrIgnore, found]
  split <;> rfl

/-- An insert that meets no conflict leaves its own snapshot. -/
theorem Store.snapshot_insertBalance_of_none {store : Store}
    (absent : store.snapshot row.pair = none) :
    (store.insertBalance row.employeeId row.locationId row).snapshot row.pair =
      some (row.balance, row.version) := by
  have unknown : store.balances.find row.pair = none := Option.map_eq_none_iff.mp absent
  simp only [Store.snapshot, find_loaded unknown, Option.map_some]

/-- One more step finds a row if it is a lookup that does so. -/
theorem Contact.found_snoc {taken : List (Contact × Side)} {other : Side} :
    Contact.Found pair side (taken ++ [(before, other)]) ↔
      Contact.Found pair side taken ∨
        other = side ∧ before.head side = some (.findBalance pair.1 pair.2) ∧
          (before.state.snapshot pair).isSome = true :=
  Runs.exists_mem_concat

/-- A statement of the first load that is no lookup, or is one that finds nothing. -/
theorem Loading.step {program : Section Unit} {store : Store} {statement : Statement}
    {next : statement.Answer → Section Unit}
    (loading : Loading row program (store.snapshot row.pair))
    (at_ : program = .call statement next) :
    Loading row (next (statement.exec store).1) ((statement.exec store).2.snapshot row.pair) ∧
      (store.snapshot row.pair).isSome = false := by
  generalize same : store.snapshot row.pair = snapshot at loading
  cases loading with
  | unread =>
    cases at_
    -- There is no row yet, so the lookup leads on to the insert.
    have absent : store.balances.find (row.employeeId, row.locationId) = none :=
      Option.map_eq_none_iff.mp same
    simp only [Statement.exec, absent, same]
    exact ⟨.read, rfl⟩
  | read =>
    cases at_
    refine ⟨?_, rfl⟩
    show Loading row (.ret ()) (Store.snapshot (store.insertBalance _ _ _) row.pair)
    rw [Store.snapshot_insertBalance_of_none same]
    exact .inserted
  | inserted => cases at_

/-- A first load that is under way has not come to an end it could be past. -/
theorem Loading.stage {program : Section Unit} {snapshot : Option (Int × Int)}
    (loading : Loading row program snapshot) : LoadStage row program := by
  cases loading with
  | unread => exact Or.inl rfl
  | read => exact Or.inr (Or.inl rfl)
  | inserted => exact Or.inr (Or.inr rfl)

/-- A first load that has left a snapshot has ended, and left its own row. -/
theorem Loading.of_some {program : Section Unit} {snapshot : Int × Int}
    (loading : Loading row program (some snapshot)) :
    program = .ret () ∧ snapshot = (row.balance, row.version) := by
  cases loading
  exact ⟨rfl, rfl⟩

/-- After the reconciliation has saved, the first load finds its row or inserts nothing. -/
theorem LoadStage.step {program : Section Unit} {store : Store} {snapshot : Int × Int}
    {statement : Statement} {next : statement.Answer → Section Unit}
    (stage : LoadStage row program) (stored : store.snapshot row.pair = some snapshot)
    (at_ : program = .call statement next) :
    (statement.exec store).2.snapshot row.pair = some snapshot ∧
      LoadStage row (next (statement.exec store).1) := by
  obtain ⟨balance, found, same⟩ := Option.map_eq_some_iff.mp stored
  have known : store.balances.find (row.employeeId, row.locationId) = some balance := found
  rcases stage with unread | read | ended
  · cases unread.symm.trans at_
    simp only [Statement.exec, known]
    exact ⟨stored, Or.inr (Or.inr rfl)⟩
  · cases read.symm.trans at_
    exact ⟨Store.snapshot_insertBalance_of_some stored, Or.inr (Or.inr rfl)⟩
  · cases ended.symm.trans at_

/-- What a statement of the first load makes of the story. -/
theorem Story.left {statement : Statement} {next : statement.Answer → Section Unit}
    (story : Story row uuid now update loadFound pullFound before)
    (at_ : before.left = .call statement next) :
    Story row uuid now update
      (loadFound ∨ statement = .findBalance row.pair.1 row.pair.2 ∧
        (before.state.snapshot row.pair).isSome = true) pullFound
      { before with
        state := (statement.exec before.state).2
        left := next (statement.exec before.state).1 } := by
  have working : before.left ≠ .ret () := by rw [at_]; nofun
  cases story with
  | unread right loading loadNot pullNot =>
    obtain ⟨onward, nothing⟩ := loading.step at_
    exact .unread right onward (by simp [loadNot, nothing]) pullNot
  | saving saves loading loadNot beats =>
    obtain ⟨onward, nothing⟩ := loading.step at_
    exact .saving saves onward (by simp [loadNot, nothing])
      fun found => absurd (beats found).2 working
  | saved only stored stage beats =>
    obtain ⟨kept, onward⟩ := stage.step stored at_
    exact .saved only kept onward fun found => absurd (beats found).2.1 working
  | kept _ _ ended => exact absurd ended working

/-- What a statement of the reconciliation makes of the story. -/
theorem Story.right {statement : Statement} {next : statement.Answer → Section CallResult}
    (named : update.pair = row.pair) (positive : 1 ≤ update.version)
    (story : Story row uuid now update loadFound pullFound before)
    (at_ : before.right = .call statement next) :
    Story row uuid now update loadFound
      (pullFound ∨ statement = .findBalance row.pair.1 row.pair.2 ∧
        (before.state.snapshot row.pair).isSome = true)
      { before with
        state := (statement.exec before.state).2
        right := next (statement.exec before.state).1 } := by
  cases story with
  | unread right loading loadNot pullNot =>
    rw [reconcileSection_eq] at right
    cases right.symm.trans at_
    show Story _ _ _ _ _ _ { before with
      right := reconcileFrom uuid now update (before.state.balances.find update.pair) }
    rw [named]
    cases found : before.state.balances.find row.pair with
    | none =>
      -- A missing row counts as version zero, which every update beats.
      have absent : before.state.snapshot row.pair = none := by simp [Store.snapshot, found]
      have saves : Saves update.pair _ (reconcileFrom uuid now update none) :=
        saves_reconcileFrom (by simp) positive
      rw [named] at saves
      exact .saving saves loading loadNot fun seen => by simp [pullNot, absent] at seen
    | some balance =>
      -- Only the first load can have written the row, which is then at its end.
      have stored : before.state.snapshot row.pair =
          some (balance.hcmBalance, balance.lastReconciledVersion) := by
        simp [Store.snapshot, found]
      have shown := stored ▸ loading
      obtain ⟨ended, same⟩ := shown.of_some
      obtain ⟨value, version⟩ := Prod.mk.inj same
      rcases Int.lt_or_le balance.lastReconciledVersion update.version with fresh | stale
      · have own (other : Balance) (member : other ∈ some balance) : other.pair = update.pair := by
          cases member
          exact (Table.key_of_find found).trans named.symm
        have saves : Saves update.pair _ (reconcileFrom uuid now update (some balance)) :=
          saves_reconcileFrom own fresh
        rw [named] at saves
        exact .saving saves loading loadNot fun _ => ⟨version ▸ fresh, ended⟩
      · refine .kept (leaves_reconcileFrom stale) (stored.trans (congrArg some same)) ended loadNot
          (Or.inr ⟨?_, by rw [stored]; rfl⟩) (version ▸ stale)
        exact congrArg (fun pair : String × String => Statement.findBalance pair.1 pair.2) named
  | saving saves loading loadNot beats =>
    rw [at_] at saves
    rcases saves with ⟨other, sets, rest⟩ | ⟨leaves, onward⟩
    · refine .saved (rest _) (sets _) loading.stage fun found => ?_
      obtain ⟨above, ended⟩ := beats (found.resolve_right fun looked => other looked.1)
      exact ⟨above, ended, loadNot⟩
    · refine .saving (onward _) ?_ loadNot fun found =>
        beats (found.resolve_right fun looked => leaves.1 looked.1)
      rw [leaves.2]
      exact loading
  | saved only stored stage beats =>
    rw [at_] at only
    refine .saved (only.2 _) ?_ stage fun found =>
      beats (found.resolve_right fun looked => only.1.1 looked.1)
    rw [only.1.2]
    exact stored
  | kept only stored ended loadNot found stale =>
    rw [at_] at only
    refine .kept (only.2 _) ?_ ended loadNot (Or.inl found) stale
    rw [only.1.2]
    exact stored

/-- A run of the two has a story. -/
theorem story_of_trace {store : Store} {taken : List (Contact × Side)} {final : Contact}
    (absent : store.balances.find row.pair = none) (named : update.pair = row.pair)
    (positive : 1 ≤ update.version)
    (trace : Contact.Trace (.start store row uuid now update) taken final) :
    Story row uuid now update (Contact.Found row.pair .left taken)
      (Contact.Found row.pair .right taken) final := by
  induction trace with
  | start =>
    have unknown : store.snapshot row.pair = none := by simp [Store.snapshot, absent]
    refine .unread rfl ?_ (by simp [Contact.Found]) (by simp [Contact.Found])
    show Loading row (loadBalance row) (store.snapshot row.pair)
    rw [unknown]
    exact .unread
  | step _ next ih =>
    cases Beside.step_move next with
    | left statement rest at_ =>
      simpa [Contact.found_snoc, Beside.head, at_, Prog.head] using ih.left at_
    | right statement rest at_ =>
      simpa [Contact.found_snoc, Beside.head, at_, Prog.head] using ih.right named positive at_

/--
When a first load and a first update that race leave the newer one of the values that were read.

What is stored when the reconciliation ends stays, whether or not the first load has ended by then.
The newer value is lost exactly if it was loaded between the lookup and the save of an older update.
-/
theorem newest_iff {store : Store} {taken : List (Contact × Side)} {final : Contact}
    {result : CallResult} (absent : store.balances.find row.pair = none)
    (named : update.pair = row.pair) (positive : 1 ≤ update.version)
    (consistent : update.version = row.version → update.balance = row.balance)
    (trace : Contact.Trace (.start store row uuid now update) taken final)
    (pulled : final.right = .ret result) :
    KeepsNewest row update taken final ↔
      Contact.Found row.pair .left taken ∨ row.version ≤ update.version ∨
        Contact.Found row.pair .right taken := by
  have story := story_of_trace absent named positive trace
  cases story with
  | unread right => cases right.symm.trans pulled
  | saving saves =>
    rw [pulled] at saves
    exact saves.elim
  | saved _ stored _ beats =>
    by_cases seen : Contact.Found row.pair .left taken
    · exact iff_of_true ⟨fun unseen => absurd seen unseen, fun _ => stored⟩ (Or.inl seen)
    rcases Int.lt_or_le update.version row.version with older | newer
    · -- The older update has replaced the row, or has kept it out.
      refine iff_of_false (fun keeps => ?_) ?_
      · have same := stored.symm.trans (keeps.loaded seen)
        rw [newest, if_pos older, Option.some.injEq] at same
        have versions : update.version = row.version := (Prod.mk.inj same).2
        omega
      · intro either
        rcases either with found | newer | found
        · exact seen found
        · omega
        · have above := (beats found).1
          omega
    · refine iff_of_true ⟨fun _ => ?_, fun _ => stored⟩ (Or.inr (Or.inl newer))
      rw [stored, newest, if_neg (Int.not_lt.mpr newer)]
  | kept _ stored _ loadNot found stale =>
    refine iff_of_true ⟨fun _ => ?_, fun seen => absurd seen loadNot⟩ (Or.inr (Or.inr found))
    rw [stored, newest]
    split
    · rfl
    · -- Equal versions stand for equal balances, so it does not matter which one is kept.
      have same : update.version = row.version := by omega
      rw [consistent same, same]

/-- The first load runs while the reconciliation is on its way from its lookup to its save. -/
def loadWithin : List Side :=
  [.right, .left, .left, .right, .right, .right, .right]

/-- An older row that is loaded in between is replaced by the newer update. -/
theorem newest_iff_within : ∃ taken final,
    Contact.Trace (.start {} ⟨"e", "l", 7, 1, 0⟩ "event" 0 ⟨"e", "l", 10, 2, none⟩) taken final ∧
      final.left.head = none ∧ final.right.head = none ∧
      KeepsNewest ⟨"e", "l", 7, 1, 0⟩ ⟨"e", "l", 10, 2, none⟩ taken final := by
  have executed : (Runs.run (Beside.step Statement.exec) (fun _ _ => true)
      (Contact.start {} ⟨"e", "l", 7, 1, 0⟩ "event" 0 ⟨"e", "l", 10, 2, none⟩)
      loadWithin).map (fun final => final.left.head.isNone && final.right.head.isNone) =
        some true := by
    decide +kernel
  obtain ⟨taken, final, trace, _, ended⟩ := Beside.exists_trace_of_run executed
  simp only [Bool.and_eq_true, Option.isNone_iff_eq_none] at ended
  obtain ⟨result, pulled⟩ := Prog.exists_ret_of_head ended.2
  exact ⟨taken, final, trace, ended.1, ended.2,
    (newest_iff rfl rfl (by decide) (by decide) trace pulled).mpr (Or.inr (Or.inl (by decide)))⟩

/-- A newer row that is loaded in between is lost to the older update. -/
theorem newest_lost_within : ∃ taken final,
    Contact.Trace (.start {} ⟨"e", "l", 7, 2, 0⟩ "event" 0 ⟨"e", "l", 10, 1, none⟩) taken final ∧
      final.left.head = none ∧ final.right.head = none ∧
      final.state.snapshot ("e", "l") = some (10, 1) ∧
      ¬KeepsNewest ⟨"e", "l", 7, 2, 0⟩ ⟨"e", "l", 10, 1, none⟩ taken final := by
  -- The lookup of the first load is made before there is a row.
  have executed : (Runs.run (Beside.step Statement.exec)
      (fun before side => decide (side = .right) || (before.state.snapshot ("e", "l")).isNone)
      (Contact.start {} ⟨"e", "l", 7, 2, 0⟩ "event" 0 ⟨"e", "l", 10, 1, none⟩)
      loadWithin).map (fun final => final.left.head.isNone && final.right.head.isNone &&
        decide (final.state.snapshot ("e", "l") = some (10, 1))) = some true := by
    decide +kernel
  obtain ⟨taken, final, trace, checked, ended⟩ := Beside.exists_trace_of_run executed
  simp only [Bool.and_eq_true, Option.isNone_iff_eq_none, decide_eq_true_eq] at ended
  refine ⟨taken, final, trace, ended.1.1, ended.1.2, ended.2, fun keeps => ?_⟩
  have unseen : ¬Contact.Found ("e", "l") .left taken := by
    intro given
    obtain ⟨before, member, _, found⟩ := given
    have missing := checked before .left member
    simp only [reduceCtorEq, decide_false, Bool.false_or, Option.isNone_iff_eq_none] at missing
    simp [missing] at found
  have kept : final.state.snapshot ("e", "l") = some (7, 2) := keeps.loaded unseen
  rw [ended.2] at kept
  cases kept

end TimeOff
