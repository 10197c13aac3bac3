import TimeOff.System.Composed

/-! What a call to the system of record does to its rows, its faults and its acknowledgements. -/

namespace TimeOff

namespace HcmCore

variable {before after : HcmCore} {k : String} {row : HcmBalanceRow}

theorem versionOf_of_find (found : before.balances.find k = some row) :
    before.versionOf k = row.version := by
  simp [versionOf, found]

theorem balanceOf_of_find (found : before.balances.find k = some row) :
    before.balanceOf k = row.balance := by
  simp [balanceOf, found]

/-- A call that concerns one key leaves its row alone or takes its version up. -/
structure Touches (before after : HcmCore) (k : String) : Prop where
  others : ∀ other, other ≠ k → after.balances.find other = before.balances.find other
  moves : after.balances.find k = before.balances.find k ∨
    ∃ row, after.balances.find k = some row ∧ before.versionOf k < row.version

theorem Touches.of_balances (same : after.balances = before.balances) (k : String) :
    Touches before after k :=
  ⟨fun _ _ => by rw [same], Or.inl (by rw [same])⟩

/-- Saving a row with a higher version touches its key. -/
theorem Touches.of_save {balances : Table HcmBalanceRow.key} (row : HcmBalanceRow)
    (named : row.key = k)
    (others : ∀ other, other ≠ k → balances.find other = before.balances.find other)
    (saved : after.balances = balances.save row) (higher : before.versionOf k < row.version) :
    Touches before after k where
  others other different := by
    rw [saved, Table.find_save, named, if_neg (Ne.symm different), others other different]
  moves := Or.inr ⟨row, by rw [saved, ← named, Table.find_save_self], higher⟩

/-- A provisioned row has a higher version than the stored one. -/
theorem seedRow_higher (core : HcmCore) (now : Time) (employeeId locationId : String)
    (balance : Int) :
    core.versionOf (TimeOff.key employeeId locationId) <
      (core.seedRow now employeeId locationId balance).version :=
  Int.lt_succ _

theorem seed_touches (core : HcmCore) (now : Time) (employeeId locationId : String)
    (balance : Int) :
    Touches core (core.seed now employeeId locationId balance).1
      (TimeOff.key employeeId locationId) :=
  .of_save (core.seedRow now employeeId locationId balance) rfl (fun _ _ => rfl) rfl
    (core.seedRow_higher now employeeId locationId balance)

theorem adjust_touches {now : Time} {employeeId locationId : String} {delta : Int}
    (adjusted : before.adjust now employeeId locationId delta = .ok (after, row)) :
    Touches before after (TimeOff.key employeeId locationId) := by
  -- The adjusted row takes the next version.
  obtain ⟨stored, found, named, _, version, rfl⟩ := adjust_ok adjusted
  refine .of_save row named (fun _ _ => rfl) rfl ?_
  rw [versionOf_of_find found, version]
  exact Int.lt_succ _

theorem getBalance_touches {now : Time} {employeeId locationId : String}
    (answered : before.getBalance now employeeId locationId = .ok (after, row)) :
    Touches before after (TimeOff.key employeeId locationId) := by
  -- A read finds the row, or provisions one.
  rcases getBalance_ok answered with ⟨_, rfl⟩ | ⟨_, created⟩
  · exact .of_balances rfl _
  · cases created
    exact seed_touches ..

/-- The row that is answered is the one that is stored afterwards. -/
theorem getBalance_found {now : Time} {employeeId locationId : String}
    (answered : before.getBalance now employeeId locationId = .ok (after, row)) :
    after.balances.find (TimeOff.key employeeId locationId) = some row := by
  -- A provisioned row is stored before it is answered.
  rcases getBalance_ok answered with ⟨found, rfl⟩ | ⟨_, created⟩
  · exact found
  · cases created
    exact Table.find_save_self _ _

/-- Locating a row for a command touches its key at most. -/
theorem Located.touches {now : Time} {cmd : ApplyDeltaCommand}
    {balances : Table HcmBalanceRow.key} (located : Located before now cmd balances row)
    (same : after.balances = balances) :
    Touches before after (TimeOff.key cmd.employeeId cmd.locationId) := by
  -- Only a row that was absent is written, and its version is higher than none.
  cases located with
  | stored _ => exact .of_balances same _
  | created absent =>
    exact .of_save _ rfl (fun _ _ => rfl) same (before.seedRow_higher ..)

/-- A located row has no lower version than the row under its key had. -/
theorem Located.version_le {now : Time} {cmd : ApplyDeltaCommand}
    {balances : Table HcmBalanceRow.key} (located : Located before now cmd balances row) :
    before.versionOf (TimeOff.key cmd.employeeId cmd.locationId) ≤ row.version := by
  cases located with
  | stored found => exact (versionOf_of_find found).le
  | created absent => exact (before.seedRow_higher ..).le

/-- Each outcome touches the row the command names, and no other. -/
theorem DeltaOutcome.touches {now : Time} {cmd : ApplyDeltaCommand}
    {result : Except HcmError ApplyDeltaAck} (outcome : DeltaOutcome before now cmd after result) :
    Touches before after (TimeOff.key cmd.employeeId cmd.locationId) := by
  -- A row is written when it is provisioned or settled, each time with a higher version.
  cases outcome with
  | replayed _ => exact .of_balances rfl _
  | thrown _ _ balances =>
    rcases balances with same | ⟨row, located⟩
    · exact .of_balances same _
    · exact located.touches rfl
  | ghost _ _ located => exact located.touches rfl
  | @settled balances row ack unused real located fits applied version =>
    have named : row.key = TimeOff.key cmd.employeeId cmd.locationId :=
      Table.key_of_find located.found
    exact .of_save (settledRow now cmd row) named
      (fun other different => located.find_other different) rfl
      (Int.lt_of_le_of_lt located.version_le (Int.lt_succ _))

theorem applyDelta_touches (core : HcmCore) (now : Time) (cmd : ApplyDeltaCommand) :
    Touches core (core.applyDelta now cmd).1 (TimeOff.key cmd.employeeId cmd.locationId) :=
  (core.applyDelta_outcome now cmd).touches

/-- Settling a command changes no fault. -/
@[simp] theorem faults_settle (core : HcmCore) (now : Time) (cmd : ApplyDeltaCommand)
    (row : HcmBalanceRow) : (core.settle now cmd row).1.faults = core.faults := by
  simp only [settle]
  split
  · rfl
  · split <;> rfl

/-- A call with a new key spends an injected failure if there is one, and that is all. -/
theorem failures_applyDelta (core : HcmCore) (now : Time) (cmd : ApplyDeltaCommand) :
    (core.applyDelta now cmd).1.faults =
      if (core.applied.find cmd.idempotencyKey).isNone ∧ 0 < core.faults.failuresToInject then
        { core.faults with failuresToInject := core.faults.failuresToInject - 1 }
      else core.faults := by
  -- In turn: a known key, an injected failure, invalid dimensions, a stored row, a created one.
  simp only [applyDelta]
  split
  · rename_i known
    simp [known]
  · rename_i unused
    simp only [unused, Option.isNone_none, true_and]
    split
    · rfl
    · split
      · rfl
      · split
        · rw [faults_settle]
        · split
          · rw [faults_settle]
            rfl
          · rfl

/-- A call spends an injected failure at most, and changes no other fault. -/
theorem faults_applyDelta (core : HcmCore) (now : Time) (cmd : ApplyDeltaCommand) :
    (core.applyDelta now cmd).1.faults = { core.faults with
      failuresToInject := (core.applyDelta now cmd).1.faults.failuresToInject } := by
  rw [failures_applyDelta]
  split <;> rfl

/-- Settling a command acknowledges it or refuses it. -/
theorem settle_available (core : HcmCore) (now : Time) (cmd : ApplyDeltaCommand)
    (row : HcmBalanceRow) (message : String) :
    (core.settle now cmd row).2 ≠ .error (.unavailable message) := by
  unfold settle
  dsimp only
  split
  · exact nofun
  · split
    · exact nofun
    · exact nofun

/-- Only a failure that was injected makes a call fail transiently, and only a new one. -/
theorem applyDelta_unavailable {core : HcmCore} {now : Time} {cmd : ApplyDeltaCommand}
    {message : String} (failed : (core.applyDelta now cmd).2 = .error (.unavailable message)) :
    core.applied.find cmd.idempotencyKey = none ∧ 0 < core.faults.failuresToInject := by
  -- In turn: a known key, an injected failure, invalid dimensions, a stored row, a created one.
  unfold applyDelta at failed
  split at failed
  · cases failed
  · rename_i unused
    split at failed
    · rename_i failing
      exact ⟨unused, failing⟩
    · dsimp only at failed
      split at failed
      · cases failed
      · split at failed
        · exact absurd failed (settle_available _ _ _ _ message)
        · split at failed
          · exact absurd failed (settle_available _ _ _ _ message)
          · cases failed

/-- An adjustment changes no fault. -/
theorem faults_adjust {now : Time} {employeeId locationId : String} {delta : Int}
    (adjusted : before.adjust now employeeId locationId delta = .ok (after, row)) :
    after.faults = before.faults := by
  obtain ⟨_, _, _, _, _, rfl⟩ := adjust_ok adjusted
  rfl

/-- A read changes no fault. -/
theorem faults_getBalance {now : Time} {employeeId locationId : String}
    (answered : before.getBalance now employeeId locationId = .ok (after, row)) :
    after.faults = before.faults := by
  -- A provisioned row leaves the faults as they are.
  rcases getBalance_ok answered with ⟨_, rfl⟩ | ⟨_, created⟩
  · rfl
  · cases created
    rfl

/-- What a call does to the acknowledgements and to the row it concerns, and what it answers. -/
inductive Answer (before : HcmCore) (cmd : ApplyDeltaCommand) (after : HcmCore) :
    Except HcmError ApplyDeltaAck → Prop
  | repeated (prior : AppliedEntry) :
      before.applied.find cmd.idempotencyKey = some prior → after.applied = before.applied →
      after.balances = before.balances →
      Answer before cmd after (.ok { prior.ack with replayed := true })
  | thrown (error : HcmError) :
      before.applied.find cmd.idempotencyKey = none → after.applied = before.applied →
      after.balanceOf (TimeOff.key cmd.employeeId cmd.locationId) =
        before.balanceOf (TimeOff.key cmd.employeeId cmd.locationId) →
      Answer before cmd after (.error error)
  | given (ack : ApplyDeltaAck) :
      before.applied.find cmd.idempotencyKey = none →
      after.applied = before.applied.save { idempotencyKey := cmd.idempotencyKey, ack } →
      after.versionOf (TimeOff.key cmd.employeeId cmd.locationId) = ack.version →
      (ack.applied = true →
        before.versionOf (TimeOff.key cmd.employeeId cmd.locationId) < ack.version) →
      after.balanceOf (TimeOff.key cmd.employeeId cmd.locationId) =
        before.balanceOf (TimeOff.key cmd.employeeId cmd.locationId) +
          (if ack.applied then cmd.signed else 0) →
      Answer before cmd after (.ok ack)

/-- A located row has the balance that was shown before. -/
theorem Located.balance {now : Time} {cmd : ApplyDeltaCommand}
    {balances : Table HcmBalanceRow.key} (located : Located before now cmd balances row) :
    row.balance = before.balanceOf (TimeOff.key cmd.employeeId cmd.locationId) := by
  cases located with
  | stored found => exact (balanceOf_of_find found).symm
  | created absent => simp [balanceOf, absent, seedRow]

/-- Each outcome repeats an acknowledgement, throws, or gives a new one. -/
theorem DeltaOutcome.answer {now : Time} {cmd : ApplyDeltaCommand}
    {result : Except HcmError ApplyDeltaAck} (outcome : DeltaOutcome before now cmd after result) :
    Answer before cmd after result := by
  -- A ghost acknowledges the row as it stands, and only a settled command moves it.
  cases outcome with
  | replayed known => exact .repeated _ known rfl rfl
  | thrown unused same balances =>
    refine .thrown _ unused same ?_
    rcases balances with kept | ⟨row, located⟩
    · exact congrArg (fun table : Table HcmBalanceRow.key =>
        ((table.find (TimeOff.key cmd.employeeId cmd.locationId)).map (·.balance)).getD 0) kept
    · rw [balanceOf_of_find located.found, located.balance]
  | @ghost balances row ack unused real located applied version =>
    refine .given _ unused rfl ?_ (by simp [applied]) ?_
    · exact (versionOf_of_find located.found).trans version.symm
    · rw [applied]
      simpa using (balanceOf_of_find located.found).trans located.balance
  | @settled balances row ack unused real located fits applied version =>
    have found : (balances.save (settledRow now cmd row)).find
        (TimeOff.key cmd.employeeId cmd.locationId) = some (settledRow now cmd row) := by
      have named : row.key = TimeOff.key cmd.employeeId cmd.locationId :=
        Table.key_of_find located.found
      rw [← named]
      exact Table.find_save_self balances (settledRow now cmd row)
    refine .given _ unused rfl ?_ (fun _ => ?_) ?_
    · exact (versionOf_of_find found).trans version.symm
    · rw [version]
      exact Int.lt_of_le_of_lt located.version_le (Int.lt_succ _)
    · rw [applied, if_pos rfl, ← located.balance]
      exact congrArg (fun stored : Option HcmBalanceRow => (stored.map (·.balance)).getD 0) found

/-- A call repeats an acknowledgement, throws, or gives a new one. -/
theorem applyDelta_answer (core : HcmCore) (now : Time) (cmd : ApplyDeltaCommand) :
    Answer core cmd (core.applyDelta now cmd).1 (core.applyDelta now cmd).2 :=
  (core.applyDelta_outcome now cmd).answer

/-- An acknowledgement that was given is kept. -/
theorem Answer.kept {cmd : ApplyDeltaCommand} {result : Except HcmError ApplyDeltaAck}
    (answer : Answer before cmd after result) {other : String} {entry : AppliedEntry}
    (found : before.applied.find other = some entry) : after.applied.find other = some entry := by
  -- A new acknowledgement is stored under a key that was unused.
  cases answer with
  | repeated _ _ same _ => rwa [same]
  | thrown _ _ same _ => rwa [same]
  | given ack unused same _ _ _ =>
    rw [same, Table.find_save, if_neg]
    · exact found
    · rintro rfl
      simp [unused] at found

end HcmCore

end TimeOff
