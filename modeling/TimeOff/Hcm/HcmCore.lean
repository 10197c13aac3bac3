import TimeOff.Library.Table

/-! The simulated system of record: versioned balance rows, deduplicated deltas, injected faults. -/

namespace TimeOff

/-- An instant in milliseconds. -/
abbrev Time := Int

/-- A balance row as the system of record answers and emits it. -/
structure HcmBalanceRow where
  employeeId : String
  locationId : String
  balance : Int
  version : Int
  asOf : Time
  deriving DecidableEq, Repr

/-- Whether a delta spends or refunds. -/
inductive DeltaType where
  | debit
  | credit
  deriving DecidableEq, Repr

/-- A request to change a balance by a positive magnitude. -/
structure ApplyDeltaCommand where
  employeeId : String
  locationId : String
  amount : Int
  type : DeltaType
  idempotencyKey : String
  deriving DecidableEq, Repr

/-- The acknowledgement of a delta. -/
structure ApplyDeltaAck where
  hcmRef : String
  balance : Int
  version : Int
  -- Whether the balance really changed.
  applied : Bool
  -- Whether this repeats the acknowledgement of an earlier call with the same key.
  replayed : Bool
  deriving DecidableEq, Repr

/-- The causes of an authoritative refusal. -/
inductive RejectionCode where
  | insufficientBalance
  | invalidDimensions
  deriving DecidableEq, Repr

/-- What a call to the system of record throws. -/
inductive HcmError where
  -- An authoritative refusal, not to be retried.
  | rejection (code : RejectionCode) (message : String)
  -- A transient failure, safe to retry.
  | unavailable (message : String)
  deriving DecidableEq, Repr

/-- The injected faults. -/
structure HcmFaultConfig where
  failuresToInject : Int := 0
  invalidDimensions : List String := []
  autoCreateUnknown : Bool := true
  silentOverdraw : Bool := false
  ghostSuccess : Bool := false
  deriving DecidableEq, Repr

/-- A partial fault configuration: only the fields that are present are changed. -/
structure HcmFaultPatch where
  failuresToInject : Option Int := none
  invalidDimensions : Option (List String) := none
  autoCreateUnknown : Option Bool := none
  silentOverdraw : Option Bool := none
  ghostSuccess : Option Bool := none
  deriving DecidableEq, Repr

/-- The signed change a command asks for. -/
def ApplyDeltaCommand.signed (cmd : ApplyDeltaCommand) : Int :=
  match cmd.type with
  | .debit => -cmd.amount
  | .credit => cmd.amount

/-- The map key of an employee at a location. -/
def key (employeeId locationId : String) : String :=
  employeeId ++ "|" ++ locationId

/-- The map key a row is stored under. -/
def HcmBalanceRow.key (row : HcmBalanceRow) : String :=
  TimeOff.key row.employeeId row.locationId

/-- A remembered acknowledgement, for deduplication. -/
structure AppliedEntry where
  idempotencyKey : String
  ack : ApplyDeltaAck
  deriving DecidableEq, Repr

/-- State of the simulated system of record. -/
structure HcmCore where
  balances : Table HcmBalanceRow.key := Table.empty
  applied : Table AppliedEntry.idempotencyKey := Table.empty
  faults : HcmFaultConfig := {}
  refSeq : Nat := 0

namespace HcmCore

/-- Merge a partial fault configuration into the current one. -/
def configureFaults (core : HcmCore) (patch : HcmFaultPatch) : HcmCore :=
  { core with faults :=
    { failuresToInject := patch.failuresToInject.getD core.faults.failuresToInject
      invalidDimensions := patch.invalidDimensions.getD core.faults.invalidDimensions
      autoCreateUnknown := patch.autoCreateUnknown.getD core.faults.autoCreateUnknown
      silentOverdraw := patch.silentOverdraw.getD core.faults.silentOverdraw
      ghostSuccess := patch.ghostSuccess.getD core.faults.ghostSuccess } }

/-- The reference the next acknowledgement carries. -/
def genRef (core : HcmCore) : String :=
  "hcm-ref-" ++ toString (core.refSeq + 1)

/-- The row provisioning writes: the version goes up from the stored one, or starts at one. -/
def seedRow (core : HcmCore) (now : Time) (employeeId locationId : String) (balance : Int) :
    HcmBalanceRow :=
  -- A row that is overwritten still hands its version on.
  let previous := core.balances.find (TimeOff.key employeeId locationId)
  { employeeId, locationId, balance
    version := (previous.map (·.version)).getD 0 + 1
    asOf := now }

/-- Provision or overwrite a balance. -/
def seed (core : HcmCore) (now : Time) (employeeId locationId : String) (balance : Int) :
    HcmCore × HcmBalanceRow :=
  let row := core.seedRow now employeeId locationId balance
  ({ core with balances := core.balances.save row }, row)

/-- The refusal of a pair of dimensions that is not known. -/
def unknownDimensions (dimensions : String) : HcmError :=
  .rejection .invalidDimensions ("Unknown dimensions " ++ dimensions)

/-- A change made on the side of the system of record. -/
def adjust (core : HcmCore) (now : Time) (employeeId locationId : String) (delta : Int) :
    Except HcmError (HcmCore × HcmBalanceRow) :=
  match core.balances.find (TimeOff.key employeeId locationId) with
  -- Unlike a read, an adjustment never creates the row.
  | none => .error (unknownDimensions (TimeOff.key employeeId locationId))
  | some row =>
    let row := { row with balance := row.balance + delta, version := row.version + 1, asOf := now }
    .ok ({ core with balances := core.balances.save row }, row)

/-- Read a balance, creating an unknown one at zero when that is configured. -/
def getBalance (core : HcmCore) (now : Time) (employeeId locationId : String) :
    Except HcmError (HcmCore × HcmBalanceRow) :=
  let k := TimeOff.key employeeId locationId
  if k ∈ core.faults.invalidDimensions then .error (unknownDimensions k)
  else match core.balances.find k with
    | some row => .ok (core, row)
    | none =>
      if core.faults.autoCreateUnknown then .ok (core.seed now employeeId locationId 0)
      else .error (unknownDimensions k)

/-- Settle a new command against the row it names: ghost success, refusal, or a real change. -/
def settle (core : HcmCore) (now : Time) (cmd : ApplyDeltaCommand) (row : HcmBalanceRow) :
    HcmCore × Except HcmError ApplyDeltaAck :=
  let signed := cmd.signed
  let wouldGoNegative := decide (cmd.type = .debit) && decide (row.balance + signed < 0)
  if core.faults.ghostSuccess then
    -- Success is claimed and remembered, but the balance stays as it is.
    let ack : ApplyDeltaAck :=
      { hcmRef := core.genRef, balance := row.balance, version := row.version
        applied := false, replayed := false }
    ({ core with
        applied := core.applied.save { idempotencyKey := cmd.idempotencyKey, ack }
        refSeq := core.refSeq + 1 }, .ok ack)
  else if wouldGoNegative && !core.faults.silentOverdraw then
    (core, .error (.rejection .insufficientBalance
      ("Insufficient balance for " ++ TimeOff.key cmd.employeeId cmd.locationId ++ ": have " ++
        toString row.balance ++ ", need " ++ toString cmd.amount)))
  else
    let row := { row with
      balance := row.balance + signed, version := row.version + 1, asOf := now }
    let ack : ApplyDeltaAck :=
      { hcmRef := core.genRef, balance := row.balance, version := row.version
        applied := true, replayed := false }
    ({ core with
        balances := core.balances.save row
        applied := core.applied.save { idempotencyKey := cmd.idempotencyKey, ack }
        refSeq := core.refSeq + 1 }, .ok ack)

/-- Apply a debit or a credit once per idempotency key. -/
def applyDelta (core : HcmCore) (now : Time) (cmd : ApplyDeltaCommand) :
    HcmCore × Except HcmError ApplyDeltaAck :=
  match core.applied.find cmd.idempotencyKey with
  -- A known key replays its first acknowledgement, whatever faults are set by now.
  | some prior => (core, .ok { prior.ack with replayed := true })
  | none =>
    -- The injected failures are counted down before anything is looked at.
    if 0 < core.faults.failuresToInject then
      ({ core with faults :=
          { core.faults with failuresToInject := core.faults.failuresToInject - 1 } },
        .error (.unavailable "HCM temporarily unavailable"))
    else
      let k := TimeOff.key cmd.employeeId cmd.locationId
      if k ∈ core.faults.invalidDimensions then (core, .error (unknownDimensions k))
      else match core.balances.find k with
        | some row => core.settle now cmd row
        | none =>
          if core.faults.autoCreateUnknown then
            let created := core.seed now cmd.employeeId cmd.locationId 0
            created.1.settle now cmd created.2
          else (core, .error (unknownDimensions k))

/-- The whole corpus, as the batch endpoint emits it. -/
def dumpCorpus (core : HcmCore) : List HcmBalanceRow :=
  core.balances.rows

@[simp] theorem seedRow_key (core : HcmCore) (now : Time) (employeeId locationId : String)
    (balance : Int) :
    (core.seedRow now employeeId locationId balance).key = TimeOff.key employeeId locationId := rfl

/-- A read answers the stored row, or writes a first row at zero and answers that one. -/
theorem getBalance_ok {core after : HcmCore} {now : Time} {employeeId locationId : String}
    {row : HcmBalanceRow}
    (answered : core.getBalance now employeeId locationId = .ok (after, row)) :
    core.balances.find (TimeOff.key employeeId locationId) = some row ∧ after = core ∨
      core.balances.find (TimeOff.key employeeId locationId) = none ∧
        (after, row) = core.seed now employeeId locationId 0 := by
  -- Invalid dimensions and unknown ones that are not provisioned are refused.
  simp only [getBalance] at answered
  split at answered
  · cases answered
  · split at answered
    · rename_i found
      cases answered
      exact Or.inl ⟨found, rfl⟩
    · rename_i absent
      split at answered
      · exact Or.inr ⟨absent, (Except.ok.inj answered).symm⟩
      · cases answered

/-- An adjustment rewrites the row that is stored under its key. -/
theorem adjust_ok {core after : HcmCore} {now : Time} {employeeId locationId : String}
    {delta : Int} {row : HcmBalanceRow}
    (adjusted : core.adjust now employeeId locationId delta = .ok (after, row)) :
    ∃ stored, core.balances.find (TimeOff.key employeeId locationId) = some stored ∧
      row.key = TimeOff.key employeeId locationId ∧ row.balance = stored.balance + delta ∧
      row.version = stored.version + 1 ∧
      after = { core with balances := core.balances.save row } := by
  -- Only a row that is stored can be adjusted.
  unfold adjust at adjusted
  split at adjusted
  · cases adjusted
  · rename_i stored found
    have named : stored.key = TimeOff.key employeeId locationId := Table.key_of_find found
    cases adjusted
    exact ⟨stored, found, named, rfl, rfl, rfl⟩

/-- The table and row a command is settled against: the stored row, or one created at zero. -/
inductive Located (core : HcmCore) (now : Time) (cmd : ApplyDeltaCommand) :
    Table HcmBalanceRow.key → HcmBalanceRow → Prop
  | stored {row : HcmBalanceRow} :
      core.balances.find (TimeOff.key cmd.employeeId cmd.locationId) = some row →
      Located core now cmd core.balances row
  | created :
      core.balances.find (TimeOff.key cmd.employeeId cmd.locationId) = none →
      Located core now cmd
        (core.balances.save (core.seedRow now cmd.employeeId cmd.locationId 0))
        (core.seedRow now cmd.employeeId cmd.locationId 0)

/-- A located row is stored under the key of the command. -/
theorem Located.found {core : HcmCore} {now : Time} {cmd : ApplyDeltaCommand}
    {balances : Table HcmBalanceRow.key} {row : HcmBalanceRow}
    (located : Located core now cmd balances row) :
    balances.find (TimeOff.key cmd.employeeId cmd.locationId) = some row := by
  -- A created row is found because it was just saved under the key of the command.
  cases located with
  | stored found => exact found
  | created _ => exact Table.find_save_self _ _

/-- Locating a row touches no other key. -/
theorem Located.find_other {core : HcmCore} {now : Time} {cmd : ApplyDeltaCommand}
    {balances : Table HcmBalanceRow.key} {row : HcmBalanceRow}
    (located : Located core now cmd balances row) {k : String}
    (different : k ≠ TimeOff.key cmd.employeeId cmd.locationId) :
    balances.find k = core.balances.find k := by
  -- Only the created row was written, and it is not under the other key.
  cases located with
  | stored _ => rfl
  | created _ => rw [Table.find_save, seedRow_key, if_neg (Ne.symm different)]

/-- The row a settled command leaves behind. -/
def settledRow (now : Time) (cmd : ApplyDeltaCommand) (row : HcmBalanceRow) : HcmBalanceRow :=
  { row with balance := row.balance + cmd.signed, version := row.version + 1, asOf := now }

/-- Everything one call can do, with the conditions under which it does so. -/
inductive DeltaOutcome (core : HcmCore) (now : Time) (cmd : ApplyDeltaCommand) :
    HcmCore → Except HcmError ApplyDeltaAck → Prop
  -- The key was acknowledged before, and that acknowledgement is repeated.
  | replayed {prior : AppliedEntry} :
      core.applied.find cmd.idempotencyKey = some prior →
      DeltaOutcome core now cmd core (.ok { prior.ack with replayed := true })
  -- The call throws: the key stays unused, and at most a zero row was created.
  | thrown {after : HcmCore} {error : HcmError} :
      core.applied.find cmd.idempotencyKey = none → after.applied = core.applied →
      after.balances = core.balances ∨
        (∃ row, Located core now cmd after.balances row) →
      DeltaOutcome core now cmd after (.error error)
  -- A ghost success is remembered without a change.
  | ghost {balances : Table HcmBalanceRow.key} {row : HcmBalanceRow} {ack : ApplyDeltaAck} :
      core.applied.find cmd.idempotencyKey = none → core.faults.ghostSuccess = true →
      Located core now cmd balances row → ack.applied = false → ack.version = row.version →
      DeltaOutcome core now cmd
        { core with
          balances := balances
          applied := core.applied.save { idempotencyKey := cmd.idempotencyKey, ack }
          refSeq := core.refSeq + 1 } (.ok ack)
  -- The change is made and its acknowledgement remembered.
  | settled {balances : Table HcmBalanceRow.key} {row : HcmBalanceRow} {ack : ApplyDeltaAck} :
      core.applied.find cmd.idempotencyKey = none → core.faults.ghostSuccess = false →
      Located core now cmd balances row →
      (cmd.type = .debit → core.faults.silentOverdraw = false → 0 ≤ row.balance + cmd.signed) →
      ack.applied = true → ack.version = row.version + 1 →
      DeltaOutcome core now cmd
        { core with
          balances := balances.save (settledRow now cmd row)
          applied := core.applied.save { idempotencyKey := cmd.idempotencyKey, ack }
          refSeq := core.refSeq + 1 } (.ok ack)

/-- Settling a located row is one of the outcomes. -/
theorem settle_outcome {core : HcmCore} {now : Time} {cmd : ApplyDeltaCommand}
    {balances : Table HcmBalanceRow.key} {row : HcmBalanceRow}
    (unused : core.applied.find cmd.idempotencyKey = none)
    (located : Located core now cmd balances row) :
    DeltaOutcome core now cmd ({ core with balances := balances }.settle now cmd row).1
      ({ core with balances := balances }.settle now cmd row).2 := by
  -- The branches come in the order of the call: ghost success, refusal, real change.
  unfold settle
  dsimp only
  split
  · rename_i ghost
    exact .ghost unused ghost located rfl rfl
  · rename_i real
    have real : core.faults.ghostSuccess = false := by simpa using real
    split
    · exact .thrown unused rfl (Or.inr ⟨row, located⟩)
    · rename_i fits
      refine .settled unused real located ?_ rfl rfl
      intro debit strict
      -- The refusal branch was not taken, so a strict debit leaves no deficit.
      simpa [debit, strict] using fits

/-- Every call ends in one of the outcomes. -/
theorem applyDelta_outcome (core : HcmCore) (now : Time) (cmd : ApplyDeltaCommand) :
    DeltaOutcome core now cmd (core.applyDelta now cmd).1 (core.applyDelta now cmd).2 := by
  unfold applyDelta
  cases known : core.applied.find cmd.idempotencyKey with
  | some prior => exact .replayed known
  | none =>
    dsimp only
    -- The remaining branches follow the order in which the call checks its faults.
    split
    · exact .thrown known rfl (Or.inl rfl)
    · split
      · exact .thrown known rfl (Or.inl rfl)
      · cases found : core.balances.find (TimeOff.key cmd.employeeId cmd.locationId) with
        | some row => exact settle_outcome known (.stored found)
        | none =>
          dsimp only
          split
          · exact settle_outcome known (.created found)
          · exact .thrown known rfl (Or.inl rfl)

end HcmCore

end TimeOff
