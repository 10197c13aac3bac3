import TimeOff.Account.Calls

/-! The system of record as an account: each idempotency key counts once, and balances add up. -/

namespace TimeOff

namespace HcmCore

variable {before : HcmCore} {made : HcmCore × HcmCall} {K k : String}

/-- A step of a history carries an idempotency key. -/
def Carries (K : String) (made : HcmCore × HcmCall) : Prop :=
  made.2.deltaKey = some K

/-- A step of a history changes some balance. -/
def Alters (made : HcmCore × HcmCall) : Prop :=
  ∃ k, (left made).balanceOf k ≠ made.1.balanceOf k

/-- What a history does with one idempotency key. -/
structure IdempotentFor (K : String) (history : List (HcmCore × HcmCall)) : Prop where
  -- At most one call with the key changes a balance.
  once : history.Pairwise fun earlier later =>
    Carries K earlier → Carries K later → Alters earlier → ¬Alters later
  -- Once a call with the key has returned, every later one repeats it and changes nothing at all.
  replays : history.Pairwise fun earlier later =>
    ∀ ack, Carries K earlier → Carries K later → reply earlier = .ack ack →
      reply later = .ack { ack with replayed := true } ∧ left later = later.1
  -- A call that throws leaves the key unused, and the rows that are there as they are.
  unused : ∀ made ∈ history, Carries K made → ∀ error, reply made = .thrown error →
    (left made).applied.find K = none ∧
      ∀ k row, made.1.balances.find k = some row → (left made).balances.find k = some row

/-- The balance a step of a history sets a row to, if it is a seed of this row. -/
def seeds (k : String) (made : HcmCore × HcmCall) : Option Int :=
  match made.2 with
  | .seed _ _ balance _ => if made.2.rowKey = some k then some balance else none
  | _ => none

/-- What a step adds to a row: an adjustment, or a command that is applied for the first time. -/
def adds (k : String) (made : HcmCore × HcmCall) : Int :=
  if made.2.rowKey = some k then
    match made.2, reply made with
    | .adjust _ _ delta _, .row _ => delta
    | .applyDelta cmd _, .ack ack => if ack.applied ∧ ack.replayed = false then cmd.signed else 0
    | _, _ => 0
  else 0

/-- The balance of a row is its last seed and what was added since, or all that was added. -/
structure AddsUp (k : String) (history : List (HcmCore × HcmCall)) (final : HcmCore) : Prop where
  unseeded : (∀ made ∈ history, seeds k made = none) →
    final.balanceOf k = (history.map (adds k)).sum
  seeded : ∀ earlier made later balance, history = earlier ++ made :: later →
    seeds k made = some balance → (∀ other ∈ later, seeds k other = none) →
    final.balanceOf k = balance + (later.map (adds k)).sum

/-- A key that was acknowledged, with what its acknowledgement said. -/
def Acknowledged (core : HcmCore) (K : String) (ack : ApplyDeltaAck) : Prop :=
  ∃ entry, core.applied.find K = some entry ∧
    ({ entry.ack with replayed := true } : ApplyDeltaAck) = { ack with replayed := true }

/-- A call with an idempotency key is a delta that carries it. -/
theorem exists_command (carries : Carries K made) :
    ∃ core cmd now, made = (core, .applyDelta cmd now) ∧ cmd.idempotencyKey = K := by
  obtain ⟨core, call⟩ := made
  cases call with
  | applyDelta cmd now => exact ⟨core, cmd, now, rfl, Option.some.inj carries⟩
  | _ => cases carries

/-- A delta that is answered with an error has thrown it. -/
theorem error_of_reply {core : HcmCore} {cmd : ApplyDeltaCommand} {now : Time}
    {error : HcmError} (thrown : reply (core, .applyDelta cmd now) = .thrown error) :
    (core.applyDelta now cmd).2 = .error error := by
  simp only [reply, call] at thrown
  split at thrown
  · cases thrown
  · rename_i other same
    cases thrown
    exact same

/-- An acknowledged key stays so, with the same acknowledgement. -/
theorem Acknowledged.step {core : HcmCore} {ack : ApplyDeltaAck}
    (acknowledged : core.Acknowledged K ack) (call : HcmCall) :
    (core.call call).1.Acknowledged K ack := by
  -- Only deltas acknowledge, and they overwrite no acknowledgement.
  obtain ⟨entry, found, same⟩ := acknowledged
  cases carried : call.deltaKey with
  | none => exact ⟨entry, (applied_of_deltaKey carried).symm ▸ found, same⟩
  | some other =>
    have carries : Carries other (core, call) := carried
    obtain ⟨_, cmd, now, made, _⟩ := exists_command carries
    cases made
    exact ⟨entry, (core.applyDelta_answer now cmd).kept found, same⟩

/-- A delta that returns has acknowledged its key. -/
theorem acknowledged_of_applyDelta {core : HcmCore} {now : Time} {cmd : ApplyDeltaCommand}
    {ack : ApplyDeltaAck} (returned : (core.applyDelta now cmd).2 = .ok ack) :
    (core.applyDelta now cmd).1.Acknowledged cmd.idempotencyKey ack := by
  have answer := core.applyDelta_answer now cmd
  rw [returned] at answer
  generalize (core.applyDelta now cmd).1 = after at answer ⊢
  -- What is returned was remembered already, or is remembered now.
  cases answer with
  | repeated prior found same _ => exact ⟨prior, same ▸ found, rfl⟩
  | given ack unused same _ _ _ =>
    exact ⟨_, same ▸ Table.find_save_self core.applied { idempotencyKey := _, ack }, rfl⟩

/-- A delta with an acknowledged key repeats the acknowledgement and changes nothing. -/
theorem Acknowledged.applyDelta {core : HcmCore} {cmd : ApplyDeltaCommand} {ack : ApplyDeltaAck}
    (acknowledged : core.Acknowledged cmd.idempotencyKey ack) (now : Time) :
    core.applyDelta now cmd = (core, .ok { ack with replayed := true }) := by
  -- The key is looked up before anything else.
  obtain ⟨entry, found, same⟩ := acknowledged
  simp only [HcmCore.applyDelta, found, same]

/-- A delta that throws has changed no balance, and neither has one that repeats. -/
theorem acknowledged_of_changes (carries : Carries K made) (changes : Alters made) :
    ∃ ack, (left made).Acknowledged K ack := by
  obtain ⟨core, cmd, now, rfl, rfl⟩ := exists_command carries
  cases returned : (core.applyDelta now cmd).2 with
  | ok ack => exact ⟨ack, acknowledged_of_applyDelta returned⟩
  | error error =>
    -- At most a row at zero was created, which no balance shows.
    obtain ⟨k, changed⟩ := changes
    refine absurd ?_ changed
    have answer := core.applyDelta_answer now cmd
    rw [returned] at answer
    by_cases own : k = key cmd.employeeId cmd.locationId
    · subst own
      cases answer with
      | thrown _ _ _ balance => exact balance
    · exact congrArg (fun row : Option HcmBalanceRow => (row.map (·.balance)).getD 0)
        ((core.applyDelta_touches now cmd).others k own)

/-- A delta that throws leaves its key unused and the stored rows as they are. -/
theorem DeltaOutcome.unused {core after : HcmCore} {now : Time} {cmd : ApplyDeltaCommand}
    {result : Except HcmError ApplyDeltaAck} (outcome : DeltaOutcome core now cmd after result)
    {error : HcmError} (thrown : result = .error error) :
    after.applied.find cmd.idempotencyKey = none ∧
      ∀ k row, core.balances.find k = some row → after.balances.find k = some row := by
  cases outcome with
  | thrown unused same balances =>
    refine ⟨by rw [same, unused], fun k row stored => ?_⟩
    rcases balances with kept | ⟨zero, located⟩
    · rw [kept, stored]
    · -- A row is created only where there is none.
      by_cases own : k = key cmd.employeeId cmd.locationId
      · subst own
        generalize after.balances = balances at located ⊢
        cases located with
        | stored _ => exact stored
        | created absent => cases absent.symm.trans stored
      · rw [located.find_other own, stored]
  | _ => cases thrown

/-- Once a key was acknowledged it stays so, and its later calls only repeat. -/
theorem idempotentFor_history (K : String) (core : HcmCore) (calls : List HcmCall) :
    IdempotentFor K (core.history calls) := by
  -- What the pairs of calls have in common is that the first acknowledgement is still known.
  obtain ⟨known, _⟩ := (trace_history core calls).pairwise
    (fun made state => ∀ ack, (left made).Acknowledged K ack → state.Acknowledged K ack)
    (fun before call after taken ack acknowledged => by
      cases taken
      exact acknowledged)
    (fun made before call after taken earlier ack acknowledged => by
      cases taken
      exact (earlier ack acknowledged).step call)
  refine ⟨known.imp ?_, known.imp ?_, ?_⟩
  · intro earlier later kept carries carriesToo changes
    obtain ⟨ack, acknowledged⟩ := acknowledged_of_changes carries changes
    obtain ⟨core, cmd, now, rfl, rfl⟩ := exists_command carriesToo
    intro given
    obtain ⟨k, changed⟩ := given
    apply changed
    simp only [left, call, (kept ack acknowledged).applyDelta now]
  · intro earlier later kept ack carries carriesToo returned
    obtain ⟨first, cmd, now, rfl, named⟩ := exists_command carries
    obtain ⟨core, again, later, rfl, rfl⟩ := exists_command carriesToo
    have acknowledged := acknowledged_of_applyDelta (ack_of_reply returned)
    rw [named] at acknowledged
    have repeated := (kept ack acknowledged).applyDelta later
    simp only [reply, left, call, repeated, and_self]
  · intro made member carries error thrown
    obtain ⟨core, cmd, now, rfl, rfl⟩ := exists_command carries
    exact (core.applyDelta_outcome now cmd).unused (error_of_reply thrown)

/-- A command that is settled now is answered for the first time. -/
theorem replayed_of_settle {core : HcmCore} {now : Time} {cmd : ApplyDeltaCommand}
    {row : HcmBalanceRow} {ack : ApplyDeltaAck} (settled : (core.settle now cmd row).2 = .ok ack) :
    ack.replayed = false := by
  -- Both acknowledgements a settlement can write say so.
  simp only [settle] at settled
  split at settled
  · cases settled
    rfl
  · split at settled
    · cases settled
    · cases settled
      rfl

/-- An unused key is answered for the first time. -/
theorem replayed_of_unused {core : HcmCore} {now : Time} {cmd : ApplyDeltaCommand}
    {ack : ApplyDeltaAck} (unused : core.applied.find cmd.idempotencyKey = none)
    (returned : (core.applyDelta now cmd).2 = .ok ack) : ack.replayed = false := by
  -- Past the faults, the command is settled against the stored row or a new one.
  simp only [applyDelta, unused] at returned
  split at returned
  · cases returned
  · split at returned
    · cases returned
    · split at returned
      · exact replayed_of_settle returned
      · split at returned
        · exact replayed_of_settle returned
        · cases returned

/-- The balance under a key follows from its row alone. -/
theorem balanceOf_congr {core after : HcmCore}
    (same : after.balances.find k = core.balances.find k) :
    after.balanceOf k = core.balanceOf k := by
  simp only [balanceOf, same]

/-- A step leaves the rows it is not about. -/
theorem find_left_other (other : made.2.rowKey ≠ some k) :
    (left made).balances.find k = made.1.balances.find k := by
  cases named : made.2.rowKey with
  | none => rw [left, balances_of_rowKey named]
  | some own =>
    -- The step touches the row it names, and this is another one.
    apply (touches_of_rowKey made.1 named).others k
    intro equal
    subst equal
    exact other named

/-- A delta adds what it was applied for, if it was so for the first time. -/
theorem balanceOf_applyDelta (core : HcmCore) (cmd : ApplyDeltaCommand) (now : Time) :
    (core.applyDelta now cmd).1.balanceOf (key cmd.employeeId cmd.locationId) =
      core.balanceOf (key cmd.employeeId cmd.locationId) +
        adds (key cmd.employeeId cmd.locationId) (core, .applyDelta cmd now) := by
  have answer := core.applyDelta_answer now cmd
  cases returned : (core.applyDelta now cmd).2 with
  | error error =>
    rw [returned] at answer
    cases answer with
    | thrown _ _ _ balance =>
      -- A command that is refused adds nothing.
      simpa [adds, HcmCall.rowKey, HcmCall.pair, reply, call, returned] using balance
  | ok ack =>
    rw [returned] at answer
    generalize (core.applyDelta now cmd).1 = after at answer
    cases answer with
    | repeated prior found _ balances =>
      -- A repeated acknowledgement says of itself that it is one.
      simp [adds, HcmCall.rowKey, HcmCall.pair, reply, call, returned, balanceOf, balances]
    | given ack unused _ _ _ balance =>
      simp [adds, HcmCall.rowKey, HcmCall.pair, reply, call, returned,
        replayed_of_unused unused returned, balance]

/-- A seed sets the balance of its row. -/
theorem balanceOf_seed (core : HcmCore) (now : Time) (employeeId locationId : String)
    (balance : Int) :
    (core.seed now employeeId locationId balance).1.balanceOf (key employeeId locationId) =
      balance := by
  have saved : (core.seed now employeeId locationId balance).1.balances.find
      (key employeeId locationId) = some (core.seedRow now employeeId locationId balance) :=
    Table.find_save_self ..
  exact balanceOf_of_find saved

/-- An adjustment is added to the balance of its row. -/
theorem balanceOf_adjust {core after : HcmCore} {now : Time} {employeeId locationId : String}
    {delta : Int} {row : HcmBalanceRow}
    (adjusted : core.adjust now employeeId locationId delta = .ok (after, row)) :
    after.balanceOf (key employeeId locationId) =
      core.balanceOf (key employeeId locationId) + delta := by
  obtain ⟨stored, found, named, balance, _, rfl⟩ := adjust_ok adjusted
  have saved : ({ core with balances := core.balances.save row } : HcmCore).balances.find
      (key employeeId locationId) = some row := by
    rw [← named]
    exact Table.find_save_self _ _
  rw [balanceOf_of_find found, ← balance]
  exact balanceOf_of_find saved

/-- A read changes no balance, for a row it provisions starts at zero. -/
theorem balanceOf_getBalance {core after : HcmCore} {now : Time} {employeeId locationId : String}
    {row : HcmBalanceRow}
    (answered : core.getBalance now employeeId locationId = .ok (after, row)) :
    after.balanceOf (key employeeId locationId) = core.balanceOf (key employeeId locationId) := by
  rcases getBalance_ok answered with ⟨_, rfl⟩ | ⟨absent, created⟩
  · rfl
  · cases created
    apply (balanceOf_seed core now employeeId locationId 0).trans
    simp [balanceOf, absent]

/-- What a step does to the balance of a row: seed it, or add to it. -/
theorem balanceOf_left (made : HcmCore × HcmCall) (k : String) :
    (left made).balanceOf k =
      match seeds k made with
      | some balance => balance
      | none => made.1.balanceOf k + adds k made := by
  obtain ⟨core, call⟩ := made
  by_cases own : call.rowKey = some k
  · cases call with
    | seed employeeId locationId balance now =>
      cases own
      simp only [seeds, HcmCall.rowKey, HcmCall.pair, Option.map_some, if_true]
      exact balanceOf_seed core now employeeId locationId balance
    | adjust employeeId locationId delta now =>
      cases own
      cases adjusted : core.adjust now employeeId locationId delta with
      | error error => simp [seeds, adds, reply, left, HcmCore.call, answered, adjusted]
      | ok pair =>
        simpa [seeds, adds, HcmCall.rowKey, HcmCall.pair, reply, left, HcmCore.call, answered,
          adjusted] using balanceOf_adjust adjusted
    | getBalance employeeId locationId now =>
      cases own
      cases read : core.getBalance now employeeId locationId with
      | error error => simp [seeds, adds, left, HcmCore.call, answered, read]
      | ok pair =>
        simpa [seeds, adds, left, HcmCore.call, answered, read] using balanceOf_getBalance read
    | applyDelta cmd now =>
      cases own
      exact balanceOf_applyDelta core cmd now
    | configureFaults patch => cases own
    | dumpCorpus => cases own
  · -- A step about another row neither seeds this one nor adds to it.
    have unseeded : seeds k (core, call) = none := by
      cases call with
      | seed => exact if_neg own
      | _ => rfl
    rw [balanceOf_congr (find_left_other own), unseeded]
    simp [adds, own]

/-- After a history the balances are what its steps seeded and added. -/
theorem balanceOf_after (core : HcmCore) (calls : List HcmCall) (k : String) :
    (core.after calls).balanceOf k =
      (core.history calls).foldl (fun balance made => (seeds k made).getD (balance + adds k made))
        (core.balanceOf k) := by
  induction calls generalizing core with
  | nil => rfl
  | cons made rest ih =>
    simp only [after, history, List.foldl_cons] at ih ⊢
    rw [ih]
    congr 1
    -- The first step moves the balance it finds.
    have moved := balanceOf_left (core, made) k
    cases seeded : seeds k (core, made) <;> simpa [seeded, left] using moved

/-- Steps that do not seed a row only add to it. -/
theorem foldl_adds {history : List (HcmCore × HcmCall)}
    (unseeded : ∀ made ∈ history, seeds k made = none) (balance : Int) :
    history.foldl (fun balance made => (seeds k made).getD (balance + adds k made)) balance =
      balance + (history.map (adds k)).sum := by
  induction history generalizing balance with
  | nil => simp
  | cons made rest ih =>
    rw [List.foldl_cons, unseeded made (by simp), Option.getD_none,
      ih fun other member => unseeded other (by simp [member])]
    simp only [List.map_cons, List.sum_cons]
    omega

/-- The balance of every row adds up. -/
theorem addsUp_history (k : String) (calls : List HcmCall) :
    AddsUp k (history {} calls) (after {} calls) := by
  have folded := balanceOf_after {} calls k
  constructor
  · intro unseeded
    rw [folded, foldl_adds unseeded]
    -- A new system of record shows no balance.
    exact zero_add _
  · intro earlier made later balance cut seeded unseeded
    rw [folded, cut, List.foldl_append, List.foldl_cons, seeded, Option.getD_some,
      foldl_adds unseeded]

/-- The system of record is an idempotent account, whatever faults are set on the way. -/
theorem idempotent_account (calls : List HcmCall) :
    (∀ K, IdempotentFor K (history {} calls)) ∧
      ∀ k, AddsUp k (history {} calls) (after {} calls) :=
  ⟨fun K => idempotentFor_history K {} calls, fun k => addsUp_history k calls⟩

end HcmCore

end TimeOff
