import TimeOff.Account.Calls

/-! Whether a call about one employee can be noticed by the calls about another. -/

namespace TimeOff

/-- An acknowledgement without its reference, whose numbering all rows share. -/
def ApplyDeltaAck.shown (ack : ApplyDeltaAck) : ApplyDeltaAck :=
  { ack with hcmRef := "" }

/-- A reply without the reference of an acknowledgement. -/
def HcmReply.shown : HcmReply → HcmReply
  | .ack given => .ack given.shown
  | other => other

namespace HcmCore

/-- The state with as many failures left to inject as another one has. -/
def sharing (core other : HcmCore) : HcmCore :=
  { core with faults :=
    { core.faults with failuresToInject := other.faults.failuresToInject } }

/-- The calls about a row carry idempotency keys that no later call carries. -/
def FreshFor (k : String) (calls : List HcmCall) : Prop :=
  calls.Pairwise fun earlier later =>
    ∀ K, earlier.rowKey = some k → earlier.deltaKey = some K → later.deltaKey ≠ some K

/--
No call about the first pair is noticed by a later call about the second one.

After the call, the run that made it and the run that did not go on with equally many failures
left to inject.
-/
def Isolated (first second : String × String) : Prop :=
  ∀ (earlier : List HcmCall) (call : HcmCall) (between : List HcmCall) (last : HcmCall),
    call.pair = some first → last.pair = some second →
    FreshFor (key first.1 first.2) (call :: between ++ [last]) →
    let core := after {} earlier
    (reply (((core.call call).1.sharing core).after between, last)).shown =
      (reply (core.after between, last)).shown

/-- A pair of identifiers that a request may name: both are at most 128 characters long. -/
def AdmittedPair (pair : String × String) : Prop :=
  pair.1.length ≤ 128 ∧ pair.2.length ≤ 128

/-- Two states agree on all rows but one, and on the idempotency keys of the calls to come. -/
structure Agree (k : String) (later : List HcmCall) (left right : HcmCore) : Prop where
  rows : ∀ other, other ≠ k → left.balances.find other = right.balances.find other
  applied : ∀ call ∈ later, ∀ K, call.deltaKey = some K →
    (left.applied.find K).map (·.ack.shown) = (right.applied.find K).map (·.ack.shown)
  faults : left.faults = right.faults

variable {k : String} {later : List HcmCall} {left right core : HcmCore} {now : Time}
  {cmd : ApplyDeltaCommand} {made : HcmCall}

/-- Agreement on the calls to come is agreement on those after the next one. -/
theorem Agree.tail (agree : Agree k (made :: later) left right) : Agree k later left right where
  rows := agree.rows
  applied call member := agree.applied call (.tail _ member)
  faults := agree.faults

/-- Saving one row on both sides keeps them in agreement. -/
theorem Agree.saveRow (agree : Agree k later left right) (row : HcmBalanceRow) :
    Agree k later { left with balances := left.balances.save row }
      { right with balances := right.balances.save row } where
  rows other different := by
    simp only [Table.find_save, agree.rows other different]
  applied := agree.applied
  faults := agree.faults

/-- Remembering acknowledgements that show the same keeps two states in agreement. -/
theorem Agree.saveAck (agree : Agree k later left right) (K : String)
    {ack other : ApplyDeltaAck} (same : ack.shown = other.shown) :
    Agree k later
      { left with
        applied := left.applied.save { idempotencyKey := K, ack }, refSeq := left.refSeq + 1 }
      { right with
        applied := right.applied.save { idempotencyKey := K, ack := other }
        refSeq := right.refSeq + 1 } where
  rows := agree.rows
  applied call member L carried := by
    simp only [Table.find_save]
    split
    · simp [same]
    · exact agree.applied call member L carried
  faults := agree.faults

/-- A command settled against one row has the same outcome on both sides. -/
theorem Agree.settle (agree : Agree k later left right) (row : HcmBalanceRow) :
    Agree k later (left.settle now cmd row).1 (right.settle now cmd row).1 ∧
      (left.settle now cmd row).2.map ApplyDeltaAck.shown =
        (right.settle now cmd row).2.map ApplyDeltaAck.shown := by
  obtain ⟨leftBalances, leftApplied, leftFaults, leftSeq⟩ := left
  obtain ⟨rightBalances, rightApplied, rightFaults, rightSeq⟩ := right
  obtain rfl : leftFaults = rightFaults := agree.faults
  -- The faults agree, so both sides take the same branch, and only the references differ.
  simp only [HcmCore.settle]
  split
  · exact ⟨agree.saveAck _ rfl, rfl⟩
  · split
    · exact ⟨agree, rfl⟩
    · exact ⟨(agree.saveRow _).saveAck _ rfl, rfl⟩

/-- A delta about another row has the same outcome on both sides. -/
theorem Agree.applyDelta (agree : Agree k later left right) (now : Time) (cmd : ApplyDeltaCommand)
    (other : key cmd.employeeId cmd.locationId ≠ k)
    (known : (left.applied.find cmd.idempotencyKey).map (·.ack.shown) =
      (right.applied.find cmd.idempotencyKey).map (·.ack.shown)) :
    Agree k later (left.applyDelta now cmd).1 (right.applyDelta now cmd).1 ∧
      (left.applyDelta now cmd).2.map ApplyDeltaAck.shown =
        (right.applyDelta now cmd).2.map ApplyDeltaAck.shown := by
  have stored := agree.rows _ other
  simp only [HcmCore.applyDelta]
  cases foundLeft : left.applied.find cmd.idempotencyKey with
  | some prior =>
    cases foundRight : right.applied.find cmd.idempotencyKey with
    | none => simp [foundLeft, foundRight] at known
    | some twin =>
      simp only [foundLeft, foundRight, Option.map_some, Option.some.injEq] at known
      refine ⟨agree, congrArg Except.ok ?_⟩
      exact congrArg (fun ack : ApplyDeltaAck => { ack with replayed := true }) known
  | none =>
    cases foundRight : right.applied.find cmd.idempotencyKey with
    | some twin => simp [foundLeft, foundRight] at known
    | none =>
      obtain ⟨leftBalances, leftApplied, leftFaults, leftSeq⟩ := left
      obtain ⟨rightBalances, rightApplied, rightFaults, rightSeq⟩ := right
      obtain rfl : leftFaults = rightFaults := agree.faults
      -- The key is new to both sides, and they find the same row and the same faults.
      simp only at stored ⊢
      split
      · exact ⟨⟨agree.rows, agree.applied, rfl⟩, rfl⟩
      · split
        · exact ⟨agree, rfl⟩
        · rw [stored]
          split
          · exact agree.settle _
          · split
            · simp only [seed, seedRow, stored]
              exact (agree.saveRow _).settle _
            · exact ⟨agree, rfl⟩

/-- A call about another row has the same outcome on both sides. -/
theorem Agree.call (agree : Agree k (made :: later) left right) (other : made.rowKey ≠ some k) :
    Agree k later (left.call made).1 (right.call made).1 ∧
      (made.pair ≠ none → (reply (left, made)).shown = (reply (right, made)).shown) := by
  -- Whatever the call looks up, the row is one on which both sides agree.
  have kept := agree.tail
  have faults := agree.faults
  cases made with
  | seed employeeId locationId balance time =>
    have stored := agree.rows (key employeeId locationId) (by rintro rfl; exact other rfl)
    simp only [HcmCore.call, reply, seed, seedRow, stored]
    exact ⟨kept.saveRow _, fun _ => trivial⟩
  | adjust employeeId locationId delta time =>
    have stored := agree.rows (key employeeId locationId) (by rintro rfl; exact other rfl)
    simp only [HcmCore.call, reply, adjust, stored]
    split
    · exact ⟨kept, fun _ => rfl⟩
    · exact ⟨kept.saveRow _, fun _ => rfl⟩
  | getBalance employeeId locationId time =>
    have stored := agree.rows (key employeeId locationId) (by rintro rfl; exact other rfl)
    simp only [HcmCore.call, reply, getBalance, stored, faults]
    split
    · exact ⟨kept, fun _ => rfl⟩
    · split
      · exact ⟨kept, fun _ => rfl⟩
      · split
        · simp only [answered, seed, seedRow, stored]
          exact ⟨kept.saveRow _, fun _ => trivial⟩
        · exact ⟨kept, fun _ => rfl⟩
  | applyDelta cmd time =>
    obtain ⟨onward, same⟩ := kept.applyDelta time cmd
      (by rintro rfl; exact other rfl) (agree.applied _ (.head _) _ rfl)
    refine ⟨onward, fun _ => ?_⟩
    simp only [reply, HcmCore.call]
    cases atLeft : (left.applyDelta time cmd).2 <;>
      cases atRight : (right.applyDelta time cmd).2 <;>
        simp_all [Except.map, HcmReply.shown]
  | configureFaults patch =>
    exact ⟨⟨kept.rows, kept.applied, by simp only [HcmCore.call, configureFaults, faults]⟩,
      fun _ => rfl⟩
  | dumpCorpus => exact ⟨kept, fun none_ => absurd rfl none_⟩

/-- A delta leaves the acknowledgements under the other keys. -/
theorem find_applied_other {K : String} (other : made.deltaKey ≠ some K) :
    (core.call made).1.applied.find K = core.applied.find K := by
  cases carried : made.deltaKey with
  | none => rw [applied_of_deltaKey carried]
  | some own =>
    cases made with
    | applyDelta cmd time =>
      cases carried
      -- At most the key of the command itself is remembered.
      have answer := core.applyDelta_answer time cmd
      simp only [HcmCore.call]
      cases returned : (core.applyDelta time cmd).2 with
      | error error =>
        rw [returned] at answer
        cases answer with
        | thrown _ _ same _ => rw [same]
      | ok ack =>
        rw [returned] at answer
        generalize (core.applyDelta time cmd).1 = after at answer ⊢
        cases answer with
        | repeated _ _ same _ => rw [same]
        | given _ _ same _ _ _ =>
          rw [same, Table.find_save, if_neg]
          exact fun named => other (congrArg some named)
    | _ => cases carried

/-- A call about a row changes no fault, except that a new delta spends an injected failure. -/
theorem faults_call (about : made.pair ≠ none) :
    (core.call made).1.faults =
      if (made.deltaKey.any fun K => (core.applied.find K).isNone) ∧
          0 < core.faults.failuresToInject then
        { core.faults with failuresToInject := core.faults.failuresToInject - 1 }
      else core.faults := by
  cases made with
  | seed employeeId locationId balance time => simp [HcmCall.deltaKey, HcmCore.call, seed]
  | adjust employeeId locationId delta time =>
    cases adjusted : core.adjust time employeeId locationId delta with
    | error error => simp [HcmCall.deltaKey, HcmCore.call, answered, adjusted]
    | ok pair =>
      simp [HcmCall.deltaKey, HcmCore.call, answered, adjusted, faults_adjust adjusted]
  | getBalance employeeId locationId time =>
    cases read : core.getBalance time employeeId locationId with
    | error error => simp [HcmCall.deltaKey, HcmCore.call, answered, read]
    | ok pair => simp [HcmCall.deltaKey, HcmCore.call, answered, read, faults_getBalance read]
  | applyDelta cmd time =>
    simp only [HcmCore.call, HcmCall.deltaKey, Option.any_some]
    exact failures_applyDelta ..
  | _ => exact absurd rfl about

/-- A call about the row that is left out keeps two states in agreement. -/
theorem Agree.own (agree : Agree k (made :: later) left right) (own : made.rowKey = some k)
    (fresh : ∀ call ∈ later, ∀ K, made.deltaKey = some K → call.deltaKey ≠ some K) :
    Agree k later (left.call made).1 (right.call made).1 := by
  have about : made.pair ≠ none := by
    intro none_
    simp [HcmCall.rowKey, none_] at own
  refine ⟨fun other different => ?_, fun call member K carried => ?_, ?_⟩
  · rw [(touches_of_rowKey _ own).others other different, agree.rows other different,
      (touches_of_rowKey _ own).others other different]
  · have untouched : made.deltaKey ≠ some K := fun same => fresh call member K same carried
    rw [find_applied_other untouched, find_applied_other untouched]
    exact agree.applied call (.tail _ member) K carried
  · -- Both sides know the idempotency key or neither does, so they spend the same failures.
    have known : (made.deltaKey.any fun K => (left.applied.find K).isNone) =
        made.deltaKey.any fun K => (right.applied.find K).isNone := by
      cases carried : made.deltaKey with
      | none => rfl
      | some K =>
        have same := agree.applied made (.head _) K carried
        cases leftFound : left.applied.find K <;> cases rightFound : right.applied.find K <;>
          simp_all
    rw [faults_call about, faults_call about, known, agree.faults]

/-- Two states in agreement stay so over all calls to come, and answer the last one alike. -/
theorem Agree.run {between : List HcmCall} {last : HcmCall}
    (agree : Agree k (between ++ [last]) left right) (fresh : FreshFor k (between ++ [last]))
    (other : last.rowKey ≠ some k) (about : last.pair ≠ none) :
    (reply (left.after between, last)).shown = (reply (right.after between, last)).shown := by
  induction between generalizing left right with
  | nil => exact (agree.call other).2 about
  | cons made rest ih =>
    obtain ⟨first, onward⟩ := List.pairwise_cons.mp fresh
    simp only [after, List.foldl_cons] at ih ⊢
    refine ih ?_ onward
    by_cases own : made.rowKey = some k
    · exact agree.own own fun call member K => first call member K own
    · exact (agree.call own).1

/-- After a call the state agrees with the one before on everything it is not about. -/
theorem agree_call {calls : List HcmCall} (own : made.rowKey = some k)
    (fresh : ∀ call ∈ calls, ∀ K, made.deltaKey = some K → call.deltaKey ≠ some K) :
    Agree k calls ((core.call made).1.sharing core) core := by
  have about : made.pair ≠ none := by
    intro none_
    simp [HcmCall.rowKey, none_] at own
  refine ⟨fun other different => ?_, fun call member K carried => ?_, ?_⟩
  · exact (touches_of_rowKey _ own).others other different
  · have untouched : made.deltaKey ≠ some K := fun same => fresh call member K same carried
    exact congrArg (Option.map (·.ack.shown)) (find_applied_other untouched)
  · -- Without the failures it may have spent, the faults are the ones before.
    simp only [sharing, faults_call about]
    split <;> rfl

/-- Pairs with different keys are isolated. -/
theorem isolated_of_key_ne {first second : String × String}
    (different : key first.1 first.2 ≠ key second.1 second.2) : Isolated first second := by
  intro earlier call between last named about fresh
  have own : call.rowKey = some (key first.1 first.2) := by simp [HcmCall.rowKey, named]
  have other : last.rowKey ≠ some (key first.1 first.2) := by
    simpa [HcmCall.rowKey, about] using different.symm
  obtain ⟨unused, later⟩ := List.pairwise_cons.mp fresh
  exact (agree_call own fun call member K => unused call member K own).run later other
    (by simp [about])

/-- Pairs with one key are not isolated: what is seeded for the first is shown to the second. -/
theorem not_isolated_of_key_eq {first second : String × String}
    (same : key first.1 first.2 = key second.1 second.2) : ¬Isolated first second := by
  intro isolated
  have noticed := isolated [] (.seed first.1 first.2 1 0) [] (.getBalance second.1 second.2 0)
    rfl rfl (by simp [FreshFor, HcmCall.deltaKey])
  -- The first seed is the only row there is, so the read of the second pair finds it.
  have stored := Table.find_save_self (Table.empty : Table HcmBalanceRow.key)
    (seedRow {} 0 first.1 first.2 1)
  rw [seedRow_key, same] at stored
  simp only [seedRow, Table.find_empty, Option.map_none, Option.getD_none, zero_add] at stored
  simp [after, sharing, HcmCore.call, seed, reply, getBalance, stored, answered,
    HcmReply.shown, seedRow] at noticed

/-- Two pairs are isolated exactly if their keys differ. -/
theorem isolated_iff (first second : String × String) :
    Isolated first second ↔ key first.1 first.2 ≠ key second.1 second.2 :=
  ⟨fun isolated same => not_isolated_of_key_eq same isolated, isolated_of_key_ne⟩

/-- Not all pairs that may be requested are isolated: one debit uses up another balance. -/
theorem not_isolated_all :
    ¬∀ first second : String × String, AdmittedPair first → AdmittedPair second →
      first ≠ second → Isolated first second := by
  intro isolated
  have noticed := isolated ("a|b", "c") ("a", "b|c") ⟨by decide, by decide⟩ ⟨by decide, by decide⟩
    (by decide) [.seed "a" "b|c" 10 0]
    (.applyDelta ⟨"a|b", "c", 4, .debit, "first-debit"⟩ 0) [] (.getBalance "a" "b|c" 0)
    rfl rfl (by simp [FreshFor, HcmCall.deltaKey])
  revert noticed
  decide

end HcmCore

end TimeOff
