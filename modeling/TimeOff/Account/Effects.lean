import TimeOff.Account.Idempotence
import TimeOff.Account.Isolation
import TimeOff.Library.Grouping

/-! What one idempotency key does to the balances over a history: its delta once, or nothing. -/

namespace TimeOff

namespace HcmCore

variable {core : HcmCore} {K k row : String} {ack : ApplyDeltaAck} {calls : List HcmCall}

/-- What a call does to the balance of a row. -/
def changed (k : String) (made : HcmCore × HcmCall) : Int :=
  (left made).balanceOf k - made.1.balanceOf k

/-- What the calls with an idempotency key did to a row, as far as they changed it. -/
def changesBy (K k : String) (history : List (HcmCore × HcmCall)) : List Int :=
  history.filterMap fun made =>
    if made.2.deltaKey = some K ∧ changed k made ≠ 0 then some (changed k made) else none

/-- What provisioning and adjustments have changed in a row. -/
def ownChanges (k : String) (history : List (HcmCore × HcmCall)) : Int :=
  ((history.filter fun made => made.2.deltaKey = none).map (changed k)).sum

/-- Whether a key was acknowledged with an effect. -/
def applies (core : HcmCore) (K : String) : Bool :=
  (core.applied.find K).any (·.ack.applied)

/-- A longer history ends with its last call. -/
theorem history_concat (core : HcmCore) (calls : List HcmCall) (call : HcmCall) :
    core.history (calls ++ [call]) = core.history calls ++ [(core.after calls, call)] := by
  -- The state each call is made in comes from the calls before it only.
  induction calls generalizing core with
  | nil => rfl
  | cons made rest ih =>
    simp only [List.cons_append, history, ih]
    rfl

/-- A call of a history is one of those it was made of. -/
theorem mem_of_history {made : HcmCore × HcmCall} (member : made ∈ core.history calls) :
    made.2 ∈ calls := by
  induction calls generalizing core with
  | nil => cases member
  | cons call rest ih =>
    -- The first call is made in the start, and the others in what it leaves.
    rcases List.mem_cons.mp member with rfl | later
    · exact List.mem_cons_self
    · exact List.mem_cons_of_mem _ (ih later)

/-- A call that leaves a row alone is no change of it. -/
theorem changesBy_still {made : HcmCore × HcmCall} {rest : List (HcmCore × HcmCall)}
    (still : made.2.deltaKey = some K → (left made).balanceOf k = made.1.balanceOf k) :
    changesBy K k (made :: rest) = changesBy K k rest := by
  -- Without a difference the filter drops the call.
  rw [changesBy, List.filterMap_cons_none]
  · rfl
  · exact if_neg fun moved => moved.2 (Int.sub_eq_zero.mpr (still moved.1))

/-- A call that moves a row is a change of it. -/
theorem changesBy_moved {made : HcmCore × HcmCall} {rest : List (HcmCore × HcmCall)}
    (carries : made.2.deltaKey = some K) (moved : changed k made ≠ 0) :
    changesBy K k (made :: rest) = changed k made :: changesBy K k rest := by
  -- With a difference it keeps it, first of all.
  rw [changesBy, List.filterMap_cons_some (b := changed k made)]
  · rfl
  · exact if_pos ⟨carries, moved⟩

/-- An acknowledged key stays acknowledged. -/
theorem Acknowledged.after (acknowledged : core.Acknowledged K ack) :
    (core.after calls).Acknowledged K ack := by
  induction calls generalizing core with
  | nil => exact acknowledged
  | cons call rest ih => exact ih (acknowledged.step call)

/-- Whether a key has an effect is what its acknowledgement said. -/
theorem Acknowledged.applies (acknowledged : core.Acknowledged K ack) :
    core.applies K = ack.applied := by
  -- An acknowledgement is repeated as it was given, but for the mark of the repetition.
  obtain ⟨entry, found, same⟩ := acknowledged
  rw [HcmCore.applies, found, Option.any_some]
  exact (ApplyDeltaAck.mk.inj same).2.2.2.1

/-- Once a key is acknowledged, no call changes anything under it. -/
theorem changesBy_acknowledged (acknowledged : core.Acknowledged K ack) :
    changesBy K k (core.history calls) = [] := by
  induction calls generalizing core with
  | nil => rfl
  | cons call rest ih =>
    -- A call with the key only repeats, and the key stays acknowledged after any other.
    rw [history, changesBy_still]
    · exact ih (acknowledged.step call)
    · intro carries
      obtain ⟨_, cmd, now, made, rfl⟩ := exists_command (show Carries K (core, call) from carries)
      cases made
      simp only [left, HcmCore.call, acknowledged.applyDelta now]

/-- A call about another row leaves the balance of this one. -/
theorem balanceOf_left_other {made : HcmCore × HcmCall} (other : made.2.rowKey ≠ some k) :
    (left made).balanceOf k = made.1.balanceOf k :=
  balanceOf_congr (find_left_other other)

/-- What the first call with a key can do: throw and change nothing, or acknowledge its effect. -/
theorem first_applyDelta {cmd : ApplyDeltaCommand}
    (unused : core.applied.find cmd.idempotencyKey = none) (now : Time) :
    ((core.applyDelta now cmd).1.applied.find cmd.idempotencyKey = none ∧
        (core.applyDelta now cmd).1.balanceOf (TimeOff.key cmd.employeeId cmd.locationId) =
          core.balanceOf (TimeOff.key cmd.employeeId cmd.locationId)) ∨
      ∃ ack, (core.applyDelta now cmd).1.Acknowledged cmd.idempotencyKey ack ∧
        (core.applyDelta now cmd).1.balanceOf (TimeOff.key cmd.employeeId cmd.locationId) =
          core.balanceOf (TimeOff.key cmd.employeeId cmd.locationId) +
            if ack.applied then cmd.signed else 0 := by
  -- An unused key is not repeated, so the answer is an error or a first acknowledgement.
  have answer := core.applyDelta_answer now cmd
  cases returned : (core.applyDelta now cmd).2 with
  | error error =>
    rw [returned] at answer
    cases answer with
    | thrown _ _ same balance => exact Or.inl ⟨by rw [same, unused], balance⟩
  | ok ack =>
    refine Or.inr ⟨ack, acknowledged_of_applyDelta returned, ?_⟩
    rw [returned] at answer
    generalize (core.applyDelta now cmd).1 = after at answer ⊢
    cases answer with
    | repeated _ found => cases unused.symm.trans found
    | given _ _ _ _ _ balance => exact balance

/--
Over a whole history an idempotency key that was unused before changes one row, once, by its delta,
or nothing at all: that is what its acknowledgement says.
-/
theorem changesBy_history {signed : Int} (unused : core.applied.find K = none)
    (agree : ∀ cmd now, HcmCall.applyDelta cmd now ∈ calls → cmd.idempotencyKey = K →
      TimeOff.key cmd.employeeId cmd.locationId = row ∧ cmd.signed = signed ∧ signed ≠ 0)
    (k : String) :
    changesBy K k (core.history calls) =
      if k = row ∧ (core.after calls).applies K = true then [signed] else [] := by
  -- Up to its first acknowledgement the key is unused, and from then on nothing changes.
  induction calls generalizing core with
  | nil =>
    have nothing : core.applies K = false := by rw [applies, unused, Option.any_none]
    simp [history, changesBy, HcmCore.after, nothing]
  | cons call rest ih =>
    have later : ∀ cmd now, HcmCall.applyDelta cmd now ∈ rest → cmd.idempotencyKey = K →
        TimeOff.key cmd.employeeId cmd.locationId = row ∧ cmd.signed = signed ∧ signed ≠ 0 :=
      fun cmd now member => agree cmd now (List.mem_cons_of_mem _ member)
    have onward : core.after (call :: rest) = (core.call call).1.after rest := rfl
    rw [history, onward]
    by_cases carries : call.deltaKey = some K
    · obtain ⟨_, cmd, now, made, rfl⟩ := exists_command (show Carries K (core, call) from carries)
      cases made
      -- All calls with the key agree on the row and on the days.
      obtain ⟨rfl, rfl, effective⟩ := agree cmd now List.mem_cons_self rfl
      have other (different : k ≠ TimeOff.key cmd.employeeId cmd.locationId) :
          (left (core, .applyDelta cmd now)).balanceOf k = core.balanceOf k :=
        balanceOf_left_other fun same => different (Option.some.inj same).symm
      -- The first of them throws and leaves the key unused, or settles it for good.
      rcases first_applyDelta unused now with ⟨still, balance⟩ | ⟨ack, acknowledged, balance⟩
      · rw [changesBy_still fun _ => ?_]
        · exact ih still later
        · by_cases own : k = TimeOff.key cmd.employeeId cmd.locationId
          · exact own ▸ balance
          · exact other own
      · have known : (core.call (.applyDelta cmd now)).1.Acknowledged cmd.idempotencyKey ack :=
          acknowledged
        rw [known.after.applies]
        by_cases own : k = TimeOff.key cmd.employeeId cmd.locationId ∧ ack.applied = true
        · obtain ⟨rfl, applied⟩ := own
          rw [applied, if_pos rfl] at balance
          have delta : changed (TimeOff.key cmd.employeeId cmd.locationId)
              (core, .applyDelta cmd now) = cmd.signed := Int.sub_eq_iff_eq_add'.mpr balance
          -- The row moves by the delta here, and is left alone from now on.
          rw [if_pos ⟨rfl, applied⟩, changesBy_moved carries (delta ▸ effective), delta,
            changesBy_acknowledged known]
        · -- Another row, or a ghost success: no balance moves.
          rw [if_neg own, changesBy_still fun _ => ?_, changesBy_acknowledged known]
          by_cases same : k = TimeOff.key cmd.employeeId cmd.locationId
          · subst same
            have ineffective : ¬ack.applied = true := fun applied => own ⟨rfl, applied⟩
            rw [if_neg ineffective, Int.add_zero] at balance
            exact balance
          · exact other same
    · -- A call with another key leaves this one unused.
      rw [changesBy_still fun carried => absurd carried carries]
      exact ih (by rw [find_applied_other carries, unused]) later

/-- A balance is what it was before and what every call has changed since. -/
theorem balanceOf_after_eq (core : HcmCore) (calls : List HcmCall) (k : String) :
    (core.after calls).balanceOf k =
      core.balanceOf k + ((core.history calls).map (changed k)).sum := by
  -- The differences of the single calls telescope.
  induction calls generalizing core with
  | nil => exact (Int.add_zero _).symm
  | cons call rest ih =>
    have onward : core.after (call :: rest) = (core.call call).1.after rest := rfl
    have first : changed k (core, call) = (core.call call).1.balanceOf k - core.balanceOf k := rfl
    rw [onward, ih, history, List.map_cons, List.sum_cons, first]
    omega

/-- The changes by a key add up to what the calls with it have changed. -/
theorem sum_changesBy (K k : String) (history : List (HcmCore × HcmCall)) :
    (changesBy K k history).sum =
      Grouping.groupSum history (fun made => made.2.deltaKey) (changed k) (some K) := by
  -- What does not move the row adds nothing to its group.
  rw [Grouping.groupSum]
  induction history with
  | nil => rfl
  | cons made rest ih =>
    by_cases carries : made.2.deltaKey = some K
    · rw [List.filter_cons_of_pos (by simpa using carries), List.map_cons, List.sum_cons, ← ih]
      by_cases moved : changed k made = 0
      · rw [changesBy_still fun _ => Int.sub_eq_zero.mp moved, moved, Int.zero_add]
      · rw [changesBy_moved carries moved, List.sum_cons]
    · rw [List.filter_cons_of_neg (by simpa using carries), ← ih,
        changesBy_still fun carried => absurd carried carries]

/-- A balance is what it was, what was changed without a delta, and what each key has changed. -/
theorem balanceOf_by_keys (core : HcmCore) (calls : List HcmCall) (k : String) {keys : List String}
    (distinct : keys.Nodup) (covered : ∀ call ∈ calls, ∀ K, call.deltaKey = some K → K ∈ keys) :
    (core.after calls).balanceOf k = core.balanceOf k + ownChanges k (core.history calls) +
      (keys.map fun K => (changesBy K k (core.history calls)).sum).sum := by
  -- The calls fall into groups by their key, one of which has no key.
  have groups : ∀ made ∈ core.history calls,
      made.2.deltaKey ∈ (none :: keys.map some).toFinset := by
    intro made member
    rw [List.mem_toFinset]
    cases named : made.2.deltaKey with
    | none => exact List.mem_cons_self
    | some K =>
      exact List.mem_cons_of_mem _
        (List.mem_map_of_mem (covered made.2 (mem_of_history member) K named))
  have apart : (none :: keys.map some).Nodup :=
    List.nodup_cons.mpr ⟨by simp, distinct.map (Option.some_injective _)⟩
  -- The whole sum is the sum over the groups, each of which is added up by its key.
  rw [balanceOf_after_eq, Grouping.sum_eq_sum_groups _ _ _ _ groups, List.sum_toFinset _ apart,
    List.map_cons, List.sum_cons, List.map_map, Int.add_assoc]
  congr 2
  refine congrArg List.sum (List.map_congr_left fun K _ => ?_)
  exact (sum_changesBy K k _).symm

end HcmCore

end TimeOff
