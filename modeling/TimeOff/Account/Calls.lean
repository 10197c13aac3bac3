import TimeOff.Library.Runs
import TimeOff.System.Calls

/-! The system of record on its own: its calls, what they answer, and the histories of them. -/

namespace TimeOff

/-- A call to the system of record, with the time at which it is made. -/
inductive HcmCall where
  | seed (employeeId locationId : String) (balance : Int) (now : Time)
  | adjust (employeeId locationId : String) (delta : Int) (now : Time)
  | getBalance (employeeId locationId : String) (now : Time)
  | applyDelta (cmd : ApplyDeltaCommand) (now : Time)
  | configureFaults (patch : HcmFaultPatch)
  | dumpCorpus
  deriving DecidableEq, Repr

/-- What a call returns or throws. -/
inductive HcmReply where
  | row (row : HcmBalanceRow)
  | ack (ack : ApplyDeltaAck)
  | corpus (rows : List HcmBalanceRow)
  | configured
  | thrown (error : HcmError)
  deriving DecidableEq, Repr

namespace HcmCall

/-- The employee and location a call is about, if it is about one pair. -/
def pair : HcmCall → Option (String × String)
  | .seed employeeId locationId _ _ => some (employeeId, locationId)
  | .adjust employeeId locationId _ _ => some (employeeId, locationId)
  | .getBalance employeeId locationId _ => some (employeeId, locationId)
  | .applyDelta cmd _ => some (cmd.employeeId, cmd.locationId)
  | .configureFaults _ | .dumpCorpus => none

/-- The key of the row a call is about, if it is about one. -/
def rowKey (call : HcmCall) : Option String :=
  call.pair.map fun pair => key pair.1 pair.2

/-- The idempotency key a call carries, if it carries one. -/
def deltaKey : HcmCall → Option String
  | .applyDelta cmd _ => some cmd.idempotencyKey
  | _ => none

end HcmCall

namespace HcmCore

/-- What a call that may throw answers, with the state it leaves. -/
def answered (core : HcmCore) : Except HcmError (HcmCore × HcmBalanceRow) → HcmCore × HcmReply
  | .ok (after, row) => (after, .row row)
  | .error error => (core, .thrown error)

/-- Make a call. -/
def call (core : HcmCore) : HcmCall → HcmCore × HcmReply
  | .seed employeeId locationId balance now =>
    ((core.seed now employeeId locationId balance).1,
      .row (core.seed now employeeId locationId balance).2)
  | .adjust employeeId locationId delta now =>
    core.answered (core.adjust now employeeId locationId delta)
  | .getBalance employeeId locationId now =>
    core.answered (core.getBalance now employeeId locationId)
  | .applyDelta cmd now =>
    ((core.applyDelta now cmd).1,
      match (core.applyDelta now cmd).2 with
      | .ok ack => .ack ack
      | .error error => .thrown error)
  | .configureFaults patch => (core.configureFaults patch, .configured)
  | .dumpCorpus => (core, .corpus core.dumpCorpus)

/-- The state after some calls. -/
def after (core : HcmCore) (calls : List HcmCall) : HcmCore :=
  calls.foldl (fun core made => (core.call made).1) core

/-- The history of some calls: each of them with the state it was made in. -/
def history : HcmCore → List HcmCall → List (HcmCore × HcmCall)
  | _, [] => []
  | core, made :: rest => (core, made) :: history (core.call made).1 rest

/-- One call of a history. -/
def step (core : HcmCore) (made : HcmCall) : Option HcmCore :=
  some (core.call made).1

/-- What a call of a history answered. -/
def reply (made : HcmCore × HcmCall) : HcmReply :=
  (made.1.call made.2).2

/-- The state a call of a history left. -/
def left (made : HcmCore × HcmCall) : HcmCore :=
  (made.1.call made.2).1

/-- A history is a run of its calls. -/
theorem trace_history (core : HcmCore) (calls : List HcmCall) :
    Runs.Trace step core (core.history calls) (core.after calls) := by
  -- The calls that are still to come extend the run of the ones made so far.
  suffices onward : ∀ (taken : List (HcmCore × HcmCall)) (state : HcmCore),
      Runs.Trace step core taken state →
      Runs.Trace step core (taken ++ state.history calls) (state.after calls) by
    simpa using onward [] core .start
  induction calls with
  | nil =>
    intro taken state trace
    simpa [history, after] using trace
  | cons made rest ih =>
    intro taken state trace
    simpa [history, after] using ih _ _ (.step trace (rfl : step state made = some _))

variable {before : HcmCore} {made : HcmCall} {k : String}

/-- A delta that is answered with an acknowledgement has returned it. -/
theorem ack_of_reply {core : HcmCore} {cmd : ApplyDeltaCommand} {now : Time}
    {ack : ApplyDeltaAck} (returned : reply (core, .applyDelta cmd now) = .ack ack) :
    (core.applyDelta now cmd).2 = .ok ack := by
  simp only [reply, call] at returned
  split at returned
  · rename_i other same
    cases returned
    exact same
  · cases returned

/-- Only a delta is answered with an acknowledgement. -/
theorem command_of_ack {made : HcmCore × HcmCall} {ack : ApplyDeltaAck}
    (returned : reply made = .ack ack) :
    ∃ cmd now, made.2 = .applyDelta cmd now ∧ (made.1.applyDelta now cmd).2 = .ok ack := by
  obtain ⟨core, call⟩ := made
  cases call with
  | applyDelta cmd now => exact ⟨cmd, now, rfl, ack_of_reply returned⟩
  | adjust | getBalance =>
    simp only [reply, HcmCore.call, answered] at returned
    split at returned <;> cases returned
  | _ => cases returned

/-- A call about a row touches this row and no other. -/
theorem touches_of_rowKey (before : HcmCore) (named : made.rowKey = some k) :
    Touches before (before.call made).1 k := by
  -- Each kind of call was shown to touch the key it names, and one that throws changes nothing.
  cases made with
  | seed employeeId locationId balance now =>
    cases named
    exact seed_touches before now employeeId locationId balance
  | adjust employeeId locationId delta now =>
    cases named
    cases adjusted : before.adjust now employeeId locationId delta with
    | error error =>
      simp only [call, answered, adjusted]
      exact .of_balances rfl _
    | ok pair =>
      simp only [call, answered, adjusted]
      exact adjust_touches adjusted
  | getBalance employeeId locationId now =>
    cases named
    cases read : before.getBalance now employeeId locationId with
    | error error =>
      simp only [call, answered, read]
      exact .of_balances rfl _
    | ok pair =>
      simp only [call, answered, read]
      exact getBalance_touches read
  | applyDelta cmd now =>
    cases named
    exact applyDelta_touches before now cmd
  | configureFaults patch => cases named
  | dumpCorpus => cases named

/-- A call about no row changes none. -/
theorem balances_of_rowKey (none_ : made.rowKey = none) :
    (before.call made).1.balances = before.balances := by
  cases made with
  | configureFaults patch => rfl
  | dumpCorpus => rfl
  | _ => cases none_

/-- A call without an idempotency key acknowledges nothing. -/
theorem applied_of_deltaKey (none_ : made.deltaKey = none) :
    (before.call made).1.applied = before.applied := by
  -- Provisioning, adjusting and reading write the table of rows only.
  cases made with
  | adjust employeeId locationId delta now =>
    cases adjusted : before.adjust now employeeId locationId delta with
    | error error => simp only [call, answered, adjusted]
    | ok pair =>
      obtain ⟨_, _, _, _, _, same⟩ := adjust_ok adjusted
      simp only [call, answered, adjusted, same]
  | getBalance employeeId locationId now =>
    cases read : before.getBalance now employeeId locationId with
    | error error => simp only [call, answered, read]
    | ok pair =>
      rcases getBalance_ok read with ⟨_, same⟩ | ⟨_, created⟩
      · simp only [call, answered, read, same]
      · simp only [call, answered, read]
        exact congrArg (fun made : HcmCore × HcmBalanceRow => made.1.applied) created
  | applyDelta cmd now => cases none_
  | seed employeeId locationId balance now => rfl
  | configureFaults patch => rfl
  | dumpCorpus => rfl

end HcmCore

end TimeOff
