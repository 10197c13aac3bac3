import TimeOff.Hcm.HcmClient
import TimeOff.Hcm.HttpHcmClient

/-! The HTTP surface of the simulated system of record. -/

namespace TimeOff

/-- A call of the realtime API. -/
inductive HcmRequest where
  | getBalance (employeeId locationId : String)
  | applyDelta (cmd : ApplyDeltaCommand)
  deriving DecidableEq, Repr

/-- What a successful call returns. -/
inductive HcmAnswer where
  | row (row : HcmBalanceRow)
  | ack (ack : ApplyDeltaAck)
  | corpus (balances : List HcmBalanceRow)
  deriving DecidableEq, Repr

/-- A call of the control surface. -/
inductive HcmControl where
  | reset
  | faults (body : HcmFaultPatch)
  | seed (employeeId locationId : String) (balance : Int)
  | adjust (employeeId locationId : String) (delta : Int)
  deriving DecidableEq, Repr

/-- The text of the code a refusal carries. -/
def RejectionCode.text : RejectionCode → String
  | .insufficientBalance => "INSUFFICIENT_BALANCE"
  | .invalidDimensions => "INVALID_DIMENSIONS"

namespace HcmCore

/-- Forget every balance, every acknowledgement and every fault. -/
def reset (_core : HcmCore) : HcmCore :=
  { balances := Table.empty, applied := Table.empty, faults := {}, refSeq := 0 }

/-- Serve a call of the realtime API in the process itself. -/
def serve (core : HcmCore) (now : Time) : HcmRequest → HcmCore × Except HcmError HcmAnswer
  | .getBalance employeeId locationId =>
    let (core, result) := inProcessHcmClient.getBalance core now employeeId locationId
    (core, result.map .row)
  | .applyDelta cmd =>
    let (core, result) := inProcessHcmClient.applyDelta core now cmd
    (core, result.map .ack)

/-- Serve a call of the control surface. -/
def control (core : HcmCore) (now : Time) : HcmControl → HcmCore
  | .reset => core.reset
  | .faults body => core.configureFaults body
  | .seed employeeId locationId balance => (core.seed now employeeId locationId balance).1
  | .adjust employeeId locationId delta =>
    match core.adjust now employeeId locationId delta with
    | .ok (core, _) => core
    -- An unknown row is answered with its refusal.
    | .error _ => core

/-- A call of the realtime API is never answered with the corpus. -/
theorem serve_ne_corpus (core : HcmCore) (now : Time) (call : HcmRequest)
    (rows : List HcmBalanceRow) : (core.serve now call).2 ≠ .ok (.corpus rows) := by
  -- A read is answered with a row, and a delta with an acknowledgement.
  intro answered
  cases call with
  | getBalance employeeId locationId =>
    simp only [serve] at answered
    generalize (inProcessHcmClient.getBalance core now employeeId locationId).2 = read at answered
    cases read <;> cases answered
  | applyDelta cmd =>
    simp only [serve] at answered
    generalize (inProcessHcmClient.applyDelta core now cmd).2 = applied at answered
    cases applied <;> cases answered

end HcmCore

/-- Translate the outcome of a call to HTTP: a refusal is a 422, a transient failure a 503. -/
def MockHcmController.guard {α : Type} : Except HcmError α → HttpReply α
  | .ok value => .ok value
  | .error (.rejection code message) =>
    .failed 422 { code := some code.text, message := some message }
  | .error (.unavailable message) =>
    .failed 503 { code := some "UNAVAILABLE", message := some message }

/-- What a caller behind the HTTP client is told of an outcome that reaches it. -/
def HcmError.overHttp : HcmError → HcmError
  | .rejection code message => .rejection code message
  | .unavailable message => .unavailable ("HCM 503: " ++ message)

/-- Parsing what the server sends gives back its outcome, a transient failure under its status. -/
theorem parse_guard {α : Type} (result : Except HcmError α) :
    (MockHcmController.guard result).parse =
      (result.mapError HcmError.overHttp).mapError ClientError.hcm := by
  -- The two codes are told apart again by their texts.
  cases result with
  | ok value => rfl
  | error error =>
    cases error with
    | rejection code message => cases code <;> rfl
    | unavailable message => rfl

end TimeOff
