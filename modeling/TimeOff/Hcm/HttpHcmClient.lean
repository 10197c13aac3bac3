import TimeOff.Common.CircuitBreaker

/-! The HTTP client: how a reply is read, and the circuit breaker that guards every call. -/

namespace TimeOff

/-- What the body of an unsuccessful response holds, nothing when it is no JSON. -/
structure ErrorBody where
  code : Option String := none
  message : Option String := none
  deriving DecidableEq, Repr

/-- What becomes of a request that was sent. -/
inductive HttpReply (α : Type) where
  -- No response arrives, or not before the timeout.
  | unreachable (error : String)
  | ok (value : α)
  -- A successful response whose body is no JSON.
  | unreadable (error : String)
  | failed (status : Nat) (body : ErrorBody)
  deriving DecidableEq, Repr

/-- What a guarded call throws before it is classified. -/
inductive ClientError where
  | hcm (error : HcmError)
  | other (text : String)
  deriving DecidableEq, Repr

/-- The error an unsuccessful response stands for. -/
def parseFailure (status : Nat) (body : ErrorBody) : HcmError :=
  if 500 ≤ status ∨ status = 429 then
    -- A throttled or failing server may answer later, so the call can be retried.
    .unavailable ("HCM " ++ toString status ++ ": " ++ body.message.getD "server error")
  else
    -- Any other code, and a missing one, is read as an insufficient balance.
    let code := if body.code = some "INVALID_DIMENSIONS" then .invalidDimensions
      else .insufficientBalance
    .rejection code (body.message.getD ("HCM rejected with " ++ toString status))

/-- Fetch and parse a reply. -/
def HttpReply.parse {α : Type} : HttpReply α → Except ClientError α
  | .unreachable error => .error (.hcm (.unavailable ("HCM transport error: " ++ error)))
  | .ok value => .ok value
  | .unreadable error => .error (.other error)
  | .failed status body => .error (.hcm (parseFailure status body))

/-- What is left of a response whose body is lost behind its status. -/
def HttpReply.cutShort {α : Type} (error : String) : HttpReply α → HttpReply α
  | .ok _ => .unreadable error
  | .failed status _ => .failed status {}
  | reply => reply

/-- The body of a response, as far as it is read. -/
inductive ResponseBody where
  -- No body, or one that is no JSON.
  | unreadable (error : String)
  -- The JSON value null.
  | null
  -- Any other JSON value, as an acknowledgement and as an error.
  | json (ack : ApplyDeltaAck) (error : ErrorBody)
  deriving DecidableEq, Repr

/-- What the transport makes of a delivery. -/
inductive HttpResponse where
  | transportError (error : String)
  | received (status : Nat) (body : ResponseBody)
  deriving DecidableEq, Repr

namespace HttpResponse

/-- Whether a status stands for a success. -/
def okStatus (status : Nat) : Bool :=
  200 ≤ status && status ≤ 299

/-- The field of an unsuccessful body that is read first. -/
def firstField (status : Nat) : String :=
  if 500 ≤ status ∨ status = 429 then "message" else "code"

/-- The reply a response to a delivery is parsed as, with nothing for an acknowledgement of null. -/
def reply : HttpResponse → HttpReply (Option ApplyDeltaAck)
  | .transportError error => .unreachable error
  | .received status body =>
    if okStatus status then
      match body with
      | .unreadable error => .unreadable error
      | .null => .ok none
      | .json ack _ => .ok (some ack)
    else
      match body with
      -- A body that is no JSON is read as an empty object.
      | .unreadable _ => .failed status {}
      -- Reading a field of null throws before the status is classified.
      | .null => .unreadable
        ("TypeError: Cannot read properties of null (reading '" ++ firstField status ++ "')")
      | .json _ error => .failed status error

end HttpResponse

/-- The client, as far as its calls depend on it. -/
structure HttpHcmClient where
  breaker : CircuitBreaker
  deriving DecidableEq, Repr

namespace HttpHcmClient

/-- A new client, with the default of every option that is not given. -/
def create (failureThreshold cooldownMs : Option Int) : HttpHcmClient :=
  { breaker := { opts :=
      { failureThreshold := failureThreshold.getD 5, cooldownMs := cooldownMs.getD 10000 } } }

/-- What a call throws while the circuit is open. -/
def circuitOpen : HcmError :=
  .unavailable "HCM circuit is open"

/-- What a refusal is read as when only its status has arrived. -/
def bareRefusal (status : Nat) : HcmError :=
  .rejection .insufficientBalance ("HCM rejected with " ++ toString status)

/-- Whether the guard lets a call through, with the client as the guard leaves it. -/
def enter (client : HttpHcmClient) (now : Time) : HttpHcmClient × Bool :=
  ({ breaker := client.breaker.getState now }, client.breaker.canAttempt now)

/-- What a call that was let through returns or throws, with its outcome recorded. -/
def guarded {α : Type} (client : HttpHcmClient) (now : Time) (reply : HttpReply α) :
    HttpHcmClient × Except HcmError α :=
  match reply.parse with
  | .ok value => ({ breaker := client.breaker.recordSuccess }, .ok value)
  -- An authoritative refusal is no failure of the other side.
  | .error (.hcm (.rejection code message)) => (client, .error (.rejection code message))
  | .error (.hcm (.unavailable message)) =>
    ({ breaker := client.breaker.recordFailure now }, .error (.unavailable message))
  -- Whatever else is thrown is wrapped as a transient failure.
  | .error (.other text) =>
    ({ breaker := client.breaker.recordFailure now }, .error (.unavailable text))

/-- What a delivery ends with that the guard has let through and that is responded to. -/
def answer (client : HttpHcmClient) (now : Time) (response : HttpResponse) :
    Except HcmError ApplyDeltaAck :=
  match (client.guarded now response.reply).2 with
  | .ok (some ack) => .ok ack
  -- Reading the reference of null throws in the processor, which retries as for any other error.
  | .ok none => .error (.unavailable "Cannot read properties of null (reading 'hcmRef')")
  | .error error => .error error

end HttpHcmClient

end TimeOff
