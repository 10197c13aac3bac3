import TimeOff.Hcm.HcmCore

/-! The circuit breaker: closed, open after too many failures in a row, half-open to probe. -/

namespace TimeOff

/-- State of the circuit. -/
inductive CircuitState where
  | closed
  | opened
  | halfOpen
  deriving DecidableEq, Repr

/-- What a breaker is configured with. -/
structure CircuitBreakerOptions where
  -- Consecutive failures before it opens.
  failureThreshold : Int
  -- How long it stays open before probing.
  cooldownMs : Int
  deriving DecidableEq, Repr

/-- A breaker, whose clock is handed to each of its methods. -/
structure CircuitBreaker where
  opts : CircuitBreakerOptions
  state : CircuitState := .closed
  consecutiveFailures : Int := 0
  openedAt : Time := 0
  deriving DecidableEq, Repr

namespace CircuitBreaker

/-- Reading the state makes an open breaker half-open once its cooldown has elapsed. -/
def getState (breaker : CircuitBreaker) (now : Time) : CircuitBreaker :=
  if breaker.state = .opened ∧ breaker.opts.cooldownMs ≤ now - breaker.openedAt then
    -- The breaker moves lazily: the probe state is entered by looking at it.
    { breaker with state := .halfOpen }
  else breaker

/-- Whether a call is allowed through right now. -/
def canAttempt (breaker : CircuitBreaker) (now : Time) : Bool :=
  (breaker.getState now).state ≠ .opened

/-- A success closes the circuit and forgets the failures. -/
def recordSuccess (breaker : CircuitBreaker) : CircuitBreaker :=
  { breaker with consecutiveFailures := 0, state := .closed }

/-- A failure is counted, and opens the circuit at the threshold. -/
def recordFailure (breaker : CircuitBreaker) (now : Time) : CircuitBreaker :=
  let failures := breaker.consecutiveFailures + 1
  if breaker.opts.failureThreshold ≤ failures then
    -- Every further failure restarts the cooldown, also when the circuit was open.
    { breaker with consecutiveFailures := failures, state := .opened, openedAt := now }
  else { breaker with consecutiveFailures := failures }

/-- Below the threshold a failure is only counted. -/
theorem recordFailure_of_lt (breaker : CircuitBreaker) (now : Time)
    (below : breaker.consecutiveFailures + 1 < breaker.opts.failureThreshold) :
    breaker.recordFailure now =
      { breaker with consecutiveFailures := breaker.consecutiveFailures + 1 } :=
  if_neg (Int.not_le.mpr below)

end CircuitBreaker

end TimeOff
