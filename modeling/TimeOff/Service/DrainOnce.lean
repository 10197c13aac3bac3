import TimeOff.Hcm.HcmClient
import TimeOff.Service.OutboxProcessor

/-! One drain from its claim to its last delivery, as long as nothing comes in between. -/

namespace TimeOff

/-- What one delivery draws: the instants it reads, and the ids it may write under. -/
structure Draw where
  called : Time
  recorded : Time
  entryId : String
  eventId : String
  deriving DecidableEq, Repr

namespace Store

variable {σ : Type}

/-- Deliver one claimed message: call the client, and record what it returned or threw. -/
def deliver (store : Store) (hcm : IHcmClient σ) (remote : σ) (draw : Draw) (msg : OutboxMessage) :
    Store × σ :=
  let (remote, result) := hcm.applyDelta remote draw.called msg.command
  (store.recordAttempt msg (.ofResult result) draw.entryId draw.eventId draw.recorded, remote)

/-- The loop of a drain over the messages it has claimed, with the count it returns. -/
def deliverEach (hcm : IHcmClient σ) (draws : Nat → Draw) :
    List OutboxMessage → Store → σ → Nat × Store × σ
  | [], store, remote => (0, store, remote)
  | msg :: rest, store, remote =>
    let (delivered, remote) := store.deliver hcm remote (draws rest.length) msg
    -- The messages after this one find what its delivery has written.
    let (processed, final) := deliverEach hcm draws rest delivered remote
    (processed + 1, final)

/-- Process the messages that are due once, unless another call is doing so. -/
def drainOnce (store : Store) (hcm : IHcmClient σ) (remote : σ) (draining : Bool) (now : Time)
    (draws : Nat → Draw) : Nat × Store × σ :=
  if draining then (0, store, remote)
  else
    let (due, claimed) := store.claimDue now
    deliverEach hcm draws due claimed remote

end Store

end TimeOff
