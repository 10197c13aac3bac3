import TimeOff.Hcm.HcmCore

/-! The interface to the system of record, and the client that needs no network. -/

namespace TimeOff

/--
A client of the realtime API, with whatever it keeps between two calls.

It throws a rejection for an authoritative refusal, and reports a transient failure as unavailable.
-/
structure IHcmClient (σ : Type) where
  getBalance : σ → Time → String → String → σ × Except HcmError HcmBalanceRow
  applyDelta : σ → Time → ApplyDeltaCommand → σ × Except HcmError ApplyDeltaAck

/-- The client that calls the simulated system of record in its own process. -/
def inProcessHcmClient : IHcmClient HcmCore where
  getBalance core now employeeId locationId :=
    match core.getBalance now employeeId locationId with
    -- A read that throws has written nothing.
    | .error error => (core, .error error)
    | .ok (core, row) => (core, .ok row)
  applyDelta := HcmCore.applyDelta

end TimeOff
