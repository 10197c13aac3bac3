import TimeOff.Store.Entities

/-! Derivation of the available balance, and the mutations of the ledger. -/

namespace TimeOff

/-- A balance of the active entries of one phase. -/
def activeTotal (phase : LedgerPhase) (entries : List BalanceLedgerEntry) : Int :=
  ((entries.filter fun entry => entry.state = .active ∧ entry.phase = phase).map (·.amount)).sum

namespace Store

/-- The live balance components of an employee at a location. -/
def computeComponents (store : Store) (employeeId locationId : String) : BalanceComponents :=
  let balance := store.balances.find (employeeId, locationId)
  let rows := store.entriesAt (employeeId, locationId)
  { hcmBalance := (balance.map (·.hcmBalance)).getD 0
    reservedOpen := activeTotal .reserve rows
    committedPending := activeTotal .commit rows }

/-- The derived available balance of an employee at a location. -/
def available (store : Store) (employeeId locationId : String) : Int :=
  computeAvailable (store.computeComponents employeeId locationId)

/-- The write half of the lazy first load: insert the row just read, or leave a stored one. -/
def insertBalance (store : Store) (employeeId locationId : String) (row : HcmBalanceRow) : Store :=
  -- The insert ignores a conflict, so a row that arrived in between is kept.
  { store with
    balances := store.balances.insertOrIgnore
      { employeeId, locationId
        hcmBalance := row.balance
        lastReconciledVersion := row.version
        asOf := some row.asOf } }

/-- The lazy first load in one piece. What the other side answers is given. -/
def ensureBalanceLoaded (store : Store) (employeeId locationId : String)
    (answer : Except HcmError HcmBalanceRow) : Except HcmError Store :=
  match store.balances.find (employeeId, locationId), answer with
  | some _, _ => .ok store
  | none, .error error => .error error
  | none, .ok row => .ok (store.insertBalance employeeId locationId row)

/-- Insert an active hold. The caller has checked availability. -/
def addReservation (store : Store) (uuid requestId employeeId locationId : String)
    (amount : Int) : Store :=
  { store with
    ledger := store.ledger.save
      { id := uuid, requestId := some requestId, employeeId, locationId, amount
        phase := .reserve, state := .active, hcmVersion := none } }

/-- Release the active entries a request has in one phase. -/
def releaseActive (store : Store) (phase : LedgerPhase) (requestId : String) : Store :=
  { store with
    ledger := store.ledger.update
      (fun entry => entry.requestId = some requestId ∧ entry.phase = phase ∧
        entry.state = .active)
      (fun entry => { entry with state := .released }) fun _ => rfl }

/-- Release the active hold of a request. -/
def releaseReservation (store : Store) (requestId : String) : Store :=
  store.releaseActive .reserve requestId

/-- Release the active commit of a request, on a compensating credit. -/
def releaseCommit (store : Store) (requestId : String) : Store :=
  store.releaseActive .commit requestId

/-- Move a request's hold to a commit stamped with the acknowledged version. -/
def commitReservation (store : Store) (uuid requestId employeeId locationId : String)
    (amount : Int) (hcmVersion : Option Int) : Store :=
  let released := store.releaseReservation requestId
  { released with
    ledger := released.ledger.save
      { id := uuid, requestId := some requestId, employeeId, locationId, amount
        phase := .commit, state := .active, hcmVersion } }

end Store

end TimeOff
