import Mathlib.Data.List.Sort
import Mathlib.Data.String.Basic
import TimeOff.Hcm.HcmClient
import TimeOff.Service.BalanceService

/-! The derived balance view of one pair, and the listing of all pairs of an employee. -/

namespace TimeOff

/-- The components of a balance, with what is available of it. -/
structure BalanceView extends BalanceComponents where
  available : Int
  deriving DecidableEq, Repr

/-- Add the available balance to its components. -/
def toView (c : BalanceComponents) : BalanceView :=
  { c with available := computeAvailable c }

/-- A view in a listing, which also says which location it is for. -/
structure LocationView extends BalanceView where
  locationId : String
  deriving DecidableEq, Repr

namespace Store

variable {σ : Type}

/-- The derived view of one pair, whose first load asks the client when there is none. -/
def getView (store : Store) (hcm : IHcmClient σ) (remote : σ) (now : Time)
    (employeeId locationId : String) : (Store × σ) × Except HcmError BalanceView :=
  match store.balances.find (employeeId, locationId) with
  | some _ => ((store, remote), .ok (toView (store.computeComponents employeeId locationId)))
  | none =>
    -- The row that is told is cached as it is, and the components are read after that.
    match hcm.getBalance remote now employeeId locationId with
    | (remote, .error error) => ((store, remote), .error error)
    | (remote, .ok row) =>
      let loaded := store.insertBalance employeeId locationId row
      ((loaded, remote), .ok (toView (loaded.computeComponents employeeId locationId)))

/-- The loop of a listing over the cached rows it has found. -/
def viewEach (hcm : IHcmClient σ) (now : Nat → Time) :
    List Balance → Store → σ → (Store × σ) × Except HcmError (List LocationView)
  | [], store, remote => ((store, remote), .ok [])
  | balance :: rest, store, remote =>
    -- A view that throws ends the listing, with the rows before it loaded.
    match store.getView hcm remote (now rest.length) balance.employeeId balance.locationId with
    | (left, .error error) => (left, .error error)
    | ((store, remote), .ok view) =>
      match viewEach hcm now rest store remote with
      | (left, .error error) => (left, .error error)
      | (left, .ok views) => (left, .ok ({ view with locationId := balance.locationId } :: views))

/-- The cached rows of an employee, in the order of their primary key. -/
def balancesOf (store : Store) (employeeId : String) : List Balance :=
  -- The employee is the first column of the key, so the rows come by their location.
  (store.balances.rows.filter (·.employeeId = employeeId)).insertionSort
    fun left right => left.locationId ≤ right.locationId

/-- The views of every pair of an employee that is cached. -/
def getViewsForEmployee (store : Store) (hcm : IHcmClient σ) (remote : σ) (now : Nat → Time)
    (employeeId : String) : (Store × σ) × Except HcmError (List LocationView) :=
  viewEach hcm now (store.balancesOf employeeId) store remote

end Store

end TimeOff
