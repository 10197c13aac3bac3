import Mathlib.Algebra.BigOperators.Group.Finset.Basic
import Mathlib.Algebra.Order.BigOperators.Group.Finset
import Mathlib.Algebra.Order.Group.Int
import TimeOff.Concurrency.Outcomes

/-! Holds that become commits while submits read the sums: what a commit in flight hides. -/

namespace TimeOff

open Programs

/-- A call that spends the days of a pair, or settles what was spent. -/
inductive Spender where
  | submit (id uuid : String) (answer : Except HcmError HcmBalanceRow)
  | success (msg : OutboxMessage) (hcmRef : String) (hcmVersion : Int)
      (hcmActuallyApplied : Bool) (entryId eventId : String)
  | rejection (msg : OutboxMessage) (reason : String)

namespace Spender

/-- The statements of a call. The outcome of a delivery is recorded without the mutex. -/
def call : Spender → Section (Ending String Statement.Answer CallResult)
  | .submit id uuid answer => submitCall id uuid answer
  | .success msg hcmRef hcmVersion hcmActuallyApplied entryId eventId => do
    let result ← applySuccess msg hcmRef hcmVersion hcmActuallyApplied entryId eventId
    return .done result
  | .rejection msg reason => do
    let result ← applyRejection msg reason
    return .done result

/-- The id that a call draws for the entry it may insert. -/
def drawn : Spender → Option String
  | .submit _ uuid _ => some uuid
  | .success _ _ _ _ entryId _ => some entryId
  | .rejection _ _ => none

/-- The request whose delivery a call records. -/
def settles : Spender → Option String
  | .submit _ _ _ => none
  | .success msg _ _ _ _ _ | .rejection msg _ => some msg.requestId

/-- The request that a call submits. -/
def submitted : Spender → Store → Option TimeOffRequest
  | .submit id _ _, store => store.requests.find id
  | _, _ => none

end Spender

/-- The active hold of a request is there, with the days its debit carries. -/
def Store.HoldsFor (store : Store) (msg : OutboxMessage) (pair : String × String) : Prop :=
  ∃ entry ∈ store.ledger.rows, entry.requestId = some msg.requestId ∧
    entry.phase = .reserve ∧ entry.state = .active ∧ entry.pair = pair ∧
    entry.amount = msg.payload.amount

/-- A call is about a pair: it submits a request of it, or records how a delivery of one ended. -/
def Spender.About (store : Store) (pair : String × String) : Spender → Prop
  | .submit id _ _ => ∃ request, store.requests.find id = some request ∧ request.pair = pair
  -- An approved request has its hold, and its debit carries the days of the hold.
  | .success msg _ _ _ _ _ => msg.type = .debit ∧
    (∃ request, store.requests.find msg.requestId = some request ∧ request.status = .approved ∧
      request.pair = pair) ∧ store.HoldsFor msg pair
  -- Whatever a refusal is about, it takes nothing.
  | .rejection _ _ => True

/-- What the next statement of a program takes off the available balance of a pair. -/
def taking {α : Type} (pair : String × String) (program : Section α) : Int :=
  match program.head with
  | some (.insertEntry entry) => entry.takenFrom pair
  | _ => 0

namespace Threads

variable {ι : Type} [Fintype ι]

/-- What the commits in flight take: their holds are released, and they are not inserted yet. -/
def inFlight (threads : Threads Store String ι Statement.Answer CallResult)
    (pair : String × String) : Int :=
  ∑ call, match threads.thread call with
    | .outside program => taking pair program
    | _ => 0

/-- A call reads the sums of the ledger next, inside the mutex. -/
def summing (threads : Threads Store String ι Statement.Answer CallResult) (call : ι) : Bool :=
  match threads.thread call with
  | .inside _ (.call (.sumActive _ _) _) => true
  | _ => false

/--
A submit that reads the sums is not deceived by a commit in flight.

Where its days fit what is available, they fit what is left of it after the commits in flight.
-/
def Undeceived (threads : Threads Store String ι Statement.Answer CallResult)
    (pair : String × String) (spender : Spender) (call : ι) : Prop :=
  ∀ request ∈ spender.submitted threads.state, threads.summing call = true → 0 < request.days →
    request.days ≤ threads.state.available pair.1 pair.2 →
      request.days ≤ threads.state.available pair.1 pair.2 - threads.inFlight pair

instance (threads : Threads Store String ι Statement.Answer CallResult)
    (pair : String × String) (spender : Spender) (call : ι) :
    Decidable (threads.Undeceived pair spender call) :=
  inferInstanceAs (Decidable (∀ request ∈ spender.submitted threads.state, _))

end Threads

namespace Store

/-- What a call leaves as it was, as far as the other calls of a pair look at it. -/
structure Steady (pair : String × String) (before after : Store) : Prop where
  snapshot : after.balances.find pair = before.balances.find pair
  terms : ∀ id request, before.requests.find id = some request →
    ∃ later, after.requests.find id = some later ∧ later.terms = request.terms

variable {pair : String × String} {before after : Store}

theorem Steady.of_same (balances : after.balances = before.balances)
    (requests : after.requests = before.requests) : Steady pair before after :=
  ⟨by rw [balances], fun _ request found => ⟨request, requests ▸ found, rfl⟩⟩

/-- The available balance of a pair only depends on its snapshot and on the ledger. -/
theorem available_of_ledger (steady : Steady pair before after)
    (ledger : after.ledger = before.ledger) :
    after.available pair.1 pair.2 = before.available pair.1 pair.2 := by
  rw [available_at, available_at, cached, cached, ledger, steady.snapshot]

/-- Writing a status leaves the terms of every request. -/
theorem steady_writeRequest (store : Store) (id : String) (status : RequestStatus)
    (hcmRef : Option String) : Steady pair store (store.writeRequest id status hcmRef) := by
  -- The terms of a request are no part of its status.
  refine ⟨rfl, fun other request found => ?_⟩
  simp only [writeRequest, Table.find_update, found, Option.map_some]
  refine ⟨_, rfl, ?_⟩
  split <;> rfl

/-- What an entry gives back when the holds of a request are released. -/
def givenBack (pair : String × String) (requestId : String) (entry : BalanceLedgerEntry) : Int :=
  if entry.requestId = some requestId ∧ entry.phase = .reserve ∧ entry.state = .active
  then entry.takenFrom pair else 0

/-- What the holds of a request take is given back when they are released. -/
theorem available_releaseActive (store : Store) (requestId : String) :
    (store.releaseActive .reserve requestId).available pair.1 pair.2 =
      store.available pair.1 pair.2 +
        (store.ledger.rows.map (givenBack pair requestId)).sum := by
  have rows : ((store.releaseActive .reserve requestId).ledger.rows.map
        (·.takenFrom pair)).sum + (store.ledger.rows.map (givenBack pair requestId)).sum =
      (store.ledger.rows.map (·.takenFrom pair)).sum := by
    simp only [releaseActive, Table.rows_update, List.map_map, ← List.sum_map_add]
    congr 1
    apply List.map_congr_left
    intro entry _
    -- A released entry takes nothing any more, and any other one gives nothing back.
    by_cases own : entry.requestId = some requestId ∧ entry.phase = .reserve ∧
        entry.state = .active
    · simp [own, givenBack, BalanceLedgerEntry.takenFrom]
    · simp [own, givenBack]
  rw [available_at, available_at]
  show store.cached pair - _ = store.cached pair - _ + _
  omega

/-- No entry gives days away. -/
def Charges (store : Store) : Prop :=
  ∀ entry ∈ store.ledger.rows, 0 ≤ entry.amount

theorem takenFrom_nonneg {entry : BalanceLedgerEntry}
    (charges : 0 ≤ entry.amount) : 0 ≤ entry.takenFrom pair := by
  -- An entry takes its amount or nothing.
  unfold BalanceLedgerEntry.takenFrom
  split
  · exact charges
  · exact le_rfl

/-- Whatever is given back is not negative. -/
theorem givenBack_nonneg {store : Store} (charges : store.Charges) (requestId : String) :
    ∀ amount ∈ store.ledger.rows.map (givenBack pair requestId), 0 ≤ amount := by
  intro amount member
  obtain ⟨entry, stored, rfl⟩ := List.mem_map.mp member
  -- An entry gives back what it took, or nothing.
  unfold givenBack
  split
  · exact takenFrom_nonneg (charges entry stored)
  · exact le_rfl

/-- Releasing holds never takes anything. -/
theorem le_available_releaseActive {store : Store} (charges : store.Charges) (requestId : String) :
    store.available pair.1 pair.2 ≤
      (store.releaseActive .reserve requestId).available pair.1 pair.2 := by
  -- What is given back is a sum of amounts that are not negative.
  have nonneg : 0 ≤ (store.ledger.rows.map (givenBack pair requestId)).sum :=
    List.sum_nonneg (givenBack_nonneg charges requestId)
  rw [available_releaseActive]
  omega

/-- A debit that finds the hold of its request gives its days back with it. -/
theorem HoldsFor.available_releaseActive {store : Store} {msg : OutboxMessage}
    (holds : store.HoldsFor msg pair) (charges : store.Charges) :
    store.available pair.1 pair.2 + msg.payload.amount ≤
      (store.releaseActive .reserve msg.requestId).available pair.1 pair.2 := by
  obtain ⟨hold, stored, own, phase, active, at_, amount⟩ := holds
  have given : givenBack pair msg.requestId hold = msg.payload.amount := by
    simp [givenBack, BalanceLedgerEntry.takenFrom, own, at_, active, phase, amount]
  -- The hold is one of the entries that are released, and none of them is negative.
  have single : givenBack pair msg.requestId hold ≤
      (store.ledger.rows.map (givenBack pair msg.requestId)).sum :=
    List.single_le_sum (givenBack_nonneg charges msg.requestId) _ (List.mem_map_of_mem stored)
  rw [Store.available_releaseActive]
  omega

end Store

/-- A statement that neither writes the ledger nor touches what a call of the pair looks at. -/
def Statement.Idle (pair : String × String) (statement : Statement) : Prop :=
  (∀ entry, statement ≠ .insertEntry entry) ∧
    ∀ store : Store, (store.balances.find pair).isSome = true →
      Store.Steady pair store (statement.exec store).2 ∧
        (statement.exec store).2.ledger = store.ledger

section Idle

variable {pair : String × String}

theorem Statement.Idle.of_same {statement : Statement}
    (other : ∀ entry, statement ≠ .insertEntry entry)
    (same : ∀ store, (statement.exec store).2.balances = store.balances ∧
      (statement.exec store).2.requests = store.requests ∧
      (statement.exec store).2.ledger = store.ledger) : statement.Idle pair :=
  ⟨other, fun store _ => ⟨.of_same (same store).1 (same store).2.1, (same store).2.2⟩⟩

theorem idle_saveRequest (id : String) (status : RequestStatus) (hcmRef : Option String) :
    (Statement.saveRequest id status hcmRef).Idle pair :=
  ⟨by simp, fun store _ => ⟨store.steady_writeRequest id status hcmRef, rfl⟩⟩

theorem idle_findRequest (id : String) : (Statement.findRequest id).Idle pair :=
  .of_same (by simp) fun _ => ⟨rfl, rfl, rfl⟩

theorem idle_findBalance (employeeId locationId : String) :
    (Statement.findBalance employeeId locationId).Idle pair :=
  .of_same (by simp) fun _ => ⟨rfl, rfl, rfl⟩

theorem idle_insertEvent (event : ReconciliationEvent) : (Statement.insertEvent event).Idle pair :=
  .of_same (by simp) fun _ => ⟨rfl, rfl, rfl⟩

theorem idle_markDone (id : String) : (Statement.markDone id).Idle pair :=
  .of_same (by simp) fun _ => ⟨rfl, rfl, rfl⟩

theorem idle_markRejected (id error : String) : (Statement.markRejected id error).Idle pair :=
  .of_same (by simp) fun _ => ⟨rfl, rfl, rfl⟩

/-- A program that is done with the ledger takes nothing. -/
theorem taking_of_idle {α : Type} {program : Section α}
    (only : program.Only (Statement.Idle pair)) : taking pair program = 0 := by
  -- A program takes days only by inserting a ledger row first, and this one may not.
  cases program with
  | ret result => rfl
  | call statement next =>
    unfold taking Prog.head
    split
    · rename_i entry same
      exact absurd (Option.some.inj same) (only.1.1 entry)
    · rfl

theorem only_advance (request : TimeOffRequest) (action : RequestAction)
    (hcmRef : Option String) : (advance request action hcmRef).Only (Statement.Idle pair) := by
  unfold advance
  -- An illegal transition saves nothing.
  cases nextState request.status action with
  | none => trivial
  | some target => exact Prog.only_perform (idle_saveRequest request.id target hcmRef)

end Idle

end TimeOff
