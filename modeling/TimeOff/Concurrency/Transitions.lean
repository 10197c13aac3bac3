import Mathlib.Data.Fintype.Basic
import TimeOff.Concurrency.Statements
import TimeOff.Concurrency.Threads

/-! Concurrent approvals, rejections and cancellations of a request, which take no mutex. -/

namespace TimeOff

open Programs

/-- A call that moves a request along. -/
inductive Decision where
  | approve (uuid : String) (now : Time)
  | reject
  | cancel (uuid : String) (now : Time)

namespace Decision

variable (id : String)

/-- The action a call takes on its request. -/
def action : Decision → RequestAction
  | .approve _ _ => .approve
  | .reject => .reject
  | .cancel _ _ => .cancel

/-- The statements of the transaction of a call. -/
def body : Decision → Section CallResult
  | .approve uuid now => approveSection id uuid now
  | .reject => rejectSection id
  | .cancel uuid now => cancelSection id uuid now

/-- The statements of a call, which uses no mutex. -/
def call (decision : Decision) : Section (Ending String Statement.Answer CallResult) := do
  let result ← decision.body id
  return .done result

/-- The transaction of a call, in one piece. -/
def serve (decision : Decision) (store : Store) : CallResult × Store :=
  CallResult.settle store (match decision with
    | .approve uuid now => store.approve id uuid now
    | .reject => store.reject id
    | .cancel uuid now => store.cancel id uuid now)

/-- In one piece, the statements of a call are its transaction. -/
theorem run_body (decision : Decision) (store : Store) :
    (decision.body id).run Statement.exec store = decision.serve id store := by
  -- Each section runs as its own service operation.
  cases decision with
  | approve uuid now => exact run_approveSection store id uuid now
  | reject => exact run_rejectSection store id
  | cancel uuid now => exact run_cancelSection store id uuid now

/-- The writes of a call before it saves the request it has checked. -/
def before (decision : Decision) (request : TimeOffRequest) : List Statement :=
  match decision with
  | .approve _ _ => []
  | .reject => [.releaseActive .reserve request.id]
  | .cancel _ _ =>
    if request.status = .committed then []
    else if request.status = .approved then
      [.releaseActive .reserve request.id, .cancelPending request.id]
    else [.releaseActive .reserve request.id]

/-- The save itself. -/
def save (decision : Decision) (request : TimeOffRequest) : Statement :=
  .saveRequest request.id (request.moved decision.action).status none

/-- The writes that follow the save. -/
def after (decision : Decision) (request : TimeOffRequest) : List Statement :=
  let payload : OutboxPayload := ⟨request.employeeId, request.locationId, request.days⟩
  match decision with
  | .approve uuid now =>
    [.enqueue uuid now
      { requestId := request.id, type := .debit, idempotencyKey := debitKey request.id, payload }]
  | .reject => []
  | .cancel uuid now =>
    if request.status = .committed then
      [.enqueue uuid now
        { requestId := request.id, type := .credit, idempotencyKey := creditKey request.id
          payload }]
    else []

/-- What a call that has moved its request returns. -/
def moved (decision : Decision) (request : TimeOffRequest) : CallResult :=
  .request (request.moved decision.action).saved

end Decision

/-- Send some statements, whose answers do not matter, and return. -/
def sends {α : Type} (result : α) : List Statement → Section α
  | [] => .ret result
  | statement :: rest => .call statement fun _ => sends result rest

/-- What some statements leave. -/
def Store.after (store : Store) (statements : List Statement) : Store :=
  statements.foldl (fun store statement => (statement.exec store).2) store

/-- A call checks its request, and then only writes. -/
theorem Decision.body_eq (id : String) (decision : Decision) :
    decision.body id = withRequest id decision.action fun request =>
      sends (decision.moved request) (decision.before request ++
        decision.save request :: decision.after request) := by
  cases decision with
  | approve uuid now => rfl
  | reject => rfl
  | cancel uuid now =>
    refine congrArg (withRequest id .cancel) (funext fun request => ?_)
    -- The status selects the writes, in the call as in their list.
    by_cases committed : request.status = .committed
    · simp only [committed, if_true, before, after]
      rfl
    · by_cases approved : request.status = .approved
      · simp only [approved, reduceCtorEq, if_true, if_false, before, after, onlyIf]
        rfl
      · simp only [committed, approved, if_false, before, after, onlyIf]
        rfl

/-- Returning something else is sending the same statements. -/
theorem sends_bind {α β : Type} (result : α) (wrap : α → β) (statements : List Statement) :
    (sends result statements).bind (fun result => .ret (wrap result)) =
      sends (wrap result) statements := by
  -- Along the list of statements, each of which is sent before the result is wrapped.
  induction statements with
  | nil => rfl
  | cons statement rest ih =>
    simp only [sends, Prog.call_bind, ih]

/-- In one piece, the statements that are sent are run one after the other. -/
theorem run_sends {α : Type} (result : α) (statements : List Statement) (store : Store) :
    (sends result statements).run Statement.exec store = (result, store.after statements) := by
  induction statements generalizing store with
  | nil => rfl
  | cons statement rest ih => exact ih _

namespace Decision

variable (id : String) (decision : Decision)

/-- All the writes of a call that moves its request. -/
def writes (request : TimeOffRequest) : List Statement :=
  decision.before request ++ decision.save request :: decision.after request

/-- What a call goes on to when it has fetched its request. -/
def proceed (found : Option TimeOffRequest) :
    Section (Ending String Statement.Answer CallResult) :=
  match found with
  | none => .ret (.done (.refused .notFound))
  | some request =>
    if canTransition request.status decision.action then
      sends (.done (decision.moved request)) (decision.writes request)
    else .ret (.done (.refused (.illegalTransition request.status decision.action)))

/-- A call fetches its request, and decides. -/
theorem call_eq : decision.call id = .call (.findRequest id) decision.proceed := by
  -- The program asks for the request first, and goes on as the answer says.
  rw [call, body_eq]
  refine congrArg (Prog.call (Statement.findRequest id)) (funext fun found => ?_)
  cases found with
  | none => rfl
  | some request =>
    unfold proceed
    by_cases legal : canTransition request.status decision.action = true
    · simp only [legal, if_true, Prog.ret_bind]
      exact sends_bind _ _ _
    · simp only [legal, Bool.false_eq_true, if_false, Prog.ret_bind]
      rfl

/-- The transaction of a call makes the writes of the list, when its action is legal. -/
theorem serve_eq (store : Store) : decision.serve id store =
    match store.requests.find id with
    | none => (.refused .notFound, store)
    | some request =>
      if canTransition request.status decision.action then
        (decision.moved request, store.after (decision.writes request))
      else (.refused (.illegalTransition request.status decision.action), store) := by
  -- Serving is running the section, which finds the request and asks whether the action is legal.
  rw [← run_body, body_eq, run_withRequest, Store.requestFor]
  cases store.requests.find id with
  | none => rfl
  | some request =>
    by_cases legal : canTransition request.status decision.action = true
    · simp only [legal, if_true]
      exact run_sends _ _ _
    · simp only [legal, Bool.false_eq_true, if_false]

end Decision

/-- Whether a call has checked its request, and not yet saved it. -/
def Thread.unsaved {ι : Type} (thread : Thread String ι Statement.Answer CallResult) : Bool :=
  match thread.head with
  | some (.releaseActive _ _) | some (.cancelPending _) | some (.saveRequest _ _ _) => true
  | _ => false

/-- Whether a call has saved its request, and not yet enqueued its message. -/
def Thread.owing {ι : Type} (thread : Thread String ι Statement.Answer CallResult) : Bool :=
  match thread.head with
  | some (.enqueue _ _ _) => true
  | _ => false

/-- The request a call fetches next. -/
def Thread.fetching {ι : Type} (thread : Thread String ι Statement.Answer CallResult) :
    Option String :=
  match thread.head with
  | some (.findRequest id) => some id
  | _ => none

/-- Whether a call stops the pending messages of a request next. -/
def Thread.stopping {ι : Type} (thread : Thread String ι Statement.Answer CallResult) : Bool :=
  match thread.head with
  | some (.cancelPending _) => true
  | _ => false

namespace Threads

variable {ι : Type}

/--
A call does not act on what another one has left half done.

It does not pass its check while another one has checked the request and not yet saved it, and it
does not stop the pending messages while another one has not yet enqueued its own.
-/
structure Careful (threads : Threads Store String ι Statement.Answer CallResult)
    (decision : Decision) (call : ι) : Prop where
  checks : ∀ id ∈ (threads.thread call).fetching, ∀ request ∈ threads.state.requests.find id,
    canTransition request.status decision.action = true →
      ∀ other, (threads.thread other).unsaved = false
  stops : (threads.thread call).stopping = true → ∀ other, (threads.thread other).owing = false

instance [Fintype ι] (threads : Threads Store String ι Statement.Answer CallResult)
    (decision : Decision) (call : ι) : Decidable (threads.Careful decision call) :=
  decidable_of_iff ((∀ id ∈ (threads.thread call).fetching,
      ∀ request ∈ threads.state.requests.find id,
        canTransition request.status decision.action = true →
          ∀ other, (threads.thread other).unsaved = false) ∧
      ((threads.thread call).stopping = true → ∀ other, (threads.thread other).owing = false))
    ⟨fun both => ⟨both.1, both.2⟩, fun careful => ⟨careful.checks, careful.stops⟩⟩

end Threads

namespace Decision

variable {ι : Type} (id : String) (decisions : ι → Decision) (store : Store)

/-- The store after some calls ran as transactions, one after the other. -/
def inTurn (order : List ι) : Store :=
  order.foldl (fun store call => ((decisions call).serve id store).2) store

/-- The calls succeed and leave what they do one after the other, in a given order. -/
structure Serial (order : List ι)
    (final : Threads Store String ι Statement.Answer CallResult) : Prop where
  nodup : order.Nodup
  all : ∀ call, call ∈ order
  succeeded : ∀ earlier call rest, order = earlier ++ call :: rest →
    (final.thread call).result.map CallResult.succeeded =
      some ((decisions call).serve id (inTurn id decisions store earlier)).1.succeeded
  status : (final.state.requests.find id).map (·.status) =
    ((inTurn id decisions store order).requests.find id).map (·.status)
  ledger : final.state.ledger = (inTurn id decisions store order).ledger
  outbox : final.state.outbox = (inTurn id decisions store order).outbox

/-- No debit that the calls have enqueued is deliverable for a request that is given up. -/
def NoneLeft (final : Store) : Prop :=
  ∀ request ∈ final.requests.find id, request.status = .rejected ∨ request.status = .cancelled →
    ∀ msg ∈ final.outbox.rows, msg.requestId = id → msg.type = .debit →
      msg.status = .pending ∨ msg.status = .failed → msg ∈ store.outbox.rows

end Decision

end TimeOff
