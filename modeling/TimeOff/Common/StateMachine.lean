/-! The domain enums, and the transition table that drives a time-off request. -/

namespace TimeOff

/-- Lifecycle states of a time-off request. -/
inductive RequestStatus where
  | draft
  | pendingApproval
  -- Approved locally: the debit is enqueued but not yet acknowledged.
  | approved
  -- The system of record acknowledged the debit.
  | committed
  | rejected
  | cancelled
  -- Cancelled after the commit: the credit reversal is enqueued.
  | cancellationPending
  | failed
  deriving DecidableEq, Repr

/-- The text a status is stored and reported as. -/
def RequestStatus.text : RequestStatus → String
  | .draft => "DRAFT"
  | .pendingApproval => "PENDING_APPROVAL"
  | .approved => "APPROVED"
  | .committed => "COMMITTED"
  | .rejected => "REJECTED"
  | .cancelled => "CANCELLED"
  | .cancellationPending => "CANCELLATION_PENDING"
  | .failed => "FAILED"

/-- Phase of a balance ledger entry. -/
inductive LedgerPhase where
  | reserve
  | commit
  | release
  | hcmAdjustment
  deriving DecidableEq, Repr

/-- State of a ledger entry within its phase. -/
inductive LedgerState where
  | active
  | released
  | reconciled
  deriving DecidableEq, Repr

/-- The two mutations propagated to the system of record. -/
inductive OutboxType where
  | debit
  | credit
  deriving DecidableEq, Repr

/-- Delivery status of an outbox message. -/
inductive OutboxStatus where
  | pending
  | inflight
  | done
  -- A transient failure, to be retried.
  | failed
  | dead
  deriving DecidableEq, Repr

/-- What a reconciliation event reports. -/
inductive ReconciliationEventType where
  | reconciled
  | balanceIncreased
  | balanceDecreased
  | overAllocated
  | driftDetected
  deriving DecidableEq, Repr

/-- Actions that drive a request through its lifecycle. -/
inductive RequestAction where
  | submit
  | approve
  | reject
  | cancel
  | hcmCommitted
  | hcmRejected
  | hcmCreditDone
  deriving DecidableEq, Repr

/-- The text an action is reported as. -/
def RequestAction.text : RequestAction → String
  | .submit => "SUBMIT"
  | .approve => "APPROVE"
  | .reject => "REJECT"
  | .cancel => "CANCEL"
  | .hcmCommitted => "HCM_COMMITTED"
  | .hcmRejected => "HCM_REJECTED"
  | .hcmCreditDone => "HCM_CREDIT_DONE"

/-- Every action, in the order of their declaration. -/
def RequestAction.all : List RequestAction :=
  [.submit, .approve, .reject, .cancel, .hcmCommitted, .hcmRejected, .hcmCreditDone]

/-- The transition table: the next state for each legal pair of state and action. -/
def transitions : RequestStatus → RequestAction → Option RequestStatus
  | .draft, .submit => some .pendingApproval
  | .draft, .cancel => some .cancelled
  | .pendingApproval, .approve => some .approved
  | .pendingApproval, .reject => some .rejected
  | .pendingApproval, .cancel => some .cancelled
  | .approved, .hcmCommitted => some .committed
  | .approved, .hcmRejected => some .failed
  -- A cancel before the acknowledgement is treated as one before the commit.
  | .approved, .cancel => some .cancelled
  | .committed, .cancel => some .cancellationPending
  | .cancellationPending, .hcmCreditDone => some .cancelled
  -- The other pairs are illegal, and the terminal states have no transition at all.
  | _, _ => none

/-- Whether the action is legal from the state. -/
def canTransition (source : RequestStatus) (action : RequestAction) : Bool :=
  (transitions source action).isSome

/-- The next state, or nothing when the transition is illegal. -/
def nextState (source : RequestStatus) (action : RequestAction) : Option RequestStatus :=
  transitions source action

/-- Whether the table lists no action for the state. -/
def isTerminal (state : RequestStatus) : Bool :=
  RequestAction.all.all fun action => (transitions state action).isNone

/-- A terminal state accepts no action. -/
theorem isTerminal_iff (state : RequestStatus) :
    isTerminal state = true ↔ ∀ action, nextState state action = none := by
  rw [isTerminal, List.all_eq_true]
  constructor
  · intro closed action
    have listed : action ∈ RequestAction.all := by cases action <;> decide
    exact Option.isNone_iff_eq_none.mp (closed action listed)
  · intro closed action _
    exact Option.isNone_iff_eq_none.mpr (closed action)

/-- Only a draft can be submitted. -/
@[simp] theorem canTransition_submit (source : RequestStatus) :
    canTransition source .submit = true ↔ source = .draft := by
  cases source <;> decide

/-- Only a submitted request can be approved. -/
@[simp] theorem canTransition_approve (source : RequestStatus) :
    canTransition source .approve = true ↔ source = .pendingApproval := by
  cases source <;> decide

/-- Only a submitted request can be rejected. -/
@[simp] theorem canTransition_reject (source : RequestStatus) :
    canTransition source .reject = true ↔ source = .pendingApproval := by
  cases source <;> decide

/-- A cancel is legal from the four states before the request is over. -/
@[simp] theorem canTransition_cancel (source : RequestStatus) :
    canTransition source .cancel = true ↔
      source = .draft ∨ source = .pendingApproval ∨ source = .approved ∨ source = .committed := by
  cases source <;> decide

end TimeOff
