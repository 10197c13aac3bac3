import TimeOff.Account.Idempotence
import TimeOff.Transport.Exchange

/-! However often a delta is sent over HTTP under one idempotency key, it counts once. -/

namespace TimeOff

/-- A call of the realtime API, as one that is made in the process. -/
def HcmRequest.asCall (now : Time) : HcmRequest → HcmCall
  | .getBalance employeeId locationId => .getBalance employeeId locationId now
  | .applyDelta cmd => .applyDelta cmd now

/-- A call of the control surface, as one that is made in the process, unless it resets. -/
def HcmControl.asCall (now : Time) : HcmControl → Option HcmCall
  | .reset => none
  | .faults body => some (.configureFaults body)
  | .seed employeeId locationId balance => some (.seed employeeId locationId balance now)
  | .adjust employeeId locationId delta => some (.adjust employeeId locationId delta now)

/-- What the server has done, as a call that is made in the process. -/
def Happening.asCall : Happening → Option HcmCall
  | .served _ request now => some (request.asCall now)
  | .controlled control now => control.asCall now

namespace HcmCore

/-- The server does what the call does in the process. -/
theorem serve_asCall (core : HcmCore) (now : Time) (request : HcmRequest) :
    (core.serve now request).1 = (core.call (request.asCall now)).1 := by
  cases request with
  | applyDelta cmd => rfl
  | getBalance employeeId locationId =>
    -- A read that throws leaves the state in both.
    simp only [serve, inProcessHcmClient, HcmRequest.asCall, call]
    cases core.getBalance now employeeId locationId with
    | error error => rfl
    | ok answered => rfl

/-- The control surface does what the call does in the process. -/
theorem control_asCall (core : HcmCore) {now : Time} {control : HcmControl} {made : HcmCall}
    (named : control.asCall now = some made) : core.control now control = (core.call made).1 := by
  -- Every control but the reset is one call of the process.
  cases control with
  | reset => cases named
  | faults body =>
    cases named
    rfl
  | seed employeeId locationId balance =>
    cases named
    rfl
  | adjust employeeId locationId delta =>
    cases named
    simp only [HcmCore.control, call]
    cases core.adjust now employeeId locationId delta with
    | error error => rfl
    | ok answered => rfl

/-- What was done without a reset is a history of calls. -/
theorem replay_asCalls {log : List Happening} :
    ∀ (core : HcmCore) (results : List ServedCall),
      (∀ happening ∈ log, happening.asCall ≠ none) →
      (log.foldl happen (core, results)).1 = core.after (log.filterMap Happening.asCall) := by
  induction log with
  | nil => exact fun _ _ _ => rfl
  | cons happening rest ih =>
    intro core results named
    have later := fun other member => named other (List.mem_cons_of_mem _ member)
    obtain ⟨made, first⟩ := Option.ne_none_iff_exists'.mp (named happening List.mem_cons_self)
    rw [List.filterMap_cons, first, List.foldl_cons, ih _ _ later, after, after, List.foldl_cons]
    congr 1
    -- Serving and controlling leave the state that their calls leave.
    cases happening with
    | served index request now =>
      cases first
      exact core.serve_asCall now request
    | controlled control now => exact core.control_asCall first

end HcmCore

namespace Exchange

variable {client : HttpHcmClient} {core : HcmCore} {exchange before after : Exchange}
  {action : ExchangeAction}

/-- The steps that never reset the system of record. -/
def WithoutReset (_ : Exchange) : ExchangeAction → Prop
  | .control .reset _ => False
  | _ => True

instance (exchange : Exchange) :
    (action : ExchangeAction) → Decidable (exchange.WithoutReset action)
  | .control .reset _ => .isFalse id
  | .control (.faults _) _ | .control (.seed _ _ _) _ | .control (.adjust _ _ _) _
  | .call _ _ | .arrive _ _ | .respond _ _ | .fail _ _ _ | .lose _ _ _ => .isTrue trivial

/-- What was acknowledged is remembered, and nothing was reset. -/
structure Remembers (exchange : Exchange) : Prop where
  acknowledged : ∀ made ∈ exchange.calls, ∀ cmd ack, made.call = .applyDelta cmd →
    made.served = some (.ok (.ack ack)) → exchange.core.Acknowledged cmd.idempotencyKey ack
  named : ∀ happening ∈ exchange.log, happening.asCall ≠ none

/-- A call that is rewritten without being served leaves what the server remembers. -/
theorem Remembers.rewritten (remembers : Remembers exchange) {index : Nat} {made : HttpCall}
    (found : exchange.calls[index]? = some made) (client : HttpHcmClient) (changed : HttpCall)
    (call : changed.call = made.call) (unserved : changed.served = made.served) :
    Remembers { exchange with client, calls := exchange.calls.set index changed } where
  acknowledged other member cmd ack named served := by
    -- A caller that is told something does not change what was served.
    rcases List.mem_or_eq_of_mem_set member with old | rfl
    · exact remembers.acknowledged other old cmd ack named served
    · exact remembers.acknowledged made (List.mem_of_getElem? found) cmd ack
        (call.symm.trans named) (unserved.symm.trans served)
  named := remembers.named

/-- A request that arrives is remembered with what it was acknowledged with. -/
theorem Remembers.arrived (remembers : Remembers exchange) {index : Nat} {made : HttpCall}
    (now : Time) :
    Remembers
      { exchange with
        core := (exchange.core.serve now made.call).1
        calls := exchange.calls.set index
          { made with served := some (exchange.core.serve now made.call).2 }
        log := exchange.log ++ [.served index made.call now] } where
  acknowledged other member cmd ack named served := by
    rcases List.mem_or_eq_of_mem_set member with old | rfl
    · -- A call overwrites no acknowledgement.
      have known := remembers.acknowledged other old cmd ack named served
      rw [HcmCore.serve_asCall]
      exact known.step _
    · -- The delta that arrives is acknowledged with what it returns.
      dsimp only at named served
      rw [named] at served ⊢
      simp only [HcmCore.serve, inProcessHcmClient, Option.some.injEq] at served ⊢
      cases returned : (exchange.core.applyDelta now cmd).2 with
      | error error =>
        rw [returned] at served
        cases served
      | ok given =>
        rw [returned] at served
        cases served
        exact HcmCore.acknowledged_of_applyDelta returned
  named happening member := by
    rcases List.mem_append.mp member with old | new
    · exact remembers.named happening old
    · rw [List.mem_singleton.mp new]
      exact Option.some_ne_none _

/-- Without a reset, every step keeps what the server remembers. -/
theorem step_remembers (remembers : Remembers before) (kept : WithoutReset before action)
    (taken : before.step action = some after) : Remembers after := by
  cases step_move taken with
  | calls made now _ unserved =>
    refine ⟨fun other member cmd ack named served => ?_, remembers.named⟩
    -- A new call was not served yet.
    rcases List.mem_append.mp member with old | new
    · exact remembers.acknowledged other old cmd ack named served
    · rw [List.mem_singleton.mp new, unserved] at served
      cases served
  | arrives index made now => exact remembers.arrived now
  | strays index made reply now found => exact remembers.rewritten found _ _ rfl rfl
  | responds index made result now found => exact remembers.rewritten found _ _ rfl rfl
  | bounces index made reply now found => exact remembers.rewritten found _ _ rfl rfl
  | fails index made error now found => exact remembers.rewritten found _ _ rfl rfl
  | loses index made reply error now found => exact remembers.rewritten found _ _ rfl rfl
  | controls control now =>
    -- Without a reset the control is a call, and calls forget nothing.
    have named : control.asCall now ≠ none := by
      cases control with
      | reset => exact absurd kept id
      | faults | seed | adjust => exact Option.some_ne_none _
    obtain ⟨made, called⟩ := Option.ne_none_iff_exists'.mp named
    refine ⟨fun other member cmd ack is_ served => ?_, fun happening member => ?_⟩
    · dsimp only
      rw [before.core.control_asCall called]
      exact (remembers.acknowledged other member cmd ack is_ served).step made
    · rcases List.mem_append.mp member with old | new
      · exact remembers.named happening old
      · rw [List.mem_singleton.mp new]
        exact named

/-- Every exchange that was reached without a reset remembers. -/
theorem Reachable.remembers (reached : Exchange.Reachable WithoutReset client core exchange) :
    Remembers exchange := by
  induction reached with
  | start => exact ⟨fun _ member => (nomatch member), fun _ member => (nomatch member)⟩
  | step _ kept taken ih => exact step_remembers ih kept taken

/--
Over HTTP an idempotency key counts once: however often a delta is sent, delayed or lost, at most
one of the requests that arrive with its key changes a balance, and all callers that are told an
acknowledgement for the key are told the same one.
-/
theorem http_counts_once (reached : Exchange.Reachable WithoutReset client core exchange) :
    core.after (exchange.log.filterMap Happening.asCall) = exchange.core ∧
      (∀ K, (core.history (exchange.log.filterMap Happening.asCall)).Pairwise
        fun earlier later => HcmCore.Carries K earlier → HcmCore.Carries K later →
          HcmCore.Alters earlier → ¬HcmCore.Alters later) ∧
      ∀ first ∈ exchange.calls, ∀ second ∈ exchange.calls, ∀ cmd again ack other,
        first.call = .applyDelta cmd → second.call = .applyDelta again →
        cmd.idempotencyKey = again.idempotencyKey →
        first.answered = some (.ok (.ack ack)) → second.answered = some (.ok (.ack other)) →
        ({ ack with replayed := true } : ApplyDeltaAck) = { other with replayed := true } := by
  obtain ⟨results, linear⟩ := reached.linear
  have remembers := reached.remembers
  refine ⟨?_, fun K => (HcmCore.idempotentFor_history K core _).once, ?_⟩
  · -- The replay of the log is the history of its calls.
    have replayed := congrArg Prod.fst linear.replayed
    rw [HcmCore.replay, HcmCore.replay_asCalls core [] remembers.named] at replayed
    exact replayed
  · intro first made second madeToo cmd again ack other named namedToo same told toldToo
    -- Both were told what the server still remembers for the key.
    obtain ⟨entry, found, known⟩ := remembers.acknowledged first made cmd ack named
      ((linear.faithful first made).done (congrArg HcmRequest.route named) told)
    obtain ⟨entryToo, foundToo, knownToo⟩ := remembers.acknowledged second madeToo again other
      namedToo ((linear.faithful second madeToo).done (congrArg HcmRequest.route namedToo) toldToo)
    rw [same] at found
    cases found.symm.trans foundToo
    exact known.symm.trans knownToo

/-- A debit is sent twice at once, and both requests are answered. -/
def doubledRun : List ExchangeAction :=
  [.control (.seed "e" "l" 10) 0, .call (.applyDelta ⟨"e", "l", 3, .debit, "debit:r"⟩) 0,
    .call (.applyDelta ⟨"e", "l", 3, .debit, "debit:r"⟩) 1, .arrive 1 2, .arrive 0 3,
    .respond 0 4, .respond 1 5]

/-- Both callers of that run are told the same, and the days were taken once. -/
theorem http_counts_once_doubled : ∃ exchange,
    Exchange.Reachable WithoutReset (.create none none) {} exchange ∧
      (exchange.calls.map fun made => made.answered.isSome) = [true, true] ∧
      exchange.core.balanceOf (key "e" "l") = 7 ∧
      ∀ first ∈ exchange.calls, ∀ second ∈ exchange.calls, ∀ cmd again ack other,
        first.call = .applyDelta cmd → second.call = .applyDelta again →
        cmd.idempotencyKey = again.idempotencyKey →
        first.answered = some (.ok (.ack ack)) → second.answered = some (.ok (.ack other)) →
        ({ ack with replayed := true } : ApplyDeltaAck) = { other with replayed := true } := by
  have executed : (Runs.run step (fun exchange action => decide (exchange.WithoutReset action))
      (init (.create none none) {}) doubledRun).map (fun exchange =>
        decide ((exchange.calls.map fun made => made.answered.isSome) = [true, true]) &&
          decide (exchange.core.balanceOf (key "e" "l") = 7)) = some true := by
    decide +kernel
  obtain ⟨exchange, reached, ended⟩ :=
    Runs.exists_reachable_of_run (fun _ _ permitted => of_decide_eq_true permitted) executed
  rw [Bool.and_eq_true, decide_eq_true_eq, decide_eq_true_eq] at ended
  exact ⟨exchange, reached, ended.1, ended.2, (http_counts_once reached).2.2⟩

end Exchange

end TimeOff
