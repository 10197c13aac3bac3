import TimeOff.Propagation.Compensation

/-! When more is credited to a request on the other side than was ever debited for it. -/

namespace TimeOff

namespace HcmCore

/-- Whether a call with a command changes the balance: it is new, accepted, and no ghost success. -/
def Changes (core : HcmCore) (cmd : ApplyDeltaCommand) : Prop :=
  core.applied.find cmd.idempotencyKey = none ∧ core.Accepts cmd ∧
    core.faults.ghostSuccess = false

/-- An acknowledgement is effective when its call changed the balance, whenever that was. -/
def Effective (core : HcmCore) (k : String) : Prop :=
  ∃ entry, core.applied.find k = some entry ∧ entry.ack.applied = true

/-- The effective acknowledgements after a call are the earlier ones, and its own if it changes. -/
theorem effective_applyDelta (core : HcmCore) (now : Time) (cmd : ApplyDeltaCommand) (k : String) :
    (core.applyDelta now cmd).1.Effective k ↔
      core.Effective k ∨ k = cmd.idempotencyKey ∧ core.Changes cmd := by
  have outcome := core.applyDelta_outcome now cmd
  have accepts := core.accepts_iff now cmd
  unfold Changes Effective
  generalize core.applyDelta now cmd = reply at outcome accepts
  obtain ⟨after, result⟩ := reply
  cases outcome with
  | replayed known => simp [known]
  | thrown unused same _ =>
    -- A call that throws is not accepted.
    have refused : ¬core.Accepts cmd := by simp [accepts]
    have same : after.applied = core.applied := same
    simp [same, refused]
  | ghost unused ghost _ applied _ =>
    simp only [Table.find_save, ghost, Bool.true_eq_false, and_false, or_false]
    by_cases own : cmd.idempotencyKey = k
    · subst own
      simp [unused, applied]
    · simp [own]
  | settled unused real _ _ applied _ =>
    have accepted : core.Accepts cmd := accepts.mpr ⟨_, rfl⟩
    simp only [Table.find_save, unused, real, accepted, and_true]
    by_cases own : cmd.idempotencyKey = k
    · simp [own, applied]
    · simp [own, Ne.symm own]

end HcmCore

namespace System

/-- What was credited for a request is at most what was debited for it. -/
def RefundsNoMore (system : System) (request : TimeOffRequest) : Prop :=
  system.history.effectOf (creditKey request.id) ≤ -system.history.effectOf (debitKey request.id)

/-- A credit arrives and is really applied, although its debit was acknowledged without effect. -/
def RefundsGhost (before : System) : Action → Prop
  | .deliver .requestLost _ => False
  | .deliver _ _ => ∃ msg rest, before.service.processor.due = msg :: rest ∧ msg.type = .credit ∧
      before.hcm.Changes msg.command ∧ ¬before.hcm.Effective (debitKey msg.requestId)
  | _ => False

/-- Every effective credit stands against an effective debit. -/
def Backed (system : System) : Prop :=
  ∀ id, system.hcm.Effective (creditKey id) → system.hcm.Effective (debitKey id)

variable {before after system : System} {action : Action} {request : TimeOffRequest}

/-- A key has changed the days of its request, or nothing. -/
theorem Posted.effectOf (posted : system.Posted)
    (found : system.service.store.requests.find request.id = some request) (type : OutboxType) :
    (system.hcm.Effective (type.key request.id) →
        system.history.effectOf (type.key request.id) = type.signed request.days) ∧
      (¬system.hcm.Effective (type.key request.id) →
        system.history.effectOf (type.key request.id) = 0) := by
  constructor
  · intro given
    obtain ⟨entry, acknowledged, applied⟩ := given
    have one := posted.effective _ request found type entry acknowledged applied
    simp [History.effectOf, one, TimeOffRequest.posting]
  · intro idle
    have nothing := posted.ineffective (type.key request.id) fun entry acknowledged => by
      -- An acknowledgement that is not effective has applied nothing.
      by_contra applied
      exact idle ⟨entry, acknowledged, by simpa using applied⟩
    simp [History.effectOf, nothing]

/-- An effective acknowledgement is one of a stored request that holds days. -/
theorem stored_of_effective (linked : system.Linked) (coherent : system.service.Coherent)
    {type : OutboxType} {id : String} (effective : system.hcm.Effective (type.key id)) :
    ∃ request, system.service.store.requests.find id = some request ∧ request.id = id ∧
      0 < request.days := by
  obtain ⟨entry, acknowledged, _⟩ := effective
  obtain ⟨progress, shown⟩ := coherent.shown id
  have coupled := linked.coupled id progress shown
  cases stored : system.service.store.requests.find id with
  | some request =>
    obtain rfl := Table.key_of_find stored
    exact ⟨request, rfl, rfl, days_pos_of_applied stored shown coupled acknowledged⟩
  | none =>
    -- Nothing is sent for a request that is unknown.
    obtain rfl := Store.unknown_of_absent shown stored
    have unsent := coupled.unsent type (by cases type <;> simp [Progress.sent])
    simp [unsent] at acknowledged

/-- The credits are backed exactly when no request is refunded more than was taken for it. -/
theorem backed_iff (posted : system.Posted) (linked : system.Linked)
    (coherent : system.service.Coherent) :
    system.Backed ↔ ∀ id request, system.service.store.requests.find id = some request →
      system.RefundsNoMore request := by
  constructor
  · intro backed id request found
    obtain rfl := Table.key_of_find found
    have debit := posted.effectOf found .debit
    have credit := posted.effectOf found .credit
    simp only [OutboxType.key, OutboxType.signed] at debit credit
    unfold RefundsNoMore
    by_cases credited : system.hcm.Effective (creditKey request.id)
    · rw [credit.1 credited, debit.1 (backed _ credited), neg_neg]
    · rw [credit.2 credited]
      by_cases debited : system.hcm.Effective (debitKey request.id)
      · have taken : system.hcm.Effective (OutboxType.debit.key request.id) := debited
        obtain ⟨same, stored, _, positive⟩ := stored_of_effective linked coherent taken
        cases found.symm.trans stored
        rw [debit.1 debited]
        omega
      · simp [debit.2 debited]
  · intro bounded id credited
    by_contra undebited
    have given : system.hcm.Effective (OutboxType.credit.key id) := credited
    obtain ⟨request, found, rfl, positive⟩ := stored_of_effective linked coherent given
    -- The days were given back, and none had been taken.
    have bound := bounded _ request found
    have debit := posted.effectOf found .debit
    have credit := posted.effectOf found .credit
    simp only [OutboxType.key, OutboxType.signed] at debit credit
    rw [RefundsNoMore, credit.1 credited, debit.2 undebited] at bound
    omega

/-- A step makes a key effective when it delivers its message and changes a balance. -/
theorem effective_of_step (taken : before.step action = some after) (k : String) :
    after.hcm.Effective k ↔ before.hcm.Effective k ∨
      ∃ msg rest fate now, action = .deliver fate now ∧ fate ≠ .requestLost ∧
        before.service.processor.due = msg :: rest ∧ k = msg.idempotencyKey ∧
        before.hcm.Changes msg.command := by
  apply acknowledged_step taken (·.Effective k)
  · intro left right same
    rw [HcmCore.Effective, same]
    rfl
  · exact fun now msg => before.hcm.effective_applyDelta now msg.command k

/-- A message that is due has the key of its type and its request, which is waiting for it. -/
theorem due_key (coherent : before.service.Coherent) {msg : OutboxMessage}
    {rest : List OutboxMessage} (due : before.service.processor.due = msg :: rest)
    {progress : Progress}
    (shown : (before.service.store.dossier msg.requestId).Shows progress) :
    msg.idempotencyKey = msg.type.key msg.requestId ∧ progress.delivering = some msg.type := by
  have held : msg ∈ before.service.processor.held := by simp [OutboxProcessor.held, due]
  obtain ⟨delivering, request, _, _, own⟩ := coherent.of_held held shown
  exact ⟨own.owner ▸ own.key, delivering⟩

/-- A step that refunds no ghost keeps every credit backed. -/
theorem step_backed (backed : before.Backed) (coherent : before.service.Coherent)
    (taken : before.step action = some after) (cautious : ¬before.RefundsGhost action) :
    after.Backed := by
  intro id credited
  rw [effective_of_step taken] at credited ⊢
  rcases credited with old | ⟨msg, rest, fate, now, rfl, arrived, due, named, changes⟩
  · exact Or.inl (backed id old)
  · obtain ⟨progress, shown⟩ := coherent.shown msg.requestId
    obtain ⟨key, _⟩ := due_key coherent due shown
    obtain ⟨type, rfl⟩ := OutboxType.key_injective
      (show OutboxType.credit.key id = msg.type.key msg.requestId from named.trans key)
    -- The credit was applied, so its debit was not one without effect.
    by_contra unbacked
    rw [not_or] at unbacked
    cases fate with
    | requestLost => exact arrived rfl
    | answered => exact cautious ⟨msg, rest, due, type.symm, changes, unbacked.1⟩
    | answerLost => exact cautious ⟨msg, rest, due, type.symm, changes, unbacked.1⟩

/-- A step that refunds a ghost leaves a credit without a debit behind it. -/
theorem RefundsGhost.not_backed (refunds : before.RefundsGhost action)
    (coherent : before.service.Coherent) (taken : before.step action = some after) :
    ¬after.Backed := by
  intro backed
  cases action with
  | deliver fate now =>
    obtain ⟨arrived, msg, rest, due, type, changes, undebited⟩ :
        fate ≠ .requestLost ∧ ∃ msg rest, before.service.processor.due = msg :: rest ∧
          msg.type = .credit ∧ before.hcm.Changes msg.command ∧
          ¬before.hcm.Effective (debitKey msg.requestId) := by
      cases fate with
      | requestLost => exact absurd refunds id
      | answered => exact ⟨by simp, refunds⟩
      | answerLost => exact ⟨by simp, refunds⟩
    obtain ⟨progress, shown⟩ := coherent.shown msg.requestId
    have key := (due_key coherent due shown).1
    rw [type] at key
    have credited : after.hcm.Effective (creditKey msg.requestId) :=
      (effective_of_step taken _).mpr
        (Or.inr ⟨msg, rest, fate, now, rfl, arrived, due, key.symm, changes⟩)
    -- The delivery was that of the credit, so the debit is as it was.
    rcases (effective_of_step taken _).mp (backed _ credited) with
      old | ⟨other, _, _, _, _, _, dueToo, named, _⟩
    · exact undebited old
    · rw [due] at dueToo
      cases dueToo
      exact debitKey_ne_creditKey _ _ (named.trans key)
  | _ => exact refunds

/--
In every state of a run no request was refunded more than was taken for it, if and only if no step
of the run applies a credit whose debit was acknowledged without effect.
-/
theorem refunds_no_more_iff {taken : List (System × Action)} {final : System}
    (trace : System.Trace taken final) :
    (∀ state, Runs.Visits taken final state → ∀ id request,
        state.service.store.requests.find id = some request → state.RefundsNoMore request) ↔
      ∀ before action, (before, action) ∈ taken → ¬before.RefundsGhost action := by
  have bounded_iff (state : System) (visited : Runs.Visits taken final state) :
      state.Backed ↔ ∀ id request, state.service.store.requests.find id = some request →
        state.RefundsNoMore request :=
    backed_iff (trace.reached visited).posted (trace.reached visited).linked
      (trace.service visited).coherent
  constructor
  · intro bounded before action member refunds
    obtain ⟨after, moved, visited⟩ := Runs.Trace.step_of_mem trace member
    exact refunds.not_backed (trace.service (Or.inr ⟨action, member⟩)).coherent moved
      ((bounded_iff after visited).mpr (bounded after visited))
  · intro cautious state visited
    rw [← bounded_iff state visited]
    have careful : System.Reachable (fun before action => ¬before.RefundsGhost action) state :=
      Runs.Trace.reachable_of_visits trace cautious visited
    -- Along the allowed steps the credits stay backed.
    refine Runs.Reachable.invariant ?_ ?_ careful
    · intro id given
      obtain ⟨entry, acknowledged, _⟩ := given
      cases acknowledged
    · intro before action after earlier backed permitted taken
      exact step_backed backed (System.Reachable.service earlier).coherent taken permitted

/-- The debit of a request is a ghost success, and after its cancellation the credit is real. -/
def ghostDebitRun : List Action :=
  [.seed "e" "l" 10 0, .readBalance "e" "l" 0, .insertBalance 0,
    .operate (.create "r" ⟨"e", "l", "2025-01-06", "2025-01-08", 3, none, true⟩ none),
    .operate (.submit "r" "hold"), .operate (.approve "r" "debit" 0),
    .configureFaults { ghostSuccess := some true }, .operate (.drain 0), .deliver .answered 0,
    .operate (.record "commit" "drift" 0), .configureFaults { ghostSuccess := some false },
    .operate (.cancel "r" "credit" 1), .operate (.drain 1), .deliver .answered 1]

/-- At the end of that run three days were given back that had never been taken. -/
theorem ghostDebitRun_gains :
    ¬∀ system, System.Reachable (fun _ _ => True) system → ∀ id request,
      system.service.store.requests.find id = some request → system.RefundsNoMore request := by
  intro bounded
  -- The debit is a ghost, and the ghosts are switched off before the credit.
  have executed : (run (fun _ _ => True) ghostDebitRun).map (fun system =>
      (system.service.store.requests.find "r").any fun request =>
        system.history.effectOf (creditKey request.id) = 3 ∧
          system.history.effectOf (debitKey request.id) = 0) = some true := by
    decide +kernel
  obtain ⟨system, reached, ended⟩ := exists_reachable_of_run executed
  obtain ⟨request, found, effects⟩ := (Option.any_eq_true _ _).mp ended
  obtain ⟨credited, debited⟩ := of_decide_eq_true effects
  have bound := bounded system reached "r" request found
  rw [RefundsNoMore, credited, debited] at bound
  omega

/-- The equivalence holds of that run, whose last step applies the credit of a ghost debit. -/
theorem refunds_no_more_iff_ghostDebit : ∃ taken final, System.Trace taken final ∧
    taken.map Prod.snd = ghostDebitRun ∧
      ((∀ state, Runs.Visits taken final state → ∀ id request,
          state.service.store.requests.find id = some request → state.RefundsNoMore request) ↔
        ∀ before action, (before, action) ∈ taken → ¬before.RefundsGhost action) := by
  have executed : (run (fun _ _ => True) ghostDebitRun).isSome = true := by decide +kernel
  obtain ⟨taken, final, trace, same⟩ := exists_trace_of_run executed
  exact ⟨taken, final, trace, same, refunds_no_more_iff trace⟩

end System

end TimeOff
