import TimeOff.Balance.DoubleSpend
import TimeOff.Ingestion.SafetyNet

/-! Whether the days of a debit are still covered when its message is handed over. -/

namespace TimeOff

/-- An update undercuts when it is taken over and is less than what stays held and committed. -/
def Store.Undercuts (store : Store) (update : HcmBalanceUpdate) : Prop :=
  store.watermark update.pair < update.version ∧
    (reconcile (store.reconcileInput update)).newAvailable < 0

namespace Service

variable {before after : Service} {action : ServiceAction} {entry : BalanceLedgerEntry}

/-- Days are held for a pair that had entries before, or they are the first ones it submits. -/
theorem holding_before (coherent : before.Coherent) (taken : before.step action = some after)
    (stored : entry ∈ after.store.ledger.rows) :
    (∃ old ∈ before.store.ledger.rows, old.pair = entry.pair) ∨
      ∃ id uuid request, action = .operate (.submit id uuid) ∧
        before.store.requests.find id = some request ∧ request.pair = entry.pair := by
  cases step_change coherent taken with
  | moves subject event about moves =>
    obtain ⟨id, member⟩ := (step_coherent coherent taken).owner stored
    by_cases own : id = subject
    · subst own
      obtain ⟨moved, found, pair, source⟩ := source_of_moves coherent moves member
      -- A request that had no entry yet has just been submitted.
      rcases source with ⟨old, listed, request, earlier, same⟩ | rfl
      · obtain ⟨_, again, terms⟩ := step_terms coherent taken earlier
        cases found.symm.trans again
        refine Or.inl ⟨old, (Store.mem_entriesOf.mp listed).1, ?_⟩
        rw [same, pair, TimeOffRequest.pair_of_terms terms]
      · have heard : before.event id action = some .submitted := by simp [event_of_subject about]
        obtain ⟨uuid, rfl⟩ := (event_cause heard).submitted
        obtain ⟨request, _, earlier, _⟩ := submit_some taken
        obtain ⟨_, again, terms⟩ := step_terms coherent taken earlier
        cases found.symm.trans again
        exact Or.inr ⟨id, uuid, request, rfl, earlier,
          (TimeOffRequest.pair_of_terms terms).symm.trans pair.symm⟩
    · have kept : after.store.entriesOf id = before.store.entriesOf id :=
        congrArg Dossier.entries (moves.acts.others id own)
      rw [kept] at member
      exact Or.inl ⟨entry, (Store.mem_entriesOf.mp member).1, rfl⟩
  | claims _ _ _ same => exact Or.inl ⟨entry, by rwa [same] at stored, rfl⟩
  | loads _ _ _ _ same => exact Or.inl ⟨entry, by rwa [same] at stored, rfl⟩
  | absorbs _ _ update _ _ absorbs =>
    -- An absorbed entry keeps its pair.
    rw [absorbs.ledger] at stored
    obtain ⟨source, member, rfl⟩ := List.mem_map.mp stored
    exact Or.inl ⟨source, member, by split <;> rfl⟩
  | nothing _ same => exact Or.inl ⟨entry, by rwa [same] at stored, rfl⟩

/-- A reconciliation leaves less than zero of a pair that it undercuts, or that had less before. -/
theorem undercuts_of_negative {uuid : String} {now : Time} {update : HcmBalanceUpdate}
    (taken : before.step (.reconcileKey uuid now update) = some after)
    {employeeId locationId : String} (negative : after.store.available employeeId locationId < 0) :
    before.store.available employeeId locationId < 0 ∨
      update.pair = (employeeId, locationId) ∧ before.store.Undercuts update := by
  cases step_move taken with
  | reconciles =>
    by_cases fresh : before.store.watermark update.pair < update.version
    · by_cases own : update.pair = (employeeId, locationId)
      · refine Or.inr ⟨own, fresh, ?_⟩
        obtain ⟨rfl, rfl⟩ := Prod.mk.inj own
        rwa [← (before.store.reconcileKey_fresh uuid now fresh).1,
          before.store.reconcileKey_newAvailable uuid now fresh]
      · -- An update of another pair leaves the balance and the entries of this one.
        have same := before.store.samePair_reconcileKey uuid now own
        apply Or.inl
        simpa only [Store.available, Store.computeComponents, same.found, same.entries] using
          negative
    · rw [(before.store.reconcileKey_stale uuid now (Int.not_lt.mp fresh)).2] at negative
      exact Or.inl negative

/-- Less than zero is left of a pair with entries for one of three reasons. -/
theorem lowered_of_step (coherent : before.Coherent) (taken : before.step action = some after)
    (stored : entry ∈ after.store.ledger.rows) {employeeId locationId : String}
    (pair : entry.pair = (employeeId, locationId))
    (negative : after.store.available employeeId locationId < 0) :
    (before.store.available employeeId locationId < 0 ∧
        ∃ old ∈ before.store.ledger.rows, old.pair = (employeeId, locationId)) ∨
      before.OverspendsOn (employeeId, locationId) action ∨
      ∃ uuid now update, action = .reconcileKey uuid now update ∧
        update.pair = (employeeId, locationId) ∧ before.store.Undercuts update := by
  rw [← pair]
  rcases holding_before coherent taken stored with ⟨old, member, same⟩ |
    ⟨id, uuid, request, rfl, found, same⟩
  · by_cases short : before.store.available employeeId locationId < 0
    · exact Or.inl ⟨short, old, member, same⟩
    · have cached := coherent.loaded old member
      rw [same, pair] at cached
      by_cases reconciled : ∃ uuid now update, action = .reconcileKey uuid now update
      · obtain ⟨uuid, now, update, rfl⟩ := reconciled
        have undercut := (undercuts_of_negative taken negative).resolve_left short
        exact Or.inr (Or.inr ⟨uuid, now, update, rfl, pair ▸ undercut.1, undercut.2⟩)
      · -- Any other step that is thrifty would have left what is not negative.
        refine Or.inr (Or.inl ?_)
        by_contra thrifty
        have kept := nonneg_of_step coherent taken
          (fun uuid now update same => reconciled ⟨uuid, now, update, same⟩) (pair ▸ thrifty) cached
          (Int.not_lt.mp short)
        omega
  · -- A submission finds its days available, and leaves what it does not take.
    obtain ⟨draft, balance, again, _, positive, fits, cached⟩ := submit_some taken
    cases found.symm.trans again
    obtain ⟨rfl, rfl⟩ := Prod.mk.inj (same.trans pair)
    have kept := nonneg_of_step coherent taken (fun _ _ _ clash => by cases clash)
      (fun spends => spends) (Option.isSome_iff_exists.mpr ⟨balance, cached⟩)
      (positive.le.trans fits)
    omega

/-- An update leaves less than zero of a pair that was short before, or that it undercuts. -/
theorem lowered_of_update (coherent : before.Coherent) {uuid : String} {now : Time}
    {update : HcmBalanceUpdate}
    (taken : before.step (.reconcileKey uuid now update) = some after)
    (stored : entry ∈ after.store.ledger.rows) {pair : String × String}
    (same : entry.pair = pair) (negative : after.store.available pair.1 pair.2 < 0) :
    (before.store.available pair.1 pair.2 < 0 ∧
        ∃ old ∈ before.store.ledger.rows, old.pair = pair) ∨
      update.pair = pair ∧ before.store.Undercuts update := by
  -- Reconciling is no spending, so only the update itself can have undercut the holds.
  rcases lowered_of_step coherent taken stored same negative with
    short | spends | ⟨_, _, _, reconciled, own, undercuts⟩
  · exact Or.inl short
  · exact absurd spends id
  · cases reconciled
    exact Or.inr ⟨own, undercuts⟩

/-- What is neither an operation nor an update finds the pair as short as it leaves it. -/
theorem short_of_other (coherent : before.Coherent) (taken : before.step action = some after)
    (noOperation : ∀ operation, action ≠ .operate operation)
    (noUpdate : ∀ uuid now update, action ≠ .reconcileKey uuid now update)
    (stored : entry ∈ after.store.ledger.rows) {pair : String × String}
    (same : entry.pair = pair) (negative : after.store.available pair.1 pair.2 < 0) :
    before.store.available pair.1 pair.2 < 0 ∧
      ∃ old ∈ before.store.ledger.rows, old.pair = pair := by
  -- Only an operation spends and only an update undercuts, and the step is neither.
  rcases lowered_of_step coherent taken stored same negative with
    short | spends | ⟨uuid, now, update, reconciles, _⟩
  · exact short
  · cases action with
    | operate operation => exact absurd rfl (noOperation operation)
    | _ => exact absurd spends id
  · exact absurd reconciles (noUpdate uuid now update)

/-- Every entry takes a positive number of days. -/
theorem Coherent.positive (coherent : before.Coherent)
    (stored : entry ∈ before.store.ledger.rows) : 0 < entry.amount := by
  -- The owner of the entry is stored, and its entries have the days of its terms.
  obtain ⟨id, member⟩ := coherent.owner stored
  obtain ⟨progress, shown⟩ := coherent.shown id
  obtain ⟨request, found, _⟩ := pair_of_shown shown member
  have own := (shown.owned request found).entries entry member
  rw [own.amount]
  exact own.positive

/-- The cached balance of a pair covers an active hold when nothing negative is left of it. -/
theorem Coherent.covered (coherent : before.Coherent) {employeeId locationId : String}
    (stored : entry ∈ before.store.ledger.rows) (phase : entry.phase = .reserve)
    (active : entry.state = .active) (pair : entry.pair = (employeeId, locationId))
    (nonneg : 0 ≤ before.store.available employeeId locationId) :
    entry.amount ≤ before.store.cached (employeeId, locationId) := by
  -- No entry adds to what is available, and this one takes its amount off it.
  have least : entry.amount ≤
      (before.store.ledger.rows.map (·.takenFrom (employeeId, locationId))).sum := by
    refine List.single_le_sum ?_ _ (List.mem_map.mpr ⟨entry, stored, ?_⟩)
    · simp only [List.mem_map, forall_exists_index, and_imp, forall_apply_eq_imp_iff₂]
      intro other member
      unfold BalanceLedgerEntry.takenFrom
      split
      · exact (coherent.positive member).le
      · exact le_rfl
    · simp [BalanceLedgerEntry.takenFrom, pair, active, phase]
  rw [Store.available_eq] at nonneg
  omega

end Service

namespace System

/-- A step lowers a pair: its snapshot is undercut, or days are committed that it does not have. -/
def Lowers (before : System) (pair : String × String) : Action → Prop
  | .ingest _ _ row => row.update.pair = pair ∧ before.service.store.Undercuts row.update
  | .reconcilePulled index _ _ => ∃ update, before.pulls[index]? = some update ∧
      update.pair = pair ∧ before.service.store.Undercuts update
  | .operate operation => before.service.OverspendsOn pair (.operate operation)
  | _ => False

/-- What was left of a pair when it was last lowered has not been made up for since. -/
def Short (first : List (System × Action)) (before : System) (pair : String × String) : Prop :=
  ∃ earlier state action later, first = earlier ++ (state, action) :: later ∧
    state.Lowers pair action ∧
    (∀ other ∈ later.map Prod.fst, other.service.store.available pair.1 pair.2 < 0) ∧
    before.service.store.available pair.1 pair.2 < 0

/-- A step hands the debit of a stored request to the other side. -/
structure HandsDebit (before : System) (action : Action) (msg : OutboxMessage)
    (request : TimeOffRequest) : Prop where
  delivers : ∃ fate now, action = .deliver fate now
  due : ∃ rest, before.service.processor.due = msg :: rest
  idle : before.service.processor.attempted = none
  debit : msg.type = .debit
  stored : before.service.store.requests.find msg.requestId = some request

/-- A debit that is handed over is covered by what the service knows. -/
structure Prevalidated (before after : System) (msg : OutboxMessage) (request : TimeOffRequest) :
    Prop where
  -- What is available subtracts the hold of this request.
  held : ∃ entry ∈ before.service.store.ledger.rows, entry.requestId = some request.id ∧
    entry.phase = .reserve ∧ entry.state = .active ∧ entry.pair = request.pair ∧
    entry.amount = msg.payload.amount
  nonneg : 0 ≤ before.service.store.available request.employeeId request.locationId
  -- With a current snapshot, the other side is not driven below zero, whatever it lets pass.
  safe : before.service.store.cached request.pair =
      before.hcm.balanceOf (key request.employeeId request.locationId) →
    0 ≤ after.hcm.balanceOf (key request.employeeId request.locationId)

variable {before after : System} {action : Action} {msg : OutboxMessage} {request : TimeOffRequest}
  {taken : List (System × Action)} {final : System}

/-- Less than zero is left of a pair with entries because it was short, or is lowered now. -/
theorem lowers_of_step (coherent : before.service.Coherent)
    (taken : before.step action = some after) {entry : BalanceLedgerEntry}
    (stored : entry ∈ after.service.store.ledger.rows) {pair : String × String}
    (same : entry.pair = pair) (negative : after.service.store.available pair.1 pair.2 < 0) :
    (before.service.store.available pair.1 pair.2 < 0 ∧
        ∃ old ∈ before.service.store.ledger.rows, old.pair = pair) ∨ before.Lowers pair action := by
  have kept (unchanged : after.service = before.service) :
      (before.service.store.available pair.1 pair.2 < 0 ∧
        ∃ old ∈ before.service.store.ledger.rows, old.pair = pair) ∨
        before.Lowers pair action :=
    Or.inl ⟨unchanged ▸ negative, entry, unchanged ▸ stored, same⟩
  cases step_effect taken with
  | operates operation operated moved =>
    subst operated
    rcases Service.lowered_of_step coherent moved stored same negative with
      short | spends | ⟨_, _, _, clash, _⟩
    · exact Or.inl short
    · exact Or.inr spends
    · cases clash
  | reconciles uuid now update channel =>
    -- Both ways an update comes in end in the same reconciliation.
    rcases channel with ⟨index, rfl⟩ | ⟨row, rfl⟩
    · simp only [step] at taken
      split at taken
      · cases taken
      · rename_i pulled found
        obtain ⟨service, moved, rfl⟩ := serve_some taken
        exact (Service.lowered_of_update coherent moved stored same negative).imp_right
          fun undercut => ⟨pulled, found, undercut⟩
    · simp only [step] at taken
      split at taken
      · obtain ⟨service, moved, rfl⟩ := serve_some taken
        exact Service.lowered_of_update coherent moved stored same negative
      · cases taken
  | loses _ _ moved =>
    exact Or.inl
      (Service.short_of_other coherent moved (by simp) (by simp) stored same negative)
  | delivers _ _ _ _ _ _ _ _ _ moved =>
    exact Or.inl
      (Service.short_of_other coherent moved (by simp) (by simp) stored same negative)
  | inserts _ _ _ _ moved =>
    exact Or.inl
      (Service.short_of_other coherent moved (by simp) (by simp) stored same negative)
  | crashes _ moved =>
    exact Or.inl
      (Service.short_of_other coherent moved (by simp) (by simp) stored same negative)
  | reads _ _ _ _ _ unchanged => exact kept unchanged
  | seeds _ _ _ _ _ _ unchanged => exact kept unchanged
  | adjusts _ _ _ _ _ _ _ unchanged => exact kept unchanged
  | configures _ _ _ unchanged => exact kept unchanged

/-- What is left of a pair with entries is negative only when the pair was lowered below zero. -/
theorem Trace.short (trace : System.Trace taken final) {entry : BalanceLedgerEntry}
    (stored : entry ∈ final.service.store.ledger.rows) {pair : String × String}
    (same : entry.pair = pair)
    (negative : final.service.store.available pair.1 pair.2 < 0) : Short taken final pair := by
  -- The induction goes back to the last step before which something was left.
  induction trace generalizing entry with
  | start => cases stored
  | @step shorter before after action earlier next ih =>
    have coherent := (System.Trace.service earlier (Or.inl rfl)).coherent
    rcases lowers_of_step coherent next stored same negative with ⟨short, old, member, own⟩ | lowers
    · -- A pair that was short already was lowered earlier, and has stayed so.
      obtain ⟨first, state, opening, later, rfl, lowers, since, _⟩ := ih member own short
      refine ⟨first, state, opening, later ++ [(before, action)], by simp, lowers, ?_, negative⟩
      intro other among
      rw [List.map_append, List.mem_append] at among
      rcases among with old | last
      · exact since other old
      · rw [List.mem_singleton.mp last]
        exact short
    · exact ⟨shorter, before, action, [], rfl, lowers, by simp, negative⟩

/-- The debit that is handed over has the terms of its request, which is still concerned with it. -/
theorem HandsDebit.owned (hands : before.HandsDebit action msg request)
    (coherent : before.service.Coherent) {progress : Progress}
    (shown : (before.service.store.dossier msg.requestId).Shows progress) :
    progress.delivering = some .debit ∧ progress.status = some request.status ∧
      msg.OwnedBy request.terms := by
  obtain ⟨_, ⟨rest, due⟩, _, debit, stored⟩ := hands
  -- What is handed over is the first of the claimed messages.
  have held : msg ∈ before.service.processor.held := by simp [OutboxProcessor.held, due]
  obtain ⟨delivering, again, found, status, own⟩ := coherent.of_held held shown
  cases stored.symm.trans found
  exact ⟨debit ▸ delivering, status, own⟩

/-- A debit that is handed over leaves the other side's balance, or takes its days off it. -/
theorem HandsDebit.balance (hands : before.HandsDebit action msg request)
    (own : msg.OwnedBy request.terms) (moved : before.step action = some after) :
    after.hcm.balanceOf (key request.employeeId request.locationId) =
        before.hcm.balanceOf (key request.employeeId request.locationId) ∨
      after.hcm.balanceOf (key request.employeeId request.locationId) =
        before.hcm.balanceOf (key request.employeeId request.locationId) - request.days := by
  obtain ⟨⟨fate, now, rfl⟩, ⟨rest, due⟩, idle, debit, _⟩ := hands
  simp only [step, deliver, due, idle] at moved
  split at moved
  · -- A call that never arrives changes nothing.
    obtain ⟨service, _, rfl⟩ := serve_some moved
    exact Or.inl rfl
  · obtain ⟨service, _, rfl⟩ := serve_some moved
    have answer := before.hcm.applyDelta_answer now msg.command
    have signed : msg.command.signed = -request.days := by
      simp [OutboxMessage.command, ApplyDeltaCommand.signed, debit, own.payload,
        TimeOffRequest.terms]
    have concerned : key msg.command.employeeId msg.command.locationId =
        key request.employeeId request.locationId := by
      simp [OutboxMessage.command, own.payload, TimeOffRequest.terms]
    rw [← concerned]
    simp only [observed]
    generalize (before.hcm.applyDelta now msg.command).1 = called at answer ⊢
    generalize (before.hcm.applyDelta now msg.command).2 = result at answer
    cases answer with
    | repeated prior _ _ same => exact Or.inl (by simp only [HcmCore.balanceOf, same])
    | thrown error _ _ same => exact Or.inl same
    | given ack _ _ _ _ changed =>
      rw [signed] at changed
      split at changed
      · exact Or.inr (by rw [changed]; omega)
      · exact Or.inl (by rw [changed]; omega)

/-- A request that is still approved when its debit is handed over has its hold. -/
theorem HandsDebit.hold (hands : before.HandsDebit action msg request)
    (coherent : before.service.Coherent) (approved : request.status = .approved) :
    ∃ entry ∈ before.service.store.ledger.rows, entry.OwnedBy request.terms ∧
      entry.phase = .reserve ∧ entry.state = .active := by
  obtain ⟨progress, shown⟩ := coherent.shown msg.requestId
  obtain ⟨delivering, status, _⟩ := hands.owned coherent shown
  rcases Progress.delivering_debit delivering with rfl | rfl
  · -- An approved request has one entry, its active hold.
    obtain ⟨entry, only, view⟩ := List.map_eq_singleton_iff.mp shown.entries
    simp only [BalanceLedgerEntry.view, Prod.mk.injEq] at view
    have member : entry ∈ (before.service.store.dossier msg.requestId).entries := by simp [only]
    exact ⟨entry, (Store.mem_entriesOf.mp member).1,
      (shown.owned request hands.stored).entries entry member, view.1, view.2.1⟩
  · rw [approved] at status
    cases status

/-- A debit is covered when its request is still approved and enough is left of its pair. -/
theorem HandsDebit.prevalidated (hands : before.HandsDebit action msg request)
    (coherent : before.service.Coherent) (moved : before.step action = some after)
    (approved : request.status = .approved)
    (nonneg : 0 ≤ before.service.store.available request.employeeId request.locationId) :
    Prevalidated before after msg request := by
  obtain ⟨entry, stored, terms, phase, active⟩ := hands.hold coherent approved
  obtain ⟨progress, shown⟩ := coherent.shown msg.requestId
  obtain ⟨_, _, own⟩ := hands.owned coherent shown
  have days : entry.amount = request.days := terms.amount
  refine ⟨⟨entry, stored, terms.owner, phase, active, terms.pair, ?_⟩, nonneg, fun current => ?_⟩
  · rw [terms.amount, own.payload]
  · -- The snapshot covers the hold, so a current one leaves room for the debit.
    have covered : entry.amount ≤ before.service.store.cached request.pair :=
      coherent.covered stored phase active terms.pair nonneg
    have positive := coherent.positive stored
    rcases hands.balance own moved with same | less
    · omega
    · omega

/--
Every debit of a run is covered when it is handed over, if and only if its request is approved by
then and its pair is not short because of an earlier step.
-/
theorem prevalidated_iff (trace : System.Trace taken final) :
    (∀ before action after msg request, (before, action) ∈ taken →
        before.step action = some after → before.HandsDebit action msg request →
          Prevalidated before after msg request) ↔
      ∀ first before action rest msg request, taken = first ++ (before, action) :: rest →
        before.HandsDebit action msg request →
          request.status = .approved ∧ ¬Short first before request.pair := by
  constructor
  · intro prevalidated first before action rest msg request cut hands
    obtain ⟨opening, after, moved, _⟩ := Runs.Trace.split trace cut
    have coherent := (System.Trace.service opening (Or.inl rfl)).coherent
    have covered := prevalidated before action after msg request (by simp [cut]) moved hands
    refine ⟨?_, fun ⟨_, _, _, _, _, _, _, short⟩ => ?_⟩
    · obtain ⟨progress, shown⟩ := coherent.shown msg.requestId
      obtain ⟨delivering, status, own⟩ := hands.owned coherent shown
      rcases Progress.delivering_debit delivering with rfl | rfl
      · exact (Option.some.inj status).symm
      · -- A request that was given up has no active hold.
        obtain ⟨entry, stored, owner, _, active, _⟩ := covered.held
        have member : entry ∈ (before.service.store.dossier msg.requestId).entries :=
          Store.mem_entriesOf.mpr ⟨stored, owner.trans
            (congrArg some (Table.key_of_find hands.stored))⟩
        have listed := shown.entry_mem member
        simp [Progress.entries, BalanceLedgerEntry.view, active] at listed
    · exact absurd covered.nonneg (Int.not_le.mpr short)
  · intro careful before action after msg request member moved hands
    obtain ⟨first, rest, cut⟩ := List.append_of_mem member
    obtain ⟨opening, _⟩ := Runs.Trace.split trace cut
    have coherent := (System.Trace.service opening (Or.inl rfl)).coherent
    obtain ⟨approved, enough⟩ := careful first before action rest msg request cut hands
    apply hands.prevalidated coherent moved approved
    by_contra negative
    -- The hold of the request is an entry of its pair, so the pair is short for a reason.
    obtain ⟨entry, stored, terms, _⟩ := hands.hold coherent approved
    exact enough (System.Trace.short opening stored terms.pair (Int.not_le.mp negative))

/-- Eight of ten days are approved when a correction to five is ingested, and then handed over. -/
def correctedRun : List Action :=
  [.seed "e" "l" 10 0, .readBalance "e" "l" 0, .insertBalance 0,
    .operate (.create "r" ⟨"e", "l", "2025-01-06", "2025-01-15", 8, none, true⟩ none),
    .operate (.submit "r" "hold"), .operate (.approve "r" "debit" 0), .adjust "e" "l" (-5) 0,
    .ingest "correction" 0 ⟨"e", "l", 5, 2, 0⟩,
    .configureFaults { silentOverdraw := some true }, .operate (.drain 0)]

/-- The debit of that run is not covered: it drives the other side to minus three. -/
theorem correctedRun_overdraws :
    ¬∀ before action after msg request, System.Reachable (fun _ _ => True) before →
      before.step action = some after → before.HandsDebit action msg request →
        Prevalidated before after msg request := by
  intro prevalidated
  -- The run is executed up to the delivery that overdraws the balance.
  have executed : (run (fun _ _ => True) correctedRun).map (fun system =>
      system.service.processor.attempted.isNone &&
      system.service.processor.due.head?.any (fun msg =>
        msg.type = .debit && msg.requestId = "r") &&
      (system.service.store.requests.find "r").any (fun request =>
        request.employeeId = "e" && request.locationId = "l") &&
      decide (system.service.store.cached ("e", "l") = system.hcm.balanceOf (key "e" "l")) &&
      (system.step (.deliver .answered 0)).any fun after =>
        decide (after.hcm.balanceOf (key "e" "l") < 0)) = some true := by decide +kernel
  obtain ⟨system, reached, ended⟩ := exists_reachable_of_run executed
  simp only [Bool.and_eq_true, decide_eq_true_eq, Option.any_eq_true] at ended
  obtain ⟨⟨⟨⟨idle, msg, first, debit, own⟩, request, found, employee, location⟩, current⟩, after,
    moved, overdrawn⟩ := ended
  obtain ⟨rest, due⟩ := List.head?_eq_some_iff.mp first
  have hands : system.HandsDebit (.deliver .answered 0) msg request :=
    ⟨⟨_, _, rfl⟩, ⟨rest, due⟩, Option.isNone_iff_eq_none.mp idle, debit, own ▸ found⟩
  have covered := prevalidated system _ after msg request reached moved hands
  rw [← employee, ← location] at current overdrawn
  exact absurd (covered.safe current) (Int.not_le.mpr overdrawn)

/-- The equivalence holds of that run, with the delivery at its end. -/
theorem prevalidated_iff_corrected : ∃ taken final, System.Trace taken final ∧
    taken.map Prod.snd = correctedRun ++ [.deliver .answered 0] ∧
    ((∀ before action after msg request, (before, action) ∈ taken →
        before.step action = some after → before.HandsDebit action msg request →
          Prevalidated before after msg request) ↔
      ∀ first before action rest msg request, taken = first ++ (before, action) :: rest →
        before.HandsDebit action msg request →
          request.status = .approved ∧ ¬Short first before request.pair) := by
  -- The run with the delivery at its end is a run of the system.
  have executed : (run (fun _ _ => True) (correctedRun ++ [.deliver .answered 0])).isSome =
      true := by decide +kernel
  obtain ⟨taken, final, trace, same⟩ := exists_trace_of_run executed
  exact ⟨taken, final, trace, same, prevalidated_iff trace⟩

end System

end TimeOff
