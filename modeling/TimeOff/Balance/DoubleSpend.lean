import TimeOff.Ingestion.Reporting

/-! When a step spends what is not available, and what an over-allocation leaves behind. -/

namespace TimeOff

namespace Progress

variable {progress target : Progress} {event : Event} {days : Int}

/-- A request takes more only when it is submitted, or acknowledged after its cancellation. -/
theorem takes_of_next (moves : progress.next event = some target) (positive : 0 ≤ days)
    (kept : event ≠ .submitted)
    (current : progress = .abandoned .inflight → ∀ version, event ≠ .acknowledged version) :
    target.takes days ≤ progress.takes days := by
  -- In every other move an entry is released, absorbed, or stays what it was.
  cases steps_of_next moves with
  | submit => exact absurd rfl kept
  | overtake version => exact absurd rfl (current rfl version)
  | absorb progress snapshot => cases progress <;> simp [absorb] <;> grind
  | refund version absorbed => cases absorbed <;> simp [positive]
  | _ => simp [positive]

/-- No request is forgotten. -/
theorem known_of_next (moves : progress.next event = some target)
    (other : ∀ version, event ≠ .absorbed version) : target.status ≠ none := by
  cases steps_of_next moves with
  | absorb progress snapshot => exact absurd rfl (other snapshot)
  | _ => simp [status]

end Progress

namespace Service

/--
What a step may do to the available balances.

A snapshot that is applied and leaves less than zero reports it for its pair, and any other step
leaves what was not negative not negative.
-/
def Guarded (before after : Service) : ServiceAction → Prop
  | .reconcileKey uuid now update =>
    (before.store.reconcileKey uuid now update).1.applied = true →
      after.store.available update.employeeId update.locationId < 0 →
        ∃ event ∈ after.store.events.rows, event ∉ before.store.events.rows ∧
          event.type = .overAllocated ∧ event.pair = update.pair
  | _ => ∀ employeeId locationId,
      (before.store.balances.find (employeeId, locationId)).isSome = true →
        0 ≤ before.store.available employeeId locationId →
          0 ≤ after.store.available employeeId locationId

/-- A debit is acknowledged that its request has given up, and its pair has too few days left. -/
def OverspendsOn (before : Service) (pair : String × String) : ServiceAction → Prop
  | .operate (.record _ _ _) => ∃ msg ack request,
      before.processor.attempted = some (msg, .acked ack) ∧ msg.type = .debit ∧
        before.store.requests.find msg.requestId = some request ∧ request.pair = pair ∧
        request.status ≠ .approved ∧ 0 ≤ before.store.available pair.1 pair.2 ∧
        before.store.available pair.1 pair.2 < request.days
  | _ => False

/-- A step spends days that are not left, of whatever pair. -/
def Overspends (before : Service) (action : ServiceAction) : Prop :=
  ∃ pair, before.OverspendsOn pair action

variable {before after : Service} {action : ServiceAction}

/-- An applied snapshot that leaves less than zero records a new event for its pair. -/
theorem guarded_reconcileKey {uuid : String} {now : Time} {update : HcmBalanceUpdate}
    (taken : before.step (.reconcileKey uuid now update) = some after) :
    before.Guarded after (.reconcileKey uuid now update) := by
  intro applied negative
  cases step_move taken with
  | reconciles _ _ _ new =>
    -- A stale update would not have been applied.
    have fresh : before.store.watermark update.pair < update.version := by
      by_contra stale
      rw [(before.store.reconcileKey_stale uuid now (Int.not_lt.mp stale)).1] at applied
      cases applied
    rw [← before.store.reconcileKey_newAvailable uuid now fresh] at negative
    obtain ⟨event, recorded, named, kind, pair⟩ :=
      before.store.reconcileKey_reports uuid now fresh negative
    refine ⟨event, recorded, fun known => ?_, kind, pair⟩
    exact Table.find_eq_none.mp new event known named

section Moves

variable {id : String} {event : Event} {progress target : Progress} {request : TimeOffRequest}

/-- A submission takes days that are available. -/
theorem takes_submitted (taken : before.step action = some after)
    (heard : before.event id action = some .submitted)
    (next : progress.next .submitted = some target)
    (moves : Store.Moves id .submitted before.store after.store)
    (found : after.store.requests.find id = some request) :
    target.takes request.days ≤ progress.takes request.days +
      before.store.available request.employeeId request.locationId := by
  obtain ⟨uuid, rfl⟩ := (event_cause heard).submitted
  obtain ⟨draft, _, draftFound, _, _, fits, _⟩ := submit_some taken
  -- The draft was checked, and the request has its terms.
  obtain ⟨moved, again, terms⟩ := moves.acts.terms draft draftFound
  cases found.symm.trans again
  simp only [TimeOffRequest.terms, Terms.mk.injEq] at terms
  obtain ⟨_, employee, location, days⟩ := terms
  rw [← employee, ← location, ← days] at fits
  cases Progress.steps_of_next next with
  | submit =>
    simp only [Progress.takes_eq]
    omega

/-- The commit of a given up request takes days that a thrifty step finds available. -/
theorem takes_overtaken {version : Int} (coherent : before.Coherent)
    (thrifty : ¬before.OverspendsOn request.pair action)
    (nonneg : 0 ≤ before.store.available request.employeeId request.locationId)
    (shown : (before.store.dossier id).Shows (.abandoned .inflight))
    (heard : before.event id action = some (.acknowledged version))
    (next : (Progress.abandoned .inflight).next (.acknowledged version) = some target)
    (moves : Store.Moves id (.acknowledged version) before.store after.store)
    (found : after.store.requests.find id = some request) :
    target.takes request.days ≤
      before.store.available request.employeeId request.locationId := by
  obtain ⟨msg, ack, entryId, eventId, time, rfl, attempted, rfl, rfl⟩ :=
    (event_cause heard).acknowledged
  have held : msg ∈ before.processor.held := by simp [OutboxProcessor.held, attempted]
  obtain ⟨delivering, abandoned, abandonedFound, status, _⟩ := coherent.of_held held shown
  obtain ⟨moved, again, terms⟩ := moves.acts.terms abandoned abandonedFound
  cases found.symm.trans again
  simp only [TimeOffRequest.terms, Terms.mk.injEq] at terms
  obtain ⟨_, employee, location, days⟩ := terms
  -- A thrifty step finds the days of the given up request still available.
  have room : request.days ≤ before.store.available request.employeeId request.locationId := by
    by_contra short
    refine thrifty ⟨msg, ack, abandoned, attempted, (Option.some.inj delivering).symm,
      abandonedFound, Prod.ext employee.symm location.symm, ?_, nonneg, ?_⟩
    · intro approved
      rw [approved] at status
      cases status
    · rw [← days]
      exact Int.not_le.mp short
  cases Progress.steps_of_next next with
  | overtake version => simpa using room

/-- No other transaction takes more than its request took before. -/
theorem takes_kept (shown : (before.store.dossier id).Shows progress)
    (owned : (before.store.dossier id).OwnedBy request.terms)
    (next : progress.next event = some target) (submitted : event ≠ .submitted)
    (current : progress = .abandoned .inflight → ∀ version, event ≠ .acknowledged version) :
    target.takes request.days ≤ progress.takes request.days := by
  by_cases empty : progress.entries = []
  · -- Only a submission writes a first entry.
    have emptyToo : target.entries = [] := by
      by_contra holding
      exact (Progress.entries_of_next next holding).elim (absurd empty) submitted
    simp [Progress.takes, empty, emptyToo]
  · obtain ⟨entry, member, _⟩ := exists_entry_of_shown shown empty
    have positive : 0 < request.days := (owned.entries entry member).positive
    exact Progress.takes_of_next next positive.le submitted current

/-- A transaction that does not overspend a pair leaves what was not negative not negative. -/
theorem nonneg_of_moves (coherent : before.Coherent) (taken : before.step action = some after)
    (other : ∀ uuid now update, action ≠ .reconcileKey uuid now update)
    (heard : before.event id action = some event)
    (moves : Store.Moves id event before.store after.store) {employeeId locationId : String}
    (thrifty : ¬before.OverspendsOn (employeeId, locationId) action)
    (nonneg : 0 ≤ before.store.available employeeId locationId) :
    0 ≤ after.store.available employeeId locationId := by
  obtain ⟨progress, shown⟩ := coherent.shown id
  obtain ⟨target, next, reached⟩ := moves.own progress shown
  have known : target.status ≠ none := Progress.known_of_next next fun version same => by
    obtain ⟨uuid, now, update, reconciles, _⟩ := (event_cause (same ▸ heard)).absorbed
    exact other uuid now update reconciles
  obtain ⟨request, found⟩ : ∃ request, after.store.requests.find id = some request := by
    rw [← reached.status] at known
    simpa [Store.dossier, Option.ne_none_iff_exists'] using known
  have owned := Store.ownedBy_of_moves moves shown found
  rw [moves.available shown reached found]
  split
  · rename_i pair
    obtain ⟨rfl, rfl⟩ := Prod.mk.inj pair
    -- Only a submission and a late commit take more, and both find it available.
    by_cases submitted : event = .submitted
    · subst submitted
      have fits := takes_submitted taken heard next moves found
      omega
    · by_cases late : progress = .abandoned .inflight ∧ ∃ version, event = .acknowledged version
      · obtain ⟨rfl, version, rfl⟩ := late
        have fits := takes_overtaken coherent thrifty nonneg shown heard next moves found
        simp only [Progress.takes_eq] at fits ⊢
        omega
      · have less : target.takes request.days ≤ progress.takes request.days :=
          takes_kept shown owned next submitted fun same version heardToo =>
            late ⟨same, version, heardToo⟩
        omega
  · simpa using nonneg

end Moves

/-- What is available of a cached pair stays not negative in a step that does not overspend it. -/
theorem nonneg_of_step (coherent : before.Coherent) (taken : before.step action = some after)
    (other : ∀ uuid now update, action ≠ .reconcileKey uuid now update)
    {employeeId locationId : String}
    (thrifty : ¬before.OverspendsOn (employeeId, locationId) action)
    (cached : (before.store.balances.find (employeeId, locationId)).isSome = true)
    (nonneg : 0 ≤ before.store.available employeeId locationId) :
    0 ≤ after.store.available employeeId locationId := by
  cases step_change coherent taken with
  | moves id event about moves =>
    have heard : before.event id action = some event := by simp [event_of_subject about]
    exact nonneg_of_moves coherent taken other heard moves thrifty nonneg
  | claims now _ _ same =>
    rw [same]
    exact nonneg
  | loads _ _ row _ same =>
    -- A row that is read for a cached pair is ignored.
    obtain ⟨balance, found⟩ := Option.isSome_iff_exists.mp cached
    have kept : after.store.available employeeId locationId =
        before.store.available employeeId locationId := by
      rw [Store.available_eq, Store.available_eq, same]
      simp only [Store.cached, Store.insertBalance, Table.find_insertOrIgnore, found]
      split <;> rfl
    rwa [kept]
  | absorbs uuid now update reconciles _ _ => exact absurd reconciles (other uuid now update)
  | nothing _ same => rwa [same]

/-- A step is guarded when it does not spend what is not available. -/
theorem guarded_of_thrifty (coherent : before.Coherent) (taken : before.step action = some after)
    (thrifty : ¬before.Overspends action) : before.Guarded after action := by
  -- Only a reconciliation is judged by the event it records.
  have others (other : ∀ uuid now update, action ≠ .reconcileKey uuid now update) :
      ∀ employeeId locationId,
        (before.store.balances.find (employeeId, locationId)).isSome = true →
          0 ≤ before.store.available employeeId locationId →
            0 ≤ after.store.available employeeId locationId := fun _ _ cached nonneg =>
    nonneg_of_step coherent taken other (fun spends => thrifty ⟨_, spends⟩) cached nonneg
  cases action with
  | reconcileKey uuid now update => exact guarded_reconcileKey taken
  | operate operation => exact others (by simp)
  | answer result => exact others (by simp)
  | insertBalance employeeId locationId row => exact others (by simp)
  | crash => exact others (by simp)

/-- A step that spends what is not available leaves less than zero of a cached pair. -/
theorem Overspends.not_guarded (coherent : before.Coherent)
    (taken : before.step action = some after) (spends : before.Overspends action) :
    ¬before.Guarded after action := by
  obtain ⟨pair, spends⟩ := spends
  cases action with
  | operate operation =>
    cases operation with
    | record entryId eventId now =>
      obtain ⟨msg, ack, request, attempted, debit, found, rfl, given, nonneg, short⟩ := spends
      dsimp only [TimeOffRequest.pair] at nonneg short
      have held : msg ∈ before.processor.held := by simp [OutboxProcessor.held, attempted]
      obtain ⟨progress, shown⟩ := coherent.shown msg.requestId
      obtain ⟨delivering, again, foundAgain, status, _⟩ := coherent.of_held held shown
      cases found.symm.trans foundAgain
      have about : before.subject (.operate (.record entryId eventId now)) =
          some (msg.requestId, .acknowledged ack.version) := by
        simp [subject, attempted, Attempt.event]
      have moves := step_moves coherent taken about
      obtain ⟨target, next, reached⟩ := moves.own progress shown
      obtain ⟨moved, foundAfter, terms⟩ := moves.acts.terms request found
      simp only [TimeOffRequest.terms, Terms.mk.injEq] at terms
      obtain ⟨_, employee, location, days⟩ := terms
      -- The request is cancelled, so its days are free, and its commit takes them again.
      rw [debit] at delivering
      rcases Progress.delivering_debit delivering with rfl | rfl
      · exact absurd (Option.some.inj status).symm given
      · cases Progress.steps_of_next next with
        | overtake version =>
          have available := moves.available shown reached foundAfter request.employeeId
            request.locationId
          simp only [TimeOffRequest.pair, employee, location, days, Progress.takes_eq, if_true,
            Bool.false_eq_true, if_false] at available
          intro guarded
          have cached : (before.store.balances.find
              (request.employeeId, request.locationId)).isSome = true := by
            obtain ⟨entry, only, _⟩ := List.map_eq_singleton_iff.mp shown.entries
            have member : entry ∈ (before.store.dossier msg.requestId).entries := by simp [only]
            have pair := ((shown.owned request found).entries entry member).pair
            have loaded := coherent.loaded entry (Store.mem_entriesOf.mp member).1
            rw [pair] at loaded
            exact loaded
          have kept := guarded request.employeeId request.locationId cached nonneg
          omega
    | _ => exact absurd spends id
  | _ => exact absurd spends id

/--
Along a run every step is guarded, if and only if no acknowledgement of a given up debit finds too
few days available.
-/
theorem guarded_iff_thrifty {taken : List (Service × ServiceAction)} {final : Service}
    (trace : Service.Trace taken final) :
    (∀ before action after, (before, action) ∈ taken → before.step action = some after →
      before.Guarded after action) ↔
      ∀ before action, (before, action) ∈ taken → ¬before.Overspends action := by
  -- Each direction is that of one step, in the reachable state before it.
  constructor
  · intro guarded before action member
    obtain ⟨after, moved, _⟩ := Runs.Trace.step_of_mem trace member
    have coherent := (Service.Trace.reachable trace (Or.inr ⟨action, member⟩)).coherent
    exact fun spends =>
      spends.not_guarded coherent moved (guarded before action after member moved)
  · intro thrifty before action after member moved
    have coherent := (Service.Trace.reachable trace (Or.inr ⟨action, member⟩)).coherent
    exact guarded_of_thrifty coherent moved (thrifty before action member)

/--
Three days are held, claimed and given up, then held by a second request, and at last the debit of
the first one is acknowledged.
-/
def overspendingRun : List ServiceAction :=
  [.insertBalance "e" "l" ⟨"e", "l", 3, 1, 0⟩,
    .operate (.create "r" ⟨"e", "l", "2025-01-06", "2025-01-08", 3, none, true⟩ none),
    .operate (.submit "r" "hold"), .operate (.approve "r" "debit" 0), .operate (.drain 0),
    .operate (.cancel "r" "credit" 1),
    .operate (.create "s" ⟨"e", "l", "2025-02-03", "2025-02-05", 3, none, true⟩ none),
    .operate (.submit "s" "second"), .answer (.ok ⟨"hcm-ref-1", 0, 2, true, false⟩)]

/-- The record of that acknowledgement takes the available balance from zero to minus three. -/
theorem overspendingRun_goesNegative :
    ¬∀ before action after, Service.Reachable before → before.step action = some after →
      before.Guarded after action := by
  intro guarded
  -- The run is executed up to the record, which is the step that goes below zero.
  have executed : (run overspendingRun).map (fun service =>
      (service.store.balances.find ("e", "l")).isSome &&
        decide (0 ≤ service.store.available "e" "l") &&
        (service.step (.operate (.record "commit" "drift" 0))).any fun after =>
          decide (after.store.available "e" "l" < 0)) = some true := by decide
  obtain ⟨before, reached, broken⟩ := exists_reachable_of_run executed
  simp only [Bool.and_eq_true, decide_eq_true_eq, Option.any_eq_true] at broken
  obtain ⟨⟨cached, nonneg⟩, after, taken, negative⟩ := broken
  have kept := guarded before _ after reached taken "e" "l" cached nonneg
  omega

/-- The equivalence holds of the run that ends with that record. -/
theorem guarded_iff_thrifty_overspending : ∃ taken final, Service.Trace taken final ∧
    taken.map Prod.snd = overspendingRun ++ [.operate (.record "commit" "drift" 0)] ∧
      ((∀ before action after, (before, action) ∈ taken → before.step action = some after →
        before.Guarded after action) ↔
        ∀ before action, (before, action) ∈ taken → ¬before.Overspends action) := by
  -- The run with the record at its end is a run of the service.
  have executed : (run (overspendingRun ++ [.operate (.record "commit" "drift" 0)])).isSome =
      true := by decide
  obtain ⟨taken, final, trace, same⟩ := exists_trace_of_run executed
  exact ⟨taken, final, trace, same, guarded_iff_thrifty trace⟩

end Service

end TimeOff
