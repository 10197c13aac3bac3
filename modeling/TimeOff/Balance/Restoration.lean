import TimeOff.Balance.Promise
import TimeOff.Ingestion.Authenticity
import TimeOff.Lifecycle.Correspondence

/-! When the cancellation of a committed request gives back what its submission took. -/

namespace TimeOff

namespace Store

/-- The entries of a pair that belong to other requests. -/
def entriesOfOthers (store : Store) (pair : String × String) (id : String) :
    List BalanceLedgerEntry :=
  (store.entriesAt pair).filter fun entry => entry.requestId ≠ some id

variable {store after : Store} {id : String} {progress target : Progress}

/-- What is taken off a pair is taken by one request or by the others. -/
theorem available_split (store : Store) (employeeId locationId id : String) :
    store.available employeeId locationId = store.cached (employeeId, locationId) -
      ((store.entriesOf id).map (·.takenFrom (employeeId, locationId))).sum -
      ((store.entriesOfOthers (employeeId, locationId) id).map
        (·.takenFrom (employeeId, locationId))).sum := by
  have split : (store.ledger.rows.map (·.takenFrom (employeeId, locationId))).sum =
      ((store.entriesOf id).map (·.takenFrom (employeeId, locationId))).sum +
        ((store.entriesOfOthers (employeeId, locationId) id).map
          (·.takenFrom (employeeId, locationId))).sum := by
    simp only [entriesOf, entriesOfOthers, entriesAt, List.filter_filter, Grouping.sum_filter,
      ← List.sum_map_add]
    congr 1
    apply List.map_congr_left
    intro entry _
    -- An entry of another pair takes nothing off this one.
    by_cases own : entry.requestId = some id
    · simp [own]
    · by_cases at_ : entry.pair = (employeeId, locationId) <;>
        simp [own, at_, BalanceLedgerEntry.takenFrom]
  rw [available_eq, split]
  omega

/-- A request that takes nothing, now as before, leaves the change to the cached balance. -/
theorem available_sub {terms : Terms} (employeeId locationId : String)
    (others : after.entriesOfOthers (employeeId, locationId) id =
      store.entriesOfOthers (employeeId, locationId) id)
    (owned : (store.dossier id).OwnedBy terms) (shown : (store.dossier id).Shows progress)
    (ownedAfter : (after.dossier id).OwnedBy terms) (reached : (after.dossier id).Shows target)
    (nothing : progress.takes terms.days = 0) (nothingAfter : target.takes terms.days = 0) :
    after.available employeeId locationId - store.available employeeId locationId =
      after.cached (employeeId, locationId) - store.cached (employeeId, locationId) := by
  rw [available_split after employeeId locationId id,
    available_split store employeeId locationId id, others, sum_entriesOf owned shown,
    sum_entriesOf ownedAfter reached, nothing, nothingAfter]
  simp

end Store

/-- When one request caused all that was posted since a version, its messages account for it. -/
theorem History.since_of_caused {history : History} {k id : String} {version : Int}
    (caused : ∀ posting ∈ history.postings, posting.rowKey = k → version < posting.version →
      posting.cause = some (debitKey id) ∨ posting.cause = some (creditKey id)) :
    history.since k version =
      -(((history.changesBy (debitKey id)).map (·.owed k version)).sum +
        ((history.changesBy (creditKey id)).map (·.owed k version)).sum) := by
  rw [since_eq, ← groupSum_owed, Grouping.groupSum, Grouping.sum_filter]
  congr 2
  apply List.map_congr_left
  intro posting member
  -- A posting of another owner is not about the key, or not later.
  by_cases own : posting.owner = some id
  · simp [own]
  · have idle : ¬(posting.rowKey = k ∧ version < posting.version) := fun later =>
      own (Posting.owner_eq_some.mpr (caused posting member later.1 later.2))
    simp [own, Posting.owed, idle]

namespace System

variable {taken : List (System × Action)} {start final : System} {id : String}

/-- A balance that was attested on the way is attested at the end. -/
theorem Trace.attests (trace : System.Trace taken final) (visited : Runs.Visits taken final start)
    {k : String} {version balance : Int} (attested : start.Attests k version balance) :
    final.Attests k version balance :=
  Runs.Trace.persists (fun state => state.Attests k version balance) trace
    (fun _ _ _ _ _ moved here => here.step moved) visited attested

/-- A request that was stored on the way is stored at the end, with the same terms. -/
theorem Trace.terms (trace : System.Trace taken final) (visited : Runs.Visits taken final start)
    {request : TimeOffRequest} (found : start.service.store.requests.find id = some request) :
    ∃ kept, final.service.store.requests.find id = some kept ∧ kept.terms = request.terms := by
  refine Runs.Trace.persists (fun state => ∃ kept,
    state.service.store.requests.find id = some kept ∧ kept.terms = request.terms) trace ?_ visited
    ⟨request, found, rfl⟩
  intro before action after seen _ moved given
  obtain ⟨kept, here, terms⟩ := given
  -- A step of the other side does not touch the requests.
  rcases step_service moved with ⟨same, _⟩ | ⟨serviceAction, served, _⟩
  · exact ⟨kept, same ▸ here, terms⟩
  · obtain ⟨again, there, same⟩ :=
      Service.step_terms (System.Trace.service trace seen).coherent served here
    exact ⟨again, there, same.trans terms⟩

/-- What is posted after a moment is newer than the rows were then. -/
theorem Trace.postings_newer (trace : System.Trace taken final)
    (visited : Runs.Visits taken final start) :
    ∀ posting ∈ final.history.postings, posting ∈ start.history.postings ∨
      start.hcm.versionOf posting.rowKey < posting.version := by
  refine (Runs.Trace.persists (fun state =>
    (∀ k, start.hcm.versionOf k ≤ state.hcm.versionOf k) ∧
    ∀ posting ∈ state.history.postings, posting ∈ start.history.postings ∨
      start.hcm.versionOf posting.rowKey < posting.version) trace ?_ visited
    ⟨fun _ => le_rfl, fun _ member => Or.inl member⟩).2
  intro before action after _ _ moved given
  obtain ⟨risen, newer⟩ := given
  refine ⟨fun k => (risen k).trans (versionOf_step moved k), fun posting member => ?_⟩
  cases step_observation moved with
  | quiet _ _ same => exact newer posting (same ▸ member)
  | touched k cause touches _ postings =>
    rw [postings] at member
    rcases List.mem_append.mp member with old | new
    · exact newer posting old
    · -- A posting is made when the version of its row goes up.
      unfold postingBetween at new
      split at new
      · cases new
      · rename_i changed
        rw [List.mem_singleton.mp new]
        have up := versionOf_step moved k
        have earlier := risen k
        exact Or.inr (by simp only; omega)

/-- A request is submitted, committed and refunded, and its pair is left alone otherwise. -/
structure RoundTrip (taken : List (System × Action)) (final start : System)
    (request : TimeOffRequest) : Prop where
  -- The state just before the submission.
  submits : ∃ uuid, (start, .operate (.submit request.id uuid)) ∈ taken
  stored : final.service.store.requests.find request.id = some request
  cancelled : request.status = .cancelled
  credited : ∃ msg ∈ final.service.store.outbox.rows,
    msg.requestId = request.id ∧ msg.type = .credit ∧ msg.status = .done
  -- What changes the row on the other side from then on is the debit or the credit.
  alone : ∀ posting ∈ final.history.postings,
    posting.rowKey = key request.employeeId request.locationId →
      start.hcm.versionOf (key request.employeeId request.locationId) < posting.version →
        posting.cause = some (debitKey request.id) ∨ posting.cause = some (creditKey request.id)
  others : final.service.store.entriesOfOthers request.pair request.id =
    start.service.store.entriesOfOthers request.pair request.id

variable {request : TimeOffRequest}

/-- A request that was cancelled with a delivered credit has been refunded. -/
theorem RoundTrip.refunded (trip : RoundTrip taken final start request) {progress : Progress}
    (shown : (final.service.store.dossier request.id).Shows progress) :
    ∃ version absorbed, progress = .refunded version absorbed := by
  obtain ⟨msg, member, own, credit, done⟩ := trip.credited
  -- The delivered credit is listed, and only a refund lists one that is done.
  have listed := shown.message_mem (Store.mem_messagesOf.mpr ⟨member, own⟩)
  rw [OutboxMessage.view, credit] at listed
  exact Progress.eq_refunded ((shown.status_eq trip.stored).trans (congrArg some trip.cancelled))
    listed

/-- The run of a round trip passes through its start, where the request is submitted. -/
theorem RoundTrip.visited (trip : RoundTrip taken final start request) :
    Runs.Visits taken final start := by
  obtain ⟨uuid, member⟩ := trip.submits
  exact Or.inr ⟨_, member⟩

/-- The available balance changes over the round trip as much as the cached balance does. -/
theorem RoundTrip.available_sub (trip : RoundTrip taken final start request)
    (trace : System.Trace taken final) :
    (∃ old new, start.service.store.balances.find request.pair = some old ∧
      final.service.store.balances.find request.pair = some new ∧
      final.service.store.available request.employeeId request.locationId -
          start.service.store.available request.employeeId request.locationId =
        new.hcmBalance - old.hcmBalance) ∧
    (start.service.store.dossier request.id).Shows .draft := by
  obtain ⟨uuid, member⟩ := trip.submits
  have visited : Runs.Visits taken final start := Or.inr ⟨_, member⟩
  obtain ⟨after, moved, _⟩ := Runs.Trace.step_of_mem trace member
  obtain ⟨draft, old, found, status, _, _, cached⟩ := Service.submit_some (step_operate moved).1
  -- The terms of the request are those it was submitted with.
  obtain ⟨kept, again, terms⟩ := trace.terms visited found
  cases trip.stored.symm.trans again
  have pair : draft.pair = request.pair :=
    (TimeOffRequest.pair_of_terms terms).symm
  rw [pair] at cached
  have coherent := (System.Trace.service trace (Or.inl rfl)).coherent
  obtain ⟨progress, shown⟩ := (System.Trace.service trace visited).coherent.shown request.id
  obtain rfl := Progress.eq_draft ((shown.status_eq found).trans (congrArg some status))
  obtain ⟨target, reached⟩ := coherent.shown request.id
  obtain ⟨version, absorbed, rfl⟩ := trip.refunded reached
  obtain ⟨holder, holding, loaded⟩ :=
    coherent.cached_of_holding reached (by simp [Progress.entries])
  cases trip.stored.symm.trans holding
  obtain ⟨new, cachedAfter⟩ := Option.isSome_iff_exists.mp loaded
  have change := Store.available_sub request.employeeId request.locationId trip.others
    (terms ▸ shown.owned draft found) shown (reached.owned request trip.stored) reached
    (by simp) (by simp)
  refine ⟨⟨old, new, cached, cachedAfter, ?_⟩, shown⟩
  rw [change]
  simp only [TimeOffRequest.pair] at cached cachedAfter
  simp [Store.cached, cached, cachedAfter]

/-- The watermark of a cached pair is no lower at the end of a run. -/
theorem Trace.watermark_le (trace : System.Trace taken final)
    (visited : Runs.Visits taken final start) {pair : String × String} {old new : Balance}
    (cached : start.service.store.balances.find pair = some old)
    (cachedAfter : final.service.store.balances.find pair = some new) :
    old.lastReconciledVersion ≤ new.lastReconciledVersion := by
  -- The cached row is kept along the run, by rows that succeed it.
  obtain ⟨again, found, above⟩ := Runs.Trace.persists (fun state => ∃ balance,
    state.service.store.balances.find pair = some balance ∧
      old.lastReconciledVersion ≤ balance.lastReconciledVersion) trace
    (by
      intro before action after seen _ moved given
      obtain ⟨balance, here, above⟩ := given
      obtain ⟨next, there, succeeds⟩ :=
        step_succeeds (System.Trace.service trace seen).coherent moved here
      exact ⟨next, there, above.trans succeeds.watermark⟩) visited ⟨old, cached, le_rfl⟩
  cases found.symm.trans cachedAfter
  exact above

/-- The acknowledgements of the two messages of a round trip, in the order of their versions. -/
theorem RoundTrip.acknowledged (trip : RoundTrip taken final start request)
    (trace : System.Trace taken final) (honest : Honest final.hcm)
    (submitted : (start.service.store.dossier request.id).Shows .draft) :
    ∃ debit credit, final.hcm.applied.find (debitKey request.id) = some debit ∧
      final.hcm.applied.find (creditKey request.id) = some credit ∧
      debit.ack.version < credit.ack.version ∧
      start.hcm.versionOf (key request.employeeId request.locationId) < debit.ack.version ∧
      final.history.changesBy (debitKey request.id) =
        [request.posting .debit debit.ack.version] ∧
      final.history.changesBy (creditKey request.id) =
        [request.posting .credit credit.ack.version] := by
  have visited := trip.visited
  have posted := (trace.reached (Or.inl rfl)).posted
  have linked := (trace.reached (Or.inl rfl)).linked
  obtain ⟨progress, shown⟩ :=
    (System.Trace.service trace (Or.inl rfl)).coherent.shown request.id
  obtain ⟨version, absorbed, rfl⟩ := trip.refunded shown
  obtain ⟨credit, credited⟩ := Option.isSome_iff_exists.mp
    ((linked.coupled _ _ shown).credited version absorbed rfl)
  obtain ⟨debit, debited, earlier⟩ := posted.ordered request.id credit credited
    (honest.effective credit (Table.mem_of_find credited))
  have debits : final.history.changesBy (OutboxType.debit.key request.id) = _ :=
    changes_of_acknowledged posted honest trip.stored debited
  have credits : final.history.changesBy (OutboxType.credit.key request.id) = _ :=
    changes_of_acknowledged posted honest trip.stored credited
  simp only [OutboxType.key] at debits credits
  refine ⟨debit, credit, debited, credited, earlier, ?_, debits, credits⟩
  -- A draft has sent nothing, so the debit was posted after the submission.
  have listed : request.posting .debit debit.ack.version ∈
      final.history.changesBy (debitKey request.id) := by simp [debits]
  have postedLater := (List.mem_filter.mp listed).1
  rcases trace.postings_newer visited _ postedLater with old | newer
  · have unsent := ((trace.reached visited).linked.coupled _ _ submitted).unsent .debit id
    have nothing := (trace.reached visited).posted.ineffective (debitKey request.id)
      fun entry found => by
        simp [show start.hcm.applied.find (debitKey request.id) = none from unsent] at found
    have still : request.posting .debit debit.ack.version ∈
        start.history.changesBy (debitKey request.id) :=
      List.mem_filter.mpr ⟨old, (List.mem_filter.mp listed).2⟩
    simp [nothing] at still
  · exact newer

/-- What the debit and the credit of a request have taken after a version. -/
theorem owed_roundTrip (request : TimeOffRequest) (debit credit version : Int) :
    (request.posting .debit debit).owed (key request.employeeId request.locationId) version +
        (request.posting .credit credit).owed (key request.employeeId request.locationId) version =
      (if version < debit then request.days else 0) -
        if version < credit then request.days else 0 := by
  simp only [owed_posting, OutboxType.signed, true_and, neg_neg]
  split_ifs <;> omega

/-- The balances cached at the two ends are explained by the same row of the other side. -/
theorem RoundTrip.restored_iff_since (trip : RoundTrip taken final start request)
    (trace : System.Trace taken final) :
    final.service.store.available request.employeeId request.locationId =
        start.service.store.available request.employeeId request.locationId ↔
      final.history.since (key request.employeeId request.locationId)
          (start.service.store.watermark request.pair) =
        final.history.since (key request.employeeId request.locationId)
          (final.service.store.watermark request.pair) := by
  have visited := trip.visited
  obtain ⟨⟨old, new, cached, cachedAfter, change⟩, _⟩ := trip.available_sub trace
  have mark : start.service.store.watermark request.pair = old.lastReconciledVersion :=
    Store.watermark_of_find cached
  have markAfter : final.service.store.watermark request.pair = new.lastReconciledVersion :=
    Store.watermark_of_find cachedAfter
  have named (balance : Balance) (own : balance.pair = request.pair) :
      key balance.employeeId balance.locationId = key request.employeeId request.locationId := by
    obtain ⟨employee, location⟩ := Prod.mk.inj own
    rw [employee, location]
  -- What was attested at the submission is attested at the end as well.
  have earlier := trace.attests visited
    ((trace.reached visited).explained.cached old (Table.mem_of_find cached))
  have later := (trace.reached (Or.inl rfl)).explained.cached new (Table.mem_of_find cachedAfter)
  rw [named old (Table.key_of_find cached)] at earlier
  rw [named new (Table.key_of_find cachedAfter)] at later
  have balances := earlier.explains.symm.trans later.explains
  rw [mark, markAfter]
  omega

/-- After the submission only the two messages of the request have changed the row. -/
theorem RoundTrip.since_eq (trip : RoundTrip taken final start request) {debit credit version : Int}
    (debits : final.history.changesBy (debitKey request.id) = [request.posting .debit debit])
    (credits : final.history.changesBy (creditKey request.id) = [request.posting .credit credit])
    (above : start.hcm.versionOf (key request.employeeId request.locationId) ≤ version) :
    final.history.since (key request.employeeId request.locationId) version =
      -((if version < debit then request.days else 0) -
        if version < credit then request.days else 0) := by
  rw [History.since_of_caused fun posting member named newer =>
    trip.alone posting member named (Int.lt_of_le_of_lt above newer), debits, credits]
  -- Each of the two has posted once.
  simp only [List.map_cons, List.map_nil, List.sum_cons, List.sum_nil, add_zero]
  rw [owed_roundTrip]

/--
Over a round trip the available balance is restored exactly when the changes on the other side since
the version cached at the submission are those since the version cached at the end.

If the cached balance was current at the submission, that is when the newest snapshot taken over by
the end does not lie between the debit and the credit.
-/
theorem restored_iff (trace : System.Trace taken final)
    (real : ∀ before action, (before, action) ∈ taken → before.WithoutGhosts action)
    (trip : RoundTrip taken final start request) :
    (final.service.store.available request.employeeId request.locationId =
          start.service.store.available request.employeeId request.locationId ↔
        final.history.since (key request.employeeId request.locationId)
            (start.service.store.watermark request.pair) =
          final.history.since (key request.employeeId request.locationId)
            (final.service.store.watermark request.pair)) ∧
      (start.service.store.watermark request.pair =
          start.hcm.versionOf (key request.employeeId request.locationId) →
        ∃ debit credit, final.hcm.applied.find (debitKey request.id) = some debit ∧
          final.hcm.applied.find (creditKey request.id) = some credit ∧
          (final.service.store.available request.employeeId request.locationId =
              start.service.store.available request.employeeId request.locationId ↔
            ¬(debit.ack.version ≤ final.service.store.watermark request.pair ∧
              final.service.store.watermark request.pair < credit.ack.version))) := by
  have reachedFinal : System.Reachable WithoutGhosts final := Runs.Trace.reachable trace real
  have general := trip.restored_iff_since trace
  refine ⟨general, fun current => ?_⟩
  have visited := trip.visited
  obtain ⟨⟨old, new, cached, cachedAfter, _⟩, submitted⟩ := trip.available_sub trace
  obtain ⟨debit, credit, debited, credited, ordered, afterSubmit, debits, credits⟩ :=
    trip.acknowledged trace (honest_of_reachable reachedFinal) submitted
  refine ⟨debit, credit, debited, credited, ?_⟩
  have positive : 0 < request.days := by
    obtain ⟨progress, shown⟩ :=
      (System.Trace.service trace (Or.inl rfl)).coherent.shown request.id
    have acknowledged : final.hcm.applied.find (OutboxType.debit.key request.id) = some debit :=
      debited
    exact days_pos_of_applied trip.stored shown (reachedFinal.linked.coupled _ _ shown) acknowledged
  -- The watermark has not gone down, so both ends are past what was known at the submission.
  have mark : start.service.store.watermark request.pair = old.lastReconciledVersion :=
    Store.watermark_of_find cached
  have markAfter : final.service.store.watermark request.pair = new.lastReconciledVersion :=
    Store.watermark_of_find cachedAfter
  have rising := trace.watermark_le visited cached cachedAfter
  rw [general, trip.since_eq debits credits current.ge, trip.since_eq debits credits (by omega),
    current]
  split_ifs <;> omega

/-- What comes before the submission: a provisioned balance that is cached, and a draft. -/
def draftRun : List Action :=
  [.seed "e" "l" 10 0, .readBalance "e" "l" 0, .insertBalance 0,
    .operate (.create "r" ⟨"e", "l", "2025-01-06", "2025-01-08", 3, none, true⟩ none)]

/-- The snapshot of the debit is ingested before the cancellation, and that of the credit is not. -/
def refundRun : List Action :=
  [.operate (.approve "r" "debit" 0), .operate (.drain 0), .deliver .answered 0,
    .operate (.record "commit" "drift" 0), .ingest "event" 0 ⟨"e", "l", 7, 2, 0⟩,
    .operate (.cancel "r" "credit" 1), .operate (.drain 1), .deliver .answered 1,
    .operate (.record "unused" "drift" 1)]

/-- Those two runs with the submission between them are a round trip that ends three days short. -/
theorem exists_roundTrip : ∃ taken final start request, System.Trace taken final ∧
    (∀ before action, (before, action) ∈ taken → before.WithoutGhosts action) ∧
    RoundTrip taken final start request ∧
    Store.watermark start.service.store request.pair =
      HcmCore.versionOf start.hcm (key request.employeeId request.locationId) ∧
    Store.available final.service.store request.employeeId request.locationId ≠
      Store.available start.service.store request.employeeId request.locationId := by
  have executed : ((run (fun _ _ => True) draftRun).bind fun start =>
      (start.step (.operate (.submit "r" "hold"))).bind fun submitted =>
        (Runs.run step (fun _ _ => true) submitted refundRun).map fun final =>
          (final.service.store.requests.find "r").any fun request =>
            request.status = .cancelled ∧
            (final.service.store.outbox.rows.any fun msg =>
              msg.requestId = request.id ∧ msg.type = .credit ∧ msg.status = .done) ∧
            (final.history.postings.all fun posting =>
              posting.rowKey = key request.employeeId request.locationId →
                start.hcm.versionOf (key request.employeeId request.locationId) <
                    posting.version →
                  posting.cause = some (debitKey request.id) ∨
                    posting.cause = some (creditKey request.id)) ∧
            final.service.store.entriesOfOthers request.pair request.id =
              start.service.store.entriesOfOthers request.pair request.id ∧
            start.service.store.watermark request.pair =
              start.hcm.versionOf (key request.employeeId request.locationId) ∧
            final.service.store.available request.employeeId request.locationId ≠
              start.service.store.available request.employeeId request.locationId) =
      some true := by
    decide +kernel
  obtain ⟨start, drafted, executed⟩ := Option.bind_eq_some_iff.mp executed
  obtain ⟨submitted, moved, executed⟩ := Option.bind_eq_some_iff.mp executed
  obtain ⟨final, ended, passed⟩ := Option.map_eq_some_iff.mp executed
  obtain ⟨first, traceStart, firstActions, _⟩ := Runs.trace_of_run .start drafted
  obtain ⟨last, trace, lastActions, _⟩ := Runs.trace_of_run (.step traceStart moved) ended
  obtain ⟨request, found, passed⟩ := (Option.any_eq_true _ _).mp passed
  obtain ⟨cancelled, credited, alone, others, current, short⟩ := of_decide_eq_true passed
  have named : request.id = "r" := Table.key_of_find found
  refine ⟨_, final, start, request, trace, ?_, ⟨⟨"hold", ?_⟩, named ▸ found, cancelled, ?_, ?_,
    others⟩, current, short⟩
  · -- No step of the run configures a fault.
    intro before action member
    have listed : action ∈ (draftRun ++ [.operate (.submit "r" "hold")]) ++ refundRun := by
      have mapped := List.mem_map_of_mem (f := Prod.snd) member
      simpa [firstActions, lastActions] using mapped
    simp only [draftRun, refundRun, List.cons_append, List.nil_append, List.mem_cons,
      List.not_mem_nil, or_false] at listed
    rcases listed with rfl | rfl | rfl | rfl | rfl | rfl | rfl | rfl | rfl | rfl | rfl | rfl | rfl |
      rfl <;> exact trivial
  · rw [named]
    simp
  · simpa using credited
  · exact fun posting posted => of_decide_eq_true (List.all_eq_true.mp alone posting posted)

/-- So the cancellation does not always give back what the submission took. -/
theorem roundTrip_short :
    ¬∀ taken final start request, System.Trace taken final →
      (∀ before action, (before, action) ∈ taken → before.WithoutGhosts action) →
        RoundTrip taken final start request →
          Store.watermark start.service.store request.pair =
            HcmCore.versionOf start.hcm (key request.employeeId request.locationId) →
          Store.available final.service.store request.employeeId request.locationId =
            Store.available start.service.store request.employeeId request.locationId := by
  intro restored
  obtain ⟨taken, final, start, request, trace, real, trip, current, short⟩ := exists_roundTrip
  exact short (restored taken final start request trace real trip current)

/-- The equivalence holds of that round trip. -/
theorem restored_iff_roundTrip : ∃ taken final start request, RoundTrip taken final start request ∧
    (Store.available final.service.store request.employeeId request.locationId =
        Store.available start.service.store request.employeeId request.locationId ↔
      History.since final.history (key request.employeeId request.locationId)
          (Store.watermark start.service.store request.pair) =
        History.since final.history (key request.employeeId request.locationId)
          (Store.watermark final.service.store request.pair)) := by
  obtain ⟨taken, final, start, request, trace, real, trip, _, _⟩ := exists_roundTrip
  exact ⟨taken, final, start, request, trip, (restored_iff trace real trip).1⟩

end System

end TimeOff
