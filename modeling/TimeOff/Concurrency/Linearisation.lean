import Mathlib.Data.List.Permutation
import TimeOff.Concurrency.Transitions
import TimeOff.Library.Turns

/-! Careful calls come to what they come to one after the other, in the order of their saves. -/

namespace TimeOff

open Programs

namespace Decision

variable {ι : Type} {id : String} {decisions : ι → Decision} {start store state : Store}
  {request : TimeOffRequest} {decision : Decision}

/-- Before it saves its request, a call only releases holds and stops messages. -/
theorem mem_before {statement : Statement} (own : request.id = id)
    (member : statement ∈ decision.before request) :
    statement = .releaseActive .reserve id ∨ statement = .cancelPending id := by
  -- An approval writes nothing before its save, and only a cancellation stops messages.
  subst own
  cases decision with
  | approve uuid now => cases member
  | reject => exact Or.inl (List.mem_singleton.mp member)
  | cancel uuid now =>
    simp only [before] at member
    split at member
    · cases member
    · split at member
      · simpa using member
      · exact Or.inl (List.mem_singleton.mp member)

/-- After the save, a call enqueues at most one message, for a request that has moved on. -/
theorem after_eq (legal : canTransition request.status decision.action = true) :
    decision.after request = [] ∨ ∃ uuid now input,
      decision.after request = [.enqueue uuid now input] ∧
        ((request.moved decision.action).status = .approved ∨
          (request.moved decision.action).status = .cancellationPending) := by
  cases decision with
  | approve uuid now =>
    refine Or.inr ⟨_, _, _, rfl, Or.inl ?_⟩
    have pending := (canTransition_approve _).mp legal
    simp [TimeOffRequest.moved, action, pending, nextState, transitions]
  | reject => exact Or.inl rfl
  | cancel uuid now =>
    unfold after
    -- A cancellation enqueues a credit only for what has been committed.
    by_cases committed : request.status = .committed
    · refine Or.inr ⟨_, _, _, if_pos committed, Or.inr ?_⟩
      simp [TimeOffRequest.moved, action, committed, nextState, transitions]
    · exact Or.inl (if_neg committed)

/-- Only a cancellation that stops messages finds its request approved. -/
theorem stops_of_owing (legal : canTransition request.status decision.action = true)
    (owing : request.status = .approved ∨ request.status = .cancellationPending) :
    .cancelPending request.id ∈ decision.before request := by
  -- The other actions are legal in other states only.
  cases decision with
  | approve uuid now =>
    have pending := (canTransition_approve _).mp legal
    simp [pending] at owing
  | reject =>
    have pending := (canTransition_reject _).mp legal
    simp [pending] at owing
  | cancel uuid now =>
    have source := (canTransition_cancel _).mp legal
    rcases owing with approved | cancelling
    · simp [before, approved]
    · simp [cancelling] at source

end Decision

/-- Statements run one after the other leave what the last one leaves. -/
theorem Store.after_append (store : Store) (first second : List Statement) :
    store.after (first ++ second) = (store.after first).after second :=
  List.foldl_append ..

/--
How far the calls have come at some point of a run.

Some have been served, one may be between its check and its save and have made some writes, and
one may have saved its request and still have to enqueue its message.
-/
structure Standing (ι : Type) where
  order : List ι
  active : Option ι
  done : List Statement
  debt : Option (ι × Statement)

/-- The statements that are still owed. -/
def Standing.owed {ι : Type} (standing : Standing ι) : List Statement :=
  standing.debt.toList.map Prod.snd

namespace Decision

variable {ι : Type} (id : String) (decisions : ι → Decision) (start : Store)

/-- The result of a call that is served after some others. -/
def turn (earlier : List ι) (call : ι) : CallResult :=
  ((decisions call).serve id (inTurn id decisions start earlier)).1

/-- How far one call has come. -/
inductive Stage (standing : Standing ι) (state : Store) (call : ι) :
    Thread String ι Statement.Answer CallResult → Prop
  | fresh : call ∉ standing.order → standing.active ≠ some call →
      (∀ statement, standing.debt ≠ some (call, statement)) →
      Stage standing state call (.outside ((decisions call).call id))
  | unsaved (request : TimeOffRequest) (rest : List Statement) : call ∉ standing.order →
      standing.active = some call → (∀ statement, standing.debt ≠ some (call, statement)) →
      state.requests.find id = some request →
      canTransition request.status (decisions call).action = true →
      (decisions call).before request = standing.done ++ rest →
      Stage standing state call (.outside (sends (.done ((decisions call).moved request))
        (rest ++ (decisions call).save request :: (decisions call).after request)))
  | owing (result : CallResult) (statement : Statement) :
      Turns.Had (turn id decisions start) standing.order call result → standing.active ≠ some call →
      standing.debt = some (call, statement) →
      Stage standing state call (.outside (sends (.done result) [statement]))
  | answered (result : CallResult) :
      Turns.Had (turn id decisions start) standing.order call result → standing.active ≠ some call →
      (∀ statement, standing.debt ≠ some (call, statement)) →
      Stage standing state call (.outside (.ret (.done result)))
  | finished (result : CallResult) :
      Turns.Had (turn id decisions start) standing.order call result → standing.active ≠ some call →
      (∀ statement, standing.debt ≠ some (call, statement)) →
      Stage standing state call (.finished result)

/-- The calls are as far as if those in the order had been served one after the other. -/
structure Linear (standing : Standing ι)
    (threads : Threads Store String ι Statement.Answer CallResult) : Prop where
  nodup : standing.order.Nodup
  stands : ∀ call, Stage id decisions start standing threads.state call (threads.thread call)
  idle : standing.active = none → standing.done = []
  done : ∀ statement ∈ standing.done,
    statement = .releaseActive .reserve id ∨ statement = .cancelPending id
  owes : ∀ call statement, standing.debt = some (call, statement) →
    ∃ uuid now input, statement = .enqueue uuid now input
  stopped : .cancelPending id ∈ standing.done → standing.debt = none
  -- Whoever owes a message has moved the request to a state that few actions leave.
  moved : standing.debt ≠ none → ∃ request, threads.state.requests.find id = some request ∧
    (request.status = .approved ∨ request.status = .cancellationPending)
  -- What is owed completes the state, and what is done runs ahead of the order.
  meets : threads.state.after standing.owed =
    (inTurn id decisions start standing.order).after standing.done

section Steps

variable {id decisions start} {standing next : Standing ι} {state later : Store} {call other : ι}
  {request : TimeOffRequest}
  {thread : Thread String ι Statement.Answer CallResult}
  {threads : Threads Store String ι Statement.Answer CallResult}

/-- The last call of an order is served after all the others. -/
theorem inTurn_snoc (order : List ι) (call : ι) :
    inTurn id decisions start (order ++ [call]) =
      ((decisions call).serve id (inTurn id decisions start order)).2 := by
  simp [inTurn]

/-- Statements that write no request leave the requests. -/
theorem requests_after {statements : List Statement}
    (quiet : ∀ statement ∈ statements, ∀ store,
      (statement.exec store).2.requests = store.requests) (store : Store) :
    (store.after statements).requests = store.requests := by
  -- The induction is on the statements, each of which leaves the requests.
  induction statements generalizing store with
  | nil => rfl
  | cons statement rest ih =>
    exact (ih (fun other member => quiet other (List.mem_cons_of_mem _ member)) _).trans
      (quiet statement List.mem_cons_self store)

/-- What is done and what is owed concerns no request. -/
theorem Linear.requests (linear : Linear id decisions start standing threads) :
    threads.state.requests = (inTurn id decisions start standing.order).requests := by
  -- What is owed is a message, and what is done is a release or a stop.
  have owed : (threads.state.after standing.owed).requests = threads.state.requests := by
    refine requests_after (fun statement member store => ?_) _
    obtain ⟨⟨call, _⟩, among, rfl⟩ := List.mem_map.mp member
    obtain ⟨_, _, _, rfl⟩ := linear.owes call _ (Option.mem_toList.mp among)
    rfl
  rw [← owed, linear.meets]
  refine requests_after (fun statement member store => ?_) _
  rcases linear.done statement member with rfl | rfl
  · rfl
  · rfl

/-- A call stays as far as it is while another one goes on. -/
theorem Stage.keep (stage : Stage id decisions start standing state other thread)
    (absent : other ∉ standing.order → other ∉ next.order)
    (had : ∀ result, Turns.Had (turn id decisions start) standing.order other result →
      Turns.Had (turn id decisions start) next.order other result)
    (active : standing.active = some other → next.active = some other ∧
      next.done = standing.done ∧ later.requests = state.requests)
    (idle : standing.active ≠ some other → next.active ≠ some other)
    (debt : ∀ statement, next.debt = some (other, statement) ↔
      standing.debt = some (other, statement)) :
    Stage id decisions start next later other thread := by
  have clear (none_ : ∀ statement, standing.debt ≠ some (other, statement))
      (statement : Statement) : next.debt ≠ some (other, statement) :=
    fun same => none_ statement ((debt statement).mp same)
  -- Each stage relies on a few of the fields, which the step leaves to this call.
  cases stage with
  | fresh missing inactive clean => exact .fresh (absent missing) (idle inactive) (clear clean)
  | unsaved request rest missing isActive clean found legal before =>
    obtain ⟨stillActive, done, requests⟩ := active isActive
    exact .unsaved request rest (absent missing) stillActive (clear clean) (requests ▸ found)
      legal (done ▸ before)
  | owing result statement turn inactive owes =>
    exact .owing result statement (had result turn) (idle inactive) ((debt statement).mpr owes)
  | answered result turn inactive clean =>
    exact .answered result (had result turn) (idle inactive) (clear clean)
  | finished result turn inactive clean =>
    exact .finished result (had result turn) (idle inactive) (clear clean)

/-- Nobody owes a message when the active call saves its request. -/
theorem Linear.debt_eq_none (linear : Linear id decisions start standing threads)
    {request : TimeOffRequest} (found : threads.state.requests.find id = some request)
    (legal : canTransition request.status (decisions call).action = true)
    (before : (decisions call).before request = standing.done) : standing.debt = none := by
  by_contra owing
  obtain ⟨other, foundToo, status⟩ := linear.moved owing
  cases found.symm.trans foundToo
  -- The request is approved, so the call has stopped its messages.
  have stops := stops_of_owing legal status
  rw [before, Table.key_of_find found] at stops
  exact owing (linear.stopped stops)

/-- While no call is unsaved, none is active. -/
theorem Linear.active_eq_none (linear : Linear id decisions start standing threads)
    (saved : ∀ other, (threads.thread other).unsaved = false) : standing.active = none := by
  by_contra some_
  obtain ⟨call, active⟩ := Option.ne_none_iff_exists'.mp some_
  have stage := linear.stands call
  have quiet := saved call
  generalize threads.thread call = thread at stage quiet
  cases stage with
  | unsaved request rest _ _ _ found _ before =>
    -- What comes next is one of the writes up to the save.
    cases rest with
    | nil => cases quiet
    | cons statement more =>
      have member : statement ∈ (decisions call).before request := by simp [before]
      rcases mem_before (Table.key_of_find found) member with rfl | rfl
      · cases quiet
      · cases quiet
  | fresh _ inactive => exact inactive active
  | owing _ _ _ inactive => exact inactive active
  | answered _ _ inactive => exact inactive active
  | finished _ _ inactive => exact inactive active

/-- While no call owes a message, there is no debt. -/
theorem Linear.debt_eq_none_of_paid (linear : Linear id decisions start standing threads)
    (paid : ∀ other, (threads.thread other).owing = false) : standing.debt = none := by
  by_contra some_
  obtain ⟨⟨call, statement⟩, owes⟩ := Option.ne_none_iff_exists'.mp some_
  have stage := linear.stands call
  have quiet := paid call
  generalize threads.thread call = thread at stage quiet
  -- The debt is that of the one call that still has to enqueue its message.
  cases stage with
  | owing result other _ _ owesToo =>
    obtain ⟨_, _, _, rfl⟩ := linear.owes call other owesToo
    cases quiet
  | fresh _ _ clean => exact clean _ owes
  | unsaved _ _ _ _ clean => exact clean _ owes
  | answered _ _ _ clean => exact clean _ owes
  | finished _ _ _ clean => exact clean _ owes

/-- Before any call has begun, nobody has had a turn. -/
theorem linear_start : Linear id decisions start ⟨[], none, [], none⟩
    (Threads.start start fun call => (decisions call).call id) where
  -- Every list is empty.
  nodup := List.nodup_nil
  stands call := .fresh (by simp) (by simp) (by simp)
  idle _ := rfl
  done := by simp
  owes := by simp
  stopped _ := rfl
  moved owing := absurd rfl owing
  meets := rfl

/-- When all calls have finished, they have all been served one after the other. -/
theorem Linear.finished (linear : Linear id decisions start standing threads)
    (finished : ∀ call, ∃ result, threads.thread call = .finished result) :
    threads.state = inTurn id decisions start standing.order ∧ ∀ call,
      ∃ result, threads.thread call = .finished result ∧
        Turns.Had (turn id decisions start) standing.order call result := by
  have active : standing.active = none := linear.active_eq_none fun call => by
    obtain ⟨result, ended⟩ := finished call
    simp [ended, Thread.unsaved, Thread.head]
  have debt : standing.debt = none := linear.debt_eq_none_of_paid fun call => by
    obtain ⟨result, ended⟩ := finished call
    simp [ended, Thread.owing, Thread.head]
  -- With nothing done ahead and nothing owed, the state is that of the order.
  refine ⟨?_, fun call => ?_⟩
  · have meets := linear.meets
    simpa [linear.idle active, Standing.owed, debt, Store.after] using meets
  · obtain ⟨result, ended⟩ := finished call
    have stage := linear.stands call
    rw [ended] at stage
    cases stage with
    | finished _ had => exact ⟨result, ended, had⟩

/-- In its turn, a call that passes its check makes all its writes. -/
theorem Linear.served (linear : Linear id decisions start standing threads)
    (found : threads.state.requests.find id = some request)
    (legal : canTransition request.status (decisions call).action = true) :
    (decisions call).serve id (inTurn id decisions start standing.order) =
      ((decisions call).moved request,
        (inTurn id decisions start standing.order).after ((decisions call).writes request)) := by
  -- The request that was checked is the one that the calls in the order have left.
  rw [serve_eq, ← linear.requests, found]
  exact if_pos legal

/-- The other calls stay as far as they are when the active one saves its request. -/
theorem Linear.others_save (linear : Linear id decisions start standing threads)
    (active : standing.active = some call) (clean : standing.debt = none)
    {debt : Option (ι × Statement)}
    (own : ∀ other statement, other ≠ call → debt ≠ some (other, statement))
    (other : ι) (different : other ≠ call) :
    Stage id decisions start ⟨standing.order ++ [call], none, [], debt⟩ later other
      (threads.thread other) := by
  refine (linear.stands other).keep (fun absent => ?_) (fun _ had => had.snoc different)
    (fun isActive => ?_) (fun _ => by simp) fun statement => ?_
  · simp [absent, different]
  · -- The active call is the one that saves.
    exact absurd (Option.some.inj (isActive.symm.trans active)) different
  · simp [clean, own other statement different]

/-- Once the message of the active call is enqueued too, its turn is complete. -/
theorem Linear.meets_save (linear : Linear id decisions start standing threads)
    (clean : standing.debt = none)
    (found : threads.state.requests.find id = some request)
    (legal : canTransition request.status (decisions call).action = true)
    (before : (decisions call).before request = standing.done) :
    (((decisions call).save request).exec threads.state).2.after ((decisions call).after request) =
      inTurn id decisions start (standing.order ++ [call]) := by
  -- What was done before the save is owed by no one else, so the save completes its decision.
  have saved : threads.state =
      (inTurn id decisions start standing.order).after standing.done := by
    rw [← linear.meets]
    simp [Standing.owed, clean, Store.after]
  rw [inTurn_snoc, linear.served found legal, writes, before, Store.after_append, ← saved]
  rfl

/-- The save that a message follows leaves the request in the state it was moved to. -/
theorem find_save (decision : Decision) (found : state.requests.find id = some request) :
    ∃ written, ((decision.save request).exec state).2.requests.find id = some written ∧
      written.status = (request.moved decision.action).status := by
  have own : request.id = id := Table.key_of_find found
  refine ⟨{ request with
    status := (request.moved decision.action).status
    hcmRef := (none : Option String).or request.hcmRef, version := request.version + 1 }, ?_, rfl⟩
  -- The update is of the row that was checked.
  simp [Decision.save, Statement.exec, Store.writeRequest, Table.find_update, found, own]

variable [DecidableEq ι]

/-- All calls stand, when one of them has gone on and the others are kept. -/
theorem stands_update
    (own : Stage id decisions start next later call thread)
    (others : ∀ other, other ≠ call →
      Stage id decisions start next later other (threads.thread other)) (other : ι) :
    Stage id decisions start next later other
      (Function.update threads.thread call thread other) := by
  -- Only the call that has gone on stands elsewhere.
  by_cases same : other = call
  · subst same
    rwa [Function.update_self]
  · rw [Function.update_of_ne same]
    exact others other same

/-- A call that is refused has its turn at once. -/
theorem Linear.refuse (linear : Linear id decisions start standing threads)
    (missing : call ∉ standing.order) (inactive : standing.active ≠ some call)
    (clean : ∀ statement, standing.debt ≠ some (call, statement)) {error : ServiceError}
    (refused : (decisions call).serve id (inTurn id decisions start standing.order) =
      (.refused error, inTurn id decisions start standing.order)) :
    Linear id decisions start { standing with order := standing.order ++ [call] }
      (threads.set call (.outside (.ret (.done (.refused error))))) := by
  have nodup := Turns.nodup_snoc linear.nodup missing
  refine ⟨nodup, stands_update ?_ fun other different => ?_, linear.idle, linear.done,
    linear.owes, linear.stopped, linear.moved, ?_⟩
  · refine .answered _ (.last nodup ?_) inactive clean
    -- Its answer is the one it would have had in its turn.
    rw [turn, refused]
  · refine (linear.stands other).keep (fun absent => by simp [absent, different])
      (fun _ had => had.snoc different) (fun isActive => ⟨isActive, rfl, rfl⟩)
      (fun inactive => inactive) fun _ => Iff.rfl
  · -- A refusal writes nothing, so the turn changes nothing.
    rw [inTurn_snoc, refused]
    exact linear.meets

/-- A call that passes its check becomes the active one. -/
theorem Linear.check (linear : Linear id decisions start standing threads)
    (missing : call ∉ standing.order) (inactive : standing.active = none)
    (clean : ∀ statement, standing.debt ≠ some (call, statement)) {request : TimeOffRequest}
    (found : threads.state.requests.find id = some request)
    (legal : canTransition request.status (decisions call).action = true) :
    Linear id decisions start { standing with active := some call }
      (threads.set call (.outside
        (sends (.done ((decisions call).moved request)) ((decisions call).writes request)))) := by
  have done := linear.idle inactive
  refine ⟨linear.nodup, stands_update ?_ fun other different => ?_, fun none_ => ?_, linear.done,
    linear.owes, linear.stopped, linear.moved, linear.meets⟩
  · refine .unsaved request _ missing rfl clean found legal ?_
    show _ = standing.done ++ _
    -- Nothing is done yet, so all its writes are left.
    rw [done, List.nil_append]
  · refine (linear.stands other).keep (fun absent => absent) (fun _ had => had)
      (fun isActive => ?_) (fun _ same => different (Option.some.inj same).symm) fun _ => Iff.rfl
    -- There was no active call before.
    rw [inactive] at isActive
    cases isActive
  · cases none_

/-- The active call writes ahead of its save. -/
theorem Linear.write (linear : Linear id decisions start standing threads)
    (missing : call ∉ standing.order) (active : standing.active = some call)
    (clean : ∀ statement, standing.debt ≠ some (call, statement)) {request : TimeOffRequest}
    (found : threads.state.requests.find id = some request)
    (legal : canTransition request.status (decisions call).action = true)
    {statement : Statement} {rest : List Statement}
    (before : (decisions call).before request = standing.done ++ statement :: rest)
    (careful : statement = .cancelPending id → standing.debt = none) :
    Linear id decisions start { standing with done := standing.done ++ [statement] }
      { threads.set call (.outside (sends (.done ((decisions call).moved request))
          (rest ++ (decisions call).save request :: (decisions call).after request))) with
        state := (statement.exec threads.state).2 } := by
  have kind : statement = .releaseActive .reserve id ∨ statement = .cancelPending id :=
    mem_before (Table.key_of_find found) (by rw [before]; simp)
  have requests : (statement.exec threads.state).2.requests = threads.state.requests := by
    rcases kind with rfl | rfl <;> rfl
  refine ⟨linear.nodup, stands_update ?_ fun other different => ?_, fun none_ => ?_, ?_,
    linear.owes, fun among => ?_, ?_, ?_⟩
  · refine .unsaved request rest missing active clean (requests ▸ found) legal ?_
    rw [before, List.append_assoc]
    rfl
  · -- Only the active call looks at what is done.
    exact (linear.stands other).keep (fun absent => absent) (fun _ had => had)
      (fun isActive => absurd (Option.some.inj (isActive.symm.trans active)) different)
      (fun inactive => inactive) fun _ => Iff.rfl
  · exact absurd (active.symm.trans none_) (by simp)
  · intro other member
    rcases List.mem_append.mp member with earlier | last
    · exact linear.done other earlier
    · exact List.mem_singleton.mp last ▸ kind
  · rcases List.mem_append.mp among with earlier | last
    · exact linear.stopped earlier
    · exact careful (List.mem_singleton.mp last).symm
  · intro owing
    obtain ⟨other, foundToo, status⟩ := linear.moved owing
    exact ⟨other, requests ▸ foundToo, status⟩
  · rw [Store.after_append, ← linear.meets]
    -- A release and an enqueued message do not touch the same table.
    rcases kind with rfl | rfl
    · cases debt : standing.debt with
      | none => simp [Standing.owed, debt, Store.after]
      | some owed =>
        obtain ⟨_, _, _, same⟩ := linear.owes owed.1 owed.2 debt
        simp only [Standing.owed, debt, Option.toList_some, List.map_cons, List.map_nil, same]
        rfl
    · simp [Standing.owed, careful rfl, Store.after]

/-- The active call has its turn when it saves its request. -/
theorem Linear.save (linear : Linear id decisions start standing threads)
    (missing : call ∉ standing.order) (active : standing.active = some call)
    {request : TimeOffRequest} (found : threads.state.requests.find id = some request)
    (legal : canTransition request.status (decisions call).action = true)
    (before : (decisions call).before request = standing.done) :
    ∃ next, Linear id decisions start next
      { threads.set call (.outside (sends (.done ((decisions call).moved request))
          ((decisions call).after request))) with
        state := (((decisions call).save request).exec threads.state).2 } := by
  have clean := linear.debt_eq_none found legal before
  have nodup := Turns.nodup_snoc linear.nodup missing
  have had : Turns.Had (turn id decisions start) (standing.order ++ [call]) call
      ((decisions call).moved request) :=
    .last nodup (by rw [turn, linear.served found legal])
  have meets := linear.meets_save clean found legal before
  -- A call that has a message to enqueue owes it from here on.
  rcases after_eq legal with nothing | ⟨uuid, now, input, message, status⟩
  · rw [nothing] at meets
    refine ⟨⟨standing.order ++ [call], none, [], none⟩, nodup,
      stands_update ?_ (linear.others_save active clean (by simp)), fun _ => rfl, ?_, ?_,
      fun _ => rfl, fun owing => absurd rfl owing, meets⟩
    · rw [nothing]
      exact .answered _ had (by simp) (by simp)
    · simp
    · simp
  · rw [message] at meets
    refine ⟨⟨standing.order ++ [call], none, [], some (call, .enqueue uuid now input)⟩, nodup,
      stands_update ?_ (linear.others_save active clean ?_), fun _ => rfl, ?_, ?_, ?_,
      fun _ => ?_, meets⟩
    · rw [message]
      exact .owing _ _ had (by simp) rfl
    · rintro other statement different same
      exact different (congrArg Prod.fst (Option.some.inj same)).symm
    · simp
    · rintro other statement same
      cases same
      exact ⟨uuid, now, input, rfl⟩
    · simp
    · obtain ⟨written, foundAfter, moved⟩ := (decisions call).find_save found
      exact ⟨written, foundAfter, moved ▸ status⟩

/-- The call that owes a message enqueues it. -/
theorem Linear.pay (linear : Linear id decisions start standing threads) {result : CallResult}
    {statement : Statement}
    (had : Turns.Had (turn id decisions start) standing.order call result)
    (inactive : standing.active ≠ some call) (owes : standing.debt = some (call, statement)) :
    Linear id decisions start { standing with debt := none }
      { threads.set call (.outside (.ret (.done result))) with
        state := (statement.exec threads.state).2 } := by
  obtain ⟨uuid, now, input, rfl⟩ := linear.owes call statement owes
  refine ⟨linear.nodup, stands_update ?_ fun other different => ?_, linear.idle, linear.done,
    by simp, fun _ => rfl, fun owing => absurd rfl owing, ?_⟩
  · exact .answered result had inactive (by simp)
  · refine (linear.stands other).keep (fun absent => absent) (fun _ had => had)
      (fun isActive => ⟨isActive, rfl, rfl⟩) (fun inactive => inactive) fun other_ => ?_
    rw [owes]
    simp [Ne.symm different]
  · -- The message was owed, so the state with it is the one the order comes to.
    rw [← linear.meets]
    simp [Standing.owed, owes, Store.after]

/-- A call that has its answer returns it. -/
theorem Linear.answer (linear : Linear id decisions start standing threads) {result : CallResult}
    (had : Turns.Had (turn id decisions start) standing.order call result)
    (inactive : standing.active ≠ some call)
    (clean : ∀ statement, standing.debt ≠ some (call, statement)) :
    Linear id decisions start standing (threads.set call (.finished result)) := by
  refine ⟨linear.nodup, stands_update ?_ fun other _ => linear.stands other, linear.idle,
    linear.done, linear.owes, linear.stopped, linear.moved, linear.meets⟩
  exact .finished result had inactive clean

/-- A careful statement keeps the calls in line. -/
theorem Linear.states (linear : Linear id decisions start standing threads)
    (careful : threads.Careful (decisions call) call) {statement : Statement}
    {rest : statement.Answer → Section (Ending String Statement.Answer CallResult)}
    (at_ : threads.thread call = .outside (.call statement rest)) :
    ∃ next, Linear id decisions start next
      { threads.set call (.outside (rest (statement.exec threads.state).1)) with
        state := (statement.exec threads.state).2 } := by
  have stage := linear.stands call
  rw [at_] at stage
  generalize same : Thread.outside (.call statement rest) = thread at stage
  cases stage with
  | fresh missing inactive clean =>
    rw [call_eq] at same
    cases same
    simp only [Statement.exec]
    -- The request that is checked is the one of the order.
    have here : threads.state.requests.find id =
        (inTurn id decisions start standing.order).requests.find id := by rw [linear.requests]
    cases found : threads.state.requests.find id with
    | none =>
      refine ⟨_, linear.refuse missing inactive clean ?_⟩
      rw [serve_eq, ← here, found]
    | some request =>
      by_cases legal : canTransition request.status (decisions call).action = true
      · -- A careful call checks a request that no other call is about to save.
        have fetching : (threads.thread call).fetching = some id := by rw [at_]; rfl
        have saved := careful.checks id fetching request found legal
        simp only [proceed, legal, if_true]
        exact ⟨_, linear.check missing (linear.active_eq_none saved) clean found legal⟩
      · simp only [proceed, legal, Bool.false_eq_true, if_false]
        refine ⟨_, linear.refuse missing inactive clean ?_⟩
        rw [serve_eq, ← here, found]
        exact if_neg legal
  | unsaved request left missing active clean found legal before =>
    cases left with
    | nil =>
      cases same
      -- Nothing is left before the save.
      exact linear.save missing active found legal (by rw [before, List.append_nil])
    | cons first more =>
      cases same
      refine ⟨_, linear.write missing active clean found legal before ?_⟩
      -- A careful call stops messages once none is owed.
      rintro rfl
      exact linear.debt_eq_none_of_paid (careful.stops (by rw [at_]; rfl))
  | owing result owed had inactive owes =>
    cases same
    exact ⟨_, linear.pay had inactive owes⟩
  | answered => cases same
  | finished => cases same

omit [DecidableEq ι] in
/-- A call that has come to its end has its answer, and owes nothing. -/
theorem Stage.of_ret {state : Store} {ending : Ending String Statement.Answer CallResult}
    (stage : Stage id decisions start standing state call (.outside (.ret ending))) :
    ∃ result, ending = .done result ∧
      Turns.Had (turn id decisions start) standing.order call result ∧
      standing.active ≠ some call ∧ ∀ statement, standing.debt ≠ some (call, statement) := by
  generalize same : Thread.outside (.ret ending) = thread at stage
  -- In every other stage there is a statement left.
  cases stage with
  | fresh =>
    rw [call_eq] at same
    cases same
  | unsaved _ left => cases left <;> cases same
  | owing => cases same
  | answered result had inactive clean =>
    cases same
    exact ⟨result, rfl, had, inactive, clean⟩
  | finished => cases same

/-- A careful step keeps the calls in line. -/
theorem Linear.step (linear : Linear id decisions start standing threads)
    (careful : threads.Careful (decisions call) call)
    {after : Threads Store String ι Statement.Answer CallResult}
    (taken : threads.step Statement.exec call = some after) :
    ∃ next, Linear id decisions start next after := by
  have stage := linear.stands call
  -- A call is outside the mutex until it has finished.
  cases Threads.step_move taken with
  | states statement rest at_ => exact linear.states careful at_
  | returns result at_ =>
    rw [at_] at stage
    obtain ⟨other, same, had, inactive, clean⟩ := stage.of_ret
    cases same
    exact ⟨_, linear.answer had inactive clean⟩
  | queues lock body at_ =>
    rw [at_] at stage
    obtain ⟨_, same, _⟩ := stage.of_ret
    cases same
  | starts lock previous body at_ =>
    rw [at_] at stage
    cases stage
  | works lock statement rest at_ =>
    rw [at_] at stage
    cases stage
  | leaves lock result at_ =>
    rw [at_] at stage
    cases stage

/-- Along a run of careful steps, the calls stay in line. -/
theorem linear_of_trace {taken : List (Threads Store String ι Statement.Answer CallResult × ι)}
    {final : Threads Store String ι Statement.Answer CallResult}
    (trace : Runs.Trace (Threads.step Statement.exec)
      (Threads.start start fun call => (decisions call).call id) taken final)
    (careful : ∀ before call, (before, call) ∈ taken → before.Careful (decisions call) call) :
    ∃ standing, Linear id decisions start standing final := by
  -- What is kept is that some order explains how far the calls are.
  induction trace with
  | start => exact ⟨_, linear_start⟩
  | step _ next ih =>
    obtain ⟨_, linear⟩ := ih fun before call member =>
      careful before call (List.mem_append_left _ member)
    exact linear.step (careful _ _ (by simp)) next

end Steps

section Deliverable

variable {id : String} {decisions : ι → Decision} {start store : Store} {request : TimeOffRequest}

/-- Every deliverable debit was there at first, or is one of an approved request. -/
def Deliverable (id : String) (start store : Store) : Prop :=
  ∀ msg ∈ store.outbox.rows, msg.requestId = id → msg.type = .debit →
    msg.status = .pending ∨ msg.status = .failed → msg ∈ start.outbox.rows ∨
      ∃ request, store.requests.find id = some request ∧ request.status = .approved

/-- While a request is not approved, its deliverable debits are those that were there at first. -/
theorem Deliverable.first (deliverable : Deliverable id start store)
    (found : store.requests.find id = some request) (waiting : request.status ≠ .approved)
    {msg : OutboxMessage} (stored : msg ∈ store.outbox.rows) (about : msg.requestId = id)
    (debit : msg.type = .debit) (due : msg.status = .pending ∨ msg.status = .failed) :
    msg ∈ start.outbox.rows := by
  -- A debit that was enqueued since would belong to an approved request.
  apply (deliverable msg stored about debit due).resolve_right
  rintro ⟨again, foundToo, approved⟩
  cases found.symm.trans foundToo
  exact waiting approved

/-- An approval enqueues a debit of a request that it has approved. -/
theorem deliverable_approve (uuid : String) (now : Time)
    (found : store.requests.find id = some request)
    (legal : canTransition request.status .approve = true) :
    Deliverable id start (store.after ((approve uuid now).writes request)) := by
  have own : request.id = id := Table.key_of_find found
  have pending := (canTransition_approve _).mp legal
  intro msg _ _ _ _
  refine Or.inr ⟨{ request with status := .approved, version := request.version + 1 }, ?_, rfl⟩
  -- Its request is approved by the time the debit is enqueued.
  simp [writes, before, after, save, Store.after, Statement.exec, Store.enqueue,
    Store.writeRequest, Table.find_update, found, own, TimeOffRequest.moved, action, pending,
    nextState, transitions]

/-- A cancellation stops the debit of an approved request, and enqueues no other one. -/
theorem deliverable_cancel (uuid : String) (now : Time)
    (deliverable : Deliverable id start store)
    (found : store.requests.find id = some request) :
    Deliverable id start (store.after ((cancel uuid now).writes request)) := by
  have own : request.id = id := Table.key_of_find found
  intro msg stored about debit due
  by_cases committed : request.status = .committed
  · simp only [writes, before, after, save, Store.after, committed, if_true, List.nil_append,
      List.foldl_cons, List.foldl_nil, Statement.exec, Store.enqueue, Store.writeRequest,
      Table.mem_save] at stored
    rcases stored with rfl | ⟨earlier, _⟩
    · -- What is enqueued is a credit.
      cases debit
    · exact Or.inl (deliverable.first found (by simp [committed]) earlier about debit due)
  · by_cases approved : request.status = .approved
    · -- What was deliverable is stopped before the save.
      simp only [writes, before, after, save, Store.after, approved, reduceCtorEq, if_true,
        if_false, List.cons_append, List.nil_append, List.foldl_cons, List.foldl_nil,
        Statement.exec, Store.releaseActive, Store.cancelPendingForRequest,
        Store.writeRequest, Table.rows_update, List.mem_map] at stored
      obtain ⟨old, _, rfl⟩ := stored
      by_cases stopped : old.requestId = request.id ∧
          (old.status = .pending ∨ old.status = .failed)
      · simp [stopped] at due
      · simp only [stopped, decide_false, Bool.false_eq_true, if_false] at about due
        exact absurd ⟨about.trans own.symm, due⟩ stopped
    · simp only [writes, before, after, committed, approved, if_false] at stored
      exact Or.inl (deliverable.first found approved stored about debit due)

/-- A transaction leaves no deliverable debit behind for a request that is not approved. -/
theorem deliverable_serve (decision : Decision) (deliverable : Deliverable id start store) :
    Deliverable id start (decision.serve id store).2 := by
  rw [serve_eq]
  cases found : store.requests.find id with
  | none => exact deliverable
  | some request =>
    by_cases legal : canTransition request.status decision.action = true
    · simp only [legal, if_true]
      cases decision with
      | approve uuid now => exact deliverable_approve uuid now found legal
      | reject =>
        -- A rejected request was pending, so it had no debit to stop.
        have pending := (canTransition_reject _).mp legal
        intro msg stored about debit due
        exact Or.inl (deliverable.first found (by simp [pending]) stored about debit due)
      | cancel uuid now => exact deliverable_cancel uuid now deliverable found
    · simp only [legal, Bool.false_eq_true, if_false]
      exact deliverable

/-- Calls that run one after the other leave no deliverable debit behind. -/
theorem deliverable_inTurn (deliverable : Deliverable id start store) (order : List ι) :
    Deliverable id start (inTurn id decisions store order) := by
  induction order generalizing store with
  | nil => exact deliverable
  | cons call rest ih => exact ih (deliverable_serve (decisions call) deliverable)

variable [DecidableEq ι]

/-- Careful calls lose no transition: they come to what they do one after the other. -/
theorem serial_of_careful
    {taken : List (Threads Store String ι Statement.Answer CallResult × ι)}
    {final : Threads Store String ι Statement.Answer CallResult}
    (trace : Runs.Trace (Threads.step Statement.exec)
      (Threads.start store fun call => (decisions call).call id) taken final)
    (careful : ∀ before call, (before, call) ∈ taken → before.Careful (decisions call) call)
    (finished : ∀ call, ∃ result, final.thread call = .finished result) :
    (∃ order, Serial id decisions store order final) ∧ NoneLeft id store final.state := by
  obtain ⟨standing, linear⟩ := linear_of_trace trace careful
  obtain ⟨state, turns⟩ := linear.finished finished
  refine ⟨⟨standing.order, linear.nodup, fun call => ?_, fun earlier call rest cut => ?_,
    by rw [state], by rw [state], by rw [state]⟩, ?_⟩
  · obtain ⟨_, _, had⟩ := turns call
    exact had.1
  · obtain ⟨result, ended, had⟩ := turns call
    rw [ended, had.2 earlier rest cut]
    rfl
  · intro request found given msg stored about debit due
    -- At first, each deliverable debit is one that was there.
    have first : Deliverable id store store := fun msg stored _ _ _ => Or.inl stored
    have kept : Deliverable id store final.state :=
      state ▸ deliverable_inTurn first standing.order
    apply (kept msg stored about debit due).resolve_right
    -- An approved request is none that is given up.
    rintro ⟨again, foundToo, approved⟩
    cases (Option.mem_def.mp found).symm.trans foundToo
    simp [approved] at given

end Deliverable

/-- A request that waits for its approval, with its hold. -/
def pendingRequest : Store :=
  (((({} : Store).insertBalance "e" "l" ⟨"e", "l", 3, 1, 0⟩).addReservation "hold" "r" "e" "l"
    3).saveRequest
      { id := "r", employeeId := "e", locationId := "l", startDate := "2025-01-06"
        endDate := "2025-01-08", days := 3, status := .pendingApproval, idempotencyKey := none
        hcmRef := none, reason := none, version := 1 })

/-- It is approved, and cancelled in the meantime. -/
def approveAndCancel : Bool → Decision
  | false => .approve "debit" 0
  | true => .cancel "credit" 0

/-- A cancellation may check a request whose debit is not enqueued yet, if it stops it later. -/
theorem serial_approveAndCancel : ∃ taken final,
    Runs.Trace (Threads.step Statement.exec)
      (Threads.start pendingRequest fun call => (approveAndCancel call).call "r") taken final ∧
    (∃ order, Serial "r" approveAndCancel pendingRequest order final) ∧
      NoneLeft "r" pendingRequest final.state := by
  -- The cancellation checks after the save and stops after the message.
  have executed : (Runs.run (Threads.step Statement.exec)
      (fun before call => decide (before.Careful (approveAndCancel call) call))
      (Threads.start pendingRequest fun call => (approveAndCancel call).call "r")
      [false, false, true, true, false, true, true, true, false]).map (fun final =>
        decide (∀ call, (final.thread call).result.isSome = true)) = some true := by
    decide +kernel
  obtain ⟨taken, final, trace, careful, ended⟩ := Threads.exists_trace_of_run executed
  exact ⟨taken, final, trace, serial_of_careful trace
    (fun before call member => of_decide_eq_true (careful before call member))
    (Threads.finished_of_results (of_decide_eq_true ended))⟩

/-- It is approved, and rejected in the meantime. -/
def approveAndReject : Bool → Decision
  | false => .approve "debit" 0
  | true => .reject

/-- When both check it before either saves it, both succeed and the debit is left deliverable. -/
theorem approveAndReject_loses :
    ¬∀ taken final, Runs.Trace (Threads.step Statement.exec)
        (Threads.start pendingRequest fun call => (approveAndReject call).call "r") taken final →
      (∀ call, ∃ result, final.thread call = .finished result) →
        (∃ order, Serial "r" approveAndReject pendingRequest order final) ∨
          NoneLeft "r" pendingRequest final.state := by
  intro kept
  -- Both check, and then the approval saves before the rejection does.
  have executed : (Runs.run (Threads.step Statement.exec) (fun _ _ => true)
      (Threads.start pendingRequest fun call => (approveAndReject call).call "r")
      [false, true, false, false, true, true, false, true]).map (fun final =>
        decide (∀ call, (final.thread call).result.map CallResult.succeeded = some true) &&
        (final.state.requests.find "r").any (fun request => request.status = .rejected) &&
        final.state.outbox.rows.any (fun msg => msg.requestId = "r" && msg.type = .debit &&
          msg.status = .pending)) = some true := by
    decide +kernel
  obtain ⟨taken, final, trace, _, ended⟩ := Threads.exists_trace_of_run executed
  simp only [Bool.and_eq_true, decide_eq_true_eq, Option.any_eq_true, List.any_eq_true] at ended
  obtain ⟨⟨succeeded, request, found, rejected⟩, msg, stored, ⟨about, debit⟩, pending⟩ := ended
  have finished : ∀ call, ∃ result, final.thread call = .finished result :=
    Threads.finished_of_results fun call => by
      obtain ⟨result, ended, _⟩ := Option.map_eq_some_iff.mp (succeeded call)
      simp [ended]
  rcases kept taken final trace finished with ⟨order, serial⟩ | noneLeft
  · -- One after the other, the second call of either order is refused.
    have same : order.Perm [false, true] :=
      (List.perm_ext_iff_of_nodup serial.nodup (by decide)).mpr fun call => by
        simp [serial.all call]
    rcases List.perm_pair.mp same with rfl | rfl
    · have refused : ((approveAndReject true).serve "r" (inTurn "r" approveAndReject pendingRequest
          [false])).1.succeeded = false := by decide +kernel
      have same := serial.succeeded [false] true [] rfl
      rw [succeeded, refused] at same
      cases same
    · have refused : ((approveAndReject false).serve "r" (inTurn "r" approveAndReject
          pendingRequest [true])).1.succeeded = false := by decide +kernel
      have same := serial.succeeded [true] false [] rfl
      rw [succeeded, refused] at same
      cases same
  · cases noneLeft request found (Or.inl rejected) msg stored about debit (Or.inl pending)

end Decision

end TimeOff
