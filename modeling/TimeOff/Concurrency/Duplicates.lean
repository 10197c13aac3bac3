import TimeOff.Concurrency.AllOrNothing

/-! Create calls with one idempotency key: retries one after the other, and duplicates that race. -/

namespace TimeOff

open Programs

/-- One of the calls: the ids it draws, and what its lazy load is answered. -/
structure Retry where
  uuid : String
  holdId : String
  answer : Except HcmError HcmBalanceRow

/-- The statements of a retry. All retries have the same body and the same key. -/
def Retry.call (retry : Retry) (dto : CreateTimeOffRequestDto) (k : String) :
    CreateSection (Ending String CreateStatement.Answer CallResult) :=
  createCall retry.uuid retry.holdId dto (some k) retry.answer

/-- Retries under way. -/
abbrev Retries (ι : Type) := Threads Store String ι CreateStatement.Answer CallResult

/-- All retries at their start. -/
def Retries.start {ι : Type} (store : Store) (dto : CreateTimeOffRequestDto) (k : String)
    (retries : ι → Retry) : Retries ι :=
  Threads.start store fun call => (retries call).call dto k

/-- A history of retries, statement by statement. -/
abbrev Retries.Trace {ι : Type} [DecidableEq ι] (start : Retries ι) :
    List (Retries ι × ι) → Retries ι → Prop :=
  Runs.Trace (Threads.step CreateStatement.exec) start

/-- The request that is stored under an idempotency key, as a lookup finds it. -/
def Store.keyed (store : Store) (k : String) : Option TimeOffRequest :=
  store.requests.rows.find? (·.idempotencyKey = some k)

section History

variable {ι : Type}

/-- In a history, the lookup of a retry has found a request. -/
def Looked (k : String) (call : ι) (existing : TimeOffRequest) (taken : List (Retries ι × ι)) :
    Prop :=
  ∃ before, (before, call) ∈ taken ∧ (before.thread call).head = some (.findByKey k) ∧
    before.state.keyed k = some existing

/-- In a history, the insert of a retry has met a request that was there before it. -/
def Collided (k : String) (call : ι) (taken : List (Retries ι × ι)) : Prop :=
  ∃ before request, (before, call) ∈ taken ∧
    (before.thread call).head = some (.insertRequest request) ∧ before.state.keyed k ≠ none

/-- What is promised of the retries that have ended. -/
structure RetrySafe (k : String) (dto : CreateTimeOffRequestDto) (taken : List (Retries ι × ι))
    (final : Retries ι) : Prop where
  -- At most one request has the key.
  single : ∀ left ∈ final.state.requests.rows, ∀ right ∈ final.state.requests.rows,
    left.idempotencyKey = some k → right.idempotencyKey = some k → left = right
  -- A retry that has found an earlier request, or raced with one, returns it.
  returned : ∀ call result, final.thread call = .finished result →
    (∃ existing, Looked k call existing taken) ∨ Collided k call taken →
    ∃ request stored, result = .request request ∧ final.state.keyed k = some stored ∧
      stored.id = request.id
  -- If it was asked for, what is returned has been submitted.
  submitted : dto.submit = true → ∀ call request,
    final.thread call = .finished (.request request) → request.status = .pendingApproval

/-- No retry that has ended has raced with another one, or found a draft it was to submit. -/
structure Undisturbed (k : String) (dto : CreateTimeOffRequestDto)
    (taken : List (Retries ι × ι)) (final : Retries ι) : Prop where
  inserts : ∀ call result, final.thread call = .finished result → ¬Collided k call taken
  lookups : dto.submit = true → ∀ call result existing, final.thread call = .finished result →
    Looked k call existing taken → existing.status ≠ .draft

end History

namespace Store

/-- At most one request has a key, and it is a draft or waits for its approval. -/
structure Orderly (k : String) (store : Store) : Prop where
  single : ∀ left ∈ store.requests.rows, ∀ right ∈ store.requests.rows,
    left.idempotencyKey = some k → right.idempotencyKey = some k → left.id = right.id
  waits : ∀ request ∈ store.requests.rows, request.idempotencyKey = some k →
    request.status = .draft ∨ request.status = .pendingApproval

/-- What a statement makes of an orderly store: it stays so, and the request keeps its id. -/
structure Keeps (k : String) (before after : Store) : Prop where
  orderly : before.Orderly k → after.Orderly k
  kept : ∀ request ∈ before.requests.rows, request.idempotencyKey = some k →
    ∃ later ∈ after.requests.rows, later.idempotencyKey = some k ∧ later.id = request.id

variable {k : String} {before after store : Store}

theorem Keeps.of_same (same : after.requests = before.requests) : Keeps k before after :=
  ⟨fun orderly => ⟨same ▸ orderly.single, same ▸ orderly.waits⟩,
    fun request member named => ⟨request, same ▸ member, named, rfl⟩⟩

/-- A written request keeps its key and id, and waits for its approval. -/
theorem keeps_writeRequest (store : Store) (id : String) (hcmRef : Option String) :
    Keeps k store (store.writeRequest id .pendingApproval hcmRef) := by
  let written (request : TimeOffRequest) : TimeOffRequest :=
    if request.id = id then
      { request with
        status := .pendingApproval, hcmRef := hcmRef.or request.hcmRef
        version := request.version + 1 }
    else request
  have rows : (store.writeRequest id .pendingApproval hcmRef).requests.rows =
      store.requests.rows.map written := by
    simp only [writeRequest, Table.rows_update, decide_eq_true_eq, written]
  have same (request : TimeOffRequest) : (written request).id = request.id ∧
      (written request).idempotencyKey = request.idempotencyKey := by
    simp only [written]
    split <;> exact ⟨rfl, rfl⟩
  refine ⟨fun orderly => ⟨?_, ?_⟩, ?_⟩
  · -- Two rows with the key come from two rows that had it.
    intro left leftMember right rightMember leftNamed rightNamed
    rw [rows] at leftMember rightMember
    obtain ⟨first, firstMember, rfl⟩ := List.mem_map.mp leftMember
    obtain ⟨second, secondMember, rfl⟩ := List.mem_map.mp rightMember
    rw [(same first).1, (same second).1]
    exact orderly.single first firstMember second secondMember
      ((same first).2 ▸ leftNamed) ((same second).2 ▸ rightNamed)
  · intro request member named
    rw [rows] at member
    obtain ⟨first, firstMember, rfl⟩ := List.mem_map.mp member
    have waits := orderly.waits first firstMember ((same first).2 ▸ named)
    simp only [written]
    split
    · exact Or.inr rfl
    · exact waits
  · intro request member named
    refine ⟨written request, ?_, (same request).2.trans named, (same request).1⟩
    rw [rows]
    exact List.mem_map_of_mem member

/-- A request is stored under a key exactly if the lookup finds one. -/
theorem keyed_eq_none : store.keyed k = none ↔
    ∀ request ∈ store.requests.rows, request.idempotencyKey ≠ some k := by
  simp [keyed]

/-- What the lookup finds is stored, and has the key. -/
theorem keyed_some {request : TimeOffRequest} (found : store.keyed k = some request) :
    request ∈ store.requests.rows ∧ request.idempotencyKey = some k :=
  ⟨List.mem_of_find?_eq_some found, by simpa using List.find?_some found⟩

/-- In an orderly store, the lookup finds the request that has the key. -/
theorem Orderly.keyed (orderly : store.Orderly k) {request : TimeOffRequest}
    (member : request ∈ store.requests.rows) (named : request.idempotencyKey = some k) :
    store.keyed k = some request := by
  cases found : store.keyed k with
  | none => exact absurd named (keyed_eq_none.mp found request member)
  | some other =>
    obtain ⟨otherMember, otherNamed⟩ := keyed_some found
    have same := orderly.single other otherMember request member otherNamed named
    exact congrArg some (Table.eq_of_key_eq otherMember member same)

/-- A first draft under a key keeps the store orderly. -/
theorem keeps_saveRequest {request : TimeOffRequest} (unused : store.keyed k = none)
    (isDraft : request.status = .draft) : Keeps k store (store.saveRequest request) := by
  have others (other : TimeOffRequest) (member : other ∈ store.requests.rows)
      (named : other.idempotencyKey = some k) : False :=
    keyed_eq_none.mp unused other member named
  refine ⟨fun orderly => ⟨?_, ?_⟩, fun other member named => (others other member named).elim⟩
  · intro left leftMember right rightMember leftNamed rightNamed
    -- Both are the new row, for no other one has the key.
    rcases Table.mem_save.mp leftMember with rfl | ⟨stored, _⟩
    · rcases Table.mem_save.mp rightMember with rfl | ⟨stored, _⟩
      · rfl
      · exact (others right stored rightNamed).elim
    · exact (others left stored leftNamed).elim
  · intro other member named
    rcases Table.mem_save.mp member with rfl | ⟨stored, _⟩
    · exact Or.inl isDraft
    · exact (others other stored named).elim

end Store

/-- A statement that keeps every store orderly, and neither looks up a key nor inserts a request. -/
def CreateStatement.Quiet (k : String) (statement : CreateStatement) : Prop :=
  (∃ plain, statement = .plain plain) ∧
    ∀ store, Store.Keeps k store (statement.exec store).2

variable {k id holdId uuid : String} {dto : CreateTimeOffRequestDto}
  {answer : Except HcmError HcmBalanceRow}

/-- A statement that writes no request is quiet. -/
theorem quiet_of_same {statement : Statement}
    (same : ∀ store, (statement.exec store).2.requests = store.requests) :
    (CreateStatement.plain statement).Quiet k :=
  ⟨⟨statement, rfl⟩, fun store => .of_same (same store)⟩

/-- What a submit may return: a request that waits for its approval. -/
def Waiting (result : CallResult) : Prop :=
  ∀ request, result = .request request → request.status = .pendingApproval

/-- The section of a submit is quiet. -/
theorem only_quiet_submitSection :
    (submitSection id holdId).Only fun statement => (CreateStatement.plain statement).Quiet k :=
  submitSection_only (fun _ same => quiet_of_same fun store => (same store).2)
    fun request => ⟨⟨_, rfl⟩, fun store => store.keeps_writeRequest request none⟩

/-- The section of a submit returns a request that waits. -/
theorem returns_submitSection : (submitSection id holdId).Returns Waiting := by
  refine Prog.returns_bind _ fun found => ?_
  cases found with
  | none => rintro request ⟨⟩
  | some request =>
    dsimp only
    split
    · rename_i legal
      refine Prog.returns_bind _ fun components => ?_
      unfold reserveWithin
      split
      · refine Prog.returns_bind _ fun _ => Prog.returns_bind _ fun _ => ?_
        rintro moved ⟨⟩
        simp [TimeOffRequest.moved, (canTransition_submit _).mp legal, nextState, transitions]
      · rintro moved ⟨⟩
    · rintro moved ⟨⟩

/-- Up to its section, a submit is quiet. -/
theorem only_quiet_submitCall :
    (submitCall id holdId answer).Only fun statement =>
      (CreateStatement.plain statement).Quiet k := by
  refine Prog.only_bind (Prog.only_perform (quiet_of_same fun _ => rfl)) fun found => ?_
  cases found with
  | none => trivial
  | some pre =>
    dsimp only
    split
    · refine Prog.only_bind (Prog.only_perform (quiet_of_same fun _ => rfl)) fun existing => ?_
      -- The snapshot is there, or the other side is asked for it.
      cases existing with
      | some balance => trivial
      | none =>
        cases answer with
        | error error => trivial
        | ok row =>
          exact Prog.only_bind (Prog.only_perform (quiet_of_same fun _ => rfl)) fun _ => trivial
    · trivial

/-- A submit ends in an error, or in its section. -/
theorem returns_submitCall :
    (submitCall id holdId answer).Returns fun ending =>
      ending.asCreate.Meets (CreateStatement.Quiet k) Waiting := by
  have reserving (lock : String) : (Ending.exclusive lock (submitSection id holdId)).asCreate.Meets
      (CreateStatement.Quiet k) Waiting :=
    ⟨Prog.only_embed only_quiet_submitSection, Prog.returns_embed returns_submitSection⟩
  refine Prog.returns_bind _ fun found => ?_
  cases found with
  | none => rintro request ⟨⟩
  | some pre =>
    dsimp only
    split
    · refine Prog.returns_bind _ fun existing => ?_
      cases existing with
      | some balance => exact reserving (key pre.employeeId pre.locationId)
      | none =>
        cases answer with
        | error error => rintro request ⟨⟩
        | ok row => exact Prog.returns_bind _ fun _ => reserving (key pre.employeeId pre.locationId)
    · rintro request ⟨⟩

/-- Once its draft is inserted, a create call is quiet, and it returns a request that waits. -/
theorem meets_submitCreated {ι : Type} :
    (Thread.outside (submitCreated id holdId answer) : Thread String ι _ _).Meets
      (CreateStatement.Quiet k) Waiting := by
  refine ⟨Prog.only_bind (Prog.only_embed only_quiet_submitCall) fun _ => trivial, ?_⟩
  exact (Prog.returns_embed returns_submitCall).bind fun ending meets => meets

section Stages

variable {ι : Type} {store : Store} {met : Prop} {found : TimeOffRequest → Prop}
  {thread : Thread String ι CreateStatement.Answer CallResult}

/-- What an attempt can still come to once its insert is decided, and how that came about. -/
inductive Outcome (k : String) (dto : CreateTimeOffRequestDto) (met : Prop)
    (found : TimeOffRequest → Prop) (store : Store) : (CallResult → Prop) → Prop
  -- It has found an earlier request.
  | repeats (existing stored : TimeOffRequest) : ¬met → (∀ other, found other ↔ other = existing) →
      existing.status = .draft ∨ existing.status = .pendingApproval →
      store.keyed k = some stored → stored.id = existing.id →
      Outcome k dto met found store fun result => result = .request existing
  -- It has met an earlier request when it inserted its own.
  | refused : met → (∀ other, ¬found other) →
      Outcome k dto met found store fun result => result = .refused .duplicateIdempotencyKey
  -- It has inserted its request.
  | created {good : CallResult → Prop} : ¬met → (∀ other, ¬found other) →
      (dto.submit = true → ∀ result, good result → Waiting result) →
      Outcome k dto met found store good

/-- How far an attempt has come. -/
inductive Stage (k : String) (dto : CreateTimeOffRequestDto) (retry : Retry) (met : Prop)
    (found : TimeOffRequest → Prop) (store : Store) :
    Thread String ι CreateStatement.Answer CallResult → Prop
  | fresh : k ≠ "" → ¬met → (∀ other, ¬found other) →
      Stage k dto retry met found store (.outside (retry.call dto k))
  | searched : ¬met → (∀ other, ¬found other) →
      Stage k dto retry met found store
        (.outside (insertAndSubmit retry.uuid retry.holdId dto (some k) retry.answer))
  | decided {thread : Thread String ι CreateStatement.Answer CallResult}
      {good : CallResult → Prop} : thread.Meets (CreateStatement.Quiet k) good →
      Outcome k dto met found store good → Stage k dto retry met found store thread

variable {retry : Retry} {retries : ι → Retry} {before after : Retries ι}
  {call other : ι} {taken : List (Retries ι × ι)}

/-- One more step finds a request if it is a lookup that does so. -/
theorem looked_snoc {existing : TimeOffRequest} :
    Looked k other existing (taken ++ [(before, call)]) ↔
      Looked k other existing taken ∨ call = other ∧
        (before.thread other).head = some (.findByKey k) ∧
          before.state.keyed k = some existing :=
  Runs.exists_mem_concat

/-- One more step meets a request if it is an insert that does so. -/
theorem collided_snoc :
    Collided k other (taken ++ [(before, call)]) ↔
      Collided k other taken ∨ call = other ∧
        (∃ request, (before.thread other).head = some (.insertRequest request)) ∧
          before.state.keyed k ≠ none := by
  have shape (taken : List (Retries ι × ι)) :
      Collided k other taken ↔ ∃ state, (state, other) ∈ taken ∧
        (∃ request, (state.thread other).head = some (.insertRequest request)) ∧
          state.state.keyed k ≠ none := by
    simp only [Collided, exists_and_left, exists_and_right]
  rw [shape, shape]
  exact Runs.exists_mem_concat

/-- An attempt with a key that is not empty starts with its lookup. -/
theorem Retry.call_eq (retry : Retry) (named : k ≠ "") :
    retry.call dto k = .call (.findByKey k) fun existing : Option TimeOffRequest =>
      match existing with
      | some existing => .ret (.done (.request existing))
      | none => insertAndSubmit retry.uuid retry.holdId dto (some k) retry.answer := by
  have kept : (some k).filter (· ≠ "") = some k := by simp [named]
  simp only [Retry.call, createCall, kept, Prog.bind_eq, Prog.perform_bind]
  rfl

/-- An insert is refused where a request is stored under the key. -/
theorem exec_insert_refused (stored : store.keyed k ≠ none) :
    CreateStatement.exec (.insertRequest (dto.draft uuid (some k))) store = (false, store) := by
  obtain ⟨request, found⟩ := Option.ne_none_iff_exists'.mp stored
  obtain ⟨member, named⟩ := Store.keyed_some found
  exact if_pos ⟨rfl, List.any_eq_true.mpr ⟨request, member, decide_eq_true named⟩⟩

/-- An insert is accepted where no request is. -/
theorem exec_insert_accepted (unused : store.keyed k = none) :
    CreateStatement.exec (.insertRequest (dto.draft uuid (some k))) store =
      (true, store.saveRequest (dto.draft uuid (some k))) := by
  apply if_neg
  intro given
  obtain ⟨_, stored⟩ := given
  obtain ⟨request, member, named⟩ := List.any_eq_true.mp stored
  exact Store.keyed_eq_none.mp unused request member (of_decide_eq_true named)

/-- Whatever an attempt does next keeps the store orderly, and the request its id. -/
theorem Stage.keeps (stage : Stage k dto retry met found store thread)
    {statement : CreateStatement} (next : thread.head = some statement) :
    Store.Keeps k store (statement.exec store).2 := by
  cases stage with
  | fresh named =>
    rw [retry.call_eq named] at next
    cases next
    exact .of_same rfl
  | searched =>
    cases next
    by_cases unused : store.keyed k = none
    · rw [exec_insert_accepted unused]
      exact Store.keeps_saveRequest unused rfl
    · rw [exec_insert_refused unused]
      exact .of_same rfl
  | decided meets _ => exact (meets.head next).2 store

/-- What an attempt has found is still stored later. -/
theorem Outcome.later {good : CallResult → Prop} {later : Store}
    (outcome : Outcome k dto met found store good) (keeps : Store.Keeps k store later)
    (orderly : later.Orderly k) : Outcome k dto met found later good := by
  cases outcome with
  | repeats existing stored unmet sole waits lookup same =>
    obtain ⟨member, named⟩ := Store.keyed_some lookup
    obtain ⟨next, nextMember, nextNamed, nextSame⟩ := keeps.kept stored member named
    exact .repeats existing next unmet sole waits (orderly.keyed nextMember nextNamed)
      (nextSame.trans same)
  | refused met unfound => exact .refused met unfound
  | created unmet unfound waits => exact .created unmet unfound waits

/-- The other attempts are as far as they were. -/
theorem Stage.later {later : Store} (stage : Stage k dto retry met found store thread)
    (keeps : Store.Keeps k store later) (orderly : later.Orderly k) :
    Stage k dto retry met found later thread := by
  cases stage with
  | fresh named unmet unfound => exact .fresh named unmet unfound
  | searched unmet unfound => exact .searched unmet unfound
  | decided meets outcome => exact .decided meets (outcome.later keeps orderly)

/-- What holds at every point of a history. -/
structure Recorded (k : String) (dto : CreateTimeOffRequestDto) (retries : ι → Retry)
    (taken : List (Retries ι × ι)) (threads : Retries ι) : Prop where
  orderly : threads.state.Orderly k
  stage : ∀ call, Stage k dto (retries call) (Collided k call taken)
    (fun existing => Looked k call existing taken) threads.state (threads.thread call)

/-- An attempt that has ended returns what its outcome says. -/
theorem Recorded.ended {threads : Retries ι} {result : CallResult}
    (recorded : Recorded k dto retries taken threads)
    (finished : threads.thread call = .finished result) :
    ∃ good, good result ∧ Outcome k dto (Collided k call taken)
      (fun existing => Looked k call existing taken) threads.state good := by
  have stage := recorded.stage call
  rw [finished] at stage
  cases stage with
  | decided meets outcome => exact ⟨_, meets, outcome⟩

variable [DecidableEq ι]

/-- A lookup leads on to the insert, or ends the attempt with the request it has found. -/
theorem stage_of_lookup (recorded : Recorded k dto retries taken before)
    (move : Threads.Move CreateStatement.exec before call after) (named : k ≠ "")
    (unmet : ¬Collided k call taken) (unfound : ∀ existing, ¬Looked k call existing taken)
    (at_ : before.thread call = .outside ((retries call).call dto k)) :
    Stage k dto (retries call) (Collided k call (taken ++ [(before, call)]))
      (fun existing => Looked k call existing (taken ++ [(before, call)])) after.state
      (after.thread call) := by
  rw [(retries call).call_eq named] at at_
  obtain ⟨onward, same⟩ := move.of_outside at_
  have head : (before.thread call).head = some (.findByKey k) := by rw [at_]; rfl
  have unmetStill : ¬Collided k call (taken ++ [(before, call)]) := by
    rw [collided_snoc]
    simp [unmet, head]
  rw [onward, same]
  -- What the lookup answers decides where the attempt goes on.
  show Stage _ _ _ _ _ before.state (.outside (match before.state.keyed k with
    | some existing => _
    | none => _))
  cases lookup : before.state.keyed k with
  | none =>
    refine .searched unmetStill fun existing => ?_
    rw [looked_snoc]
    simp [unfound, lookup]
  | some existing =>
    obtain ⟨member, keyed⟩ := Store.keyed_some lookup
    refine .decided ?_ (.repeats existing existing unmetStill (fun other => ?_)
      (recorded.orderly.waits existing member keyed) lookup rfl)
    · exact ⟨trivial, rfl⟩
    · rw [looked_snoc]
      simp [unfound, head, lookup, eq_comm]

/-- An insert is refused, or leads on to the submit. -/
theorem stage_of_insert
    (move : Threads.Move CreateStatement.exec before call after)
    (unmet : ¬Collided k call taken) (unfound : ∀ existing, ¬Looked k call existing taken)
    (at_ : before.thread call = .outside (insertAndSubmit (retries call).uuid (retries call).holdId
      dto (some k) (retries call).answer)) :
    Stage k dto (retries call) (Collided k call (taken ++ [(before, call)]))
      (fun existing => Looked k call existing (taken ++ [(before, call)])) after.state
      (after.thread call) := by
  obtain ⟨onward, same⟩ := move.of_outside at_
  have head : (before.thread call).head =
      some (.insertRequest (dto.draft (retries call).uuid (some k))) := by rw [at_]; rfl
  have unfoundStill (existing : TimeOffRequest) :
      ¬Looked k call existing (taken ++ [(before, call)]) := by
    rw [looked_snoc]
    simp [unfound, head]
  by_cases unused : before.state.keyed k = none
  · -- The draft is stored; a call that was not asked to submit it has ended.
    have unmetStill : ¬Collided k call (taken ++ [(before, call)]) := by
      rw [collided_snoc]
      simp [unmet, unused]
    rw [exec_insert_accepted unused] at onward
    rw [onward]
    by_cases submits : dto.submit = true
    · simp only [submits, if_true]
      exact .decided meets_submitCreated (.created unmetStill unfoundStill fun _ _ waits => waits)
    · simp only [submits]
      refine .decided (?_ : Thread.Meets _ (fun _ => True) _)
        (.created unmetStill unfoundStill fun asked => absurd asked submits)
      exact ⟨trivial, trivial⟩
  · -- The unique index refuses the draft, which ends the call.
    have metNow : Collided k call (taken ++ [(before, call)]) :=
      collided_snoc.mpr (Or.inr ⟨rfl, ⟨_, head⟩, unused⟩)
    rw [exec_insert_refused unused] at onward
    rw [onward]
    refine .decided ?_ (.refused metNow unfoundStill)
    exact ⟨trivial, rfl⟩

/-- A decided attempt stays so, whatever is left of it to do. -/
theorem stage_of_decided {good : CallResult → Prop}
    (move : Threads.Move CreateStatement.exec before call after)
    (keeps : Store.Keeps k before.state after.state) (orderly : after.state.Orderly k)
    (meets : (before.thread call).Meets (CreateStatement.Quiet k) good)
    (outcome : Outcome k dto (Collided k call taken) (fun existing => Looked k call existing taken)
      before.state good) :
    Stage k dto (retries call) (Collided k call (taken ++ [(before, call)]))
      (fun existing => Looked k call existing (taken ++ [(before, call)])) after.state
      (after.thread call) := by
  -- What is left are statements of the submit, which neither look up a key nor insert a request.
  have quiet (statement : CreateStatement) (next : (before.thread call).head = some statement) :
      ∃ plain, statement = .plain plain := (meets.head next).1
  have met : Collided k call (taken ++ [(before, call)]) = Collided k call taken := by
    rw [eq_iff_iff, collided_snoc]
    apply or_iff_left
    intro given
    obtain ⟨_, ⟨request, head⟩, _⟩ := given
    obtain ⟨plain, same⟩ := quiet _ head
    cases same
  have found : (fun existing => Looked k call existing (taken ++ [(before, call)])) =
      fun existing => Looked k call existing taken := by
    funext existing
    rw [eq_iff_iff, looked_snoc]
    apply or_iff_left
    intro given
    obtain ⟨_, head, _⟩ := given
    obtain ⟨plain, same⟩ := quiet _ head
    cases same
  rw [met, found]
  exact .decided (move.meets meets) (outcome.later keeps orderly)

/-- What holds at every point of a history is kept by every step. -/
theorem Recorded.step (recorded : Recorded k dto retries taken before)
    (next : before.step CreateStatement.exec call = some after) :
    Recorded k dto retries (taken ++ [(before, call)]) after := by
  have move := Threads.step_move next
  have keeps : Store.Keeps k before.state after.state := by
    rcases move.state with ⟨statement, head, same⟩ | ⟨_, same⟩
    · rw [same]
      exact (recorded.stage call).keeps head
    · exact .of_same (congrArg Store.requests same)
  have orderly := keeps.orderly recorded.orderly
  refine ⟨orderly, fun other => ?_⟩
  by_cases own : other = call
  · subst own
    have stage := recorded.stage other
    generalize at_ : before.thread other = thread at stage
    cases stage with
    | fresh named unmet unfound => exact stage_of_lookup recorded move named unmet unfound at_
    | searched unmet unfound => exact stage_of_insert move unmet unfound at_
    | decided meets outcome =>
      exact stage_of_decided move keeps orderly (at_ ▸ meets) outcome
  · -- The step is not one of this attempt, and its outcome outlives it.
    have met : Collided k other (taken ++ [(before, call)]) = Collided k other taken := by
      rw [eq_iff_iff, collided_snoc]
      exact or_iff_left fun same => own same.1.symm
    have found : (fun existing => Looked k other existing (taken ++ [(before, call)])) =
        fun existing => Looked k other existing taken := by
      funext existing
      rw [eq_iff_iff, looked_snoc]
      exact or_iff_left fun same => own same.1.symm
    rw [met, found, move.other own]
    exact (recorded.stage other).later keeps orderly

/-- A history of attempts with an unused key is recorded. -/
theorem recorded_of_trace {final : Retries ι} (unused : store.keyed k = none)
    (trace : Retries.Trace (.start store dto k retries) taken final) :
    Recorded k dto retries taken final := by
  induction trace with
  | start =>
    have none_ := Store.keyed_eq_none.mp unused
    refine ⟨⟨fun left member _ _ named => absurd named (none_ left member),
      fun request member named => absurd named (none_ request member)⟩, fun call => ?_⟩
    by_cases named : k = ""
    · -- An empty key is not looked up.
      subst named
      exact .searched (by simp [Collided]) (by simp [Looked])
    · exact .fresh named (by simp [Collided]) (by simp [Looked])
  | step _ next ih => exact ih.step next

/--
When retries and duplicates with one idempotency key are safe.

At most one request ever has the key. Everything that is promised holds exactly if no attempt has
inserted its draft after another one, and none that was to submit has found a request in draft.
-/
theorem retrySafe_iff {final : Retries ι} (unused : store.keyed k = none)
    (trace : Retries.Trace (.start store dto k retries) taken final) :
    RetrySafe k dto taken final ↔ Undisturbed k dto taken final := by
  have recorded := recorded_of_trace unused trace
  constructor
  · intro safe
    constructor
    · intro call result finished collided
      obtain ⟨good, comes, outcome⟩ := recorded.ended finished
      cases outcome with
      | refused =>
        obtain ⟨request, _, same, _⟩ := safe.returned call result finished (Or.inr collided)
        cases comes.symm.trans same
      | repeats _ _ unmet => exact unmet collided
      | created unmet => exact unmet collided
    · intro submits call result existing finished looked
      obtain ⟨good, comes, outcome⟩ := recorded.ended finished
      cases outcome with
      | repeats found _ _ sole =>
        obtain rfl := (sole existing).mp looked
        subst comes
        simp [safe.submitted submits call existing finished]
      | refused _ unfound => exact absurd looked (unfound existing)
      | created _ unfound => exact absurd looked (unfound existing)
  · intro undisturbed
    refine ⟨fun left leftMember right rightMember leftNamed rightNamed => ?_, ?_, ?_⟩
    · exact Table.eq_of_key_eq leftMember rightMember
        (recorded.orderly.single left leftMember right rightMember leftNamed rightNamed)
    · intro call result finished either
      rcases either with ⟨existing, looked⟩ | collided
      · obtain ⟨good, comes, outcome⟩ := recorded.ended finished
        cases outcome with
        | repeats found stored _ _ _ lookup same => exact ⟨found, stored, comes, lookup, same⟩
        | refused _ unfound => exact absurd looked (unfound existing)
        | created _ unfound => exact absurd looked (unfound existing)
      · exact absurd collided (undisturbed.inserts call result finished)
    · intro submits call request finished
      obtain ⟨good, comes, outcome⟩ := recorded.ended finished
      cases outcome with
      | repeats found _ _ sole waits =>
        -- What was found was a draft or waited, and it was no draft.
        cases comes
        exact waits.resolve_left
          (undisturbed.lookups submits call _ request finished ((sole request).mpr rfl))
      | refused => cases comes
      | created _ _ waits => exact waits submits _ comes request rfl

end Stages

variable {ι : Type}

/-- Whether the next step of an attempt meets nothing that would disturb it. -/
def Retries.calm (k : String) (before : Retries ι) (call : ι) : Bool :=
  match (before.thread call).head with
  | some (.insertRequest _) => (before.state.keyed k).isNone
  | some (.findByKey _) => (before.state.keyed k).all fun existing => existing.status ≠ .draft
  | _ => true

/-- A run of calm steps is undisturbed. -/
theorem undisturbed_of_calm {taken : List (Retries ι × ι)} {final : Retries ι}
    (calm : ∀ before call, (before, call) ∈ taken → Retries.calm k before call = true) :
    Undisturbed k dto taken final := by
  constructor
  · intro call result _ given
    obtain ⟨before, request, member, head, stored⟩ := given
    have met := calm before call member
    simp only [Retries.calm, head, Option.isNone_iff_eq_none] at met
    exact stored met
  · intro _ call result existing _ given
    obtain ⟨before, member, head, found⟩ := given
    have met := calm before call member
    simpa [Retries.calm, head, found] using met

/-- A call and its retry, with new ids and the same answer from the other side. -/
def twice (again : Bool) : Retry :=
  if again then ⟨"second", "second-hold", .ok ⟨"e", "l", 10, 1, 0⟩⟩
  else ⟨"first", "first-hold", .ok ⟨"e", "l", 10, 1, 0⟩⟩

/-- A retry of a call that has been submitted is safe. -/
theorem retrySafe_iff_twice : ∃ taken final,
    Retries.Trace (.start {} Store.threeDays "key" twice) taken final ∧
      (∀ call, ∃ result, final.thread call = .finished result) ∧
      RetrySafe "key" Store.threeDays taken final := by
  have executed : (Runs.run (Threads.step CreateStatement.exec) (Retries.calm "key")
      (Retries.start {} Store.threeDays "key" twice)
      (List.replicate 13 false ++ List.replicate 2 true)).map (fun final =>
        decide (∀ call, (final.thread call).result.isSome = true)) = some true := by
    decide +kernel
  obtain ⟨taken, final, trace, calm, ended⟩ := Threads.exists_trace_of_run executed
  exact ⟨taken, final, trace, Threads.finished_of_results (of_decide_eq_true ended),
    (retrySafe_iff rfl trace).mpr (undisturbed_of_calm calm)⟩

/-- Whether a call has returned a draft. -/
def CallResult.drafted : CallResult → Bool
  | .request returned => returned.status = .draft
  | _ => false

/-- A retry after a conflict returns a draft, although a submit was asked for. -/
theorem not_retrySafe_conflict : ∃ taken final,
    Retries.Trace (.start {} { Store.threeDays with days := 99 } "key" twice) taken final ∧
      (∀ call, ∃ result, final.thread call = .finished result) ∧
      ¬RetrySafe "key" { Store.threeDays with days := 99 } taken final := by
  have executed : (Runs.run (Threads.step CreateStatement.exec) (fun _ _ => true)
      (Retries.start {} { Store.threeDays with days := 99 } "key" twice)
      (List.replicate 11 false ++ List.replicate 2 true)).map (fun final =>
        decide (∀ call, (final.thread call).result.isSome = true) &&
        (final.thread true).result.any CallResult.drafted) = some true := by
    decide +kernel
  obtain ⟨taken, final, trace, _, ended⟩ := Threads.exists_trace_of_run executed
  simp only [Bool.and_eq_true, decide_eq_true_eq] at ended
  refine ⟨taken, final, trace, Threads.finished_of_results ended.1, fun safe => ?_⟩
  -- The retry has returned, and what it returned is a draft.
  obtain ⟨result, returned, drafted⟩ := (Option.any_eq_true _ _).mp ended.2
  cases result with
  | request request =>
    have waits := safe.submitted rfl true request (Thread.result_eq_some.mp returned)
    simp [CallResult.drafted, waits] at drafted
  | _ => cases drafted

end TimeOff
