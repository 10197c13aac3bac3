import TimeOff.Concurrency.Spending

/-! What the calls of a pair spend stays within what is available, while no commit is overlooked. -/

namespace TimeOff

open Programs

/-- Two calls draw different ids, and record the deliveries of different requests. -/
structure Spender.Apart (left right : Spender) : Prop where
  drawn : ∀ uuid, left.drawn = some uuid → right.drawn ≠ some uuid
  settles : ∀ id, left.settles = some id → right.settles ≠ some id

/-- What one call leaves for another one of the pair. -/
structure Spares (pair : String × String) (other : Spender) (before after : Store) : Prop where
  steady : Store.Steady pair before after
  unused : ∀ uuid, other.drawn = some uuid → before.ledger.find uuid = none →
    after.ledger.find uuid = none
  held : ∀ msg : OutboxMessage, other.settles = some msg.requestId → before.HoldsFor msg pair →
    after.HoldsFor msg pair

/-- What a step of a call does, which leaves some days more for the others than it found. -/
structure Steps (pair : String × String) (spender : Spender) (before after : Store)
    (gain : Int) : Prop where
  steady : Store.Steady pair before after
  spares : ∀ other, spender.Apart other → Spares pair other before after
  charges : after.Charges
  gain : before.available pair.1 pair.2 + gain ≤ after.available pair.1 pair.2

section Statements

variable {pair : String × String} {spender : Spender} {store : Store}

/-- An idle statement leaves everything to the others. -/
theorem steps_idle {statement : Statement} (idle : statement.Idle pair)
    (loaded : (store.balances.find pair).isSome = true) (charges : store.Charges) :
    Steps pair spender store (statement.exec store).2 0 := by
  -- An idle statement leaves the ledger, and all the rest follows from that.
  obtain ⟨steady, ledger⟩ := idle.2 store loaded
  refine ⟨steady, fun other _ => ⟨steady, fun uuid _ unused => ledger ▸ unused,
    fun msg _ holds => ?_⟩, ?_, ?_⟩
  · unfold Store.HoldsFor
    rwa [ledger]
  · unfold Store.Charges
    rwa [ledger]
  · rw [Store.available_of_ledger steady ledger]
    omega

/-- An entry that a call inserts is a new row. -/
theorem steps_insertEntry {entry : BalanceLedgerEntry} (drawn : spender.drawn = some entry.id)
    (unused : store.ledger.find entry.id = none) (nonneg : 0 ≤ entry.amount)
    (charges : store.Charges) :
    Steps pair spender store (store.insertEntry entry) (-entry.takenFrom pair) := by
  have steady : Store.Steady pair store (store.insertEntry entry) := .of_same rfl rfl
  have rows := Table.rows_save_of_fresh unused
  refine ⟨steady, fun other apart => ⟨steady, fun uuid drawnToo unusedToo => ?_,
    fun msg _ ⟨hold, stored, own⟩ => ⟨hold, ?_, own⟩⟩, fun row member => ?_, ?_⟩
  · -- The ids that the others draw are different ones.
    simp only [Store.insertEntry, Table.find_save]
    rw [if_neg, unusedToo]
    rintro rfl
    exact apart.drawn _ drawn drawnToo
  · simp only [Store.insertEntry, rows, List.mem_append]
    exact Or.inl stored
  · simp only [Store.insertEntry, rows, List.mem_append, List.mem_singleton] at member
    rcases member with stored | rfl
    · exact charges row stored
    · exact nonneg
  · rw [Store.available_insertEntry store unused]
    omega

/-- Releasing the hold of one request leaves those of the others. -/
theorem steps_releaseActive {requestId : String} (settles : spender.settles = some requestId)
    (charges : store.Charges) {gain : Int}
    (given : store.available pair.1 pair.2 + gain ≤
      (store.releaseActive .reserve requestId).available pair.1 pair.2) :
    Steps pair spender store (store.releaseActive .reserve requestId) gain := by
  have steady : Store.Steady pair store (store.releaseActive .reserve requestId) :=
    .of_same rfl rfl
  refine ⟨steady, fun other apart => ⟨steady, fun uuid _ unused => ?_,
    fun msg settlesToo ⟨hold, stored, own, rest⟩ => ⟨hold, ?_, own, rest⟩⟩,
    fun row member => ?_, given⟩
  · simp [Store.releaseActive, Table.find_update, unused]
  · -- The holds of the other requests are not matched by the update.
    have different : msg.requestId ≠ requestId := fun same =>
      apart.settles _ settles (same ▸ settlesToo)
    simp only [Store.releaseActive, Table.rows_update, List.mem_map]
    exact ⟨hold, stored, by simp [own, different]⟩
  · simp only [Store.releaseActive, Table.rows_update, List.mem_map] at member
    obtain ⟨old, stored, rfl⟩ := member
    split
    · exact charges old stored
    · exact charges old stored

end Statements

section Outcomes

variable {α : Type} {pair : String × String} {msg : OutboxMessage} {entryId : String}

/-- A program that inserts the commit of a debit next, and is done with the ledger then. -/
def Inserts (pair : String × String) (msg : OutboxMessage) (entryId : String)
    (program : Section α) : Prop :=
  ∃ commit rest, program = .call (.insertEntry commit) rest ∧ commit.id = entryId ∧
    commit.amount = msg.payload.amount ∧ commit.takenFrom pair = msg.payload.amount ∧
    ∀ answer, (rest answer).Only (Statement.Idle pair)

/-- A program that releases the hold of a debit next, to make it a commit. -/
def Releases (pair : String × String) (msg : OutboxMessage) (entryId : String)
    (program : Section α) : Prop :=
  ∃ after, program = .call (.releaseActive .reserve msg.requestId) after ∧
    ∀ answer, Inserts pair msg entryId (after answer)

/-- A program that fetches the request of a debit next. -/
def Fetches (pair : String × String) (msg : OutboxMessage) (entryId : String)
    (program : Section α) : Prop :=
  ∃ next, program = .call (.findRequest msg.requestId) next ∧ ∀ request,
    request.id = msg.requestId → request.pair = pair →
      Releases pair msg entryId (next (some request))

/-- How far an acknowledged debit has come with its commit. -/
inductive Committing (pair : String × String) (store : Store) (msg : OutboxMessage)
    (entryId : String) (program : Section α) : Prop
  | fetches (request : TimeOffRequest) : store.HoldsFor msg pair →
      store.ledger.find entryId = none → store.requests.find msg.requestId = some request →
      request.pair = pair → Fetches pair msg entryId program →
      Committing pair store msg entryId program
  | releases : store.HoldsFor msg pair → store.ledger.find entryId = none →
      Releases pair msg entryId program → Committing pair store msg entryId program
  | inserts : store.ledger.find entryId = none → 0 ≤ msg.payload.amount →
      Inserts pair msg entryId program → Committing pair store msg entryId program
  | ends : program.Only (Statement.Idle pair) → Committing pair store msg entryId program

/-- The transaction of an acknowledged debit fetches its request first. -/
theorem fetches_applySuccess {hcmRef : String} {hcmVersion : Int} {hcmActuallyApplied : Bool}
    {eventId : String} (debit : msg.type = .debit) :
    Fetches pair msg entryId
      (Spender.success msg hcmRef hcmVersion hcmActuallyApplied entryId eventId).call := by
  refine ⟨_, rfl, fun request own at_ => ?_⟩
  simp only [Prog.bind_eq, Prog.ret_bind, Option.elim_some, settleSuccess, debit,
    commitReservation, Prog.perform_bind, Prog.call_bind]
  rw [own]
  refine ⟨_, rfl, fun _ => ?_⟩
  refine ⟨_, _, rfl, rfl, rfl, ?_, fun _ => ?_⟩
  · simp [BalanceLedgerEntry.takenFrom, BalanceLedgerEntry.pair, ← at_, TimeOffRequest.pair]
  · -- What is left writes the request, the drift and the message.
    refine Prog.only_bind (Prog.only_bind (Prog.only_bind (only_advance _ _ _) fun _ => ?_)
      fun _ => ⟨idle_markDone _, fun _ => trivial⟩) fun _ => trivial
    exact only_onlyIf (Prog.only_perform (idle_insertEvent _))

theorem Inserts.taking {program : Section α} (inserts : Inserts pair msg entryId program) :
    taking pair program = msg.payload.amount := by
  obtain ⟨commit, rest, rfl, _, _, taken, _⟩ := inserts
  exact taken

theorem Releases.taking {program : Section α} (releases : Releases pair msg entryId program) :
    taking pair program = 0 := by
  obtain ⟨after, rfl, _⟩ := releases
  rfl

/-- One statement of an acknowledged debit leaves at least as much as it goes on to take. -/
theorem Committing.step {store : Store} (spender : Spender) {statement : Statement}
    {next : statement.Answer → Section α} (drawn : spender.drawn = some entryId)
    (settles : spender.settles = some msg.requestId)
    (loaded : (store.balances.find pair).isSome = true) (charges : store.Charges)
    (committing : Committing pair store msg entryId (.call statement next)) :
    Committing pair (statement.exec store).2 msg entryId (next (statement.exec store).1) ∧
      Steps pair spender store (statement.exec store).2
        (taking pair (next (statement.exec store).1) - taking pair (.call statement next)) := by
  cases committing with
  | fetches request holds unused found at_ fetches =>
    obtain ⟨fetched, same, releases⟩ := fetches
    cases same
    have onward : Releases pair msg entryId
        (fetched ((Statement.findRequest msg.requestId).exec store).1) := by
      -- The row that is found is the one whose pair is known.
      simpa only [Statement.exec, found] using releases request (Table.key_of_find found) at_
    refine ⟨.releases holds unused onward, ?_⟩
    show Steps pair spender store _ (taking pair (fetched _) - 0)
    -- Reading the request takes nothing, and the release that follows neither.
    rw [onward.taking]
    exact steps_idle (idle_findRequest msg.requestId) loaded charges
  | releases holds unused releases =>
    obtain ⟨released, same, inserts⟩ := releases
    cases same
    have nonneg : 0 ≤ msg.payload.amount := by
      obtain ⟨hold, stored, _, _, _, _, amount⟩ := holds
      exact amount ▸ charges hold stored
    refine ⟨.inserts ?_ nonneg (inserts ()), ?_⟩
    · simp [Statement.exec, Store.releaseActive, Table.find_update, unused]
    · show Steps pair spender store _ (taking pair (released ()) - 0)
      rw [(inserts ()).taking]
      -- The release gives back what the commit will take.
      apply steps_releaseActive settles charges
      have given := holds.available_releaseActive charges
      omega
  | inserts unused nonneg inserts =>
    obtain ⟨commit, _, same, rfl, amount, taken, idle⟩ := inserts
    cases same
    refine ⟨.ends (idle _), ?_⟩
    rw [taking_of_idle (idle _)]
    show Steps pair spender store (store.insertEntry commit) (0 - commit.takenFrom pair)
    rw [Int.zero_sub]
    -- The commit takes what was set aside for it.
    exact steps_insertEntry drawn unused (amount ▸ nonneg) charges
  | ends idle =>
    refine ⟨.ends (idle.2 _), ?_⟩
    rw [taking_of_idle idle, taking_of_idle (idle.2 _)]
    exact steps_idle idle.1 loaded charges

/-- A program that releases at most the hold of a request, and is done with the ledger then. -/
def Frees (pair : String × String) (msg : OutboxMessage) (program : Section α) : Prop :=
  program.Only (Statement.Idle pair) ∨
    ∃ after, program = .call (.releaseActive .reserve msg.requestId) after ∧
      ∀ answer, (after answer).Only (Statement.Idle pair)

/-- How far a refused delivery has come: it fetches its request first. -/
def Rejecting (pair : String × String) (msg : OutboxMessage) (program : Section α) : Prop :=
  Frees pair msg program ∨ ∃ next, program = .call (.findRequest msg.requestId) next ∧
    ∀ found : Option TimeOffRequest, (∀ request ∈ found, request.id = msg.requestId) →
      Frees pair msg (next found)

theorem Frees.takes_nothing {program : Section α} (frees : Frees pair msg program) :
    taking pair program = 0 := by
  rcases frees with idle | ⟨after, rfl, _⟩
  · exact taking_of_idle idle
  · rfl

theorem Rejecting.takes_nothing {program : Section α} (rejecting : Rejecting pair msg program) :
    taking pair program = 0 := by
  rcases rejecting with frees | ⟨next, rfl, _⟩
  · exact frees.takes_nothing
  · rfl

/-- The transaction of a refusal fetches its request first. -/
theorem rejecting_applyRejection (reason : String) :
    Rejecting pair msg (Spender.rejection msg reason).call := by
  have marks : (Prog.call (.markRejected msg.id reason) fun _ =>
      .ret (.done .recorded) : Section (Ending String Statement.Answer CallResult)).Only
        (Statement.Idle pair) := ⟨idle_markRejected _ _, fun _ => trivial⟩
  refine Or.inr ⟨_, rfl, fun found own => ?_⟩
  -- Without its request, a delivery is only marked.
  cases found with
  | none => exact Or.inl marks
  | some request =>
    simp only [Prog.bind_eq, Prog.ret_bind, Option.elim_some, settleRejection]
    cases msg.type with
    | debit =>
      simp only [Prog.perform_bind, Prog.call_bind]
      rw [own request rfl]
      -- A refused debit releases the hold of its own request.
      refine Or.inr ⟨_, rfl, fun _ => ?_⟩
      exact Prog.only_bind (Prog.only_bind (only_advance _ _ _) fun _ =>
        ⟨idle_markRejected _ _, fun _ => trivial⟩) fun _ => trivial
    | credit => exact Or.inl marks

/-- One statement of a refusal takes nothing. -/
theorem Rejecting.step {store : Store} (spender : Spender) {statement : Statement}
    {next : statement.Answer → Section α} (settles : spender.settles = some msg.requestId)
    (loaded : (store.balances.find pair).isSome = true) (charges : store.Charges)
    (rejecting : Rejecting pair msg (.call statement next)) :
    Rejecting pair msg (next (statement.exec store).1) ∧
      Steps pair spender store (statement.exec store).2
        (taking pair (next (statement.exec store).1) - taking pair (.call statement next)) := by
  have onward : Rejecting pair msg (next (statement.exec store).1) := by
    rcases rejecting with (idle | ⟨released, same, idle⟩) | ⟨fetched, same, frees⟩
    · exact Or.inl (Or.inl (idle.2 _))
    · cases same
      exact Or.inl (Or.inl (idle _))
    · cases same
      exact Or.inl (frees _ fun request found => Table.key_of_find found)
  refine ⟨onward, ?_⟩
  rw [onward.takes_nothing, rejecting.takes_nothing, Int.sub_zero]
  rcases rejecting with (idle | ⟨released, same, idle⟩) | ⟨fetched, same, frees⟩
  -- A release gives days back, and the other statements do not touch the ledger.
  · exact steps_idle idle.1 loaded charges
  · cases same
    apply steps_releaseActive settles charges
    rw [Int.add_zero]
    exact Store.le_available_releaseActive charges msg.requestId
  · cases same
    exact steps_idle (idle_findRequest msg.requestId) loaded charges

end Outcomes

section Submits

variable {pair : String × String} {store : Store} {id uuid : String}

/-- What a submit relies on until it has placed its hold. -/
structure Ready (pair : String × String) (store : Store) (id uuid : String) : Prop where
  unused : store.ledger.find uuid = none
  stored : ∃ request, store.requests.find id = some request ∧ request.pair = pair

/-- How far a submit has come on its way to the mutex. -/
inductive Applying (pair : String × String) (id uuid : String) :
    Section (Ending String Statement.Answer CallResult) → Prop
  | checks (answer : Except HcmError HcmBalanceRow) :
      Applying pair id uuid (submitCall id uuid answer)
  | loads (answer : Except HcmError HcmBalanceRow) :
      Applying pair id uuid (ensureBalanceLoaded pair.1 pair.2 answer
        (return .exclusive (key pair.1 pair.2) (submitSection id uuid)))
  | refused (result : CallResult) : Applying pair id uuid (.ret (.done result))
  | queues : Applying pair id uuid
      (.ret (.exclusive (key pair.1 pair.2) (submitSection id uuid)))

/-- The request a submit works on is the stored one, up to what never changes. -/
def Store.Reads (store : Store) (id : String) (request : TimeOffRequest) : Prop :=
  ∃ stored, store.requests.find id = some stored ∧ stored.terms = request.terms

/-- How far a submit has come inside the mutex. -/
inductive Reserving (pair : String × String) (store : Store) (id uuid : String) :
    Section CallResult → Prop
  | checks : Ready pair store id uuid → Reserving pair store id uuid (submitSection id uuid)
  | loads (request : TimeOffRequest) : Ready pair store id uuid → store.Reads id request →
      request.pair = pair → Reserving pair store id uuid
        (computeComponents request.employeeId request.locationId >>= reserveWithin uuid request)
  | sums (request : TimeOffRequest) (hcmBalance : Int) : Ready pair store id uuid →
      store.Reads id request → request.pair = pair → store.cached pair = hcmBalance →
      Reserving pair store id uuid (.call (.sumActive request.employeeId request.locationId)
        fun sums => reserveWithin uuid request ⟨hcmBalance, sums.1, sums.2⟩)
  | places (entry : BalanceLedgerEntry) (rest : Unit → Section CallResult) :
      store.ledger.find uuid = none → entry.id = uuid → 0 ≤ entry.amount →
      (∀ answer, (rest answer).Only (Statement.Idle pair)) →
      Reserving pair store id uuid (.call (.insertEntry entry) rest)
  | ends (program : Section CallResult) : program.Only (Statement.Idle pair) →
      Reserving pair store id uuid program

/-- A submit comes to the mutex without writing the ledger. -/
theorem Applying.step (spender : Spender) {statement : Statement}
    {next : statement.Answer → Section (Ending String Statement.Answer CallResult)}
    (loaded : (store.balances.find pair).isSome = true) (charges : store.Charges)
    (ready : Ready pair store id uuid)
    (applying : Applying pair id uuid (.call statement next)) :
    Ready pair (statement.exec store).2 id uuid ∧
      Applying pair id uuid (next (statement.exec store).1) ∧
        Steps pair spender store (statement.exec store).2 0 := by
  generalize same : Prog.call statement next = program at applying
  cases applying with
  | checks answer =>
    cases same
    refine ⟨ready, ?_, steps_idle (idle_findRequest id) loaded charges⟩
    obtain ⟨request, found, rfl⟩ := ready.stored
    simp only [Statement.exec, found, Prog.ret_bind]
    by_cases legal : canTransition request.status .submit = true
    · simp only [legal, if_true]
      exact .loads answer
    · simp only [legal, Bool.false_eq_true, if_false]
      exact .refused _
  | loads answer =>
    cases same
    refine ⟨ready, ?_, steps_idle (idle_findBalance pair.1 pair.2) loaded charges⟩
    -- The snapshot is there, so it is not asked for.
    obtain ⟨balance, found⟩ := Option.isSome_iff_exists.mp loaded
    have cached : store.balances.find (pair.1, pair.2) = some balance := found
    simp only [Statement.exec, cached, Prog.ret_bind]
    exact .queues
  | refused => cases same
  | queues => cases same

/-- A submit that reads the sums goes on to take its days only where they are available. -/
theorem Reserving.sums_step {employeeId locationId : String}
    {next : Int × Int → Section CallResult}
    (reserving : Reserving pair store id uuid (.call (.sumActive employeeId locationId) next)) :
    let answer := ((Statement.sumActive employeeId locationId).exec store).1
    Reserving pair store id uuid (next answer) ∧
      (taking pair (next answer) = 0 ∨ ∃ stored, store.requests.find id = some stored ∧
        0 < stored.days ∧ stored.days ≤ store.available pair.1 pair.2 ∧
        taking pair (next answer) = stored.days) := by
  intro answer
  generalize same : (Prog.call (.sumActive employeeId locationId) next : Section CallResult) =
    program at reserving
  cases reserving with
  | sums request hcmBalance ready reads at_ cached =>
    cases same
    subst at_ cached
    -- Nobody has written the snapshot since it was read.
    have components : (⟨store.cached request.pair, answer.1, answer.2⟩ : BalanceComponents) =
        store.computeComponents request.employeeId request.locationId := rfl
    dsimp only
    rw [components]
    unfold reserveWithin
    by_cases admitted : canReserve
        (store.computeComponents request.employeeId request.locationId) request.days = true
    · obtain ⟨positive, fits⟩ := (canReserve_iff _ _).mp admitted
      simp only [admitted, if_true, addReservation, Prog.bind_eq, Prog.perform_bind]
      obtain ⟨stored, found, terms⟩ := reads
      have days : stored.days = request.days := congrArg Terms.days terms
      -- The hold that comes next takes the days of the stored request.
      refine ⟨.places _ _ ready.unused rfl positive.le fun _ => ?_,
        Or.inr ⟨stored, found, days ▸ positive, days ▸ fits, ?_⟩⟩
      · exact Prog.only_bind (Prog.only_perform (idle_saveRequest _ _ _)) fun _ => trivial
      · rw [days]
        simp [taking, Prog.head, BalanceLedgerEntry.takenFrom, BalanceLedgerEntry.pair,
          TimeOffRequest.pair]
    · rw [if_neg admitted]
      exact ⟨.ends _ trivial, Or.inl rfl⟩
  | ends _ idle =>
    subst same
    exact ⟨.ends _ (idle.2 _), Or.inl (taking_of_idle (idle.2 _))⟩
  | checks => cases same
  | loads => cases same
  | places => cases same

/-- Every other statement of a section leaves at least as much as it goes on to take. -/
theorem Reserving.step (spender : Spender) {statement : Statement}
    {next : statement.Answer → Section CallResult} (drawn : spender.drawn = some uuid)
    (loaded : (store.balances.find pair).isSome = true) (charges : store.Charges)
    (other : ∀ employeeId locationId, statement ≠ .sumActive employeeId locationId)
    (reserving : Reserving pair store id uuid (.call statement next)) :
    Reserving pair (statement.exec store).2 id uuid (next (statement.exec store).1) ∧
      Steps pair spender store (statement.exec store).2
        (taking pair (next (statement.exec store).1) - taking pair (.call statement next)) := by
  -- The stages follow each other, one for each statement of the section.
  generalize same : Prog.call statement next = program at reserving
  cases reserving with
  | checks ready =>
    cases same
    have idle : Steps pair spender store store 0 :=
      steps_idle (idle_findRequest id) loaded charges
    obtain ⟨request, found, at_⟩ := ready.stored
    simp only [Statement.exec, found, Prog.ret_bind]
    by_cases legal : canTransition request.status .submit = true
    · simp only [legal, if_true]
      exact ⟨.loads request ready ⟨request, found, rfl⟩ at_, idle⟩
    · simp only [legal, Bool.false_eq_true, if_false]
      exact ⟨.ends _ trivial, idle⟩
  | loads request ready reads at_ =>
    cases same
    have idle : Steps pair spender store store 0 :=
      steps_idle (idle_findBalance request.employeeId request.locationId) loaded charges
    refine ⟨.sums request _ ready reads at_ ?_, idle⟩
    rw [← at_]
    rfl
  | sums =>
    cases same
    exact absurd rfl (other _ _)
  | places entry rest unused own nonneg idle =>
    cases same
    subst own
    -- With its hold in place, the submit is done with the ledger.
    refine ⟨.ends _ (idle _), ?_⟩
    rw [taking_of_idle (idle _)]
    show Steps pair spender store (store.insertEntry entry) (0 - entry.takenFrom pair)
    rw [Int.zero_sub]
    exact steps_insertEntry drawn unused nonneg charges
  | ends _ idle =>
    subst same
    refine ⟨.ends _ (idle.2 _), ?_⟩
    rw [taking_of_idle idle, taking_of_idle (idle.2 _)]
    exact steps_idle idle.1 loaded charges

end Submits

section Keeping

variable {pair : String × String} {before after : Store} {other : Spender}

theorem Committing.keep {α : Type} {program : Section α} {msg : OutboxMessage} {entryId : String}
    (spares : Spares pair other before after) (drawn : other.drawn = some entryId)
    (settles : other.settles = some msg.requestId)
    (committing : Committing pair before msg entryId program) :
    Committing pair after msg entryId program := by
  cases committing with
  | fetches request holds unused found at_ fetches =>
    -- The request may have been written since, but not its pair.
    obtain ⟨later, foundLater, terms⟩ := spares.steady.terms _ request found
    exact .fetches later (spares.held msg settles holds) (spares.unused entryId drawn unused)
      foundLater ((TimeOffRequest.pair_of_terms terms).trans at_) fetches
  | releases holds unused releases =>
    exact .releases (spares.held msg settles holds) (spares.unused entryId drawn unused) releases
  | inserts unused nonneg inserts =>
    exact .inserts (spares.unused entryId drawn unused) nonneg inserts
  | ends idle => exact .ends idle

variable {id uuid : String}

theorem Ready.keep (spares : Spares pair other before after) (drawn : other.drawn = some uuid)
    (ready : Ready pair before id uuid) : Ready pair after id uuid := by
  -- Another call neither uses the id nor moves the request to another pair.
  obtain ⟨request, found, at_⟩ := ready.stored
  obtain ⟨later, foundLater, terms⟩ := spares.steady.terms id request found
  exact ⟨spares.unused uuid drawn ready.unused,
    later, foundLater, (TimeOffRequest.pair_of_terms terms).trans at_⟩

theorem Store.Reads.keep {request : TimeOffRequest} (steady : Store.Steady pair before after)
    (reads : before.Reads id request) : after.Reads id request := by
  obtain ⟨stored, found, terms⟩ := reads
  obtain ⟨later, foundLater, same⟩ := steady.terms id stored found
  exact ⟨later, foundLater, same.trans terms⟩

theorem Reserving.keep {program : Section CallResult} (spares : Spares pair other before after)
    (drawn : other.drawn = some uuid) (reserving : Reserving pair before id uuid program) :
    Reserving pair after id uuid program := by
  -- What the others leave alone is just what each stage relies on.
  cases reserving with
  | checks ready => exact .checks (ready.keep spares drawn)
  | loads request ready reads at_ =>
    exact .loads request (ready.keep spares drawn) (reads.keep spares.steady) at_
  | sums request hcmBalance ready reads at_ cached =>
    refine .sums request hcmBalance (ready.keep spares drawn) (reads.keep spares.steady) at_ ?_
    rw [← cached, Store.cached, spares.steady.snapshot]
    rfl
  | places entry rest unused own nonneg idle =>
    exact .places entry rest (spares.unused uuid drawn unused) own nonneg idle
  | ends program idle => exact .ends program idle

end Keeping

/-- How far a call of a pair has come. -/
def Spender.Stands {ι : Type} (pair : String × String) (store : Store) :
    Spender → Thread String ι Statement.Answer CallResult → Prop
  | .submit id uuid _, .outside program =>
    Ready pair store id uuid ∧ Applying pair id uuid program
  | .submit id uuid _, .waiting lock _ body =>
    Ready pair store id uuid ∧ lock = key pair.1 pair.2 ∧ body = submitSection id uuid
  | .submit id uuid _, .inside lock body =>
    lock = key pair.1 pair.2 ∧ Reserving pair store id uuid body
  | .success msg _ _ _ entryId _, .outside program =>
    Committing pair store msg entryId program ∧
      program.Returns fun ending => ∃ result, ending = .done result
  | .rejection msg _, .outside program =>
    Rejecting pair msg program ∧ program.Returns fun ending => ∃ result, ending = .done result
  | _, .finished _ => True
  -- Only a submit takes the lock.
  | _, _ => False

/-- What the next statement of a call takes off the available balance of a pair. -/
def Thread.taking {ι : Type} (pair : String × String) :
    Thread String ι Statement.Answer CallResult → Int
  | .outside program => TimeOff.taking pair program
  | .inside _ body => TimeOff.taking pair body
  | _ => 0

section Runs

variable {ι : Type} {pair : String × String} {spender : Spender} {before after : Store}
  {thread : Thread String ι Statement.Answer CallResult}

/-- A call stands where it stood, whatever another one does. -/
theorem Spender.Stands.keep (spares : Spares pair spender before after)
    (stands : spender.Stands pair before thread) : spender.Stands pair after thread := by
  cases spender with
  | submit id uuid answer =>
    cases thread with
    | outside program => exact ⟨stands.1.keep spares rfl, stands.2⟩
    | waiting lock previous body => exact ⟨stands.1.keep spares rfl, stands.2⟩
    | inside lock body => exact ⟨stands.1, stands.2.keep spares rfl⟩
    -- A call that has finished relies on nothing.
    | finished result => trivial
  | success msg hcmRef hcmVersion hcmActuallyApplied entryId eventId =>
    cases thread with
    | outside program => exact ⟨stands.1.keep spares rfl rfl, stands.2⟩
    | waiting lock previous body => exact stands
    | inside lock body => exact stands
    | finished result => trivial
  | rejection msg reason =>
    cases thread with
    | outside program => exact stands
    | waiting lock previous body => exact stands
    | inside lock body => exact stands
    | finished result => trivial

theorem Steps.refl (charges : before.Charges) : Steps pair spender before before 0 :=
  ⟨.of_same rfl rfl, fun _ _ => ⟨.of_same rfl rfl, fun _ _ unused => unused,
    fun _ _ holds => holds⟩, charges, by omega⟩

theorem Applying.takes_nothing {id uuid : String}
    {program : Section (Ending String Statement.Answer CallResult)}
    (applying : Applying pair id uuid program) : TimeOff.taking pair program = 0 := by
  cases applying <;> rfl

/-- What a call takes next is never negative. -/
theorem Spender.Stands.taking_nonneg {store : Store}
    (stands : spender.Stands pair store thread) : 0 ≤ thread.taking pair := by
  -- Only a hold that is placed and a commit that is inserted take anything.
  cases spender with
  | submit id uuid answer =>
    cases thread with
    | outside program => exact stands.2.takes_nothing.ge
    | waiting => exact le_rfl
    | inside lock body =>
      cases stands.2 with
      | checks => exact le_rfl
      | loads => exact le_rfl
      | sums => exact le_rfl
      | places entry rest _ _ nonneg => exact Store.takenFrom_nonneg nonneg
      | ends _ idle => exact (taking_of_idle idle).ge
    | finished => exact le_rfl
  | success msg hcmRef hcmVersion hcmActuallyApplied entryId eventId =>
    cases thread with
    | outside program =>
      cases stands.1 with
      | fetches _ _ _ _ _ fetches =>
        obtain ⟨_, rfl, _⟩ := fetches
        exact le_rfl
      | releases _ _ releases => exact releases.taking.ge
      | inserts _ nonneg inserts => exact nonneg.trans inserts.taking.ge
      | ends idle => exact (taking_of_idle idle).ge
    | waiting => exact le_rfl
    | inside => exact stands.elim
    | finished => exact le_rfl
  | rejection msg reason =>
    cases thread with
    | outside program => exact stands.1.takes_nothing.ge
    | waiting => exact le_rfl
    | inside => exact stands.elim
    | finished => exact le_rfl

/-- How a call goes on: it leaves enough for what it takes next, or it has just read the sums. -/
inductive GoesOn (pair : String × String) (spender : Spender) (before after : Store) :
    (was next : Thread String ι Statement.Answer CallResult) → Prop
  | leaves {was next : Thread String ι Statement.Answer CallResult} :
      Steps pair spender before after (next.taking pair - was.taking pair) →
      GoesOn pair spender before after was next
  | admits (id uuid : String) (answer : Except HcmError HcmBalanceRow)
      (employeeId locationId : String) (stored : TimeOffRequest) (lock : String)
      (rest : Int × Int → Section CallResult)
      {next : Thread String ι Statement.Answer CallResult} :
      spender = .submit id uuid answer → Steps pair spender before after 0 →
      before.requests.find id = some stored → 0 < stored.days →
      stored.days ≤ before.available pair.1 pair.2 → next.taking pair = stored.days →
      GoesOn pair spender before after
        (.inside lock (.call (.sumActive employeeId locationId) rest)) next

/-- A statement outside the mutex keeps a call where its program says. -/
theorem Spender.Stands.states {store : Store} {statement : Statement}
    {rest : statement.Answer → Section (Ending String Statement.Answer CallResult)}
    (loaded : (store.balances.find pair).isSome = true) (charges : store.Charges)
    (stands : spender.Stands pair store
      (.outside (.call statement rest) : Thread String ι Statement.Answer CallResult)) :
    let next : Thread String ι Statement.Answer CallResult :=
      .outside (rest (statement.exec store).1)
    spender.Stands pair (statement.exec store).2 next ∧
      GoesOn pair spender store (statement.exec store).2 (.outside (.call statement rest))
        next := by
  cases spender with
  | submit id uuid answer =>
    obtain ⟨ready, applying⟩ := stands
    obtain ⟨readyStill, onward, steps⟩ :=
      applying.step (.submit id uuid answer) loaded charges ready
    refine ⟨⟨readyStill, onward⟩, .leaves ?_⟩
    -- On its way to the mutex, a submit takes nothing.
    simp only [Thread.taking, onward.takes_nothing, applying.takes_nothing, Int.sub_zero]
    exact steps
  | success msg hcmRef hcmVersion hcmActuallyApplied entryId eventId =>
    obtain ⟨committing, returns⟩ := stands
    obtain ⟨onward, steps⟩ := committing.step (.success msg hcmRef hcmVersion
      hcmActuallyApplied entryId eventId) rfl rfl loaded charges
    exact ⟨⟨onward, returns _⟩, .leaves steps⟩
  | rejection msg reason =>
    obtain ⟨rejecting, returns⟩ := stands
    obtain ⟨onward, steps⟩ := rejecting.step (.rejection msg reason) rfl loaded charges
    exact ⟨⟨onward, returns _⟩, .leaves steps⟩

/-- A statement inside the mutex keeps a call where its section says. -/
theorem Spender.Stands.works {store : Store} {lock : String} {statement : Statement}
    {rest : statement.Answer → Section CallResult}
    (loaded : (store.balances.find pair).isSome = true) (charges : store.Charges)
    (stands : spender.Stands pair store
      (.inside lock (.call statement rest) : Thread String ι Statement.Answer CallResult)) :
    let next : Thread String ι Statement.Answer CallResult :=
      .inside lock (rest (statement.exec store).1)
    spender.Stands pair (statement.exec store).2 next ∧
      GoesOn pair spender store (statement.exec store).2 (.inside lock (.call statement rest))
        next := by
  cases spender with
  | submit id uuid answer =>
    obtain ⟨rfl, reserving⟩ := stands
    by_cases summing : ∃ employeeId locationId, statement = .sumActive employeeId locationId
    · obtain ⟨employeeId, locationId, rfl⟩ := summing
      have still : Steps pair (.submit id uuid answer) store store 0 := .refl charges
      obtain ⟨onward, takes⟩ := reserving.sums_step
      refine ⟨⟨rfl, onward⟩, ?_⟩
      rcases takes with nothing | ⟨stored, found, positive, fits, days⟩
      · refine .leaves ?_
        simp only [Thread.taking, nothing]
        exact still
      · -- Only here does a call decide to take something that nobody has set aside.
        exact .admits id uuid answer employeeId locationId stored _ rest rfl still found
          positive fits days
    · obtain ⟨onward, steps⟩ := reserving.step (.submit id uuid answer) rfl loaded charges
        fun employeeId locationId same => summing ⟨employeeId, locationId, same⟩
      exact ⟨⟨rfl, onward⟩, .leaves steps⟩
  | success => exact stands.elim
  | rejection => exact stands.elim

/-- Whoever is inside holds the lock of the pair. -/
theorem Spender.Stands.lock_eq {store : Store} {lock : String} {body : Section CallResult}
    (stands : spender.Stands pair store
      (.inside lock body : Thread String ι Statement.Answer CallResult)) :
    lock = key pair.1 pair.2 := by
  -- A delivery is never inside.
  cases spender with
  | submit id uuid answer => exact stands.1
  | success => exact stands.elim
  | rejection => exact stands.elim

variable [DecidableEq ι] {threads later : Threads Store String ι Statement.Answer CallResult}
  {call : ι}

/-- A step of a call keeps it where its program says, and goes on in one of these ways. -/
theorem Spender.Stands.step (loaded : (threads.state.balances.find pair).isSome = true)
    (charges : threads.state.Charges)
    (stands : spender.Stands pair threads.state (threads.thread call))
    (taken : threads.step Statement.exec call = some later) :
    ∃ next, later.thread = Function.update threads.thread call next ∧
      spender.Stands pair later.state next ∧
      GoesOn pair spender threads.state later.state (threads.thread call) next := by
  have still : Steps pair spender threads.state threads.state 0 := .refl charges
  cases Threads.step_move taken with
  | states statement rest at_ =>
    rw [at_] at stands ⊢
    exact ⟨_, rfl, stands.states loaded charges⟩
  | returns result at_ =>
    refine ⟨_, rfl, ?_, .leaves ?_⟩
    · cases spender <;> trivial
    · rw [at_]
      exact still
  | queues lock body at_ =>
    refine ⟨_, rfl, ?_⟩
    rw [at_] at stands ⊢
    cases spender with
    | submit id uuid answer =>
      obtain ⟨ready, applying⟩ := stands
      cases applying with
      | queues => exact ⟨⟨ready, rfl, rfl⟩, .leaves still⟩
    -- The delivery of an outcome does not ask for the lock.
    | success msg hcmRef hcmVersion hcmActuallyApplied entryId eventId =>
      obtain ⟨_, done⟩ := stands.2
      cases done
    | rejection msg reason =>
      obtain ⟨_, done⟩ := stands.2
      cases done
  | starts lock previous body at_ ready =>
    refine ⟨_, rfl, ?_⟩
    rw [at_] at stands ⊢
    cases spender with
    | submit id uuid answer =>
      obtain ⟨ready, rfl, rfl⟩ := stands
      exact ⟨⟨rfl, .checks ready⟩, .leaves still⟩
    | success => exact stands.elim
    | rejection => exact stands.elim
  | works lock statement rest at_ =>
    rw [at_] at stands ⊢
    exact ⟨_, rfl, stands.works loaded charges⟩
  | leaves lock result at_ =>
    refine ⟨_, rfl, ?_, .leaves ?_⟩
    · cases spender <;> trivial
    · rw [at_]
      exact still

/-- The calls of a pair stand where their programs say, and what they take next is available. -/
structure Solvent (spenders : ι → Spender) [Fintype ι] (pair : String × String)
    (threads : Threads Store String ι Statement.Answer CallResult) : Prop where
  loaded : (threads.state.balances.find pair).isSome = true
  charges : threads.state.Charges
  stands : ∀ call, (spenders call).Stands pair threads.state (threads.thread call)
  covered : ∑ call, (threads.thread call).taking pair ≤ threads.state.available pair.1 pair.2

variable [Fintype ι] {spenders : ι → Spender}

/-- A sum over all calls changes by what the one that goes on changes. -/
theorem sum_update (weight : Thread String ι Statement.Answer CallResult → Int)
    (was : ι → Thread String ι Statement.Answer CallResult) (call : ι)
    (next : Thread String ι Statement.Answer CallResult) :
    ∑ other, weight (Function.update was call next other) =
      ∑ other, weight (was other) + (weight next - weight (was call)) := by
  rw [← Finset.add_sum_erase _ _ (Finset.mem_univ call),
    ← Finset.add_sum_erase (a := call) _ (fun other => weight (was other)) (Finset.mem_univ call)]
  -- Away from the call, the sums have the same terms.
  have others : ∑ other ∈ Finset.univ.erase call, weight (Function.update was call next other) =
      ∑ other ∈ Finset.univ.erase call, weight (was other) :=
    Finset.sum_congr rfl fun other member => by
      rw [Function.update_of_ne (Finset.ne_of_mem_erase member)]
  rw [others, Function.update_self]
  omega

omit [DecidableEq ι] in
/-- While a submit reads the sums, only commits in flight are about to take anything. -/
theorem Solvent.taking_eq (solvent : Solvent spenders pair threads)
    (fair : threads.mutex.Fair threads.phases) {lock employeeId locationId : String}
    {rest : Int × Int → Section CallResult}
    (inside : threads.thread call = .inside lock (.call (.sumActive employeeId locationId) rest)) :
    ∑ other, (threads.thread other).taking pair = threads.inFlight pair := by
  refine Finset.sum_congr rfl fun other _ => ?_
  have stands := solvent.stands other
  cases at_ : threads.thread other with
  | outside program => rfl
  | waiting => rfl
  | finished => rfl
  | inside mine body =>
    have reads := solvent.stands call
    rw [at_] at stands
    rw [inside] at reads
    -- The lock is held once, so this is the call that reads the sums.
    obtain rfl := reads.lock_eq
    obtain rfl := stands.lock_eq
    obtain rfl := fair.exclusive (congrArg Thread.phase inside) (congrArg Thread.phase at_)
    cases inside.symm.trans at_
    rfl

/-- A step by which no submit is deceived keeps what the calls take next available. -/
theorem Solvent.step (solvent : Solvent spenders pair threads)
    (apart : ∀ left right, left ≠ right → (spenders left).Apart (spenders right))
    (fair : threads.mutex.Fair threads.phases)
    (undeceived : threads.Undeceived pair (spenders call) call)
    (taken : threads.step Statement.exec call = some later) : Solvent spenders pair later := by
  obtain ⟨next, thread, stands, goes⟩ :=
    (solvent.stands call).step solvent.loaded solvent.charges taken
  have steps : ∃ gain, Steps pair (spenders call) threads.state later.state gain := by
    generalize threads.thread call = was at goes
    cases goes with
    | leaves steps => exact ⟨_, steps⟩
    | admits _ _ _ _ _ _ _ _ _ steps => exact ⟨_, steps⟩
  obtain ⟨_, steps⟩ := steps
  -- The calls that did not go on stand where they stood.
  refine ⟨?_, steps.charges, fun other => ?_, ?_⟩
  · rw [steps.steady.snapshot]
    exact solvent.loaded
  · rw [thread]
    by_cases same : other = call
    · rw [same, Function.update_self]
      exact stands
    · rw [Function.update_of_ne same]
      exact (solvent.stands other).keep (steps.spares _ (apart call other (Ne.symm same)))
  · rw [thread, sum_update]
    have covered := solvent.covered
    generalize at_ : threads.thread call = was at goes
    cases goes with
    | leaves steps =>
      have gain := steps.gain
      omega
    | admits id uuid answer employeeId locationId stored lock rest named steps found positive fits
        days =>
      have gain := steps.gain
      -- The submit saw enough for its days, even without the commits in flight.
      have enough := undeceived stored (by rw [named]; exact found)
        (by rw [Threads.summing, at_]) positive fits
      rw [← solvent.taking_eq fair at_] at enough
      rw [days]
      show _ + (_ - 0) ≤ _
      omega

/-- What the calls of a pair find before any of them has begun. -/
structure Opening (spenders : ι → Spender) (store : Store) (pair : String × String) : Prop where
  loaded : (store.balances.find pair).isSome = true
  enough : 0 ≤ store.available pair.1 pair.2
  charges : store.Charges
  about : ∀ call, (spenders call).About store pair
  -- The ids that are drawn are new, and each outcome is recorded once.
  unused : ∀ call uuid, (spenders call).drawn = some uuid → store.ledger.find uuid = none
  apart : ∀ left right, left ≠ right → (spenders left).Apart (spenders right)

omit [DecidableEq ι] in
/-- Before any call has begun, nothing is taken yet. -/
theorem Opening.solvent {store : Store} (opening : Opening spenders store pair) :
    Solvent spenders pair (Threads.start store fun call => (spenders call).call) where
  loaded := opening.loaded
  charges := opening.charges
  stands call := by
    have about := opening.about call
    have unused := opening.unused call
    simp only [Threads.start]
    cases named : spenders call with
    -- A submit begins with its check, and a delivery with its request.
    | submit id uuid answer =>
      rw [named] at about unused
      exact ⟨⟨unused uuid rfl, about⟩, .checks answer⟩
    | success msg hcmRef hcmVersion hcmActuallyApplied entryId eventId =>
      rw [named] at about unused
      obtain ⟨debit, ⟨request, found, _, at_⟩, holds⟩ := about
      exact ⟨.fetches request holds (unused entryId rfl) found at_ (fetches_applySuccess debit),
        Prog.returns_bind _ fun result => ⟨result, rfl⟩⟩
    | rejection msg reason =>
      exact ⟨rejecting_applyRejection reason, Prog.returns_bind _ fun result => ⟨result, rfl⟩⟩
  covered := by
    have nothing : ∀ call ∈ Finset.univ,
        ((Threads.start store fun call => (spenders call).call).thread call).taking pair = 0 := by
      intro call _
      simp only [Threads.start]
      cases spenders call <;> rfl
    -- So what is available needs to cover nothing yet.
    rw [Finset.sum_eq_zero nothing]
    exact opening.enough

/-- Where no submit is deceived by a commit in flight, the pair is never overspent. -/
theorem Spender.available_nonneg {store : Store} (opening : Opening spenders store pair)
    {taken : List (Threads Store String ι Statement.Answer CallResult × ι)}
    {final : Threads Store String ι Statement.Answer CallResult}
    (trace : Runs.Trace (Threads.step Statement.exec)
      (Threads.start store fun call => (spenders call).call) taken final)
    (undeceived : ∀ before call, (before, call) ∈ taken →
      before.Undeceived pair (spenders call) call) :
    0 ≤ final.state.available pair.1 pair.2 := by
  -- What the calls take next is covered, and none of it is negative.
  have kept : Solvent spenders pair final ∧ final.mutex.Fair final.phases := by
    induction trace with
    | start => exact ⟨opening.solvent, KeyedMutex.fair_init⟩
    | step _ next ih =>
      obtain ⟨solvent, fair⟩ := ih fun before call member =>
        undeceived before call (List.mem_append_left _ member)
      exact ⟨solvent.step opening.apart fair (undeceived _ _ (by simp)) next,
        Threads.step_fair fair next⟩
  have taken : 0 ≤ ∑ call, (final.thread call).taking pair :=
    Finset.sum_nonneg fun call _ => (kept.1.stands call).taking_nonneg
  exact taken.trans kept.1.covered

end Runs

/-- Three days of a pair, all held for an approved request, while another one wants them too. -/
def allHeld : Store :=
  let request (id : String) (status : RequestStatus) : TimeOffRequest :=
    { id, employeeId := "e", locationId := "l", startDate := "2025-01-06"
      endDate := "2025-01-08", days := 3, status, idempotencyKey := none
      hcmRef := none, reason := none, version := 1 }
  ((((({} : Store).insertBalance "e" "l" ⟨"e", "l", 3, 1, 0⟩).addReservation "hold" "r" "e" "l"
    3).saveRequest (request "r" .approved)).enqueue "debit" 0
      { requestId := "r", type := .debit, idempotencyKey := debitKey "r", payload := ⟨"e", "l", 3⟩ }
        ).saveRequest (request "s" .draft)

/-- The debit of the approved request is acknowledged while the other request is submitted. -/
def debitAndSubmit : Bool → Spender
  | false => .success
      { id := "debit", requestId := "r", type := .debit, idempotencyKey := debitKey "r"
        payload := ⟨"e", "l", 3⟩, status := .inflight, attempts := 0, nextAttemptAt := none
        lastError := none, createdAt := 0 } "ref" 2 true "commit" "event"
  | true => .submit "s" "other" (.error (.unavailable ""))

theorem opening_debitAndSubmit : Opening debitAndSubmit allHeld ("e", "l") where
  loaded := rfl
  enough := by decide
  charges := by unfold Store.Charges; decide
  about call := by
    cases call with
    | false =>
      -- The hold of the debit is among the rows.
      refine ⟨rfl, ⟨_, rfl, rfl, rfl⟩, ?_⟩
      unfold Store.HoldsFor
      decide
    | true => exact ⟨_, rfl, rfl⟩
  unused call uuid drawn := by
    cases call with
    | false => cases drawn; rfl
    | true => cases drawn; rfl
  apart left right different := by
    -- One of them settles a delivery, and the other one settles none.
    cases left <;> cases right <;> first | exact absurd rfl different | skip
    · exact ⟨by simp [debitAndSubmit, Spender.drawn], by simp [debitAndSubmit, Spender.settles]⟩
    · exact ⟨by simp [debitAndSubmit, Spender.drawn], by simp [debitAndSubmit, Spender.settles]⟩

/-- When the commit is inserted before the sums are read, the submit is refused. -/
theorem available_nonneg_debitAndSubmit : ∃ taken final,
    Runs.Trace (Threads.step Statement.exec)
      (Threads.start allHeld fun call => (debitAndSubmit call).call) taken final ∧
    (∀ call, ∃ result, final.thread call = .finished result) ∧
    0 ≤ final.state.available "e" "l" := by
  -- The submit has the lock, and reads the sums after the commit.
  have executed : (Runs.run (Threads.step Statement.exec)
      (fun before call => decide (before.Undeceived ("e", "l") (debitAndSubmit call) call))
      (Threads.start allHeld fun call => (debitAndSubmit call).call)
      [true, true, true, true, true, true, false, false, false, true, true, false, false,
        false]).map
      (fun final => decide (∀ call, (final.thread call).result.isSome = true)) = some true := by
    decide +kernel
  obtain ⟨taken, final, trace, checked, ended⟩ := Threads.exists_trace_of_run executed
  exact ⟨taken, final, trace, Threads.finished_of_results (of_decide_eq_true ended),
    Spender.available_nonneg opening_debitAndSubmit trace fun before call member =>
      of_decide_eq_true (checked before call member)⟩

/-- When they are read between the release and the commit, the days are spent twice. -/
theorem debitAndSubmit_overspends : Opening debitAndSubmit allHeld ("e", "l") ∧
    ¬∀ taken final, Runs.Trace (Threads.step Statement.exec)
        (Threads.start allHeld fun call => (debitAndSubmit call).call) taken final →
      (∀ call, ∃ result, final.thread call = .finished result) →
        0 ≤ final.state.available "e" "l" := by
  refine ⟨opening_debitAndSubmit, fun enough => ?_⟩
  -- The hold is released, the submit reads the sums, and then the commit comes.
  have executed : (Runs.run (Threads.step Statement.exec) (fun _ _ => true)
      (Threads.start allHeld fun call => (debitAndSubmit call).call)
      [false, false, true, true, true, true, true, true, true, true, true, true, false, false,
        false, false]).map
      (fun final => decide (∀ call, (final.thread call).result.isSome = true) &&
        decide (final.state.available "e" "l" = -3)) = some true := by
    decide +kernel
  obtain ⟨taken, final, trace, _, ended⟩ := Threads.exists_trace_of_run executed
  simp only [Bool.and_eq_true, decide_eq_true_eq] at ended
  have nonneg := enough taken final trace (Threads.finished_of_results ended.1)
  omega

end TimeOff
