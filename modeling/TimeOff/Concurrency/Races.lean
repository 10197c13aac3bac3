import Mathlib.Tactic.FinCases
import TimeOff.Balance.Available
import TimeOff.Concurrency.Serialisation
import TimeOff.Concurrency.Statements

/-! Submits and snapshot swaps that race for the days of one pair. -/

namespace TimeOff

open Programs

/-- Make sure that a snapshot is loaded, and go on. What the other side answers is given. -/
def ensureBalanceLoaded (employeeId locationId : String) (answer : Except HcmError HcmBalanceRow)
    (next : Section (Ending String Statement.Answer CallResult)) :
    Section (Ending String Statement.Answer CallResult) := do
  let existing : Option Balance ← send (.findBalance employeeId locationId)
  match existing, answer with
  | some _, _ => next
  | none, .error error => return .done (.unavailable error)
  | none, .ok row => do
    -- A row that a concurrent caller has inserted first is left alone.
    send (.insertBalance employeeId locationId row)
    next

/-- In one piece, the statements of the lazy load are the lazy load. -/
theorem run_ensureBalanceLoaded (store : Store) (employeeId locationId : String)
    (answer : Except HcmError HcmBalanceRow)
    (next : Section (Ending String Statement.Answer CallResult)) :
    (ensureBalanceLoaded employeeId locationId answer next).run Statement.exec store =
      match store.ensureBalanceLoaded employeeId locationId answer with
      | .ok loaded => next.run Statement.exec loaded
      | .error error => (.done (.unavailable error), store) := by
  -- The first statement finds the row or not, and the rest depends on that and on the answer.
  simp only [ensureBalanceLoaded, send, Prog.bind_eq, Prog.perform_bind, Prog.run_call,
    Statement.exec, Store.ensureBalanceLoaded]
  cases store.balances.find (employeeId, locationId) with
  | some balance => rfl
  | none => cases answer <;> rfl

/-- A submit: a first check, the lazy load, and the section under the mutex. -/
def submitCall (id uuid : String) (answer : Except HcmError HcmBalanceRow) :
    Section (Ending String Statement.Answer CallResult) := do
  let found : Option TimeOffRequest ← send (.findRequest id)
  match found with
  | none => return .done (.refused (.requestNotFound id))
  | some pre =>
    if canTransition pre.status .submit then
      ensureBalanceLoaded pre.employeeId pre.locationId answer
        (return .exclusive (key pre.employeeId pre.locationId) (submitSection id uuid))
    else return .done (.refused (.illegalTransition pre.status .submit))

/-- The reconciliation of one update, which is all under the mutex. -/
def reconcileKeyCall (uuid : String) (now : Time) (update : HcmBalanceUpdate) :
    Section (Ending String Statement.Answer CallResult) :=
  return .exclusive (key update.employeeId update.locationId) (reconcileSection uuid now update)

/-- A call that races for the days of a pair. -/
inductive Racer where
  | submit (id uuid : String) (answer : Except HcmError HcmBalanceRow)
  | reconcileKey (uuid : String) (now : Time) (update : HcmBalanceUpdate)

namespace Racer

/-- The statements of a call. -/
def call : Racer → Section (Ending String Statement.Answer CallResult)
  | .submit id uuid answer => submitCall id uuid answer
  | .reconcileKey uuid now update => reconcileKeyCall uuid now update

/-- The critical section of a call. -/
def body : Racer → Section CallResult
  | .submit id uuid _ => submitSection id uuid
  | .reconcileKey uuid now update => reconcileSection uuid now update

/-- The critical section as one transaction. -/
def serve : Racer → Store → CallResult × Store
  | .submit id uuid _, store => CallResult.settle store (store.submit id uuid)
  | .reconcileKey uuid now update, store =>
    (.reconciled (store.reconcileKey uuid now update).1, (store.reconcileKey uuid now update).2)

/-- A call is about a pair: it submits one of its drafts, or reconciles its balance. -/
def About (store : Store) (pair : String × String) : Racer → Prop
  | .submit id _ _ => ∃ draft, store.requests.find id = some draft ∧ draft.status = .draft ∧
    draft.pair = pair
  | .reconcileKey _ _ update => update.pair = pair

/-- In one piece, the statements of a section are its transaction. -/
theorem run_body (racer : Racer) (store : Store) :
    racer.body.run Statement.exec store = racer.serve store := by
  cases racer with
  | submit id uuid answer => exact run_submitSection store id uuid
  | reconcileKey uuid now update => exact run_reconcileSection store uuid now update

end Racer

namespace Store

/-- What the sections do to the rows a submit looks at before it has the lock. -/
structure Grows (pair : String × String) (before after : Store) : Prop where
  loaded : (before.balances.find pair).isSome = true → (after.balances.find pair).isSome = true
  -- A request that is written is no draft any more.
  kept : ∀ id request, before.requests.find id = some request →
    ∃ later, after.requests.find id = some later ∧ later.pair = request.pair ∧
      (later = request ∨ later.status ≠ .draft)

variable {pair : String × String} {before after : Store}

theorem Grows.of_same (balances : after.balances = before.balances)
    (requests : after.requests = before.requests) : Grows pair before after :=
  ⟨fun loaded => balances ▸ loaded, fun _ request found =>
    ⟨request, requests ▸ found, rfl, Or.inl rfl⟩⟩

theorem Grows.trans {middle : Store} (first : Grows pair before middle)
    (second : Grows pair middle after) : Grows pair before after := by
  -- A draft that was written in the first part is no draft in the second one either.
  refine ⟨fun loaded => second.loaded (first.loaded loaded), fun id request found => ?_⟩
  obtain ⟨later, foundLater, pair, way⟩ := first.kept id request found
  obtain ⟨last, foundLast, samePair, wayOn⟩ := second.kept id later foundLater
  refine ⟨last, foundLast, samePair.trans pair, ?_⟩
  rcases wayOn with rfl | started
  · exact way
  · exact Or.inr started

/-- A request that is no draft any more stays none. -/
theorem Grows.started (grown : Grows pair before after) {id : String} {request : TimeOffRequest}
    (found : before.requests.find id = some request) (started : request.status ≠ .draft) :
    ∃ later, after.requests.find id = some later ∧ later.status ≠ .draft := by
  obtain ⟨later, foundLater, _, same | startedToo⟩ := grown.kept id request found
  · exact ⟨later, foundLater, same ▸ started⟩
  · exact ⟨later, foundLater, startedToo⟩

/-- A status that is written is that of no draft. -/
theorem grows_writeRequest (store : Store) (id : String) {status : RequestStatus}
    (started : status ≠ .draft) (hcmRef : Option String) :
    Grows pair store (store.writeRequest id status hcmRef) := by
  refine ⟨fun loaded => loaded, fun other request found => ?_⟩
  simp only [writeRequest, Table.find_update, found, Option.map_some]
  refine ⟨_, rfl, ?_, ?_⟩
  · -- The pair of a request is no part of what is written.
    split <;> rfl
  · split
    · exact Or.inr started
    · exact Or.inl rfl

theorem grows_saveBalance (store : Store) (balance : Balance) :
    Grows pair store { store with balances := store.balances.save balance } := by
  refine ⟨fun loaded => ?_, fun _ request found => ⟨request, found, rfl, Or.inl rfl⟩⟩
  rw [Table.find_save]
  -- A snapshot that is saved is loaded, whichever pair it is of.
  split
  · rfl
  · exact loaded

theorem available_at (store : Store) (pair : String × String) :
    store.available pair.1 pair.2 =
      store.cached pair - (store.ledger.rows.map (·.takenFrom pair)).sum :=
  store.available_eq pair.1 pair.2

/-- An entry that is inserted is taken off what is available. -/
theorem available_insertEntry (store : Store) {entry : BalanceLedgerEntry}
    (unused : store.ledger.find entry.id = none) :
    (store.insertEntry entry).available pair.1 pair.2 =
      store.available pair.1 pair.2 - entry.takenFrom pair := by
  -- The new row comes last, and adds what it takes to the sum.
  have rows := Table.rows_save_of_fresh unused
  simp only [available_at, cached, insertEntry, rows, List.map_append, List.map_cons,
    List.map_nil, List.sum_append, List.sum_cons, List.sum_nil]
  omega

end Store

/-- The statements of the sections, each with what it may do. -/
def Statement.Grows (pair : String × String) (statement : Statement) : Prop :=
  ∀ store, Store.Grows pair store (statement.exec store).2

/-- A program under a condition comes to nothing else. -/
theorem only_onlyIf {allowed : Statement → Prop} {wanted : Prop} [Decidable wanted]
    {program : Section Unit} (only : program.Only allowed) :
    (onlyIf wanted program).Only allowed := by
  -- A program that is left out makes no statement.
  unfold onlyIf
  split
  · exact only
  · trivial

/-- The section of a submit writes no draft. -/
theorem only_submitSection (pair : String × String) (id uuid : String) :
    (submitSection id uuid).Only (Statement.Grows pair) :=
  submitSection_only (fun _ same store => .of_same (same store).1 (same store).2)
    fun request store => store.grows_writeRequest request (by simp) none

/-- The writes of a reconciliation write no request. -/
theorem only_applyReconciliation (pair : String × String) (uuid : String) (now : Time)
    (update : HcmBalanceUpdate) (balance : Balance) (result : ReconcileResult) :
    (applyReconciliation uuid now update balance result).Only (Statement.Grows pair) := by
  refine Prog.only_bind (only_onlyIf (Prog.only_perform fun _ => .of_same rfl rfl)) fun _ =>
    Prog.only_bind (Prog.only_perform fun store => store.grows_saveBalance _) fun _ =>
      Prog.only_bind (only_onlyIf (Prog.only_perform fun _ => .of_same rfl rfl)) fun _ => trivial

/-- The section of a reconciliation writes no request. -/
theorem only_reconcileSection (pair : String × String) (uuid : String) (now : Time)
    (update : HcmBalanceUpdate) :
    (reconcileSection uuid now update).Only (Statement.Grows pair) := by
  refine Prog.only_bind (Prog.only_perform fun _ => .of_same rfl rfl) fun found =>
    Prog.only_bind (Prog.only_perform fun _ => .of_same rfl rfl) fun reserved =>
      Prog.only_bind (Prog.only_perform fun _ => .of_same rfl rfl) fun committed => ?_
  -- All three statements so far are reads.
  dsimp only
  split
  · trivial
  · exact only_applyReconciliation pair uuid now update _ _

namespace Racer

variable {ι : Type} {racers : ι → Racer} {pair : String × String} {store : Store}

/-- What the calls of a race rely on. -/
def protocol (racers : ι → Racer) (pair : String × String) :
    Threads.Protocol Store String ι Statement.Answer CallResult where
  exec := Statement.exec
  key := key pair.1 pair.2
  body call := (racers call).body
  grows := Store.Grows pair
  refused call store result := ∃ id uuid answer status request,
    racers call = .submit id uuid answer ∧
      result = .refused (.illegalTransition status .submit) ∧
      store.requests.find id = some request ∧ request.status ≠ .draft
  refl _ := .of_same rfl rfl
  trans := .trans
  stable := by
    rintro call before after result grown ⟨id, uuid, answer, status, request, named, refused,
      found, started⟩
    obtain ⟨later, foundLater, startedStill⟩ := grown.started found started
    exact ⟨id, uuid, answer, status, later, named, refused, foundLater, startedStill⟩
  keeps call := by
    cases racers call with
    | submit id uuid answer => exact only_submitSection pair id uuid
    | reconcileKey uuid now update => exact only_reconcileSection pair uuid now update

/-- Up to the lock, a call about a loaded pair only reads, whatever the others do. -/
theorem reads_call (loaded : (store.balances.find pair).isSome = true) (call : ι)
    (about : (racers call).About store pair) :
    (racers call).call.Reads Statement.exec (Store.Grows pair)
      ((protocol racers pair).Ends call) store := by
  cases named : racers call with
  | submit id uuid answer =>
    rw [named] at about
    obtain ⟨draft, found, _, rfl⟩ := about
    intro state grown
    obtain ⟨pre, foundLater, same, _⟩ := grown.kept id draft found
    refine ⟨rfl, ?_⟩
    simp only [Statement.exec, foundLater, Prog.ret_bind]
    by_cases legal : canTransition pre.status .submit = true
    · simp only [legal, if_true]
      intro later grownOn
      refine ⟨rfl, ?_⟩
      -- The snapshot is still there, so it is not asked for again.
      obtain ⟨balance, cached⟩ :=
        Option.isSome_iff_exists.mp (grownOn.loaded (grown.loaded loaded))
      have cachedToo : later.balances.find (pre.employeeId, pre.locationId) = some balance := by
        rw [← cached]
        exact congrArg later.balances.find same
      simp only [Statement.exec, cachedToo, Prog.ret_bind]
      exact ⟨congrArg (fun pair : String × String => key pair.1 pair.2) same,
        by simp [protocol, named, body]⟩
    · simp only [legal, Bool.false_eq_true, if_false]
      refine ⟨id, uuid, answer, pre.status, pre, named, rfl, foundLater, fun draft => ?_⟩
      exact legal ((canTransition_submit _).mpr draft)
  | reconcileKey uuid now update =>
    rw [named] at about
    subst about
    exact ⟨rfl, by simp [protocol, named, body]⟩

/-- The store after the sections of some calls ran as transactions, one after the other. -/
def inTurn (racers : ι → Racer) (store : Store) (order : List ι) : Store :=
  order.foldl (fun store call => ((racers call).serve store).2) store

/-- The submits that are accepted among them, each with the request it has submitted. -/
def reservations (racers : ι → Racer) : Store → List ι → List (ι × TimeOffRequest)
  | _, [] => []
  | store, call :: rest =>
    (match ((racers call).serve store).1 with
      | .request moved => [(call, moved)]
      | _ => []) ++ reservations racers ((racers call).serve store).2 rest

/-- Sections in one piece are transactions, also one after the other. -/
theorem serially_eq (racers : ι → Racer) (store : Store) (order : List ι) :
    Threads.serially Statement.exec (fun call => (racers call).body) store order =
      inTurn racers store order := by
  simp only [Threads.serially, inTurn, run_body]

/-- What a call that is served has done, and what it reports. -/
inductive Served (store : Store) : Racer → CallResult → Store → Prop
  | accepted (id uuid : String) (answer : Except HcmError HcmBalanceRow)
      (draft : TimeOffRequest) :
      store.requests.find id = some draft → draft.status = .draft → 0 < draft.days →
      draft.days ≤ store.available draft.employeeId draft.locationId →
      Served store (.submit id uuid answer) (.request (draft.moved .submit).saved)
        ((store.addReservation uuid draft.id draft.employeeId draft.locationId
          draft.days).saveRequest (draft.moved .submit))
  | short (id uuid : String) (answer : Except HcmError HcmBalanceRow) (draft : TimeOffRequest) :
      store.requests.find id = some draft → draft.status = .draft →
      (0 < draft.days → store.available draft.employeeId draft.locationId < draft.days) →
      Served store (.submit id uuid answer)
        (.refused (.insufficientBalance draft.days
          (store.available draft.employeeId draft.locationId))) store
  | illegal (id uuid : String) (answer : Except HcmError HcmBalanceRow)
      (request : TimeOffRequest) :
      store.requests.find id = some request → request.status ≠ .draft →
      Served store (.submit id uuid answer)
        (.refused (.illegalTransition request.status .submit)) store
  | unknown (id uuid : String) (answer : Except HcmError HcmBalanceRow) :
      store.requests.find id = none →
      Served store (.submit id uuid answer) (.refused .notFound) store
  | reconciled (uuid : String) (now : Time) (update : HcmBalanceUpdate) :
      Served store (.reconcileKey uuid now update)
        (.reconciled (store.reconcileKey uuid now update).1)
        (store.reconcileKey uuid now update).2

/-- A call is served in one of these ways. -/
theorem served (racer : Racer) (store : Store) :
    Served store racer (racer.serve store).1 (racer.serve store).2 := by
  cases racer with
  | reconcileKey uuid now update => exact .reconciled uuid now update
  | submit id uuid answer =>
    -- What the transaction returns or throws decides the way.
    have settled (outcome : Except ServiceError (TimeOffRequest × Store))
        (same : store.submit id uuid = outcome)
        (way : Served store (.submit id uuid answer) (CallResult.settle store outcome).1
          (CallResult.settle store outcome).2) :
        Served store (.submit id uuid answer) ((submit id uuid answer).serve store).1
          ((submit id uuid answer).serve store).2 := by
      simpa only [serve, same] using way
    cases found : store.requests.find id with
    | none =>
      refine settled (.error .notFound) ?_ (.unknown id uuid answer found)
      simp [Store.submit, Store.requestFor, found, Bind.bind, Except.bind]
    | some request =>
      by_cases legal : canTransition request.status .submit = true
      · have checked : store.requestFor id .submit = .ok request := by
          simp [Store.requestFor, found, legal]
        have draft := (canTransition_submit _).mp legal
        by_cases admitted : canReserve
            (store.computeComponents request.employeeId request.locationId) request.days = true
        · obtain ⟨positive, fits⟩ := (canReserve_iff _ _).mp admitted
          refine settled (.ok (_, _)) ?_
            (.accepted id uuid answer request found draft positive fits)
          simp [Store.submit, checked, admitted, Bind.bind, Except.bind, pure, Except.pure]
          rfl
        · refine settled (.error _) ?_
            (.short id uuid answer request found draft fun positive => ?_)
          · simp [Store.submit, checked, admitted, Bind.bind, Except.bind, throw, throwThe,
              MonadExceptOf.throw, Store.available]
          · rw [canReserve_iff, not_and] at admitted
            exact Int.not_le.mp (admitted positive)
      · refine settled (.error _) ?_ (.illegal id uuid answer request found fun draft =>
          legal ((canTransition_submit _).mpr draft))
        simp [Store.submit, Store.requestFor, found, legal, Bind.bind, Except.bind]

/-- A call is about a pair still, even when its draft has been submitted. -/
def Concerns (store : Store) (pair : String × String) : Racer → Prop
  | .submit id _ _ => ∃ request, store.requests.find id = some request ∧ request.pair = pair
  | .reconcileKey _ _ update => update.pair = pair

theorem About.concerns {racer : Racer} (about : racer.About store pair) :
    racer.Concerns store pair := by
  -- A draft of the pair is a request of the pair.
  cases racer with
  | submit id uuid answer =>
    obtain ⟨draft, found, _, same⟩ := about
    exact ⟨draft, found, same⟩
  | reconcileKey uuid now update => exact about

theorem Concerns.grow {racer : Racer} {after : Store} (concerns : racer.Concerns store pair)
    (grown : Store.Grows pair store after) : racer.Concerns after pair := by
  -- What a section writes keeps the pair of each request.
  cases racer with
  | submit id uuid answer =>
    obtain ⟨request, found, same⟩ := concerns
    obtain ⟨later, foundLater, sameLater, _⟩ := grown.kept id request found
    exact ⟨later, foundLater, sameLater.trans same⟩
  | reconcileKey uuid now update => exact concerns

/-- Serving a call keeps to what the calls rely on. -/
theorem grows_serve (racer : Racer) (store : Store) (pair : String × String) :
    Store.Grows pair store (racer.serve store).2 := by
  rw [← run_body]
  exact Prog.Only.run ((protocol (fun _ : Unit => racer) pair).keeps ())
    (protocol (fun _ : Unit => racer) pair).refl (protocol (fun _ : Unit => racer) pair).trans store

/-- Serving a call submits at most its own draft. -/
theorem find_serve (racer : Racer) {id : String} {request : TimeOffRequest}
    (found : store.requests.find id = some request) :
    (racer.serve store).2.requests.find id = some request ∨
      ∃ moved, (racer.serve store).1 = .request moved ∧ moved.id = id := by
  have way := served racer store
  generalize (racer.serve store).1 = result at way ⊢
  generalize (racer.serve store).2 = after at way ⊢
  -- Only an accepted submit and a reconciliation that is applied write anything.
  cases way with
  | accepted other uuid answer draft foundToo _ _ _ =>
    by_cases own : draft.id = id
    · exact Or.inr ⟨_, rfl, own⟩
    · apply Or.inl
      simp only [Store.saveRequest, Store.addReservation, Table.find_save]
      rw [if_neg (show (draft.moved .submit).saved.id ≠ id from own)]
      exact found
  | short => exact Or.inl found
  | illegal => exact Or.inl found
  | unknown => exact Or.inl found
  | reconciled uuid now update =>
    apply Or.inl
    -- Fresh or stale, a reconciliation leaves the table of the requests.
    rcases Int.lt_or_le (store.watermark update.pair) update.version with fresh | stale
    · obtain ⟨_, _, absorbs⟩ := store.reconcileKey_fresh uuid now fresh
      rwa [absorbs.requests]
    · rwa [(store.reconcileKey_stale uuid now stale).2]

/-- An accepted submit has found its draft, which is none any more. -/
theorem serve_request {racer : Racer} {moved : TimeOffRequest}
    (accepted : (racer.serve store).1 = .request moved) :
    ∃ id uuid answer draft, racer = .submit id uuid answer ∧
      moved = (draft.moved .submit).saved ∧ moved.id = id ∧
      store.requests.find id = some draft ∧ draft.status = .draft ∧ 0 < draft.days ∧
      draft.days ≤ store.available draft.employeeId draft.locationId ∧
      (racer.serve store).2 = (store.addReservation uuid draft.id draft.employeeId
        draft.locationId draft.days).saveRequest (draft.moved .submit) := by
  -- The only way to return a request is to accept its draft.
  have way := served racer store
  generalize (racer.serve store).2 = after at way ⊢
  rw [accepted] at way
  cases way with
  | accepted id uuid answer draft found status positive fits =>
    have named : draft.id = id := Table.key_of_find found
    exact ⟨id, uuid, answer, draft, rfl, rfl, named, found, status, positive, fits, rfl⟩

/-- The first of some calls adds its reservation, if it is accepted. -/
theorem reservations_cons (racers : ι → Racer) (store : Store) (call : ι) (rest : List ι) :
    (∃ moved, ((racers call).serve store).1 = .request moved ∧
      reservations racers store (call :: rest) =
        (call, moved) :: reservations racers ((racers call).serve store).2 rest) ∨
    ((∀ moved, ((racers call).serve store).1 ≠ .request moved) ∧
      reservations racers store (call :: rest) =
        reservations racers ((racers call).serve store).2 rest) := by
  rw [reservations]
  -- A result is a moved request, or it is none.
  cases ((racers call).serve store).1 with
  | request moved => exact Or.inl ⟨moved, rfl, rfl⟩
  | _ => exact Or.inr ⟨fun moved => by simp, rfl⟩

/-- A request that is no draft is not reserved for. -/
theorem not_reserved {id : String} {request : TimeOffRequest}
    (found : store.requests.find id = some request) (started : request.status ≠ .draft)
    (order : List ι) : ∀ entry ∈ reservations racers store order, entry.2.id ≠ id := by
  induction order generalizing store request with
  | nil => simp [reservations]
  | cons call rest ih =>
    obtain ⟨later, foundLater, startedStill⟩ :=
      (grows_serve (racers call) store request.pair).started found started
    have onward := ih foundLater startedStill
    rcases reservations_cons racers store call rest with ⟨moved, accepted, same⟩ | ⟨_, same⟩
    · rw [same]
      intro entry member
      rcases List.mem_cons.mp member with rfl | later
      · -- What is accepted was a draft.
        obtain ⟨own, _, _, draft, _, _, named, foundToo, status, _⟩ := serve_request accepted
        intro equal
        subst equal
        rw [← named] at foundToo
        cases found.symm.trans foundToo
        exact started status
      · exact onward entry later
    · rw [same]
      exact onward

/-- No request is reserved for twice. -/
theorem reservations_nodup (racers : ι → Racer) (store : Store) (order : List ι) :
    ((reservations racers store order).map (·.2.id)).Nodup := by
  induction order generalizing store with
  | nil => exact List.nodup_nil
  | cons call rest ih =>
    -- The first call is accepted with a draft that no later call can find as one.
    rcases reservations_cons racers store call rest with ⟨moved, accepted, same⟩ | ⟨_, same⟩
    · rw [same, List.map_cons, List.nodup_cons]
      refine ⟨fun among => ?_, ih _⟩
      obtain ⟨entry, member, again⟩ := List.mem_map.mp among
      obtain ⟨_, _, _, draft, _, rfl, _, _, status, _, _, after⟩ := serve_request accepted
      -- The request has been moved on from a draft.
      have moved : ((racers call).serve store).2.requests.find (draft.moved .submit).saved.id =
          some (draft.moved .submit).saved := by
        rw [after]
        exact Table.find_save_self ..
      have started : (draft.moved .submit).saved.status ≠ .draft := by
        simp [TimeOffRequest.moved, status, nextState, transitions]
      exact not_reserved moved started rest entry member again
    · rw [same]
      exact ih _

/-- A draft that has become something else has been reserved for. -/
theorem reserved_of_started {id : String} {draft request : TimeOffRequest}
    (found : store.requests.find id = some draft) (status : draft.status = .draft)
    (order : List ι) (foundAfter : (inTurn racers store order).requests.find id = some request)
    (started : request.status ≠ .draft) :
    ∃ entry ∈ reservations racers store order, entry.2.id = id := by
  -- The induction follows the request to the call at which it changes.
  induction order generalizing store with
  | nil =>
    cases found.symm.trans foundAfter
    exact absurd status started
  | cons call rest ih =>
    -- Either this call leaves the draft, or it is the one that submits it.
    rcases find_serve (racers call) found with still | ⟨moved, accepted, own⟩
    · obtain ⟨entry, member, named⟩ := ih still foundAfter
      rcases reservations_cons racers store call rest with ⟨_, _, same⟩ | ⟨_, same⟩
      · exact ⟨entry, same ▸ List.mem_cons_of_mem _ member, named⟩
      · exact ⟨entry, same ▸ member, named⟩
    · rcases reservations_cons racers store call rest with ⟨_, again, same⟩ | ⟨none_, _⟩
      · cases accepted.symm.trans again
        exact ⟨(call, moved), same ▸ List.mem_cons_self, own⟩
      · exact absurd accepted (none_ moved)

/-- The reservations are those of the calls that are accepted at their turn. -/
theorem mem_reservations {call : ι} {moved : TimeOffRequest} {order : List ι} :
    (call, moved) ∈ reservations racers store order ↔ ∃ earlier rest,
      order = earlier ++ call :: rest ∧
        ((racers call).serve (inTurn racers store earlier)).1 = .request moved := by
  -- The store is what the calls so far have left, so it varies with the induction.
  induction order generalizing store with
  | nil => simp [reservations]
  | cons first later ih =>
    constructor
    · intro member
      have onward
          (among : (call, moved) ∈ reservations racers ((racers first).serve store).2 later) :
          ∃ earlier rest, first :: later = earlier ++ call :: rest ∧
            ((racers call).serve (inTurn racers store earlier)).1 = .request moved := by
        obtain ⟨earlier, rest, rfl, accepted⟩ := ih.mp among
        exact ⟨first :: earlier, rest, rfl, accepted⟩
      rcases reservations_cons racers store first later with ⟨_, accepted, same⟩ | ⟨_, same⟩
      · rw [same] at member
        rcases List.mem_cons.mp member with own | among
        · cases own
          exact ⟨[], later, rfl, accepted⟩
        · exact onward among
      · exact onward (same ▸ member)
    · intro given
      obtain ⟨earlier, rest, cut, accepted⟩ := given
      -- An accepted call is the first one, or it is among the rest.
      cases earlier with
      | nil =>
        obtain ⟨rfl, rfl⟩ := List.cons.inj cut
        rcases reservations_cons racers store first later with ⟨_, again, same⟩ | ⟨none_, _⟩
        · cases accepted.symm.trans again
          exact same ▸ List.mem_cons_self
        · exact absurd accepted (none_ moved)
      | cons head tail =>
        obtain ⟨rfl, rfl⟩ := List.cons.inj cut
        have member := ih.mpr ⟨tail, rest, rfl, accepted⟩
        rcases reservations_cons racers store first (tail ++ call :: rest) with
          ⟨_, _, same⟩ | ⟨_, same⟩
        · exact same ▸ List.mem_cons_of_mem _ member
        · exact same ▸ member

/-- The id that a call draws for the hold it may place. -/
def drawn : Racer → Option String
  | .submit _ uuid _ => some uuid
  | .reconcileKey _ _ _ => none

/-- The ids that the calls draw for their holds are new, and no two of them draw the same. -/
structure Fresh (racers : ι → Racer) (store : Store) : Prop where
  unused : ∀ call uuid, (racers call).drawn = some uuid → store.ledger.find uuid = none
  distinct : ∀ left right uuid, (racers left).drawn = some uuid →
    (racers right).drawn = some uuid → left = right

/-- A hold takes its days off what is available. -/
theorem available_addReservation (store : Store) {uuid : String}
    (unused : store.ledger.find uuid = none) (draft : TimeOffRequest) :
    ((store.addReservation uuid draft.id draft.employeeId draft.locationId
        draft.days).saveRequest (draft.moved .submit)).available draft.employeeId draft.locationId =
      store.available draft.employeeId draft.locationId - draft.days := by
  let hold : BalanceLedgerEntry :=
    { id := uuid, requestId := some draft.id, employeeId := draft.employeeId
      locationId := draft.locationId, amount := draft.days, phase := .reserve
      state := .active, hcmVersion := none }
  -- The hold is of the pair of its draft, so it takes all of its days.
  have taken : hold.takenFrom draft.pair = draft.days := by
    simp [hold, BalanceLedgerEntry.takenFrom, BalanceLedgerEntry.pair, TimeOffRequest.pair]
  have inserted : (store.insertEntry hold).available draft.pair.1 draft.pair.2 =
      store.available draft.pair.1 draft.pair.2 - hold.takenFrom draft.pair :=
    store.available_insertEntry unused
  rw [taken] at inserted
  exact inserted

/-- A submit that is not accepted leaves the store. -/
theorem serve_submit_refused {id uuid : String} {answer : Except HcmError HcmBalanceRow}
    (refused : ∀ moved, ((submit id uuid answer).serve store).1 ≠ .request moved) :
    ((submit id uuid answer).serve store).2 = store := by
  -- Every way but the accepted one leaves the store as it is.
  have way := served (submit id uuid answer) store
  generalize ((submit id uuid answer).serve store).1 = result at way refused
  generalize ((submit id uuid answer).serve store).2 = after at way ⊢
  cases way with
  | accepted => exact absurd rfl (refused _)
  | short => rfl
  | illegal => rfl
  | unknown => rfl

/-- Serving a submit uses no id but the one it has drawn. -/
theorem find_serve_submit {id uuid other : String} {answer : Except HcmError HcmBalanceRow}
    (different : other ≠ uuid) :
    ((submit id uuid answer).serve store).2.ledger.find other = store.ledger.find other := by
  -- Only an accepted submission writes a ledger row, and it writes its own.
  have way := served (submit id uuid answer) store
  generalize ((submit id uuid answer).serve store).1 = result at way
  generalize ((submit id uuid answer).serve store).2 = after at way ⊢
  cases way with
  | accepted id uuid answer draft =>
    simp only [Store.saveRequest, Store.addReservation, Table.find_save]
    rw [if_neg (Ne.symm different)]
  | short => rfl
  | illegal => rfl
  | unknown => rfl

/-- An accepted submit of the pair finds its days, and takes them off what is available. -/
theorem available_serve_request {id uuid : String} {answer : Except HcmError HcmBalanceRow}
    {moved : TimeOffRequest} (unused : store.ledger.find uuid = none)
    (concerns : (submit id uuid answer).Concerns store pair)
    (accepted : ((submit id uuid answer).serve store).1 = .request moved) :
    moved.days ≤ store.available pair.1 pair.2 ∧
      ((submit id uuid answer).serve store).2.available pair.1 pair.2 =
        store.available pair.1 pair.2 - moved.days := by
  -- An accepted submission passed its check and then reserved the days of its draft.
  obtain ⟨_, _, _, draft, named, rfl, _, found, _, _, fits, after⟩ := serve_request accepted
  cases named
  obtain ⟨request, again, rfl⟩ := concerns
  cases found.symm.trans again
  refine ⟨fits, ?_⟩
  rw [after]
  exact available_addReservation store unused draft

/-- Submits take what they reserve off the available balance, and none takes more than is left. -/
theorem available_inTurn (order : List ι) (nodup : order.Nodup)
    (submits : ∀ call ∈ order, ∃ id uuid answer, racers call = .submit id uuid answer)
    (concerns : ∀ call ∈ order, (racers call).Concerns store pair)
    (unused : ∀ call ∈ order, ∀ uuid, (racers call).drawn = some uuid →
      store.ledger.find uuid = none)
    (distinct : ∀ left right uuid, (racers left).drawn = some uuid →
      (racers right).drawn = some uuid → left = right) :
    (inTurn racers store order).available pair.1 pair.2 = store.available pair.1 pair.2 -
        ((reservations racers store order).map (·.2.days)).sum ∧
      (reservations racers store order ≠ [] →
        0 ≤ (inTurn racers store order).available pair.1 pair.2) := by
  induction order generalizing store with
  | nil => simp [inTurn, reservations]
  | cons call rest ih =>
    obtain ⟨absent, nodupRest⟩ := List.nodup_cons.mp nodup
    obtain ⟨id, uuid, answer, named⟩ := submits call List.mem_cons_self
    have drew : (racers call).drawn = some uuid := by rw [named, drawn]
    -- The rest of the calls start from what the first one leaves, with their ids still unused.
    obtain ⟨total, enough⟩ := @ih ((racers call).serve store).2 nodupRest
      (fun other member => submits other (List.mem_cons_of_mem _ member))
      (fun other member => (concerns other (List.mem_cons_of_mem _ member)).grow
        (grows_serve (racers call) store pair))
      (fun other member otherUuid drawnOther => by
        have different : otherUuid ≠ uuid := by
          intro equal
          subst equal
          exact absent (distinct call other otherUuid drew drawnOther ▸ member)
        rw [named, find_serve_submit different]
        exact unused other (List.mem_cons_of_mem _ member) _ drawnOther)
    have onward : inTurn racers store (call :: rest) =
        inTurn racers ((racers call).serve store).2 rest := rfl
    rw [onward]
    -- Only an accepted call changes what is available for the rest.
    rcases reservations_cons racers store call rest with ⟨moved, accepted, same⟩ | ⟨refused, same⟩
    · have about := concerns call List.mem_cons_self
      rw [named] at accepted about total enough ⊢
      rw [named] at same
      obtain ⟨fits, less⟩ :=
        available_serve_request (unused call List.mem_cons_self uuid drew) about accepted
      simp only [same, List.map_cons, List.sum_cons]
      refine ⟨by omega, fun _ => ?_⟩
      by_cases more : reservations racers ((submit id uuid answer).serve store).2 rest = []
      · rw [more, List.map_nil, List.sum_nil] at total
        omega
      · exact enough more
    · -- A refused submit leaves the store, so the rest starts from the same one.
      rw [named] at refused
      have after : ((racers call).serve store).2 = store := by
        rw [named]
        exact serve_submit_refused refused
      rw [after] at same total enough ⊢
      rw [same]
      exact ⟨total, enough⟩

/-- What the calls of a race come to, when all have finished. -/
structure RanInTurn [DecidableEq ι] (racers : ι → Racer) (store : Store)
    (pair : String × String) (order : List ι)
    (final : Threads Store String ι Statement.Answer CallResult) : Prop where
  nodup : order.Nodup
  -- The final state and the results are those of transactions in that order.
  state : final.state = inTurn racers store order
  results : ∀ earlier call rest, order = earlier ++ call :: rest →
    final.thread call = .finished ((racers call).serve (inTurn racers store earlier)).1
  -- Whoever never got the lock was refused a draft that another call has submitted.
  overtaken : ∀ call, call ∉ order → ∃ id uuid answer status,
    racers call = .submit id uuid answer ∧
      final.thread call = .finished (.refused (.illegalTransition status .submit)) ∧
      ∃ other otherUuid otherAnswer moved, other ≠ call ∧
        racers other = .submit id otherUuid otherAnswer ∧
        final.thread other = .finished (.request moved)
  -- A refusal for want of days names the days and what was available at its turn.
  short : ∀ earlier call rest days available, order = earlier ++ call :: rest →
    final.thread call = .finished (.refused (.insufficientBalance days available)) →
      available = (inTurn racers store earlier).available pair.1 pair.2 ∧
      (0 < days → available < days) ∧
      ∃ id uuid answer draft, racers call = .submit id uuid answer ∧
        store.requests.find id = some draft ∧ draft.days = days
  -- No draft is reserved twice.
  once : ∀ left right leftMoved rightMoved, final.thread left = .finished (.request leftMoved) →
    final.thread right = .finished (.request rightMoved) → leftMoved.id = rightMoved.id →
      left = right
  accepted : ∀ call moved, (call, moved) ∈ reservations racers store order ↔
    final.thread call = .finished (.request moved)
  -- Without a reconciliation, the accepted days fit what was available at first.
  total : (∀ call, ∃ id uuid answer, racers call = .submit id uuid answer) →
    ∀ call moved, final.thread call = .finished (.request moved) →
      ((reservations racers store order).map (·.2.days)).sum ≤ store.available pair.1 pair.2

/-- Calls that run as transactions keep to what the calls rely on. -/
theorem grows_inTurn (racers : ι → Racer) (store : Store) (pair : String × String)
    (order : List ι) : Store.Grows pair store (inTurn racers store order) := by
  induction order generalizing store with
  | nil => exact .of_same rfl rfl
  | cons call rest ih => exact (grows_serve (racers call) store pair).trans (ih _)

/-- A call's turn is its transaction in the state that the calls before it have left. -/
theorem turn_eq (racers : ι → Racer) (pair : String × String) (store : Store)
    (earlier : List ι) (call : ι) :
    (protocol racers pair).turn store earlier call =
      ((racers call).serve (inTurn racers store earlier)).1 := by
  rw [← serially_eq, ← run_body]
  rfl

/-- A call that wants more than is left was served a draft of its own at its turn. -/
theorem serve_short {racer : Racer} {days available : Int}
    (refused : (racer.serve store).1 = .refused (.insufficientBalance days available)) :
    ∃ id uuid answer draft, racer = .submit id uuid answer ∧
      store.requests.find id = some draft ∧ draft.status = .draft ∧ draft.days = days ∧
      available = store.available draft.employeeId draft.locationId ∧
      (0 < days → available < days) := by
  -- Of the ways to be served, one alone reports too few days.
  have way := served racer store
  generalize (racer.serve store).2 = after at way
  rw [refused] at way
  cases way with
  | short id uuid answer draft found status less =>
    exact ⟨id, uuid, answer, draft, rfl, found, status, rfl, rfl, less⟩

/-- All calls of a race have finished, those that had the lock as transactions in that order. -/
structure Settled (racers : ι → Racer) (store : Store) (order : List ι)
    (final : Threads Store String ι Statement.Answer CallResult) : Prop where
  nodup : order.Nodup
  state : final.state = inTurn racers store order
  results : ∀ earlier call rest, order = earlier ++ call :: rest →
    final.thread call = .finished ((racers call).serve (inTurn racers store earlier)).1
  -- Whoever never had it has met a request that is no draft any more.
  refused : ∀ call, call ∉ order → ∃ id uuid answer status request,
    racers call = .submit id uuid answer ∧
      final.thread call = .finished (.refused (.illegalTransition status .submit)) ∧
      final.state.requests.find id = some request ∧ request.status ≠ .draft

/-- A race about a loaded pair settles in the order in which the calls got its lock. -/
theorem settled_of_trace [DecidableEq ι] (loaded : (store.balances.find pair).isSome = true)
    (about : ∀ call, (racers call).About store pair)
    {taken : List (Threads Store String ι Statement.Answer CallResult × ι)}
    {final : Threads Store String ι Statement.Answer CallResult}
    (trace : Runs.Trace (Threads.step Statement.exec)
      (Threads.start store fun call => (racers call).call) taken final)
    (finished : ∀ call, ∃ result, final.thread call = .finished result) :
    Settled racers store (Threads.acquisitions taken) final := by
  have serialised : (protocol racers pair).Serialised store (Threads.acquisitions taken) final :=
    (Threads.Protocol.serialised_of_trace
      (fun call => reads_call loaded call (about call)) trace).1
  obtain ⟨state, turns, refusals⟩ := serialised.finished finished
  refine ⟨serialised.nodup, state.trans (serially_eq racers store _), ?_, fun call absent => ?_⟩
  · -- A turn in one piece is the transaction in the state of that turn.
    intro earlier call rest cut
    rw [turns earlier call rest cut, turn_eq]
  · obtain ⟨_, reported, id, uuid, answer, status, request, named, rfl, found, started⟩ :=
      refusals call absent
    exact ⟨id, uuid, answer, status, request, named, reported, found, started⟩

namespace Settled

variable {order : List ι} {final : Threads Store String ι Statement.Answer CallResult}

/-- A call that reports something else than an illegal submit has had the lock. -/
theorem turn (settled : Settled racers store order final) {call : ι} {result : CallResult}
    (reported : final.thread call = .finished result)
    (legal : ∀ status, result ≠ .refused (.illegalTransition status .submit)) :
    ∃ earlier rest, order = earlier ++ call :: rest ∧
      ((racers call).serve (inTurn racers store earlier)).1 = result := by
  -- A call that never had the lock has nothing but such a refusal to report.
  by_cases member : call ∈ order
  · obtain ⟨earlier, rest, cut⟩ := List.append_of_mem member
    have served := settled.results earlier call rest cut
    exact ⟨earlier, rest, cut, Thread.finished.inj (served.symm.trans reported)⟩
  · obtain ⟨_, _, _, status, _, _, refused, _⟩ := settled.refused call member
    cases reported.symm.trans refused
    exact absurd rfl (legal status)

/-- The submits that report a request are those that have reserved its days. -/
theorem accepted (settled : Settled racers store order final) (call : ι)
    (moved : TimeOffRequest) :
    (call, moved) ∈ reservations racers store order ↔
      final.thread call = .finished (.request moved) := by
  -- A call is among the reservations when its turn ended with a request.
  rw [mem_reservations]
  constructor
  · intro given
    obtain ⟨earlier, rest, cut, accepted⟩ := given
    rw [settled.results earlier call rest cut, accepted]
  · intro reported
    exact settled.turn reported (by simp)

/-- Whoever never had the lock was refused a draft that another call has submitted. -/
theorem overtaken (settled : Settled racers store order final)
    (about : ∀ call, (racers call).About store pair) {call : ι} (absent : call ∉ order) :
    ∃ id uuid answer status, racers call = .submit id uuid answer ∧
      final.thread call = .finished (.refused (.illegalTransition status .submit)) ∧
      ∃ other otherUuid otherAnswer moved, other ≠ call ∧
        racers other = .submit id otherUuid otherAnswer ∧
        final.thread other = .finished (.request moved) := by
  obtain ⟨id, uuid, answer, status, request, named, reported, found, started⟩ :=
    settled.refused call absent
  refine ⟨id, uuid, answer, status, named, reported, ?_⟩
  have aboutCall := about call
  rw [named] at aboutCall
  obtain ⟨draft, foundFirst, draftStatus, _⟩ := aboutCall
  rw [settled.state] at found
  -- The request was a draft at first, so one of the calls has submitted it.
  obtain ⟨⟨other, moved⟩, member, own⟩ :=
    reserved_of_started foundFirst draftStatus order found started
  obtain ⟨earlier, rest, rfl, servedThen⟩ := mem_reservations.mp member
  obtain ⟨otherId, otherUuid, otherAnswer, _, namedOther, _, ownToo, _⟩ :=
    serve_request servedThen
  have reportedOther := (settled.accepted other moved).mp member
  refine ⟨other, otherUuid, otherAnswer, moved, ?_, ?_, reportedOther⟩
  · intro equal
    subst equal
    exact absent (by simp)
  · rw [namedOther, ← ownToo, own]

/-- A refusal for want of days names the days and what was available at its turn. -/
theorem short (settled : Settled racers store order final)
    (about : ∀ call, (racers call).About store pair) {earlier rest : List ι} {call : ι}
    {days available : Int} (cut : order = earlier ++ call :: rest)
    (reported : final.thread call = .finished (.refused (.insufficientBalance days available))) :
    available = (inTurn racers store earlier).available pair.1 pair.2 ∧
      (0 < days → available < days) ∧
      ∃ id uuid answer draft, racers call = .submit id uuid answer ∧
        store.requests.find id = some draft ∧ draft.days = days := by
  have refused : ((racers call).serve (inTurn racers store earlier)).1 =
      .refused (.insufficientBalance days available) :=
    Thread.finished.inj ((settled.results earlier call rest cut).symm.trans reported)
  obtain ⟨id, uuid, answer, request, named, found, status, rfl, rfl, less⟩ :=
    serve_short refused
  have aboutCall := about call
  rw [named] at aboutCall
  obtain ⟨draft, foundFirst, _, rfl⟩ := aboutCall
  -- What was served is the draft as it was at first.
  obtain ⟨later, foundLater, same, kept⟩ :=
    (grows_inTurn racers store draft.pair earlier).kept id draft foundFirst
  cases found.symm.trans foundLater
  obtain rfl := kept.resolve_right fun started => started status
  exact ⟨rfl, less, id, uuid, answer, _, named, foundFirst, rfl⟩

/-- No draft is reserved by two calls. -/
theorem once (settled : Settled racers store order final) {left right : ι}
    {leftMoved rightMoved : TimeOffRequest}
    (reported : final.thread left = .finished (.request leftMoved))
    (reportedToo : final.thread right = .finished (.request rightMoved))
    (same : leftMoved.id = rightMoved.id) : left = right := by
  -- The accepted requests have different ids, so one id has one call.
  have nodup := reservations_nodup racers store order
  have pairs := List.inj_on_of_nodup_map nodup ((settled.accepted left leftMoved).mpr reported)
    ((settled.accepted right rightMoved).mpr reportedToo) same
  exact congrArg Prod.fst pairs

/-- Submits alone reserve no more than was available at first. -/
theorem total (settled : Settled racers store order final)
    (about : ∀ call, (racers call).About store pair) (fresh : Fresh racers store)
    (submits : ∀ call, ∃ id uuid answer, racers call = .submit id uuid answer) {call : ι}
    {moved : TimeOffRequest} (reported : final.thread call = .finished (.request moved)) :
    ((reservations racers store order).map (·.2.days)).sum ≤ store.available pair.1 pair.2 := by
  -- The accepted days are what the available balance has lost, and it is not negative.
  obtain ⟨total, enough⟩ := available_inTurn order settled.nodup
    (fun call _ => submits call) (fun call _ => (about call).concerns)
    (fun call _ => fresh.unused call) fresh.distinct
  have left := enough (List.ne_nil_of_mem ((settled.accepted call moved).mpr reported))
  omega

end Settled

/-- Racing submits and reconciliations of a loaded pair run in the order they get its lock. -/
theorem racing_in_turn [DecidableEq ι] (racers : ι → Racer) (store : Store)
    (pair : String × String) (loaded : (store.balances.find pair).isSome = true)
    (about : ∀ call, (racers call).About store pair) (fresh : Fresh racers store)
    {taken : List (Threads Store String ι Statement.Answer CallResult × ι)}
    {final : Threads Store String ι Statement.Answer CallResult}
    (trace : Runs.Trace (Threads.step Statement.exec)
      (Threads.start store fun call => (racers call).call) taken final)
    (finished : ∀ call, ∃ result, final.thread call = .finished result) :
    RanInTurn racers store pair (Threads.acquisitions taken) final := by
  -- Everything is read off the settled race, one fact at a time.
  have settled := settled_of_trace loaded about trace finished
  exact {
    nodup := settled.nodup
    state := settled.state
    results := settled.results
    overtaken := fun call absent => settled.overtaken about absent
    short := fun earlier call rest days available cut reported =>
      settled.short about cut reported
    once := fun left right leftMoved rightMoved reported reportedToo same =>
      settled.once reported reportedToo same
    accepted := settled.accepted
    total := fun submits call moved reported => settled.total about fresh submits reported }

/-- Two drafts of a pair whose eight days are enough for only one of them. -/
def twoDrafts : Store :=
  let draft (id : String) : TimeOffRequest :=
    { id, employeeId := "e", locationId := "l", startDate := "2025-01-06"
      endDate := "2025-01-10", days := 5, status := .draft, idempotencyKey := none
      hcmRef := none, reason := none, version := 1 }
  (((({} : Store).insertBalance "e" "l" ⟨"e", "l", 8, 1, 0⟩).saveRequest (draft "r")).saveRequest
    (draft "s"))

/-- The two drafts are submitted, the second one twice. -/
def threeSubmits : Fin 3 → Racer
  | 0 => .submit "r" "first" (.error (.unavailable ""))
  | 1 => .submit "s" "second" (.error (.unavailable ""))
  | 2 => .submit "s" "third" (.error (.unavailable ""))

theorem fresh_threeSubmits : Fresh threeSubmits twoDrafts where
  unused _ _ _ := rfl
  distinct left right uuid drawnLeft drawnRight := by
    have same : (threeSubmits left).drawn = (threeSubmits right).drawn :=
      drawnLeft.trans drawnRight.symm
    -- What is left is a statement about three calls.
    clear drawnLeft drawnRight
    revert left right
    decide

/-- A race of them, in which the second draft takes the days before the first. -/
theorem racing_in_turn_three : ∃ taken final,
    Runs.Trace (Threads.step Statement.exec)
      (Threads.start twoDrafts fun call => (threeSubmits call).call) taken final ∧
    RanInTurn threeSubmits twoDrafts ("e", "l") (Threads.acquisitions taken) final := by
  -- The first call queues last, and the third one is refused before it queues.
  have executed : (Runs.run (Threads.step Statement.exec) (fun _ _ => true)
      (Threads.start twoDrafts fun call => (threeSubmits call).call)
      [0, 1, 1, 1, 0, 1, 0, 1, 1, 1, 1, 1, 2, 1, 2, 0, 0, 0, 0, 0]).map (fun final =>
        decide (∀ call, (final.thread call).result.isSome = true)) = some true := by
    decide +kernel
  obtain ⟨taken, final, trace, _, ended⟩ := Threads.exists_trace_of_run executed
  refine ⟨taken, final, trace, racing_in_turn threeSubmits twoDrafts ("e", "l") (by decide)
    (fun call => ?_) fresh_threeSubmits trace fun call => ?_⟩
  · fin_cases call
    · exact ⟨_, rfl, rfl, rfl⟩
    · exact ⟨_, rfl, rfl, rfl⟩
    · exact ⟨_, rfl, rfl, rfl⟩
  · exact Threads.finished_of_results (of_decide_eq_true ended) call

end Racer

end TimeOff
