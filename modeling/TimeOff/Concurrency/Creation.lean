import TimeOff.Concurrency.Races

/-! Create calls, statement by statement, and what one of them does when nothing interleaves. -/

namespace TimeOff

open Programs

/-- A statement of a create call: those of a submit, a lookup by key, and an insert. -/
inductive CreateStatement where
  | plain (statement : Statement)
  | findByKey (idempotencyKey : String)
  -- The unique index refuses a row whose key is stored already.
  | insertRequest (request : TimeOffRequest)

/-- What a statement of a create call answers. An insert answers whether it was accepted. -/
@[reducible] def CreateStatement.Answer : CreateStatement → Type
  | .plain statement => statement.Answer
  | .findByKey _ => Option TimeOffRequest
  | .insertRequest _ => Bool

/-- Run one statement of a create call. -/
def CreateStatement.exec : (statement : CreateStatement) → Store → statement.Answer × Store
  | .plain statement, store => statement.exec store
  | .findByKey idempotencyKey, store =>
    (store.requests.rows.find? (·.idempotencyKey = some idempotencyKey), store)
  | .insertRequest request, store =>
    if request.idempotencyKey.isSome ∧
        store.requests.rows.any (·.idempotencyKey = request.idempotencyKey) then
      (false, store)
    else (true, store.saveRequest request)

/-- A program of the statements of a create call. -/
abbrev CreateSection := Prog CreateStatement.Answer

/-- Send one statement of a create call and go on with its answer. -/
abbrev sendCreate (statement : CreateStatement) : CreateSection statement.Answer :=
  Prog.perform statement

/-- The statements of a submit, as statements of a create call. -/
def asCreate {α : Type} (program : Section α) : CreateSection α :=
  program.embed .plain fun _ answer => answer

/-- What a call comes to outside the mutex, as the end of a create call. -/
def Ending.asCreate : Ending String Statement.Answer CallResult →
    Ending String CreateStatement.Answer CallResult
  | .done result => .done result
  | .exclusive key body => .exclusive key (TimeOff.asCreate body)

/-- The draft a create call makes. -/
def CreateTimeOffRequestDto.draft (dto : CreateTimeOffRequestDto) (uuid : String)
    (idempotencyKey : Option String) : TimeOffRequest where
  id := uuid
  employeeId := dto.employeeId
  locationId := dto.locationId
  startDate := dto.startDate
  endDate := dto.endDate
  days := dto.days
  reason := dto.reason
  status := .draft
  idempotencyKey
  hcmRef := none
  version := 0

/-- The submit of a created draft, as the end of its create call. -/
def submitCreated (id holdId : String) (answer : Except HcmError HcmBalanceRow) :
    CreateSection (Ending String CreateStatement.Answer CallResult) :=
  (asCreate (submitCall id holdId answer)).bind fun ending => return ending.asCreate

/-- The second half of a create call: insert the draft, and submit it when that is asked for. -/
def insertAndSubmit (uuid holdId : String) (dto : CreateTimeOffRequestDto)
    (idempotencyKey : Option String) (answer : Except HcmError HcmBalanceRow) :
    CreateSection (Ending String CreateStatement.Answer CallResult) := do
  let accepted : Bool ← sendCreate (.insertRequest (dto.draft uuid idempotencyKey))
  if accepted then
    if dto.submit then submitCreated uuid holdId answer
    else return .done (.request (dto.draft uuid idempotencyKey).saved)
  else return .done (.refused .duplicateIdempotencyKey)

/-- A create call: a lookup by a key that is not empty, the insert, and the submit. -/
def createCall (uuid holdId : String) (dto : CreateTimeOffRequestDto)
    (idempotencyKey : Option String) (answer : Except HcmError HcmBalanceRow) :
    CreateSection (Ending String CreateStatement.Answer CallResult) :=
  match idempotencyKey.filter (· ≠ "") with
  | none => insertAndSubmit uuid holdId dto idempotencyKey answer
  | some k => do
    let existing : Option TimeOffRequest ← sendCreate (.findByKey k)
    match existing with
    | some existing => return .done (.request existing)
    | none => insertAndSubmit uuid holdId dto idempotencyKey answer

/-- A call that nothing interleaves with: its statements, and then its section. -/
def runAlone {S σ κ ρ : Type} {Answer : S → Type}
    (exec : (statement : S) → σ → Answer statement × σ)
    (call : Prog Answer (Ending κ Answer ρ)) (state : σ) : ρ × σ :=
  match call.run exec state with
  | (.done result, after) => (result, after)
  | (.exclusive _ body, after) => body.run exec after

namespace Store

/-- A submit in one piece. What the other side answers to the lazy load is given. -/
def submitInFull (store : Store) (id holdId : String) (answer : Except HcmError HcmBalanceRow) :
    CallResult × Store :=
  match store.getOrThrow id with
  | .error error => (.refused error, store)
  | .ok pre =>
    if canTransition pre.status .submit then
      match store.ensureBalanceLoaded pre.employeeId pre.locationId answer with
      | .error error => (.unavailable error, store)
      | .ok loaded => CallResult.settle loaded (loaded.submit id holdId)
    else (.refused (.illegalTransition pre.status .submit), store)

/-- A create call in one piece, with the submit that follows when it is asked for. -/
def createInFull (store : Store) (uuid holdId : String) (dto : CreateTimeOffRequestDto)
    (idempotencyKey : Option String) (answer : Except HcmError HcmBalanceRow) :
    CallResult × Store :=
  match store.existingFor idempotencyKey with
  | some existing => (.request existing, store)
  | none =>
    match store.create uuid dto idempotencyKey with
    | .error error => (.refused error, store)
    | .ok (created, saved) =>
      if dto.submit then saved.submitInFull created.id holdId answer
      else (.request created, saved)

end Store

section InOnePiece

variable {store : Store} {uuid holdId id : String} {dto : CreateTimeOffRequestDto}
  {idempotencyKey : Option String} {answer : Except HcmError HcmBalanceRow}

/-- In one piece, the statements of a program do what they do on their own. -/
theorem run_asCreate {α : Type} (program : Section α) (store : Store) :
    (asCreate program).run CreateStatement.exec store = program.run Statement.exec store :=
  Prog.run_embed (fun _ _ => rfl) program store

/-- In one piece, the statements of a submit are the submit. -/
theorem runAlone_submitCall (store : Store) :
    runAlone Statement.exec (submitCall id holdId answer) store =
      store.submitInFull id holdId answer := by
  simp only [runAlone, submitCall, send, Prog.bind_eq, Prog.perform_bind, Prog.run_call,
    Statement.exec, Store.submitInFull, Store.getOrThrow]
  cases store.requests.find id with
  | none => rfl
  | some pre =>
    by_cases legal : canTransition pre.status .submit = true
    · simp only [legal, if_true, run_ensureBalanceLoaded]
      -- The section runs only after the snapshot was loaded.
      cases store.ensureBalanceLoaded pre.employeeId pre.locationId answer with
      | error error => rfl
      | ok loaded => exact run_submitSection loaded id holdId
    · simp only [legal]
      rfl

/-- In one piece, the end of a create call that submits is the submit. -/
theorem runAlone_submitCreated (store : Store) :
    runAlone CreateStatement.exec (submitCreated id holdId answer) store =
      store.submitInFull id holdId answer := by
  rw [← runAlone_submitCall]
  simp only [runAlone, submitCreated, Prog.run_bind, run_asCreate, Prog.pure_eq, Prog.run_ret]
  -- The section, if there is one, is embedded as well.
  obtain ⟨ending, after⟩ := (submitCall id holdId answer).run Statement.exec store
  cases ending with
  | done result => rfl
  | exclusive key body => exact run_asCreate body after

/-- In one piece, the insert is the create call that has no earlier twin. -/
theorem runAlone_insertAndSubmit (unused : store.existingFor idempotencyKey = none) :
    runAlone CreateStatement.exec (insertAndSubmit uuid holdId dto idempotencyKey answer) store =
      store.createInFull uuid holdId dto idempotencyKey answer := by
  simp only [Store.createInFull, unused, Store.create]
  by_cases taken : idempotencyKey.isSome ∧
      store.requests.rows.any (·.idempotencyKey = idempotencyKey)
  · have refused : CreateStatement.exec (.insertRequest (dto.draft uuid idempotencyKey)) store =
        (false, store) := if_pos taken
    simp only [runAlone, insertAndSubmit, Prog.bind_eq, Prog.perform_bind, Prog.run_call, refused,
      if_pos taken]
    rfl
  · have accepted : CreateStatement.exec (.insertRequest (dto.draft uuid idempotencyKey)) store =
        (true, store.saveRequest (dto.draft uuid idempotencyKey)) := if_neg taken
    by_cases submits : dto.submit = true
    · -- What follows the insert is the submit of the created draft.
      have onward : runAlone CreateStatement.exec (submitCreated uuid holdId answer)
          (store.saveRequest (dto.draft uuid idempotencyKey)) = _ := runAlone_submitCreated _
      simp only [runAlone, insertAndSubmit, Prog.bind_eq, Prog.perform_bind, Prog.run_call,
        accepted, if_neg taken, submits, if_true]
      exact onward
    · simp only [runAlone, insertAndSubmit, Prog.bind_eq, Prog.perform_bind, Prog.run_call,
        accepted, if_neg taken, submits, if_true]
      rfl

/-- In one piece, the statements of a create call are the create call. -/
theorem runAlone_createCall (store : Store) :
    runAlone CreateStatement.exec (createCall uuid holdId dto idempotencyKey answer) store =
      store.createInFull uuid holdId dto idempotencyKey answer := by
  cases named : idempotencyKey.filter (· ≠ "") with
  | none =>
    have unused : store.existingFor idempotencyKey = none := by
      simp only [Store.existingFor, named, Option.bind_none]
    simp only [createCall, named]
    exact runAlone_insertAndSubmit unused
  | some k =>
    have looked : store.existingFor idempotencyKey =
        store.requests.rows.find? (·.idempotencyKey = some k) := by
      simp only [Store.existingFor, named, Option.bind_some]
    simp only [createCall, named, runAlone, Prog.bind_eq, Prog.perform_bind, Prog.run_call,
      CreateStatement.exec]
    cases found : store.requests.rows.find? (·.idempotencyKey = some k) with
    | some existing =>
      simp only [Store.createInFull, looked, found]
      rfl
    | none => exact runAlone_insertAndSubmit (looked.trans found)

end InOnePiece

end TimeOff
