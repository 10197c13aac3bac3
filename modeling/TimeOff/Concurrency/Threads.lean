import TimeOff.Common.KeyedMutex
import TimeOff.Library.Programs
import TimeOff.Library.Runs

/-! Concurrent calls whose statements interleave, each with at most one section under the mutex. -/

namespace TimeOff

open Programs

/-- What a call comes to outside the mutex: its result, or a section to run under a key. -/
inductive Ending (κ : Type) {S : Type} (Answer : S → Type) (ρ : Type) where
  | done (result : ρ)
  | exclusive (key : κ) (body : Prog Answer ρ)

/-- What is left to do of a call. -/
inductive Thread (κ ι : Type) {S : Type} (Answer : S → Type) (ρ : Type) where
  | outside (call : Prog Answer (Ending κ Answer ρ))
  | waiting (key : κ) (previous : Option ι) (body : Prog Answer ρ)
  | inside (key : κ) (body : Prog Answer ρ)
  | finished (result : ρ)

/-- The calls that run concurrently, over one state and one mutex. -/
structure Threads (σ κ ι : Type) {S : Type} (Answer : S → Type) (ρ : Type) where
  state : σ
  mutex : KeyedMutex κ ι := {}
  thread : ι → Thread κ ι Answer ρ

variable {σ κ ι S ρ : Type} {Answer : S → Type}

/-- How far a call has come with its section. -/
def Thread.phase : Thread κ ι Answer ρ → Phase κ ι
  | .outside _ => .outside
  | .waiting key previous _ => .waiting key previous
  | .inside key _ => .inside key
  | .finished _ => .finished

/-- The statement a call comes to next. -/
def Thread.head : Thread κ ι Answer ρ → Option S
  | .outside call => call.head
  | .inside _ body => body.head
  | _ => none

/-- What a call has returned. -/
def Thread.result : Thread κ ι Answer ρ → Option ρ
  | .finished result => some result
  | _ => none

theorem Thread.result_eq_some {thread : Thread κ ι Answer ρ} {result : ρ} :
    thread.result = some result ↔ thread = .finished result := by
  cases thread <;> simp [Thread.result]

theorem Thread.result_isNone {thread : Thread κ ι Answer ρ} :
    thread.result.isNone = true ↔ thread.phase ≠ .finished := by
  cases thread <;> simp [Thread.result, Thread.phase]

theorem Thread.phase_eq_inside {thread : Thread κ ι Answer ρ} {key : κ} :
    thread.phase = .inside key ↔ ∃ body, thread = .inside key body := by
  cases thread <;> simp [Thread.phase]

theorem Thread.phase_eq_waiting {thread : Thread κ ι Answer ρ} {key : κ} {previous : Option ι} :
    thread.phase = .waiting key previous ↔ ∃ body, thread = .waiting key previous body := by
  cases thread <;> simp [Thread.phase]

/-- Statements of which the section is made that a call may end in, and results it may return. -/
def Ending.Meets (allowed : S → Prop) (good : ρ → Prop) : Ending κ Answer ρ → Prop
  | .done result => good result
  | .exclusive _ body => body.Only allowed ∧ body.Returns good

/-- All that is left of a call keeps to some statements and comes to some results. -/
def Thread.Meets (allowed : S → Prop) (good : ρ → Prop) : Thread κ ι Answer ρ → Prop
  | .outside call => call.Only allowed ∧ call.Returns (Ending.Meets allowed good)
  | .waiting _ _ body => body.Only allowed ∧ body.Returns good
  | .inside _ body => body.Only allowed ∧ body.Returns good
  | .finished result => good result

/-- The next statement of a call is one of those it keeps to. -/
theorem Thread.Meets.head {allowed : S → Prop} {good : ρ → Prop} {thread : Thread κ ι Answer ρ}
    (meets : thread.Meets allowed good) {statement : S} (next : thread.head = some statement) :
    allowed statement := by
  have first {α : Type} {program : Prog Answer α} (only : program.Only allowed)
      (next : program.head = some statement) : allowed statement := by
    cases program with
    | ret result => cases next
    | call other rest =>
      cases next
      exact only.1
  cases thread with
  | outside call => exact first meets.1 next
  | waiting key previous body => cases next
  | inside key body => exact first meets.1 next
  | finished result => cases next

namespace Threads

/-- Calls that all have a result have all finished. -/
theorem finished_of_results {threads : Threads σ κ ι Answer ρ}
    (ended : ∀ call, (threads.thread call).result.isSome = true) (call : ι) :
    ∃ result, threads.thread call = .finished result :=
  (Option.isSome_iff_exists.mp (ended call)).imp fun _ => Thread.result_eq_some.mp

/-- All calls at their start. -/
def start (state : σ) (calls : ι → Prog Answer (Ending κ Answer ρ)) :
    Threads σ κ ι Answer ρ where
  state
  thread call := .outside (calls call)

/-- The phases of all calls. -/
def phases (threads : Threads σ κ ι Answer ρ) : ι → Phase κ ι :=
  Thread.phase ∘ threads.thread

variable [DecidableEq ι]

/-- Let one call go on. -/
def set (threads : Threads σ κ ι Answer ρ) (call : ι) (next : Thread κ ι Answer ρ) :
    Threads σ κ ι Answer ρ :=
  { threads with thread := Function.update threads.thread call next }

@[simp] theorem phases_set (threads : Threads σ κ ι Answer ρ) (call : ι)
    (next : Thread κ ι Answer ρ) :
    (threads.set call next).phases = Function.update threads.phases call next.phase :=
  Function.comp_update ..

variable [DecidableEq κ]

/-- One step of one call: a statement, or a step of the mutex. -/
def step (exec : (statement : S) → σ → Answer statement × σ)
    (threads : Threads σ κ ι Answer ρ) (call : ι) : Option (Threads σ κ ι Answer ρ) :=
  match threads.thread call with
  | .outside (.call statement next) =>
    let (answer, state) := exec statement threads.state
    some { threads.set call (.outside (next answer)) with state }
  | .outside (.ret (.done result)) => some (threads.set call (.finished result))
  | .outside (.ret (.exclusive key body)) =>
    -- Up to its first wait, the call to the mutex runs without a break.
    let (previous, mutex) := threads.mutex.acquire key call
    some { threads.set call (.waiting key previous body) with mutex }
  | .waiting key previous body =>
    if threads.mutex.ready previous then some (threads.set call (.inside key body)) else none
  | .inside key (.call statement next) =>
    let (answer, state) := exec statement threads.state
    some { threads.set call (.inside key (next answer)) with state }
  | .inside key (.ret result) =>
    -- However the section ended, its lock is released.
    some { threads.set call (.finished result) with mutex := threads.mutex.release key call }
  | .finished _ => none

variable {exec : (statement : S) → σ → Answer statement × σ}
  {before after : Threads σ κ ι Answer ρ} {call : ι}

/-- Everything a step of a call can be. -/
inductive Move (exec : (statement : S) → σ → Answer statement × σ)
    (before : Threads σ κ ι Answer ρ) (call : ι) : Threads σ κ ι Answer ρ → Prop
  | states (statement : S) (next : Answer statement → Prog Answer (Ending κ Answer ρ)) :
      before.thread call = .outside (.call statement next) →
      Move exec before call
        { before.set call (.outside (next (exec statement before.state).1)) with
          state := (exec statement before.state).2 }
  | returns (result : ρ) :
      before.thread call = .outside (.ret (.done result)) →
      Move exec before call (before.set call (.finished result))
  | queues (key : κ) (body : Prog Answer ρ) :
      before.thread call = .outside (.ret (.exclusive key body)) →
      Move exec before call
        { before.set call (.waiting key (before.mutex.acquire key call).1 body) with
          mutex := (before.mutex.acquire key call).2 }
  | starts (key : κ) (previous : Option ι) (body : Prog Answer ρ) :
      before.thread call = .waiting key previous body → before.mutex.ready previous = true →
      Move exec before call (before.set call (.inside key body))
  | works (key : κ) (statement : S) (next : Answer statement → Prog Answer ρ) :
      before.thread call = .inside key (.call statement next) →
      Move exec before call
        { before.set call (.inside key (next (exec statement before.state).1)) with
          state := (exec statement before.state).2 }
  | leaves (key : κ) (result : ρ) :
      before.thread call = .inside key (.ret result) →
      Move exec before call
        { before.set call (.finished result) with mutex := before.mutex.release key call }

/-- A step is one of the moves. -/
theorem step_move (taken : before.step exec call = some after) : Move exec before call after := by
  -- The thread of the call decides which branch of the step is taken.
  unfold step at taken
  split at taken
  · rename_i statement next at_
    cases taken
    exact .states statement next at_
  · rename_i result at_
    cases taken
    exact .returns result at_
  · rename_i key body at_
    cases taken
    exact .queues key body at_
  · rename_i key previous body at_
    split at taken
    · rename_i ready
      cases taken
      exact .starts key previous body at_ ready
    · cases taken
  · rename_i key statement next at_
    cases taken
    exact .works key statement next at_
  · rename_i key result at_
    cases taken
    exact .leaves key result at_
  · cases taken

/-- Whatever the calls do, the mutex stays fair. -/
theorem step_fair (fair : before.mutex.Fair before.phases)
    (taken : before.step exec call = some after) : after.mutex.Fair after.phases := by
  have phase {thread : Thread κ ι Answer ρ} (at_ : before.thread call = thread) :
      before.phases call = thread.phase := congrArg Thread.phase at_
  -- A statement keeps the phase of its call, and each other step is one of the mutex.
  cases step_move taken with
  | states statement next at_ =>
    show before.mutex.Fair (before.set call _).phases
    rw [phases_set, Function.update_eq_self_iff.mpr (phase at_).symm]
    exact fair
  | returns result at_ =>
    show before.mutex.Fair (before.set call _).phases
    rw [phases_set]
    exact fair.skip (phase at_)
  | queues key body at_ =>
    show (before.mutex.acquire key call).2.Fair (before.set call _).phases
    rw [phases_set]
    exact fair.enter (phase at_)
  | starts key previous body at_ ready =>
    show before.mutex.Fair (before.set call _).phases
    rw [phases_set]
    exact fair.start (phase at_) ready
  | works key statement next at_ =>
    show before.mutex.Fair (before.set call _).phases
    rw [phases_set, Function.update_eq_self_iff.mpr (phase at_).symm]
    exact fair
  | leaves key result at_ =>
    show (before.mutex.release key call).Fair (before.set call _).phases
    rw [phases_set]
    exact fair.leave (phase at_)

/-- A step leaves the other calls where they are. -/
theorem Move.other (move : Move exec before call after) {other : ι} (different : other ≠ call) :
    after.thread other = before.thread other := by
  cases move <;> exact Function.update_of_ne different ..

/-- A step runs the next statement of its call, or leaves the state. -/
theorem Move.state (move : Move exec before call after) :
    (∃ statement, (before.thread call).head = some statement ∧
      after.state = (exec statement before.state).2) ∨
    (before.thread call).head = none ∧ after.state = before.state := by
  cases move with
  | states statement next at_ => exact Or.inl ⟨statement, by rw [at_]; rfl, rfl⟩
  | returns result at_ => exact Or.inr ⟨by rw [at_]; rfl, rfl⟩
  | queues key body at_ => exact Or.inr ⟨by rw [at_]; rfl, rfl⟩
  | starts key previous body at_ ready => exact Or.inr ⟨by rw [at_]; rfl, rfl⟩
  | works key statement next at_ => exact Or.inl ⟨statement, by rw [at_]; rfl, rfl⟩
  | leaves key result at_ => exact Or.inr ⟨by rw [at_]; rfl, rfl⟩

/-- A call that comes to a statement outside the mutex runs it and goes on with its answer. -/
theorem Move.of_outside (move : Move exec before call after) {statement : S}
    {next : Answer statement → Prog Answer (Ending κ Answer ρ)}
    (at_ : before.thread call = .outside (.call statement next)) :
    after.thread call = .outside (next (exec statement before.state).1) ∧
      after.state = (exec statement before.state).2 := by
  cases move with
  | states other rest here =>
    cases here.symm.trans at_
    exact ⟨Function.update_self .., rfl⟩
  | returns _ here => cases here.symm.trans at_
  | queues _ _ here => cases here.symm.trans at_
  | starts _ _ _ here => cases here.symm.trans at_
  | works _ _ _ here => cases here.symm.trans at_
  | leaves _ _ here => cases here.symm.trans at_

/-- What a call comes to on a step of its own keeps to the same statements and results. -/
theorem Move.meets {allowed : S → Prop} {good : ρ → Prop} (move : Move exec before call after)
    (meets : (before.thread call).Meets allowed good) :
    (after.thread call).Meets allowed good := by
  have moved (next : Thread κ ι Answer ρ) (onward : next.Meets allowed good) :
      (Function.update before.thread call next call).Meets allowed good := by
    rwa [Function.update_self]
  -- A statement is answered by what follows it, and an ending by what it stands for.
  cases move with
  | states statement next at_ =>
    rw [at_] at meets
    exact moved (.outside _) ⟨meets.1.2 _, meets.2 _⟩
  | returns result at_ =>
    rw [at_] at meets
    exact moved (.finished result) meets.2
  | queues key body at_ =>
    rw [at_] at meets
    exact moved (.waiting key _ body) meets.2
  | starts key previous body at_ ready =>
    rw [at_] at meets
    exact moved (.inside key body) meets
  | works key statement next at_ =>
    rw [at_] at meets
    exact moved (.inside key _) ⟨meets.1.2 _, meets.2 _⟩
  | leaves key result at_ =>
    rw [at_] at meets
    exact moved (.finished result) meets.2

/-- A schedule that runs is written out by a trace, whose steps and end are tested by running it. -/
theorem exists_trace_of_run {schedule : List ι} {check : Threads σ κ ι Answer ρ → ι → Bool}
    {test : Threads σ κ ι Answer ρ → Bool}
    (executed : (Runs.run (step exec) check before schedule).map test = some true) :
    ∃ taken final, Runs.Trace (step exec) before taken final ∧
      (∀ before call, (before, call) ∈ taken → check before call = true) ∧
      test final = true :=
  Runs.exists_trace_of_run executed

end Threads

end TimeOff
