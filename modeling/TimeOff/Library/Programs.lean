import Mathlib.Logic.Basic

/-! Programs made of statements on a shared state, run in one piece or one statement at a time. -/

namespace Programs

variable {S : Type} {Answer : S → Type} {σ α β : Type}

/-- A program has a result, or starts with a statement and goes on with its answer. -/
inductive Prog (Answer : S → Type) (α : Type) where
  | ret (result : α)
  | call (statement : S) (next : Answer statement → Prog Answer α)

namespace Prog

/-- One program after the other. -/
def bind : Prog Answer α → (α → Prog Answer β) → Prog Answer β
  | .ret result, after => after result
  | .call statement next, after => .call statement fun answer => (next answer).bind after

instance : Monad (Prog Answer) where
  pure := ret
  bind := bind

/-- The program of one statement, with its answer as the result. -/
def perform (statement : S) : Prog Answer (Answer statement) :=
  .call statement .ret

/-- The first statement of a program, if it has one left. -/
def head : Prog Answer α → Option S
  | .ret _ => none
  | .call statement _ => some statement

/-- A program of some statements, as one of the statements they are sent as. -/
def embed {T : Type} {Reply : T → Type} (inject : S → T)
    (read : (statement : S) → Reply (inject statement) → Answer statement) :
    Prog Answer α → Prog Reply α
  | .ret result => .ret result
  | .call statement next =>
    .call (inject statement) fun reply => (next (read statement reply)).embed inject read

/-- Run a program in one piece. -/
def run (exec : (statement : S) → σ → Answer statement × σ) : Prog Answer α → σ → α × σ
  | .ret result, state => (result, state)
  | .call statement next, state =>
    (next (exec statement state).1).run exec (exec statement state).2

/-- Every statement the program can come to has a property. -/
def Only (allowed : S → Prop) : Prog Answer α → Prop
  | .ret _ => True
  | .call statement next => allowed statement ∧ ∀ answer, (next answer).Only allowed

/-- Every result the program can come to has a property. -/
def Returns (good : α → Prop) : Prog Answer α → Prop
  | .ret result => good result
  | .call _ next => ∀ answer, (next answer).Returns good

/--
The program changes nothing and its result meets a condition, whatever others do in between.

The state given is the one of its last statement, and `grows` relates it to every later one.
-/
def Reads (exec : (statement : S) → σ → Answer statement × σ) (grows : σ → σ → Prop)
    (post : σ → α → Prop) : Prog Answer α → σ → Prop
  | .ret result, seen => post seen result
  | .call statement next, seen => ∀ state, grows seen state →
    (exec statement state).2 = state ∧ (next (exec statement state).1).Reads exec grows post state

variable {exec : (statement : S) → σ → Answer statement × σ}

@[simp] theorem pure_eq (result : α) : (pure result : Prog Answer α) = .ret result := rfl

@[simp] theorem bind_eq (program : Prog Answer α) (after : α → Prog Answer β) :
    program >>= after = program.bind after := rfl

@[simp] theorem ret_bind (result : α) (after : α → Prog Answer β) :
    (Prog.ret result : Prog Answer α).bind after = after result := rfl

@[simp] theorem call_bind (statement : S) (next : Answer statement → Prog Answer α)
    (after : α → Prog Answer β) :
    (Prog.call statement next).bind after =
      .call statement fun answer => (next answer).bind after := rfl

@[simp] theorem perform_bind (statement : S) (after : Answer statement → Prog Answer β) :
    (perform statement).bind after = .call statement after := rfl

@[simp] theorem run_ret (result : α) (state : σ) :
    (Prog.ret result : Prog Answer α).run exec state = (result, state) := rfl

@[simp] theorem run_call (statement : S) (next : Answer statement → Prog Answer α) (state : σ) :
    (Prog.call statement next).run exec state =
      (next (exec statement state).1).run exec (exec statement state).2 := rfl

/-- A program without a next statement has come to its result. -/
theorem exists_ret_of_head {program : Prog Answer α} (ended : program.head = none) :
    ∃ result, program = .ret result := by
  cases program with
  | ret result => exact ⟨result, rfl⟩
  | call statement next => cases ended

/-- A single statement is all its program can come to. -/
theorem only_perform {allowed : S → Prop} {statement : S} (permitted : allowed statement) :
    (perform statement : Prog Answer (Answer statement)).Only allowed :=
  ⟨permitted, fun _ => trivial⟩

/-- What two programs can come to is all they can come to one after the other. -/
theorem only_bind {allowed : S → Prop} {program : Prog Answer α} {after : α → Prog Answer β}
    (first : program.Only allowed) (second : ∀ result, (after result).Only allowed) :
    (program.bind after).Only allowed := by
  induction program with
  | ret result => exact second result
  | call statement next ih => exact ⟨first.1, fun answer => ih answer (first.2 answer)⟩

/-- What follows a program decides the results of both. -/
theorem returns_bind {good : β → Prop} (program : Prog Answer α) {after : α → Prog Answer β}
    (returns : ∀ result, (after result).Returns good) : (program.bind after).Returns good := by
  induction program with
  | ret result => exact returns result
  | call statement next ih => exact ih

/-- What follows a result of the program decides the results of both. -/
theorem Returns.bind {good : α → Prop} {goodToo : β → Prop} {program : Prog Answer α}
    {after : α → Prog Answer β} (returns : program.Returns good)
    (onward : ∀ result, good result → (after result).Returns goodToo) :
    (program.bind after).Returns goodToo := by
  induction program with
  | ret result => exact onward result returns
  | call statement next ih => exact fun answer => ih answer (returns answer)

/-- What every statement does to the state, the whole program does. -/
theorem Only.run {program : Prog Answer α} {grows : σ → σ → Prop}
    (only : program.Only fun statement => ∀ state, grows state (exec statement state).2)
    (refl : ∀ state, grows state state)
    (trans : ∀ {first second third}, grows first second → grows second third → grows first third)
    (state : σ) : grows state (program.run exec state).2 := by
  -- The first statement makes the first step, and the rest of the program the others.
  induction program generalizing state with
  | ret result => exact refl state
  | call statement next ih => exact trans (only.1 state) (ih _ (only.2 _) _)

/-- In one piece, a program runs before what follows it. -/
theorem run_bind (program : Prog Answer α) (after : α → Prog Answer β) (state : σ) :
    (program.bind after).run exec state =
      (after (program.run exec state).1).run exec (program.run exec state).2 := by
  -- The statements of the first program come first, one after the other.
  induction program generalizing state with
  | ret result => rfl
  | call statement next ih => exact ih _ _

/-- In one piece, an embedded program does what the program does. -/
theorem run_embed {T : Type} {Reply : T → Type} {inject : S → T}
    {read : (statement : S) → Reply (inject statement) → Answer statement}
    {execute : (statement : T) → σ → Reply statement × σ}
    (same : ∀ statement state,
      (read statement (execute (inject statement) state).1,
        (execute (inject statement) state).2) = exec statement state)
    (program : Prog Answer α) (state : σ) :
    (program.embed inject read).run execute state = program.run exec state := by
  -- Each statement answers the same and leaves the same state.
  induction program generalizing state with
  | ret result => rfl
  | call statement next ih =>
    simp only [embed, run_call, ih]
    rw [← same statement state]

/-- What an embedded program can come to is what the program can come to. -/
theorem only_embed {T : Type} {Reply : T → Type} {inject : S → T}
    {read : (statement : S) → Reply (inject statement) → Answer statement} {allowed : T → Prop}
    {program : Prog Answer α} (only : program.Only fun statement => allowed (inject statement)) :
    (program.embed inject read).Only allowed := by
  induction program with
  | ret result => trivial
  | call statement next ih => exact ⟨only.1, fun reply => ih _ (only.2 _)⟩

/-- An embedded program has the results of the program. -/
theorem returns_embed {T : Type} {Reply : T → Type} {inject : S → T}
    {read : (statement : S) → Reply (inject statement) → Answer statement} {good : α → Prop}
    {program : Prog Answer α} (returns : program.Returns good) :
    (program.embed inject read).Returns good := by
  induction program with
  | ret result => exact returns
  | call statement next ih => exact fun reply => ih _ (returns _)

end Prog

end Programs
