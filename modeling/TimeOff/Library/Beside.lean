import TimeOff.Library.Programs
import TimeOff.Library.Runs

/-! Two programs side by side over one state, whose statements interleave in any way. -/

namespace Programs

variable {S : Type} {Answer : S → Type} {σ α β : Type}

/-- What is left to do of two programs, over the state they share. -/
structure Beside (Answer : S → Type) (σ α β : Type) where
  state : σ
  left : Prog Answer α
  right : Prog Answer β

/-- One of two programs. -/
inductive Side where
  | left
  | right
  deriving DecidableEq, Repr

namespace Beside

/-- The statement that one of the programs comes to next. -/
def head (both : Beside Answer σ α β) : Side → Option S
  | .left => both.left.head
  | .right => both.right.head

/-- One statement of one of the programs. -/
def step (exec : (statement : S) → σ → Answer statement × σ) (both : Beside Answer σ α β) :
    Side → Option (Beside Answer σ α β)
  | .left =>
    match both.left with
    | .ret _ => none
    | .call statement next =>
      let (answer, state) := exec statement both.state
      some { both with state, left := next answer }
  | .right =>
    match both.right with
    | .ret _ => none
    | .call statement next =>
      let (answer, state) := exec statement both.state
      some { both with state, right := next answer }

variable {exec : (statement : S) → σ → Answer statement × σ} {before after : Beside Answer σ α β}
  {side : Side}

/-- Everything a step can be: a statement of the one program or of the other. -/
inductive Move (exec : (statement : S) → σ → Answer statement × σ)
    (before : Beside Answer σ α β) : Side → Beside Answer σ α β → Prop
  | left (statement : S) (next : Answer statement → Prog Answer α) :
      before.left = .call statement next →
      Move exec before .left
        { before with
          state := (exec statement before.state).2
          left := next (exec statement before.state).1 }
  | right (statement : S) (next : Answer statement → Prog Answer β) :
      before.right = .call statement next →
      Move exec before .right
        { before with
          state := (exec statement before.state).2
          right := next (exec statement before.state).1 }

/-- A step is one of the moves. -/
theorem step_move (taken : before.step exec side = some after) : Move exec before side after := by
  -- A program that has come to its result takes no step.
  cases side with
  | left =>
    simp only [step] at taken
    split at taken
    · cases taken
    · rename_i statement next at_
      cases taken
      exact .left statement next at_
  | right =>
    simp only [step] at taken
    split at taken
    · cases taken
    · rename_i statement next at_
      cases taken
      exact .right statement next at_

/-- A schedule that runs is written out by a trace, whose steps and end are tested by running it. -/
theorem exists_trace_of_run {schedule : List Side} {check : Beside Answer σ α β → Side → Bool}
    {test : Beside Answer σ α β → Bool}
    (executed : (Runs.run (step exec) check before schedule).map test = some true) :
    ∃ taken final, Runs.Trace (step exec) before taken final ∧
      (∀ before side, (before, side) ∈ taken → check before side = true) ∧
      test final = true :=
  Runs.exists_trace_of_run executed

end Beside

end Programs
