import Mathlib.Data.List.Basic

/-! Finite runs of a partial step function, the states they reach, and the invariants they keep. -/

namespace Runs

variable {σ α : Type*}

/-- The states reached from `start` by steps that are each allowed where they are taken. -/
inductive Reachable (step : σ → α → Option σ) (allowed : σ → α → Prop) (start : σ) : σ → Prop
  | start : Reachable step allowed start start
  | step {before after : σ} {action : α} : Reachable step allowed start before →
      allowed before action → step before action = some after →
      Reachable step allowed start after

/-- A run written out: every action with the state it was taken from, and the state it ends in. -/
inductive Trace (step : σ → α → Option σ) (start : σ) : List (σ × α) → σ → Prop
  | start : Trace step start [] start
  | step {taken : List (σ × α)} {before after : σ} {action : α} :
      Trace step start taken before → step before action = some after →
      Trace step start (taken ++ [(before, action)]) after

variable {step : σ → α → Option σ} {allowed : σ → α → Prop} {start : σ}

/-- What holds at the start and survives every allowed step holds in every reached state. -/
theorem Reachable.invariant {holds : σ → Prop} (initial : holds start)
    (preserved : ∀ before action after, Reachable step allowed start before → holds before →
      allowed before action → step before action = some after → holds after)
    {state : σ} (reached : Reachable step allowed start state) : holds state := by
  -- The induction follows the run, and each step may use that its source was reached.
  induction reached with
  | start => exact initial
  | step earlier permitted taken ih => exact preserved _ _ _ earlier ih permitted taken

/-- Allowing more actions reaches at least as many states. -/
theorem Reachable.mono {wider : σ → α → Prop}
    (weaker : ∀ state action, allowed state action → wider state action)
    {state : σ} (reached : Reachable step allowed start state) :
    Reachable step wider start state := by
  -- The same steps are taken, each under the weaker condition.
  induction reached with
  | start => exact .start
  | step _ permitted taken ih => exact .step ih (weaker _ _ permitted) taken

/-- A simulation that may stutter maps reached states to reached states. -/
theorem Reachable.simulate {τ β : Type*} {abstractStep : τ → β → Option τ}
    {permitted : τ → β → Prop} (view : σ → τ)
    (simulates : ∀ before action after, allowed before action → step before action = some after →
      view after = view before ∨ ∃ abstractAction, permitted (view before) abstractAction ∧
        abstractStep (view before) abstractAction = some (view after))
    {state : σ} (reached : Reachable step allowed start state) :
    Reachable abstractStep permitted (view start) (view state) := by
  -- A stuttering step adds nothing to the abstract run, any other step adds one.
  induction reached with
  | start => exact .start
  | step _ allows taken ih =>
    rcases simulates _ _ _ allows taken with same | ⟨action, allowedThere, takenThere⟩
    · exact same ▸ ih
    · exact .step ih allowedThere takenThere

/-- A run that is one step longer has a step of some kind if it had one, or if the new one is. -/
theorem exists_mem_concat {taken : List (σ × α)} {before : σ} {last action : α}
    {holds : σ → Prop} :
    (∃ state, (state, action) ∈ taken ++ [(before, last)] ∧ holds state) ↔
      (∃ state, (state, action) ∈ taken ∧ holds state) ∨ last = action ∧ holds before := by
  simp only [List.mem_append, List.mem_singleton, Prod.mk.injEq]
  constructor
  · intro given
    obtain ⟨state, earlier | ⟨rfl, rfl⟩, found⟩ := given
    · exact Or.inl ⟨state, earlier, found⟩
    · exact Or.inr ⟨rfl, found⟩
  · intro either
    rcases either with ⟨state, earlier, found⟩ | ⟨rfl, found⟩
    · exact ⟨state, Or.inl earlier, found⟩
    · exact ⟨before, Or.inr ⟨rfl, rfl⟩, found⟩

/-- The states a run passes through: those it takes a step from, and the one it ends in. -/
def Visits (taken : List (σ × α)) (final state : σ) : Prop :=
  state = final ∨ ∃ action, (state, action) ∈ taken

/-- A run whose every step is allowed ends in a reachable state. -/
theorem Trace.reachable {taken : List (σ × α)} {final : σ}
    (trace : Trace step start taken final) :
    (∀ before action, (before, action) ∈ taken → allowed before action) →
      Reachable step allowed start final := by
  -- The steps before the last are allowed too, so the shorter run is reachable.
  induction trace with
  | start => exact fun _ => .start
  | step _ next ih =>
    intro permitted
    exact .step (ih fun before action member => permitted before action (by simp [member]))
      (permitted _ _ (by simp)) next

/-- Every state a run of allowed steps passes through is reachable. -/
theorem Trace.reachable_of_visits {taken : List (σ × α)} {final : σ}
    (trace : Trace step start taken final)
    (permitted : ∀ before action, (before, action) ∈ taken → allowed before action)
    {state : σ} (visited : Visits taken final state) : Reachable step allowed start state := by
  -- A state visited earlier ends a shorter run, whose steps are allowed as well.
  induction trace with
  | start =>
    rcases visited with rfl | ⟨_, member⟩
    · exact .start
    · simp at member
  | step earlier next ih =>
    rcases visited with rfl | ⟨action, member⟩
    · exact (Trace.step earlier next).reachable permitted
    · have shorter := fun before action member => permitted before action
        (List.mem_append_left _ member)
      rcases List.mem_append.mp member with before | last
      · exact ih shorter (Or.inr ⟨action, before⟩)
      · simp only [List.mem_singleton, Prod.mk.injEq] at last
        exact ih shorter (Or.inl last.1)

/-- A step of a run leads to a state the run passes through. -/
theorem Trace.step_of_mem {taken : List (σ × α)} {final : σ} (trace : Trace step start taken final)
    {before : σ} {action : α} (member : (before, action) ∈ taken) :
    ∃ after, step before action = some after ∧ Visits taken final after := by
  -- The step lies in the shorter run, or it is the last one of the trace.
  induction trace with
  | start => simp at member
  | step _ next ih =>
    rcases List.mem_append.mp member with earlier | last
    · obtain ⟨after, moved, same | ⟨following, visited⟩⟩ := ih earlier
      -- The shorter run ended where the last step of the trace begins.
      · subst same
        exact ⟨_, moved, Or.inr ⟨_, List.mem_append_right _ (List.mem_singleton_self _)⟩⟩
      · exact ⟨after, moved, Or.inr ⟨following, List.mem_append_left _ visited⟩⟩
    · simp only [List.mem_singleton, Prod.mk.injEq] at last
      obtain ⟨rfl, rfl⟩ := last
      exact ⟨_, next, Or.inl rfl⟩

/-- A run cut before one of its steps: the part before it, and where the step leads. -/
theorem Trace.split {first rest : List (σ × α)} {before : σ} {action : α} {taken : List (σ × α)}
    {final : σ} (trace : Trace step start taken final)
    (cut : taken = first ++ (before, action) :: rest) :
    Trace step start first before ∧
      ∃ after, step before action = some after ∧ Visits taken final after := by
  -- The cut lies before the last step, or the last step is the one it is made at.
  induction trace generalizing rest with
  | start => simp at cut
  | @step shorter source target last earlier next ih =>
    rcases List.eq_nil_or_concat rest with rfl | ⟨kept, _, rfl⟩
    · obtain ⟨rfl, same⟩ := List.append_inj' cut rfl
      simp only [List.cons.injEq, Prod.mk.injEq, and_true] at same
      obtain ⟨rfl, rfl⟩ := same
      exact ⟨earlier, target, next, Or.inl rfl⟩
    · rw [List.concat_eq_append, ← List.cons_append, ← List.append_assoc] at cut
      obtain ⟨rfl, _⟩ := List.append_inj' cut rfl
      obtain ⟨opening, _, _, _⟩ := ih rfl
      exact ⟨opening, (Trace.step earlier next).step_of_mem (by simp)⟩

/-- What every step preserves holds at the end of a run once it held in a state on the way. -/
theorem Trace.persists (holds : σ → Prop) {taken : List (σ × α)} {final state : σ}
    (trace : Trace step start taken final)
    (preserved : ∀ before action after, Visits taken final before → Visits taken final after →
      step before action = some after → holds before → holds after)
    (visited : Visits taken final state) (here : holds state) : holds final := by
  -- The state lies in the shorter run, or the last step is taken from it, or it is the end.
  induction trace with
  | start =>
    rcases visited with rfl | ⟨_, member⟩
    · exact here
    · simp at member
  | @step shorter before after action earlier next ih =>
    have last : Visits (shorter ++ [(before, action)]) after before :=
      Or.inr ⟨action, List.mem_append_right _ (List.mem_singleton_self _)⟩
    have extended {other : σ} (seen : Visits shorter before other) :
        Visits (shorter ++ [(before, action)]) after other := by
      rcases seen with rfl | ⟨following, member⟩
      · exact last
      · exact Or.inr ⟨following, List.mem_append_left _ member⟩
    have inner (seen : Visits shorter before state) : holds before :=
      ih (fun source following target seenSource seenTarget => preserved source following target
        (extended seenSource) (extended seenTarget)) seen
    rcases visited with rfl | ⟨following, member⟩
    · exact here
    · apply preserved before action after last (Or.inl rfl) next
      rcases List.mem_append.mp member with old | new
      · exact inner (Or.inr ⟨following, old⟩)
      · simp only [List.mem_singleton, Prod.mk.injEq] at new
        exact inner (Or.inl new.1)

/--
What a step establishes and every later step keeps holds of that step ever after.

It holds in the states the later steps are taken from, and at the end of the run.
-/
theorem Trace.pairwise (holds : σ × α → σ → Prop) {taken : List (σ × α)} {final : σ}
    (trace : Trace step start taken final)
    (established : ∀ before action after, step before action = some after →
      holds (before, action) after)
    (kept : ∀ made before action after, step before action = some after → holds made before →
      holds made after) :
    (taken.Pairwise fun earlier later => holds earlier later.1) ∧
      ∀ made ∈ taken, holds made final := by
  -- The last step is later than all the others, and it keeps what each of them established.
  induction trace with
  | start => exact ⟨.nil, by simp⟩
  | step _ next ih =>
    refine ⟨List.pairwise_append.mpr ⟨ih.1, List.pairwise_singleton _ _, ?_⟩, ?_⟩
    · intro earlier member later last
      rw [List.mem_singleton.mp last]
      exact ih.2 earlier member
    · intro made member
      rcases List.mem_append.mp member with earlier | last
      · exact kept made _ _ _ next (ih.2 made earlier)
      · rw [List.mem_singleton.mp last]
        exact established _ _ _ next

/-- Taking a list of actions in order, each only where it is allowed. -/
def run (step : σ → α → Option σ) (allowed : σ → α → Bool) : σ → List α → Option σ
  | state, [] => some state
  | state, action :: rest =>
    if allowed state action then (step state action).bind fun next => run step allowed next rest
    else none

/-- A list of actions that is executed goes on with another one. -/
theorem run_append {check : σ → α → Bool} {first rest : List α} {final middle : σ} :
    ∀ {state : σ}, run step check state first = some middle →
      run step check middle rest = some final →
        run step check state (first ++ rest) = some final := by
  induction first with
  | nil =>
    intro state ended onward
    cases ended
    exact onward
  | cons action more ih =>
    intro state ended onward
    simp only [run, List.cons_append] at ended ⊢
    split at ended
    · rename_i permitted
      obtain ⟨next, taken, later⟩ := Option.bind_eq_some_iff.mp ended
      rw [if_pos permitted, taken]
      exact ih later onward
    · cases ended

/-- What every action of a list preserves holds at its end. -/
theorem invariant_of_run {check : σ → α → Bool} (holds : σ → Prop) {actions : List α}
    {final : σ} :
    ∀ {state : σ}, (∀ before action after, action ∈ actions → holds before →
        step before action = some after → holds after) → holds state →
      run step check state actions = some final → holds final := by
  induction actions with
  | nil =>
    intro state _ here ended
    cases ended
    exact here
  | cons action rest ih =>
    intro state preserved here ended
    simp only [run] at ended
    split at ended
    · obtain ⟨next, taken, later⟩ := Option.bind_eq_some_iff.mp ended
      exact ih (fun before following after member => preserved before following after
        (List.mem_cons_of_mem _ member)) (preserved _ _ _ List.mem_cons_self here taken) later
    · cases ended

/-- What an executed list of actions ends in is reachable. -/
theorem reachable_of_run {check : σ → α → Bool}
    (sound : ∀ state action, check state action = true → allowed state action)
    {actions : List α} {final : σ} :
    ∀ {state : σ}, Reachable step allowed start state →
      run step check state actions = some final → Reachable step allowed start final := by
  -- Each executed action extends the reached prefix by one step.
  induction actions with
  | nil =>
    intro state reached executed
    simp only [run, Option.some.injEq] at executed
    exact executed ▸ reached
  | cons action rest ih =>
    intro state reached executed
    simp only [run] at executed
    split at executed
    · rename_i permitted
      obtain ⟨next, taken, onward⟩ := Option.bind_eq_some_iff.mp executed
      exact ih (.step reached (sound _ _ permitted) taken) onward
    · simp at executed

/-- An executed list of actions is written out by a trace of actions that are all allowed. -/
theorem trace_of_run {check : σ → α → Bool} {actions : List α} {final : σ} :
    ∀ {taken : List (σ × α)} {state : σ}, Trace step start taken state →
      run step check state actions = some final →
      ∃ more, Trace step start (taken ++ more) final ∧ more.map Prod.snd = actions ∧
        ∀ before action, (before, action) ∈ more → check before action = true := by
  -- Each executed action extends the trace that is already written out.
  induction actions with
  | nil =>
    intro taken state trace executed
    simp only [run, Option.some.injEq] at executed
    exact ⟨[], by simpa [← executed] using trace, rfl, by simp⟩
  | cons action rest ih =>
    intro taken state trace executed
    simp only [run] at executed
    split at executed
    · rename_i permitted
      obtain ⟨next, moved, onward⟩ := Option.bind_eq_some_iff.mp executed
      obtain ⟨more, longer, same, checked⟩ := ih (.step trace moved) onward
      refine ⟨(state, action) :: more, by simpa using longer, by simp [same], ?_⟩
      intro before later member
      rcases List.mem_cons.mp member with here | among
      · cases here
        exact permitted
      · exact checked before later among
    · simp at executed

/-- A list of actions that runs is written out by a trace, whose end passes the same test. -/
theorem exists_trace_of_run {check : σ → α → Bool} {actions : List α} {test : σ → Bool}
    (executed : (run step check start actions).map test = some true) :
    ∃ taken final, Trace step start taken final ∧
      (∀ before action, (before, action) ∈ taken → check before action = true) ∧
      test final = true := by
  obtain ⟨final, ended, passed⟩ := Option.map_eq_some_iff.mp executed
  obtain ⟨taken, trace, _, checked⟩ := trace_of_run .start ended
  exact ⟨taken, final, trace, checked, passed⟩

/-- An executed list of actions that passes a test ends in a reachable state that passes it. -/
theorem exists_reachable_of_run {check : σ → α → Bool} {test : σ → Bool} {actions : List α}
    (sound : ∀ state action, check state action = true → allowed state action)
    (executed : (run step check start actions).map test = some true) :
    ∃ state, Reachable step allowed start state ∧ test state = true := by
  obtain ⟨state, ended, passed⟩ := Option.map_eq_some_iff.mp executed
  exact ⟨state, reachable_of_run sound .start ended, passed⟩

end Runs
