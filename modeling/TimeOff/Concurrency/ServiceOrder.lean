import TimeOff.Concurrency.Threads
import TimeOff.Library.Lines

/-! The mutex serves the calls for a key one at a time, in the order in which they were made. -/

namespace TimeOff

open Programs Lines

namespace KeyedMutex

variable {κ τ : Type}

/-- The calls of a mutex stand in a line for a key: the one inside is served, and others wait. -/
structure InLine (mutex : KeyedMutex κ τ) (phase : τ → Phase κ τ) (key : κ) (line : Line τ) :
    Prop where
  queued : Queue mutex phase key line.present
  serving : ∀ call, line.serving = some call ↔ phase call = .inside key
  gone : ∀ call ∈ line.gone, phase call = .finished

variable {mutex : KeyedMutex κ τ} {phase : τ → Phase κ τ} {key : κ} {call : τ} {line : Line τ}

/-- At first nobody stands in line. -/
theorem inLine_init : InLine ({} : KeyedMutex κ τ) (fun _ => .outside) key {} where
  queued := ⟨List.nodup_nil, by simp [Line.present], rfl, by simp [Line.present]⟩
  serving call := by simp
  gone call member := by cases member

variable [DecidableEq τ] {next : Phase κ τ}

/-- Those who are gone stay so while another call goes on. -/
theorem InLine.gone_update (inLine : InLine mutex phase key line) (open_ : phase call ≠ .finished) :
    ∀ among ∈ line.gone, Function.update phase call next among = .finished := by
  intro among member
  -- The call has not finished, so it is none of them.
  have different : among ≠ call := by
    intro equal
    subst equal
    exact open_ (inLine.gone among member)
  rw [Function.update_of_ne different]
  exact inLine.gone among member

/-- A call that is not served, neither before nor after, changes at most who waits in a line. -/
theorem InLine.keep (inLine : InLine mutex phase key line) {other : KeyedMutex κ τ}
    {moved : Line τ} (serving : moved.serving = line.serving) (gone : moved.gone = line.gone)
    (queued : Queue other (Function.update phase call next) key moved.present)
    (before : phase call ≠ .inside key) (after : next ≠ .inside key)
    (open_ : phase call ≠ .finished) :
    InLine other (Function.update phase call next) key moved := by
  -- The phases of those who are served or gone are the ones of before.
  refine ⟨queued, fun among => ?_, fun among member => ?_⟩
  · rw [serving, inLine.serving among]
    by_cases own : among = call
    · subst own
      rw [Function.update_self]
      exact iff_of_false before after
    · rw [Function.update_of_ne own]
  · rw [gone] at member
    exact inLine.gone_update open_ among member

/-- A call that may start is the first who waits, and its turn starts. -/
theorem InLine.starts (inLine : InLine mutex phase key line) (fair : Fair mutex phase)
    {previous : Option τ} (waits : phase call = .waiting key previous)
    (ready : mutex.ready previous = true) :
    ∃ moved, line.step (.starts call) = some moved ∧
      InLine mutex (Function.update phase call (.inside key)) key moved := by
  -- Nobody is inside the key yet.
  have free : line.serving = none := by
    refine Option.eq_none_iff_forall_ne_some.mpr fun among serving => ?_
    exact fair.vacant waits ready ((inLine.serving among).mp serving)
  obtain ⟨rest, first⟩ := fair.eq_of_ready inLine.queued waits ready
  have waiting : line.waiting = call :: rest := by simpa [Line.present, free] using first
  have queued := inLine.queued
  rw [first] at queued
  refine ⟨{ line with serving := some call, waiting := rest }, ?_, queued.start, ?_, ?_⟩
  · simp [Line.step, free, waiting]
  · intro among
    by_cases own : among = call
    · subst own
      simp
    · rw [Function.update_of_ne own]
      exact iff_of_false (fun same => own (Option.some.inj same).symm) (fair.vacant waits ready)
  · exact inLine.gone_update (by simp [waits])

variable [DecidableEq κ]

/-- A call that queues comes to the line of its key. -/
theorem InLine.comes (inLine : InLine mutex phase key line) (outside : phase call = .outside) :
    ∃ moved, line.step (.comes call) = some moved ∧
      InLine (mutex.acquire key call).2
        (Function.update phase call (.waiting key (mutex.acquire key call).1)) key moved := by
  have absent : call ∉ line.present := inLine.queued.not_mem (by simp [outside])
  have last : ({ line with waiting := line.waiting ++ [call] } : Line τ).present =
      line.present ++ [call] := (List.append_assoc ..).symm
  have entered := inLine.queued.enter absent
  rw [← last] at entered
  -- Nobody else is served or gone for it.
  exact ⟨_, rfl, inLine.keep rfl rfl entered (by simp [outside]) (by simp) (by simp [outside])⟩

/-- A call that is inside leaves the line of its key, and nobody is served then. -/
theorem InLine.leaves (inLine : InLine mutex phase key line) (fair : Fair mutex phase)
    (inside : phase call = .inside key) :
    ∃ moved, line.step (.leaves call) = some moved ∧
      InLine (mutex.release key call) (Function.update phase call .finished) key moved := by
  have serving := (inLine.serving call).mpr inside
  have queued := inLine.queued
  have first : line.present = call :: line.waiting := by simp [Line.present, serving]
  rw [first] at queued
  refine ⟨{ line with gone := line.gone ++ [call], serving := none }, if_pos serving,
    queued.leave, fun among => ?_, fun among member => ?_⟩
  · -- At most one call was inside, and it has left.
    refine iff_of_false (by simp) fun insideToo => ?_
    by_cases own : among = call
    · subst own
      simp at insideToo
    · rw [Function.update_of_ne own] at insideToo
      exact own (fair.exclusive insideToo inside)
  · rcases List.mem_append.mp member with old | last
    · exact inLine.gone_update (by simp [inside]) among old
    · rw [List.mem_singleton.mp last, Function.update_self]

end KeyedMutex

variable {σ κ ι S ρ : Type} {Answer : S → Type}

namespace Threads

section Order

variable [DecidableEq κ]

/-- What the next step of a call is to the line of a key. -/
def event (threads : Threads σ κ ι Answer ρ) (key : κ) (call : ι) : Option (Event ι) :=
  match threads.thread call with
  | .outside (.ret (.exclusive other _)) => if other = key then some (.comes call) else none
  | .waiting other _ _ => if other = key then some (.starts call) else none
  | .inside other (.ret _) => if other = key then some (.leaves call) else none
  | _ => none

/-- What has happened to the line of a key in a run. -/
def events (key : κ) (taken : List (Threads σ κ ι Answer ρ × ι)) : List (Event ι) :=
  taken.filterMap fun made => made.1.event key made.2

/-- The calls of the mutex for a key, in the order in which they were made. -/
def called (key : κ) (taken : List (Threads σ κ ι Answer ρ × ι)) : List ι :=
  arrivals (events key taken)

/-- The calls for a key whose bodies have started, in the order in which they did. -/
def started (key : κ) (taken : List (Threads σ κ ι Answer ρ × ι)) : List ι :=
  starts (events key taken)

/-- The calls for a key that have not finished, in the order in which they were made. -/
def outstanding (key : κ) (taken : List (Threads σ κ ι Answer ρ × ι))
    (threads : Threads σ κ ι Answer ρ) : List ι :=
  (called key taken).filter fun call => (threads.thread call).result.isNone

/-- What has come for a key and has not finished is what stands in line. -/
theorem outstanding_eq_present {key : κ} {line : Line ι}
    {taken : List (Threads σ κ ι Answer ρ × ι)} {threads : Threads σ κ ι Answer ρ}
    (inLine : threads.mutex.InLine threads.phases key line)
    (arrived : line.arrived = called key taken) :
    outstanding key taken threads = line.present := by
  -- Those who have left are finished, and those in line are not.
  have left : line.gone.filter (fun call => (threads.thread call).result.isNone) = [] := by
    refine List.filter_eq_nil_iff.mpr fun call member open_ => ?_
    exact Thread.result_isNone.mp open_ (inLine.gone call member)
  have stays : line.present.filter (fun call => (threads.thread call).result.isNone) =
      line.present := by
    refine List.filter_eq_self.mpr fun call member => Thread.result_isNone.mpr fun done => ?_
    have finished : threads.phases call = .finished := done
    exact inLine.queued.not_mem (by simp [finished]) member
  rw [outstanding, ← arrived, Line.arrived, List.filter_append, left, stays, List.nil_append]

/-- Some calls can all come to their ends without a step of any other call. -/
def CanFinish [DecidableEq ι] (exec : (statement : S) → σ → Answer statement × σ)
    (threads : Threads σ κ ι Answer ρ) (calls : List ι) : Prop :=
  ∃ (schedule : List ι) (after : Threads σ κ ι Answer ρ), (∀ mover ∈ schedule, mover ∈ calls) ∧
    schedule.foldlM (step exec) threads = some after ∧
    ∀ call ∈ calls, ∃ result, after.thread call = .finished result

end Order

variable {before after : Threads σ κ ι Answer ρ} {key : κ} {call : ι} {line : Line ι}
  {exec : (statement : S) → σ → Answer statement × σ} [DecidableEq ι] [DecidableEq κ]

/-- Every step is one event of the line of a key, or none. -/
theorem step_line (fair : before.mutex.Fair before.phases)
    (inLine : before.mutex.InLine before.phases key line)
    (taken : before.step exec call = some after) :
    ∃ moved, (before.event key call).toList.foldlM Line.step line = some moved ∧
      after.mutex.InLine after.phases key moved := by
  have phase {thread : Thread κ ι Answer ρ} (at_ : before.thread call = thread) :
      before.phases call = thread.phase := congrArg Thread.phase at_
  -- A statement is no event, and each step of the mutex is one for the line of its own key.
  cases step_move taken with
  | states statement next at_ =>
    refine ⟨line, by simp [event, at_], ?_⟩
    show before.mutex.InLine (before.set call _).phases key line
    rw [phases_set, Function.update_eq_self_iff.mpr (phase at_).symm]
    exact inLine
  | returns result at_ =>
    have outside : before.phases call = .outside := phase at_
    refine ⟨line, by simp [event, at_], ?_⟩
    show before.mutex.InLine (before.set call _).phases key line
    rw [phases_set]
    exact inLine.keep rfl rfl (inLine.queued.update (by simp [outside]) (by simp [Thread.phase]))
      (by simp [outside]) (by simp [Thread.phase]) (by simp [outside])
  | queues other body at_ =>
    have outside : before.phases call = .outside := phase at_
    show ∃ moved, _ ∧
      (before.mutex.acquire other call).2.InLine (before.set call _).phases key moved
    rw [phases_set]
    by_cases own : other = key
    · subst own
      obtain ⟨moved, stepped, onward⟩ := inLine.comes outside
      exact ⟨moved, by simpa [event, at_] using stepped, onward⟩
    · refine ⟨line, by simp [event, at_, own], ?_⟩
      exact inLine.keep rfl rfl (inLine.queued.enter_other outside (Ne.symm own))
        (by simp [outside]) (by simp [Thread.phase]) (by simp [outside])
  | starts other previous body at_ ready =>
    have waits : before.phases call = .waiting other previous := phase at_
    show ∃ moved, _ ∧ before.mutex.InLine (before.set call _).phases key moved
    rw [phases_set]
    by_cases own : other = key
    · subst own
      obtain ⟨moved, stepped, onward⟩ := inLine.starts fair waits ready
      exact ⟨moved, by simpa [event, at_] using stepped, onward⟩
    · refine ⟨line, by simp [event, at_, own], ?_⟩
      exact inLine.keep rfl rfl
        (inLine.queued.update (by simp [waits, own]) (by simp [Thread.phase, own]))
        (by simp [waits]) (by simp [Thread.phase, own]) (by simp [waits])
  | works other statement next at_ =>
    refine ⟨line, by simp [event, at_], ?_⟩
    show before.mutex.InLine (before.set call _).phases key line
    rw [phases_set, Function.update_eq_self_iff.mpr (phase at_).symm]
    exact inLine
  | leaves other result at_ =>
    have inside : before.phases call = .inside other := phase at_
    show ∃ moved, _ ∧
      (before.mutex.release other call).InLine (before.set call _).phases key moved
    rw [phases_set]
    by_cases own : other = key
    · subst own
      obtain ⟨moved, stepped, onward⟩ := inLine.leaves fair inside
      exact ⟨moved, by simpa [event, at_] using stepped, onward⟩
    · refine ⟨line, by simp [event, at_, own], ?_⟩
      exact inLine.keep rfl rfl (inLine.queued.leave_other inside (Ne.symm own))
        (by simp [inside, own]) (by simp [Thread.phase]) (by simp [inside])

/-- In every run the calls for a key are a line, in which its events are in order. -/
theorem line_of_trace {state : σ} {calls : ι → Prog Answer (Ending κ Answer ρ)}
    {taken : List (Threads σ κ ι Answer ρ × ι)} {final : Threads σ κ ι Answer ρ}
    (trace : Runs.Trace (step exec) (start state calls) taken final) (key : κ) :
    final.mutex.Fair final.phases ∧ ∃ line,
      (events key taken).foldlM Line.step {} = some line ∧
        final.mutex.InLine final.phases key line := by
  -- The last step adds its event to the line, if it has one.
  induction trace with
  | start => exact ⟨KeyedMutex.fair_init, {}, rfl, KeyedMutex.inLine_init⟩
  | @step taken before after call _ next ih =>
    obtain ⟨fair, line, ran, inLine⟩ := ih
    obtain ⟨moved, stepped, onward⟩ := step_line fair inLine next
    have added : events key (taken ++ [(before, call)]) =
        events key taken ++ (before.event key call).toList := by
      cases happened : before.event key call <;> simp [events, happened]
    refine ⟨step_fair fair next, moved, ?_, onward⟩
    rw [added, List.foldlM_append, ran]
    exact stepped

/-- A call that has finished takes no more steps, whoever else goes on. -/
theorem finished_of_run {schedule : List ι} {result : ρ}
    (finished : before.thread call = .finished result)
    (ran : schedule.foldlM (step exec) before = some after) :
    after.thread call = .finished result := by
  -- No step of the run is one of the call itself.
  induction schedule generalizing before with
  | nil =>
    cases ran
    exact finished
  | cons mover rest ih =>
    rw [List.foldlM_cons] at ran
    obtain ⟨middle, taken, onward⟩ := Option.bind_eq_some_iff.mp ran
    have different : call ≠ mover := by
      intro same
      subst same
      simp [step, finished] at taken
    exact ih (((step_move taken).other different).trans finished) onward

variable (exec) in
/-- The call inside a key can go on to its end by itself, and its queue moves up. -/
theorem exists_run_of_inside {rest : List ι} (fair : before.mutex.Fair before.phases)
    (queued : before.mutex.Queue before.phases key (call :: rest)) {body : Prog Answer ρ}
    (inside : before.thread call = .inside key body) :
    ∃ (schedule : List ι) (after : Threads σ κ ι Answer ρ), (∀ mover ∈ schedule, mover = call) ∧
      schedule.foldlM (step exec) before = some after ∧
      after.mutex.Fair after.phases ∧ after.mutex.Queue after.phases key rest ∧
      ∃ result, after.thread call = .finished result := by
  -- Each statement of the body is a step, and so is the end of it, whatever its result.
  induction body generalizing before with
  | ret result =>
    have taken : before.step exec call = some { before.set call (.finished result) with
        mutex := before.mutex.release key call } := by
      simp only [step, inside]
    refine ⟨[call], _, by simp, by simpa using taken, step_fair fair taken, ?_, result, ?_⟩
    · show (before.mutex.release key call).Queue (before.set call _).phases key rest
      rw [phases_set]
      exact queued.leave
    · exact Function.update_self ..
  | call statement next ih =>
    have taken : before.step exec call = some { before.set call
        (.inside key (next (exec statement before.state).1)) with
        state := (exec statement before.state).2 } := by
      simp only [step, inside]
    have phase : before.phases call = .inside key := congrArg Thread.phase inside
    obtain ⟨schedule, final, own, ran, onward⟩ := ih (exec statement before.state).1
      (step_fair fair taken) (by
        show before.mutex.Queue (before.set call _).phases key _
        rw [phases_set, Function.update_eq_self_iff.mpr phase.symm]
        exact queued) (Function.update_self ..)
    refine ⟨call :: schedule, final, by simpa using own, ?_, onward⟩
    rw [List.foldlM_cons, taken]
    exact ran

/-- The calls that queue for a key can all finish, by steps of their own. -/
theorem canFinish_of_queue {queue : List ι} (fair : before.mutex.Fair before.phases)
    (queued : before.mutex.Queue before.phases key queue) : CanFinish exec before queue := by
  -- The first call starts unless it is inside, goes on to its end, and leaves the rest behind.
  induction queue generalizing before with
  | nil => exact ⟨[], before, by simp, rfl, by simp⟩
  | cons first rest ih =>
    have served {middle : Threads σ κ ι Answer ρ} {body : Prog Answer ρ}
        (fair : middle.mutex.Fair middle.phases)
        (queued : middle.mutex.Queue middle.phases key (first :: rest))
        (inside : middle.thread first = .inside key body) :
        CanFinish exec middle (first :: rest) := by
      obtain ⟨schedule, left, own, ran, fairly, behind, result, done⟩ :=
        exists_run_of_inside exec fair queued inside
      obtain ⟨later, final, among, onward, finished⟩ := ih fairly behind
      refine ⟨schedule ++ later, final, fun mover member => ?_, ?_, fun member present => ?_⟩
      · rcases List.mem_append.mp member with earlier | after
        · exact List.mem_cons.mpr (Or.inl (own mover earlier))
        · exact List.mem_cons_of_mem _ (among mover after)
      · rw [List.foldlM_append, ran]
        exact onward
      · rcases List.mem_cons.mp present with rfl | behind
        · exact ⟨result, finished_of_run done onward⟩
        · exact finished member behind
    rcases (queued.linked first rest rfl).2 with inside | ⟨previous, waits, ready⟩
    · obtain ⟨body, at_⟩ := Thread.phase_eq_inside.mp inside
      exact served fair queued at_
    · obtain ⟨body, at_⟩ := Thread.phase_eq_waiting.mp waits
      have taken : before.step exec first = some (before.set first (.inside key body)) := by
        have at_ : before.thread first = .waiting key previous body := at_
        simp only [step, at_, ready, if_true]
      obtain ⟨schedule, final, among, ran, finished⟩ := served (step_fair fair taken) (by
        rw [phases_set]
        exact queued.start) (Function.update_self ..)
      refine ⟨first :: schedule, final, ?_, ?_, finished⟩
      · simpa using among
      · rw [List.foldlM_cons, taken]
        exact ran

/--
What the mutex promises of the calls for a key, at the end of a run.

A call is outstanding from its synchronous prefix to the end of its finally block.
-/
structure FifoLock (exec : (statement : S) → σ → Answer statement × σ) (key : κ)
    (taken : List (Threads σ κ ι Answer ρ × ι)) (threads : Threads σ κ ι Answer ρ) : Prop where
  -- At most one body is between its start and its end.
  exclusive : ∀ first second body other, threads.thread first = .inside key body →
    threads.thread second = .inside key other → first = second
  -- Bodies start in the order of the calls.
  ordered : started key taken <+: called key taken
  -- The first call that is outstanding runs, or it may start.
  going : ∀ first rest, outstanding key taken threads = first :: rest →
    (threads.step exec first).isSome = true ∧
      ((∃ body, threads.thread first = .inside key body) ∨
        ∃ previous body, threads.thread first = .waiting key previous body)
  -- Whoever may not start waits for the call for the same key right before it.
  apart : ∀ call previous body, threads.thread call = .waiting key previous body →
    threads.step exec call = none → ∃ other, previous = some other ∧
      [other, call] <:+: outstanding key taken threads
  -- No call for another key, or outside the mutex, has to move for them to finish.
  drains : CanFinish exec threads (outstanding key taken threads)
  -- There is an entry exactly while some call has not finished.
  entry : threads.mutex.tails key ≠ none ↔ outstanding key taken threads ≠ []

/-- A call that is inside a key always has a step of its own. -/
theorem step_of_inside {threads : Threads σ κ ι Answer ρ} {body : Prog Answer ρ}
    (inside : threads.thread call = .inside key body) :
    (threads.step exec call).isSome = true := by
  cases body with
  | ret result => simp [step, inside]
  | call statement next => simp [step, inside]

/-- A call that waits has a step of its own once the promise it found is resolved. -/
theorem step_of_waiting {threads : Threads σ κ ι Answer ρ} {previous : Option ι}
    {body : Prog Answer ρ} (waits : threads.thread call = .waiting key previous body) :
    (threads.step exec call).isSome = threads.mutex.ready previous := by
  simp only [step, waits]
  cases threads.mutex.ready previous <;> simp

/-- The mutex is a lock for every key, whose calls are served in their order and never stuck. -/
theorem fifo_lock {ε α : Type} {state : σ}
    {calls : ι → Prog Answer (Ending κ Answer (Except ε α))}
    {taken : List (Threads σ κ ι Answer (Except ε α) × ι)}
    {final : Threads σ κ ι Answer (Except ε α)}
    (trace : Runs.Trace (step exec) (start state calls) taken final) (key : κ) :
    FifoLock exec key taken final := by
  obtain ⟨fair, line, ran, inLine⟩ := line_of_trace trace key
  -- The line knows who has come and whose turn has started.
  obtain ⟨arrived, begun⟩ := Line.run_adds ran
  have present : outstanding key taken final = line.present :=
    outstanding_eq_present inLine arrived
  have queued : final.mutex.Queue final.phases key (outstanding key taken final) :=
    present ▸ inLine.queued
  refine ⟨fun first second body other inside insideToo => ?_, ?_, fun first rest same => ?_,
    fun call previous body waits stuck => ?_, canFinish_of_queue fair queued, ?_⟩
  · exact fair.exclusive (Thread.phase_eq_inside.mpr ⟨body, inside⟩)
      (Thread.phase_eq_inside.mpr ⟨other, insideToo⟩)
  · have first := line.begun_prefix
    rw [arrived, begun] at first
    exact first
  · rcases (queued.linked first rest same).2 with inside | ⟨previous, waits, ready⟩
    · obtain ⟨body, at_⟩ := Thread.phase_eq_inside.mp inside
      exact ⟨step_of_inside at_, Or.inl ⟨body, at_⟩⟩
    · obtain ⟨body, at_⟩ := Thread.phase_eq_waiting.mp waits
      exact ⟨(step_of_waiting at_).trans ready, Or.inr ⟨previous, body, at_⟩⟩
  · have unready : final.mutex.ready previous = false :=
      (step_of_waiting waits).symm.trans (congrArg Option.isSome stuck)
    exact queued.behind (Thread.phase_eq_waiting.mpr ⟨body, waits⟩) unready
  · rw [queued.tail, ne_eq, List.getLast?_eq_none_iff]

/-- Two calls for one key, of which the first one throws, and a call for another key. -/
def threeSections : Fin 3 → Prog (fun _ : Unit => Unit)
    (Ending String (fun _ : Unit => Unit) (Except String Nat))
  | 0 => .ret (.exclusive "a" (.call () fun _ => .ret (.error "thrown")))
  | 1 => .ret (.exclusive "a" (.call () fun _ => .ret (.ok 1)))
  | 2 => .ret (.exclusive "b" (.ret (.ok 2)))

/-- A run of them in which the second call starts after the first one has thrown. -/
theorem fifo_lock_threeSections : ∃ taken final,
    Runs.Trace (step fun _ count => ((), count + 1)) (start 0 threeSections) taken final ∧
    (final.thread 0).result = some (.error "thrown") ∧ (final.thread 1).head = some () ∧
    FifoLock (fun _ count => ((), count + 1)) "a" taken final := by
  -- The third call comes to its end while the first two are still in line.
  have executed : (Runs.run (step fun _ count => ((), count + 1)) (fun _ _ => true)
      (start 0 threeSections) [0, 1, 2, 0, 2, 2, 0, 0, 1]).map (fun final =>
        decide ((final.thread 0).result = some (.error "thrown") ∧
          (final.thread 1).head = some ())) = some true := by
    decide +kernel
  obtain ⟨taken, final, trace, _, ended⟩ := exists_trace_of_run executed
  obtain ⟨threw, runs⟩ := of_decide_eq_true ended
  exact ⟨taken, final, trace, threw, runs, fifo_lock trace "a"⟩

end Threads

end TimeOff
