import Mathlib.Data.List.Nodup
import Mathlib.Logic.Function.Basic
import TimeOff.Library.Turns

/-! The lock that serialises critical sections per key, and the queue it keeps for each of them. -/

namespace TimeOff

/--
A mutex with one queue per key.

Every call makes one promise, so a promise is named by the call it belongs to.
-/
structure KeyedMutex (κ τ : Type) where
  -- The promise of the last call that has queued for a key.
  tails : κ → Option τ := fun _ => none
  -- The promises that are resolved.
  resolved : τ → Bool := fun _ => false

/-- How far a call has come with its critical section. -/
inductive Phase (κ τ : Type) where
  | outside
  -- The call is queued, and waits for the promise it found there.
  | waiting (key : κ) (previous : Option τ)
  | inside (key : κ)
  | finished

namespace KeyedMutex

variable {κ τ : Type}

/-- Queue for a key: remember the promise found there, and leave one's own. -/
def acquire [DecidableEq κ] (mutex : KeyedMutex κ τ) (key : κ) (mine : τ) :
    Option τ × KeyedMutex κ τ :=
  (mutex.tails key, { mutex with tails := Function.update mutex.tails key (some mine) })

/-- Whether the promise a call waits for is resolved. Where it found none, it need not wait. -/
def ready (mutex : KeyedMutex κ τ) (previous : Option τ) : Bool :=
  previous.all mutex.resolved

/-- Resolve one's promise, and drop the entry of the key when nobody has queued behind. -/
def release [DecidableEq κ] [DecidableEq τ] (mutex : KeyedMutex κ τ) (key : κ) (mine : τ) :
    KeyedMutex κ τ where
  tails := if mutex.tails key = some mine then Function.update mutex.tails key none
    else mutex.tails
  resolved := Function.update mutex.resolved mine true

/-- Each call of a list waits for the one before it, the first for a given call. -/
def Chained (phase : τ → Phase κ τ) (key : κ) : τ → List τ → Prop
  | _, [] => True
  | previous, call :: rest => phase call = .waiting key (some previous) ∧
    Chained phase key call rest

/-- The calls that are inside or wait for a key, in the order in which they queued. -/
structure Queue (mutex : KeyedMutex κ τ) (phase : τ → Phase κ τ) (key : κ) (queue : List τ) :
    Prop where
  nodup : queue.Nodup
  mem_iff : ∀ call, call ∈ queue ↔
    phase call = .inside key ∨ ∃ previous, phase call = .waiting key previous
  tail : mutex.tails key = queue.getLast?
  -- The first is inside or may start, and the others wait in a chain.
  linked : ∀ first rest, queue = first :: rest → Chained phase key first rest ∧
    (phase first = .inside key ∨
      ∃ previous, phase first = .waiting key previous ∧ mutex.ready previous = true)

/-- Every key has its queue, and only finished calls have resolved their promises. -/
structure Fair (mutex : KeyedMutex κ τ) (phase : τ → Phase κ τ) : Prop where
  queues : ∀ key, ∃ queue, Queue mutex phase key queue
  resolved : ∀ call, mutex.resolved call = true → phase call = .finished

variable {mutex : KeyedMutex κ τ} {phase : τ → Phase κ τ} {key : κ} {call : τ} {queue : List τ}

/-- At first nothing is queued and nothing is resolved. -/
theorem fair_init : Fair ({} : KeyedMutex κ τ) fun _ => .outside where
  queues _ := ⟨[], List.nodup_nil, by simp, rfl, by simp⟩
  resolved _ resolved := by simp at resolved

/-- A call that waits for the last of a chain continues it. -/
theorem Chained.snoc {previous : τ} {rest : List τ} (chained : Chained phase key previous rest)
    (waits : phase call = .waiting key ((previous :: rest).getLast?)) :
    Chained phase key previous (rest ++ [call]) := by
  -- The last of the chain is the one the rest of it ends in.
  induction rest generalizing previous with
  | nil => exact ⟨waits, trivial⟩
  | cons first rest ih =>
    exact ⟨chained.1, ih chained.2 (by rwa [List.getLast?_cons_cons] at waits)⟩

/-- A call of a chain waits for the call right before it. -/
theorem Chained.behind {previous : τ} {rest : List τ} (chained : Chained phase key previous rest)
    (member : call ∈ rest) :
    ∃ other, [other, call] <:+: previous :: rest ∧ phase call = .waiting key (some other) := by
  -- The first call waits for the given one, and a later one for a call of the rest.
  induction rest generalizing previous with
  | nil => cases member
  | cons first rest ih =>
    rcases List.mem_cons.mp member with rfl | later
    · exact ⟨previous, ⟨[], rest, rfl⟩, chained.1⟩
    · obtain ⟨other, among, waits⟩ := ih chained.2 later
      exact ⟨other, among.trans (List.suffix_cons ..).isInfix, waits⟩

/-- A call that is neither inside a key nor waits for it is not in its queue. -/
theorem Queue.not_mem (queued : Queue mutex phase key queue)
    (elsewhere : phase call ≠ .inside key ∧ ∀ previous, phase call ≠ .waiting key previous) :
    call ∉ queue := by
  intro member
  rcases (queued.mem_iff call).mp member with inside | ⟨previous, waits⟩
  · exact elsewhere.1 inside
  · exact elsewhere.2 previous waits

/-- A call of a queue is its first one, or it waits for the call right before it. -/
theorem Queue.first_or_behind (queued : Queue mutex phase key queue) (member : call ∈ queue) :
    (∃ rest, queue = call :: rest ∧ (phase call = .inside key ∨
      ∃ previous, phase call = .waiting key previous ∧ mutex.ready previous = true)) ∨
    ∃ other, [other, call] <:+: queue ∧ phase call = .waiting key (some other) := by
  -- The first call is linked to nobody, and each later one to the call before it.
  cases same : queue with
  | nil =>
    rw [same] at member
    cases member
  | cons first rest =>
    obtain ⟨chained, starts⟩ := queued.linked first rest same
    rw [same] at member
    rcases List.mem_cons.mp member with rfl | later
    · exact Or.inl ⟨rest, rfl, starts⟩
    · exact Or.inr (chained.behind later)

/-- A call that is inside is the first of its queue. -/
theorem Queue.eq_of_inside (queued : Queue mutex phase key queue)
    (inside : phase call = .inside key) : ∃ rest, queue = call :: rest := by
  -- The calls behind the first one wait.
  have member := (queued.mem_iff call).mpr (Or.inl inside)
  rcases queued.first_or_behind member with ⟨rest, same, _⟩ | ⟨_, _, waits⟩
  · exact ⟨rest, same⟩
  · cases inside.symm.trans waits

/-- A call that may not start yet waits for the call right before it in its queue. -/
theorem Queue.behind (queued : Queue mutex phase key queue) {previous : Option τ}
    (waits : phase call = .waiting key previous) (unready : mutex.ready previous = false) :
    ∃ other, previous = some other ∧ [other, call] <:+: queue := by
  -- The first call of the queue is inside or may start.
  have member := (queued.mem_iff call).mpr (Or.inr ⟨previous, waits⟩)
  rcases queued.first_or_behind member with ⟨_, _, inside | ⟨_, again, ready⟩⟩ |
    ⟨other, behind, again⟩
  · cases waits.symm.trans inside
  · cases waits.symm.trans again
    cases ready.symm.trans unready
  · cases waits.symm.trans again
    exact ⟨other, rfl, behind⟩

/-- A call that may start is the first of its queue. -/
theorem Fair.eq_of_ready (fair : Fair mutex phase) (queued : Queue mutex phase key queue)
    {previous : Option τ} (waits : phase call = .waiting key previous)
    (ready : mutex.ready previous = true) : ∃ rest, queue = call :: rest := by
  have member := (queued.mem_iff call).mpr (Or.inr ⟨previous, waits⟩)
  rcases queued.first_or_behind member with ⟨rest, same, _⟩ | ⟨other, behind, again⟩
  · exact ⟨rest, same⟩
  · -- A later call waits for a call of the queue, whose promise is not resolved.
    cases waits.symm.trans again
    have done := fair.resolved other (by simpa [KeyedMutex.ready] using ready)
    rcases (queued.mem_iff other).mp (behind.subset List.mem_cons_self) with inside | ⟨_, waiting⟩
    · cases done.symm.trans inside
    · cases done.symm.trans waiting

/-- At most one call is inside a key at a time. -/
theorem Fair.exclusive (fair : Fair mutex phase) {other : τ} (inside : phase call = .inside key)
    (insideToo : phase other = .inside key) : call = other := by
  -- Both are the first of the queue.
  obtain ⟨queue, queued⟩ := fair.queues key
  obtain ⟨_, same⟩ := queued.eq_of_inside inside
  obtain ⟨_, sameToo⟩ := queued.eq_of_inside insideToo
  exact (List.cons.inj (same.symm.trans sameToo)).1

/-- Nobody is inside a key while another call may start. -/
theorem Fair.vacant (fair : Fair mutex phase) {other : τ} {previous : Option τ}
    (waits : phase call = .waiting key previous) (ready : mutex.ready previous = true) :
    phase other ≠ .inside key := by
  -- The call that may start and the one inside would both be the first of the queue.
  intro inside
  obtain ⟨queue, queued⟩ := fair.queues key
  obtain ⟨_, same⟩ := fair.eq_of_ready queued waits ready
  obtain ⟨_, sameToo⟩ := queued.eq_of_inside inside
  obtain ⟨rfl, _⟩ := List.cons.inj (same.symm.trans sameToo)
  cases waits.symm.trans inside

/-- A queue only depends on the entry of its key, and on which promises are resolved for it. -/
theorem Queue.of_mutex (queued : Queue mutex phase key queue) {other : KeyedMutex κ τ}
    (tails : other.tails key = mutex.tails key)
    (resolved : ∀ previous, mutex.ready previous = true → other.ready previous = true) :
    Queue other phase key queue := by
  -- Nothing but the entry and the promises is read from the mutex.
  refine ⟨queued.nodup, queued.mem_iff, tails.trans queued.tail, fun first rest same => ?_⟩
  obtain ⟨chained, starts⟩ := queued.linked first rest same
  exact ⟨chained, starts.imp id fun ⟨previous, waits, ready⟩ =>
    ⟨previous, waits, resolved previous ready⟩⟩

section Changes

variable [DecidableEq τ] {next : Phase κ τ}

/-- A chain is left alone by a change of a call outside it. -/
theorem Chained.update {previous : τ} {rest : List τ} (chained : Chained phase key previous rest)
    (other : call ∉ rest) : Chained (Function.update phase call next) key previous rest := by
  -- No phase the chain speaks of is changed.
  induction rest generalizing previous with
  | nil => trivial
  | cons first rest ih =>
    rw [List.mem_cons, not_or] at other
    exact ⟨by rw [Function.update_of_ne (Ne.symm other.1)]; exact chained.1, ih chained.2 other.2⟩

/-- A queue is left alone by a call that is in no queue of its key before and after. -/
theorem Queue.update (queued : Queue mutex phase key queue)
    (before : phase call ≠ .inside key ∧ ∀ previous, phase call ≠ .waiting key previous)
    (after : next ≠ .inside key ∧ ∀ previous, next ≠ .waiting key previous) :
    Queue mutex (Function.update phase call next) key queue := by
  have absent := queued.not_mem before
  -- The call is no member, so the phases of the members are the same.
  refine ⟨queued.nodup, fun other => ?_, queued.tail, fun first rest same => ?_⟩
  · by_cases own : other = call
    · subst own
      rw [Function.update_self]
      exact ⟨fun member => absurd member absent, fun queuedToo =>
        queuedToo.elim (absurd · after.1) fun ⟨previous, waits⟩ =>
          absurd waits (after.2 previous)⟩
    · rw [Function.update_of_ne own]
      exact queued.mem_iff other
  · obtain ⟨chained, starts⟩ := queued.linked first rest same
    rw [same, List.mem_cons, not_or] at absent
    refine ⟨chained.update absent.2, ?_⟩
    rwa [Function.update_of_ne (Ne.symm absent.1)]

/-- A call that has not finished has resolved nothing, wherever it goes. -/
theorem Fair.resolved_update (fair : Fair mutex phase) {other : τ}
    (open_ : phase call ≠ .finished) (done : mutex.resolved other = true) :
    Function.update phase call next other = .finished := by
  have finished := fair.resolved other done
  have different : other ≠ call := by
    intro equal
    subst equal
    exact open_ finished
  rwa [Function.update_of_ne different]

/-- A call that takes no lock changes no queue. -/
theorem Fair.skip (fair : Fair mutex phase) (outside : phase call = .outside) :
    Fair mutex (Function.update phase call .finished) where
  -- The call was in no queue, and it is in none now.
  queues key := by
    obtain ⟨queue, queued⟩ := fair.queues key
    exact ⟨queue, queued.update (by simp [outside]) (by simp)⟩
  resolved other done := by
    -- A call that is skipped has nothing left to wait for, and the others wait as before.
    by_cases own : other = call
    · rw [own, Function.update_self]
    · rw [Function.update_of_ne own]
      exact fair.resolved other done

/-- The first call of a queue may start, and stays the first. -/
theorem Queue.start {rest : List τ} (queued : Queue mutex phase key (call :: rest)) :
    Queue mutex (Function.update phase call (.inside key)) key (call :: rest) := by
  -- The call stays the first, and those behind it still wait.
  refine ⟨queued.nodup, fun among => ?_, queued.tail, fun first later same => ?_⟩
  · by_cases same : among = call
    · subst same
      simp
    · rw [Function.update_of_ne same]
      exact queued.mem_iff among
  · obtain ⟨rfl, rfl⟩ := List.cons.inj same
    refine ⟨(queued.linked _ _ rfl).1.update (List.nodup_cons.mp queued.nodup).1, ?_⟩
    exact Or.inl (Function.update_self ..)

/-- A call that starts stays the first of its queue. -/
theorem Fair.start (fair : Fair mutex phase) {previous : Option τ}
    (waits : phase call = .waiting key previous) (ready : mutex.ready previous = true) :
    Fair mutex (Function.update phase call (.inside key)) where
  queues other := by
    obtain ⟨queue, queued⟩ := fair.queues other
    by_cases own : other = key
    · subst own
      obtain ⟨rest, rfl⟩ := fair.eq_of_ready queued waits ready
      exact ⟨call :: rest, queued.start⟩
    · exact ⟨queue, queued.update (by simp [waits, Ne.symm own]) (by simp [Ne.symm own])⟩
  resolved other done := fair.resolved_update (by simp [waits]) done

variable [DecidableEq κ]

/-- A call that queues is the last of the queue of its key. -/
theorem Queue.enter (queued : Queue mutex phase key queue) (absent : call ∉ queue) :
    Queue (mutex.acquire key call).2
      (Function.update phase call (.waiting key (mutex.acquire key call).1)) key
      (queue ++ [call]) := by
  refine ⟨Turns.nodup_snoc queued.nodup absent, fun among => ?_, ?_, fun first rest same => ?_⟩
  · by_cases same : among = call
    · subst same
      simp
    · rw [Function.update_of_ne same]
      simp [queued.mem_iff among, same]
  · simp [acquire]
  · cases queue with
    | nil =>
      -- The only call found no promise.
      obtain ⟨rfl, rfl⟩ := List.cons.inj same
      refine ⟨trivial, Or.inr ⟨_, Function.update_self .., ?_⟩⟩
      simp [acquire, ready, queued.tail]
    | cons head later =>
      -- It waits for the last one, whose promise it found.
      obtain ⟨rfl, rfl⟩ := List.cons.inj same
      obtain ⟨chained, starts⟩ := queued.linked _ _ rfl
      rw [List.mem_cons, not_or] at absent
      refine ⟨(chained.update absent.2).snoc ?_, ?_⟩
      · rw [Function.update_self]
        simp [acquire, queued.tail]
      · rwa [Function.update_of_ne (Ne.symm absent.1)]

/-- A call that queues for one key leaves the queues of the others alone. -/
theorem Queue.enter_other {other : κ} (queued : Queue mutex phase other queue)
    (outside : phase call = .outside) (different : other ≠ key) :
    Queue (mutex.acquire key call).2
      (Function.update phase call (.waiting key (mutex.acquire key call).1)) other queue := by
  -- The call is in no queue of the other key, whose entry is not written.
  have kept : Queue mutex (Function.update phase call
      (.waiting key (mutex.acquire key call).1)) other queue :=
    queued.update (by simp [outside]) (by simp [Ne.symm different])
  exact kept.of_mutex (by simp [acquire, different]) fun _ ready => ready

/-- A call that queues waits for the last of its queue, or need not wait. -/
theorem Fair.enter (fair : Fair mutex phase) (outside : phase call = .outside) :
    Fair (mutex.acquire key call).2
      (Function.update phase call (.waiting key (mutex.acquire key call).1)) where
  queues other := by
    obtain ⟨queue, queued⟩ := fair.queues other
    by_cases own : other = key
    · subst own
      exact ⟨queue ++ [call], queued.enter (queued.not_mem (by simp [outside]))⟩
    · exact ⟨queue, queued.enter_other outside own⟩
  resolved other done := fair.resolved_update (by simp [outside]) done

/-- A promise that is resolved stays so when another one is. -/
theorem ready_release {previous : Option τ} (ready : mutex.ready previous = true) :
    (mutex.release key call).ready previous = true := by
  -- A promise that is resolved stays resolved.
  cases previous with
  | none => rfl
  | some promise =>
    simp only [KeyedMutex.ready, Option.all_some, release, Function.update_apply] at ready ⊢
    split
    · rfl
    · exact ready

/-- When the first call of a queue leaves, the queue goes on with the next one. -/
theorem Queue.leave {rest : List τ} (queued : Queue mutex phase key (call :: rest)) :
    Queue (mutex.release key call) (Function.update phase call .finished) key rest := by
  obtain ⟨absent, nodup⟩ := List.nodup_cons.mp queued.nodup
  obtain ⟨chained, _⟩ := queued.linked _ _ rfl
  refine ⟨nodup, fun among => ?_, ?_, fun first later same => ?_⟩
  · by_cases same : among = call
    · subst same
      simp [absent]
    · rw [Function.update_of_ne same, ← queued.mem_iff among, List.mem_cons]
      exact (or_iff_right same).symm
  · -- The entry is dropped exactly when nobody has queued behind.
    cases rest with
    | nil => simp [release, queued.tail]
    | cons first later =>
      have last : mutex.tails key ≠ some call := by
        rw [queued.tail, List.getLast?_cons_cons]
        exact fun same => absent (List.mem_of_getLast? same)
      rw [release, if_neg last, queued.tail, List.getLast?_cons_cons]
  · subst same
    refine ⟨chained.2.update fun among => absent (List.mem_cons_of_mem _ among), Or.inr ?_⟩
    -- The next one waits for the promise that is resolved now.
    refine ⟨some call, ?_, by simp [KeyedMutex.ready, release]⟩
    have different : first ≠ call := by
      intro equal
      subst equal
      exact absent List.mem_cons_self
    rw [Function.update_of_ne different]
    exact chained.1

/-- A call that leaves one key leaves the queues of the others alone. -/
theorem Queue.leave_other {other : κ} (queued : Queue mutex phase other queue)
    (inside : phase call = .inside key) (different : other ≠ key) :
    Queue (mutex.release key call) (Function.update phase call .finished) other queue := by
  have kept : Queue mutex (Function.update phase call .finished) other queue :=
    queued.update (by simp [inside, Ne.symm different]) (by simp)
  refine kept.of_mutex ?_ fun _ ready => ready_release ready
  -- Only the entry of the key may be dropped.
  unfold release
  dsimp only
  split
  · rw [Function.update_of_ne different]
  · rfl

/-- A call that leaves lets the next one of its queue start. -/
theorem Fair.leave (fair : Fair mutex phase) (inside : phase call = .inside key) :
    Fair (mutex.release key call) (Function.update phase call .finished) where
  queues other := by
    obtain ⟨queue, queued⟩ := fair.queues other
    by_cases own : other = key
    · subst own
      obtain ⟨rest, rfl⟩ := queued.eq_of_inside inside
      exact ⟨rest, queued.leave⟩
    · exact ⟨queue, queued.leave_other inside own⟩
  resolved other done := by
    by_cases own : other = call
    · rw [own, Function.update_self]
    · rw [Function.update_of_ne own]
      apply fair.resolved other
      simpa [release, Function.update_of_ne own] using done

end Changes

end KeyedMutex

end TimeOff
