import TimeOff.Concurrency.Threads
import TimeOff.Library.Turns

/-! Sections under one key run as if each were run in one piece, in the order they got the lock. -/

namespace TimeOff

open Programs

variable {σ κ ι S ρ : Type} {Answer : S → Type}

namespace Threads

/-- Whether a call waits for its lock. -/
def awaits (threads : Threads σ κ ι Answer ρ) (call : ι) : Bool :=
  match threads.thread call with
  | .waiting _ _ _ => true
  | _ => false

/-- The calls that got the lock in a run, in the order in which they got it. -/
def acquisitions (taken : List (Threads σ κ ι Answer ρ × ι)) : List ι :=
  (taken.filter fun step => step.1.awaits step.2).map Prod.snd

/-- The state after the sections of some calls were run in one piece, one after the other. -/
def serially (exec : (statement : S) → σ → Answer statement × σ) (body : ι → Prog Answer ρ)
    (state : σ) (order : List ι) : σ :=
  order.foldl (fun state call => ((body call).run exec state).2) state

theorem serially_append (exec : (statement : S) → σ → Answer statement × σ)
    (body : ι → Prog Answer ρ) (state : σ) (order : List ι) (call : ι) :
    serially exec body state (order ++ [call]) =
      ((body call).run exec (serially exec body state order)).2 := by
  simp [serially]

/--
What the calls have in common: one key, a section each, and what they may rely on.

The relation `grows` is what every statement of a section does to the state, and `refused` is what
is known of a call that returns without its section.
-/
structure Protocol (σ κ ι : Type) {S : Type} (Answer : S → Type) (ρ : Type) where
  exec : (statement : S) → σ → Answer statement × σ
  key : κ
  body : ι → Prog Answer ρ
  grows : σ → σ → Prop
  refused : ι → σ → ρ → Prop
  refl : ∀ state, grows state state
  trans : ∀ {first second third}, grows first second → grows second third → grows first third
  -- A refusal stays justified, and each section keeps to the relation.
  stable : ∀ {call before after result}, grows before after → refused call before result →
    refused call after result
  keeps : ∀ call, (body call).Only fun statement => ∀ state, grows state (exec statement state).2

namespace Protocol

variable (protocol : Protocol σ κ ι Answer ρ)

/-- A call comes to a justified refusal, or to its section under the key. -/
def Ends (call : ι) (state : σ) : Ending κ Answer ρ → Prop
  | .done result => protocol.refused call state result
  | .exclusive key body => key = protocol.key ∧ body = protocol.body call

/-- The result a call has when its section is run after those of others. -/
def turn (state : σ) (earlier : List ι) (call : ι) : ρ :=
  ((protocol.body call).run protocol.exec (serially protocol.exec protocol.body state earlier)).1

/-- Where a call stands when the lock was given to some calls so far. -/
def Stands (start : σ) (order : List ι) (state : σ) (call : ι) : Thread κ ι Answer ρ → Prop
  | .outside rest => call ∉ order ∧ ∃ seen, protocol.grows seen state ∧
    rest.Reads protocol.exec protocol.grows (protocol.Ends call) seen
  | .waiting key _ body => call ∉ order ∧ key = protocol.key ∧ body = protocol.body call
  | .inside key rest => key = protocol.key ∧
    (rest.Only fun statement => ∀ state, protocol.grows state (protocol.exec statement state).2) ∧
    ∃ earlier, order = earlier ++ [call] ∧ rest.run protocol.exec state =
      (protocol.body call).run protocol.exec (serially protocol.exec protocol.body start earlier)
  | .finished result => Turns.Had (protocol.turn start) order call result ∨
    (call ∉ order ∧ protocol.refused call state result)

/-- The calls stand as if the sections so far had been run in one piece, up to the one inside. -/
structure Serialised (start : σ) (order : List ι) (threads : Threads σ κ ι Answer ρ) : Prop where
  nodup : order.Nodup
  stands : ∀ call, protocol.Stands start order threads.state call (threads.thread call)
  vacant : (∀ call key rest, threads.thread call ≠ .inside key rest) →
    threads.state = serially protocol.exec protocol.body start order

variable {protocol} {start state later : σ} {order : List ι} {call : ι}
  {thread : Thread κ ι Answer ρ}

/-- A call that is not inside stands as it did when the state has grown. -/
theorem Stands.grow (stands : protocol.Stands start order state call thread)
    (grown : protocol.grows state later) (outside : ∀ key rest, thread ≠ .inside key rest) :
    protocol.Stands start order later call thread := by
  -- What was read may have grown since, and what was refused stays refused.
  cases thread with
  | outside rest =>
    obtain ⟨absent, seen, earlier, reads⟩ := stands
    exact ⟨absent, seen, protocol.trans earlier grown, reads⟩
  | waiting key previous body => exact stands
  | inside key rest => exact absurd rfl (outside key rest)
  | finished result => exact stands.imp id fun ⟨absent, refused⟩ =>
      ⟨absent, protocol.stable grown refused⟩

/-- A call that is not inside stands as it did when another one gets the lock. -/
theorem Stands.snoc (stands : protocol.Stands start order state call thread) {other : ι}
    (different : call ≠ other) (outside : ∀ key rest, thread ≠ .inside key rest) :
    protocol.Stands start (order ++ [other]) state call thread := by
  have absent_iff : call ∉ order ++ [other] ↔ call ∉ order := by simp [different]
  -- The new entry of the order is another call, so nothing about this one changes.
  cases thread with
  | outside rest => exact ⟨absent_iff.mpr stands.1, stands.2⟩
  | waiting key previous body => exact ⟨absent_iff.mpr stands.1, stands.2⟩
  | inside key rest => exact absurd rfl (outside key rest)
  | finished result =>
    rcases stands with had | ⟨absent, refused⟩
    · exact Or.inl (had.snoc different)
    · exact Or.inr ⟨absent_iff.mpr absent, refused⟩

/-- Before any call has gone on, each stands at its start. -/
theorem serialised_start {calls : ι → Prog Answer (Ending κ Answer ρ)}
    (reads : ∀ call, (calls call).Reads protocol.exec protocol.grows (protocol.Ends call) start) :
    protocol.Serialised start [] (Threads.start start calls) where
  nodup := List.nodup_nil
  stands call := ⟨List.not_mem_nil, start, protocol.refl start, reads call⟩
  vacant _ := rfl

/-- What a run comes to once every call has finished. -/
theorem Serialised.finished {after : Threads σ κ ι Answer ρ}
    (serialised : protocol.Serialised start order after)
    (finished : ∀ call, ∃ result, after.thread call = .finished result) :
    after.state = serially protocol.exec protocol.body start order ∧
      (∀ earlier call rest, order = earlier ++ call :: rest →
        after.thread call = .finished (protocol.turn start earlier call)) ∧
      ∀ call, call ∉ order → ∃ result, after.thread call = .finished result ∧
        protocol.refused call after.state result := by
  have results (call : ι) (key : κ) (rest : Prog Answer ρ) :
      after.thread call ≠ .inside key rest := by
    obtain ⟨result, ended⟩ := finished call
    simp [ended]
  -- Nobody is inside any more, so the state is that of complete sections.
  refine ⟨serialised.vacant results, fun earlier call rest same => ?_, fun call absent => ?_⟩
  · obtain ⟨result, ended⟩ := finished call
    have stands := serialised.stands call
    rw [ended] at stands
    rcases stands with ⟨_, turns⟩ | ⟨absent, _⟩
    · rw [ended, turns earlier rest same]
    · exact absurd (by simp [same]) absent
  · obtain ⟨result, ended⟩ := finished call
    have stands := serialised.stands call
    rw [ended] at stands
    rcases stands with ⟨member, _⟩ | ⟨_, refused⟩
    · exact absurd member absent
    · exact ⟨result, ended, refused⟩

variable {before after : Threads σ κ ι Answer ρ}

/-- While a call is outside and the others are too, the sections so far are complete. -/
theorem Serialised.still (serialised : protocol.Serialised start order before)
    (outside : ∀ key rest, before.thread call ≠ .inside key rest)
    (others : ∀ other, other ≠ call → ∀ key rest, before.thread other ≠ .inside key rest) :
    before.state = serially protocol.exec protocol.body start order := by
  -- With the call outside and the others too, no key has a section open.
  classical
  refine serialised.vacant fun other key rest => ?_
  by_cases same : other = call
  · exact same ▸ outside key rest
  · exact others other same key rest

/-- Whoever is inside holds the one key. -/
theorem Serialised.key_eq (serialised : protocol.Serialised start order before) {key : κ}
    {rest : Prog Answer ρ} (inside : before.thread call = .inside key rest) :
    key = protocol.key := by
  have stands := serialised.stands call
  rw [inside] at stands
  exact stands.1

/-- While a call is inside, nobody else is. -/
theorem Serialised.alone (serialised : protocol.Serialised start order before)
    (fair : before.mutex.Fair before.phases) {key mine : κ} {rest body : Prog Answer ρ}
    (inside : before.thread call = .inside key rest) {other : ι} (different : other ≠ call) :
    before.thread other ≠ .inside mine body := by
  -- Both calls would have to be inside one key, where only one of them is served.
  intro insideToo
  obtain rfl := serialised.key_eq inside
  obtain rfl := serialised.key_eq insideToo
  exact different (fair.exclusive (congrArg Thread.phase insideToo)
    (congrArg Thread.phase inside))

/-- While a call may start, nobody is inside. -/
theorem Serialised.free (serialised : protocol.Serialised start order before)
    (fair : before.mutex.Fair before.phases) {previous : Option ι} {body : Prog Answer ρ}
    (at_ : before.thread call = .waiting protocol.key previous body)
    (ready : before.mutex.ready previous = true) (other : ι) (mine : κ) (rest : Prog Answer ρ) :
    before.thread other ≠ .inside mine rest := by
  intro inside
  obtain rfl := serialised.key_eq inside
  exact fair.vacant (congrArg Thread.phase at_) ready (congrArg Thread.phase inside)

variable [DecidableEq ι]

/-- The calls stay serialised when one of them goes on and stands, and the others still stand. -/
theorem Serialised.of_update {mutex : KeyedMutex κ ι} {next : Thread κ ι Answer ρ}
    (nodup : order.Nodup) (own : protocol.Stands start order state call next)
    (others : ∀ other, other ≠ call →
      protocol.Stands start order state other (before.thread other))
    (vacant : (∀ key rest, next ≠ .inside key rest) →
      (∀ other, other ≠ call → ∀ key rest, before.thread other ≠ .inside key rest) →
        state = serially protocol.exec protocol.body start order) :
    protocol.Serialised start order
      ⟨state, mutex, Function.update before.thread call next⟩ := by
  -- Only the thread of the call that went on is another one.
  refine ⟨nodup, fun other => ?_, fun outside => vacant ?_ ?_⟩
  · by_cases same : other = call
    · subst same
      simpa using own
    · simpa [Function.update_of_ne same] using others other same
  · intro key rest
    simpa using outside call key rest
  · intro other different key rest
    simpa [Function.update_of_ne different] using outside other key rest

variable [DecidableEq κ]

/-- One step keeps the calls serialised, and gives the lock to at most one of them. -/
theorem Serialised.step (serialised : protocol.Serialised start order before)
    (fair : before.mutex.Fair before.phases)
    (taken : before.step protocol.exec call = some after) :
    protocol.Serialised start
      (order ++ if before.awaits call then [call] else []) after := by
  have stands := serialised.stands call
  cases step_move taken with
  | states statement next at_ =>
    simp only [awaits, at_, Bool.false_eq_true, if_false, List.append_nil]
    rw [at_] at stands
    -- Outside its section a call only reads.
    obtain ⟨absent, seen, grown, reads⟩ := stands
    obtain ⟨unchanged, onward⟩ := reads before.state grown
    rw [unchanged]
    exact .of_update serialised.nodup ⟨absent, before.state, protocol.refl _, onward⟩
      (fun other _ => serialised.stands other) fun _ => serialised.still (by simp [at_])
  | returns result at_ =>
    simp only [awaits, at_, Bool.false_eq_true, if_false, List.append_nil]
    rw [at_] at stands
    obtain ⟨absent, seen, grown, refused⟩ := stands
    exact .of_update serialised.nodup (Or.inr ⟨absent, protocol.stable grown refused⟩)
      (fun other _ => serialised.stands other) fun _ => serialised.still (by simp [at_])
  | queues key body at_ =>
    simp only [awaits, at_, Bool.false_eq_true, if_false, List.append_nil]
    rw [at_] at stands
    obtain ⟨absent, seen, grown, named, own⟩ := stands
    exact .of_update serialised.nodup ⟨absent, named, own⟩
      (fun other _ => serialised.stands other) fun _ => serialised.still (by simp [at_])
  | starts key previous body at_ ready =>
    simp only [awaits, at_, if_true]
    rw [at_] at stands
    obtain ⟨absent, rfl, rfl⟩ := stands
    -- The lock is free, so the sections so far are complete.
    have vacant := serialised.free fair at_ ready
    refine .of_update ?_ ?_ (fun other different => ?_) fun outside => ?_
    · exact Turns.nodup_snoc serialised.nodup absent
    · exact ⟨rfl, protocol.keeps call, order, rfl, by rw [serialised.vacant vacant]⟩
    · exact (serialised.stands other).snoc different (vacant other)
    · exact absurd rfl (outside protocol.key (protocol.body call))
  | works key statement next at_ =>
    simp only [awaits, at_, Bool.false_eq_true, if_false, List.append_nil]
    rw [at_] at stands
    obtain ⟨rfl, only, earlier, last, same⟩ := stands
    -- The rest of the section runs on from here, so in one piece it comes to the same.
    refine .of_update serialised.nodup ⟨rfl, only.2 _, earlier, last, same⟩
      (fun other different => ?_) fun outside => absurd rfl (outside protocol.key _)
    exact (serialised.stands other).grow (only.1 before.state)
      fun _ _ => serialised.alone fair at_ different
  | leaves key result at_ =>
    simp only [awaits, at_, Bool.false_eq_true, if_false, List.append_nil]
    rw [at_] at stands
    obtain ⟨rfl, _, earlier, rfl, same⟩ := stands
    -- The section is complete, so its result and the state are those of one piece.
    refine .of_update serialised.nodup (Or.inl (.last serialised.nodup ?_))
      (fun other _ => serialised.stands other) fun _ _ => ?_
    · rw [turn, ← same]
      rfl
    · rw [serially_append, ← same]
      rfl

/-- Along every run, the calls are serialised in the order in which they got the lock. -/
theorem serialised_of_trace {calls : ι → Prog Answer (Ending κ Answer ρ)}
    (reads : ∀ call, (calls call).Reads protocol.exec protocol.grows (protocol.Ends call) start)
    {taken : List (Threads σ κ ι Answer ρ × ι)} {final : Threads σ κ ι Answer ρ}
    (trace : Runs.Trace (Threads.step protocol.exec) (Threads.start start calls) taken final) :
    protocol.Serialised start (acquisitions taken) final ∧ final.mutex.Fair final.phases := by
  -- The induction needs the mutex to be fair before each step.
  induction trace with
  | start => exact ⟨serialised_start reads, KeyedMutex.fair_init⟩
  | @step taken before after call _ next ih =>
    obtain ⟨serialised, fair⟩ := ih
    refine ⟨?_, step_fair fair next⟩
    have onward := serialised.step fair next
    rw [acquisitions, List.filter_append, List.map_append]
    -- The calls that were given the lock are those that waited for it.
    cases waits : before.awaits call <;> simpa [acquisitions, waits] using onward

end Protocol

end Threads

end TimeOff
