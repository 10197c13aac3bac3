import Mathlib.Data.List.Basic
import Mathlib.Order.Basic

/-! Jobs that are tried a limited number of times, with a delay after every failure. -/

namespace Backoff

/-- What happens to a job, a try and a failure with their time. -/
inductive Event (τ : Type*) where
  | tried (now : τ)
  | failed (now : τ)
  | acknowledged
  | refused
  | cancelled
  deriving DecidableEq, Repr

variable {τ : Type*}

namespace Event

def isTry : Event τ → Bool
  | .tried _ => true
  | _ => false

def isFailure : Event τ → Bool
  | .failed _ => true
  | _ => false

end Event

/-- How often a job was tried. -/
def tries (history : List (Event τ)) : ℕ :=
  history.countP Event.isTry

/-- How often a job has failed. -/
def failures (history : List (Event τ)) : ℕ :=
  history.countP Event.isFailure

@[simp] theorem tries_nil : tries ([] : List (Event τ)) = 0 := rfl

@[simp] theorem failures_nil : failures ([] : List (Event τ)) = 0 := rfl

@[simp] theorem tries_append (history more : List (Event τ)) :
    tries (history ++ more) = tries history + tries more :=
  List.countP_append

@[simp] theorem failures_append (history more : List (Event τ)) :
    failures (history ++ more) = failures history + failures more :=
  List.countP_append

@[simp] theorem tries_singleton (event : Event τ) : tries [event] = event.isTry.toNat := by
  cases event <;> rfl

@[simp] theorem failures_singleton (event : Event τ) :
    failures [event] = event.isFailure.toNat := by
  cases event <;> rfl

variable {history : List (Event τ)} {event : Event τ}

/-- A cut of a history that was extended is a cut of the shorter one, or is made at its end. -/
theorem cut_concat {before after : List (Event τ)} (cut : history ++ [event] = before ++ after) :
    (after = [] ∧ before = history ++ [event]) ∨
      ∃ shorter, after = shorter ++ [event] ∧ history = before ++ shorter := by
  -- The cut is at the very end when nothing follows it.
  rcases List.eq_nil_or_concat after with rfl | ⟨shorter, last, rfl⟩
  · exact Or.inl ⟨rfl, by simpa using cut.symm⟩
  · rw [List.concat_eq_append, ← List.append_assoc] at cut
    obtain ⟨same, single⟩ := List.append_inj' cut rfl
    exact Or.inr ⟨shorter, by rw [List.concat_eq_append, single], same⟩

/-- An event of an extended history is an earlier one or the last. -/
theorem event_concat {before rest : List (Event τ)} {named : Event τ}
    (cut : history ++ [event] = before ++ named :: rest) :
    (before = history ∧ named = event) ∨ ∃ shorter, history = before ++ named :: shorter := by
  -- The event is the last one when nothing follows it.
  rcases List.eq_nil_or_concat rest with rfl | ⟨shorter, last, rfl⟩
  · obtain ⟨same, single⟩ := List.append_inj' cut rfl
    exact Or.inl ⟨same.symm, (List.cons.inj single).1.symm⟩
  · rw [List.concat_eq_append, ← List.cons_append, ← List.append_assoc] at cut
    exact Or.inr ⟨shorter, (List.append_inj' cut rfl).1⟩

/-- How often a job may be tried, and when it may be tried again after each failure. -/
structure Policy (τ : Type*) [Preorder τ] where
  limit : ℕ
  -- The earliest time of a try after the failure of this number and time.
  due : ℕ → τ → τ
  positive : 0 < limit
  later : ∀ number now, now ≤ due number now

variable [Preorder τ] {policy : Policy τ} {now : τ}

namespace Policy

/-- Every failure of a history is long enough ago for another try. -/
def Ready (policy : Policy τ) (history : List (Event τ)) (now : τ) : Prop :=
  ∀ before failed rest, history = before ++ .failed failed :: rest →
    policy.due (failures before + 1) failed ≤ now

/-- No try comes too early after any of the failures before it. -/
def Spaced (policy : Policy τ) (history : List (Event τ)) : Prop :=
  ∀ before again rest, history = before ++ .tried again :: rest → policy.Ready before again

/-- A job is given up: it was refused, it was cancelled, or its tries are used up. -/
def GivenUp (policy : Policy τ) (history : List (Event τ)) : Prop :=
  .refused ∈ history ∨ .cancelled ∈ history ∨ policy.limit ≤ failures history

/-- A job is over: it was acknowledged or given up. -/
def Over (policy : Policy τ) (history : List (Event τ)) : Prop :=
  .acknowledged ∈ history ∨ policy.GivenUp history

/-- Tries are limited and spaced, each of them fails at most once, and none follows the end. -/
structure Disciplined (policy : Policy τ) (history : List (Event τ)) : Prop where
  limited : tries history ≤ policy.limit
  answered : failures history ≤ tries history
  spaced : policy.Spaced history
  final : ∀ before after, history = before ++ after → policy.Over before → tries after = 0

/-- A job that waits for its next try: every try has failed. -/
structure Idle (policy : Policy τ) (history : List (Event τ)) : Prop where
  disciplined : policy.Disciplined history
  going : ¬policy.Over history
  even : tries history = failures history

/-- A job that is being tried: the outcome of one try is open. -/
structure Busy (policy : Policy τ) (history : List (Event τ)) : Prop where
  disciplined : policy.Disciplined history
  going : ¬policy.Over history
  odd : tries history = failures history + 1

/-- A job that was acknowledged, and not given up. -/
structure Done (policy : Policy τ) (history : List (Event τ)) : Prop where
  disciplined : policy.Disciplined history
  acknowledged : .acknowledged ∈ history
  kept : ¬policy.GivenUp history

/-- A job that was given up, and not acknowledged. -/
structure Dead (policy : Policy τ) (history : List (Event τ)) : Prop where
  disciplined : policy.Disciplined history
  givenUp : policy.GivenUp history
  unacknowledged : .acknowledged ∉ history

end Policy

theorem Policy.Ready.mono {later : τ} (ready : policy.Ready history now) (le : now ≤ later) :
    policy.Ready history later :=
  fun before failed rest same => le_trans (ready before failed rest same) le

theorem ready_nil : policy.Ready [] now := by
  intro before failed rest same
  simp at same

/-- A job stays ready unless it fails, and is ready again when that failure is due. -/
theorem Policy.Ready.concat (ready : policy.Ready history now)
    (due : ∀ failed, event = .failed failed → policy.due (failures history + 1) failed ≤ now) :
    policy.Ready (history ++ [event]) now := by
  -- The last event is the only one that the shorter history does not speak of.
  intro before failed rest cut
  rcases event_concat cut with ⟨rfl, last⟩ | ⟨shorter, same⟩
  · exact due failed last.symm
  · exact ready before failed shorter same

/-- A history extended by another event is given up if it was so, or by that event. -/
theorem givenUp_concat : policy.GivenUp (history ++ [event]) ↔
    policy.GivenUp history ∨ event = .refused ∨ event = .cancelled ∨
      (event.isFailure = true ∧ policy.limit ≤ failures history + 1) := by
  -- Of the new events, only a failure counts towards the limit.
  simp only [Policy.GivenUp, List.mem_append, List.mem_singleton, failures_append,
    failures_singleton]
  cases event with
  | failed now =>
    have more : policy.limit ≤ failures history → policy.limit ≤ failures history + 1 :=
      Nat.le_succ_of_le
    simp [Event.isFailure]
    tauto
  | _ => simp [Event.isFailure]

/-- A job that is over stays over. -/
theorem Policy.Over.append (ended : policy.Over history) (more : List (Event τ)) :
    policy.Over (history ++ more) := by
  -- Events stay, and failures are only added to.
  rcases ended with acknowledged | refused | cancelled | spent
  · exact Or.inl (List.mem_append_left _ acknowledged)
  · exact Or.inr (Or.inl (List.mem_append_left _ refused))
  · exact Or.inr (Or.inr (Or.inl (List.mem_append_left _ cancelled)))
  · exact Or.inr (Or.inr (Or.inr (by rw [failures_append]; omega)))

/-- A history stays disciplined by an event that is no try, or a try of a job that is ready. -/
theorem Policy.Disciplined.concat (disciplined : policy.Disciplined history)
    (tried : ∀ now, event = .tried now →
      ¬policy.Over history ∧ policy.Ready history now ∧ tries history = failures history)
    (failed : event.isFailure = true → failures history < tries history) :
    policy.Disciplined (history ++ [event]) where
  limited := by
    have limited := disciplined.limited
    cases event with
    | tried now =>
      -- A job that is not over has failed less often than it may be tried.
      obtain ⟨going, _, even⟩ := tried now rfl
      have fewer : ¬policy.limit ≤ failures history := fun spent =>
        going (Or.inr (Or.inr (Or.inr spent)))
      simp [Event.isTry]
      omega
    | _ => simpa [Event.isTry] using limited
  answered := by
    have answered := disciplined.answered
    cases event with
    | failed now =>
      -- A failure ends a try that was open.
      have open_ := failed rfl
      simp [Event.isTry, Event.isFailure]
      omega
    | _ =>
      simp [Event.isTry, Event.isFailure]
      omega
  spaced := by
    intro before again rest cut
    -- A last try is spaced because it was ready, and the earlier ones were before.
    rcases event_concat cut with ⟨rfl, last⟩ | ⟨shorter, same⟩
    · exact (tried again last.symm).2.1
    · exact disciplined.spaced before again shorter same
  final := by
    intro before after cut ended
    rcases cut_concat cut with ⟨rfl, _⟩ | ⟨shorter, rfl, rfl⟩
    · rfl
    · -- Nothing is tried after the end, the last event included.
      have none_ := disciplined.final before shorter rfl ended
      cases event with
      | tried now => exact absurd (ended.append shorter) (tried now rfl).1
      | _ => simpa [Event.isTry] using none_

/-- A job without a history waits for its first try. -/
theorem idle_nil : policy.Idle [] where
  disciplined := {
    limited := Nat.zero_le _
    answered := Nat.le_refl 0
    spaced := by
      intro before again rest cut
      simp at cut
    final := by
      intro before after cut _
      rw [(List.append_eq_nil_iff.mp cut.symm).2]
      rfl }
  going := by
    -- Nothing has happened, and at least one try is allowed.
    have positive := policy.positive
    simp [Policy.Over, Policy.GivenUp]
    omega
  even := rfl

section Rules

/-- Trying a job that is ready leaves one outcome open. -/
theorem Policy.Idle.tried (idle : policy.Idle history) (ready : policy.Ready history now) :
    policy.Busy (history ++ [.tried now]) where
  disciplined := idle.disciplined.concat
    (fun _ last => by cases last; exact ⟨idle.going, ready, idle.even⟩)
    (by simp [Event.isFailure])
  going := by
    -- A try is no end.
    have going := idle.going
    simp only [Policy.Over, givenUp_concat] at going ⊢
    simpa [Event.isFailure] using going
  odd := by simp [Event.isTry, Event.isFailure, idle.even]

/-- A job that is cancelled while it waits is dead. -/
theorem Policy.Idle.cancelled (idle : policy.Idle history) :
    policy.Dead (history ++ [.cancelled]) where
  disciplined := idle.disciplined.concat (by simp) (by simp [Event.isFailure])
  givenUp := givenUp_concat.mpr (Or.inr (Or.inr (Or.inl rfl)))
  -- An acknowledged job would not have been waiting.
  unacknowledged := by simpa using fun acknowledged => idle.going (Or.inl acknowledged)

/-- A failure that leaves a try makes the job wait. -/
theorem Policy.Busy.failed (busy : policy.Busy history)
    (left : failures history + 1 < policy.limit) : policy.Idle (history ++ [.failed now]) where
  disciplined := busy.disciplined.concat (by simp) fun _ => by have := busy.odd; omega
  going := by
    -- A failure is an end only when it is the last one allowed.
    have going := busy.going
    simp only [Policy.Over, givenUp_concat] at going ⊢
    simpa [Event.isFailure, left] using going
  even := by simp [Event.isTry, Event.isFailure, busy.odd]

/-- A failure of the last try makes the job dead. -/
theorem Policy.Busy.spent (busy : policy.Busy history)
    (last : policy.limit ≤ failures history + 1) : policy.Dead (history ++ [.failed now]) where
  disciplined := busy.disciplined.concat (by simp) fun _ => by have := busy.odd; omega
  -- The failure uses up the tries.
  givenUp := givenUp_concat.mpr (Or.inr (Or.inr (Or.inr ⟨rfl, last⟩)))
  unacknowledged := by simpa using fun acknowledged => busy.going (Or.inl acknowledged)

/-- A refused job is dead. -/
theorem Policy.Busy.refused (busy : policy.Busy history) :
    policy.Dead (history ++ [.refused]) where
  disciplined := busy.disciplined.concat (by simp) (by simp [Event.isFailure])
  givenUp := givenUp_concat.mpr (Or.inr (Or.inl rfl))
  unacknowledged := by simpa using fun acknowledged => busy.going (Or.inl acknowledged)

/-- An acknowledged job is done. -/
theorem Policy.Busy.acknowledged (busy : policy.Busy history) :
    policy.Done (history ++ [.acknowledged]) where
  disciplined := busy.disciplined.concat (by simp) (by simp [Event.isFailure])
  acknowledged := by simp
  kept := by
    -- What was still going was not given up, and an acknowledgement gives nothing up.
    have going := busy.going
    simp only [Policy.Over] at going
    simpa [givenUp_concat, Event.isFailure] using fun given => going (Or.inr given)

end Rules

end Backoff
