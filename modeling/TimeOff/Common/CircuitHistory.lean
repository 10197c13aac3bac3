import Mathlib.Data.List.DropRight
import TimeOff.Common.CircuitBreaker

/-! When the circuit breaker refuses a call, told from the outcomes that were recorded so far. -/

namespace TimeOff

/-- A call of one of the methods of a breaker. -/
inductive CircuitCall where
  | recordSuccess
  | recordFailure
  | getState
  | canAttempt
  deriving DecidableEq, Repr

/-- The calls of a breaker so far, each with the time at which it was made. -/
abbrev CircuitHistory := List (CircuitCall × Time)

/-- Whether a call records an outcome. -/
def CircuitCall.records : CircuitCall → Bool
  | .recordSuccess | .recordFailure => true
  | .getState | .canAttempt => false

namespace CircuitHistory

/-- The calls after the last success. -/
def sinceSuccess (history : CircuitHistory) : CircuitHistory :=
  history.rtakeWhile fun made => made.1 ≠ .recordSuccess

/-- How many failures were recorded since the last success. -/
def failures (history : CircuitHistory) : Nat :=
  history.sinceSuccess.countP fun made => made.1 = .recordFailure

/-- The time of the last failure. -/
def lastFailure (history : CircuitHistory) : Option Time :=
  (history.filter fun made => made.1 = .recordFailure).getLast?.map Prod.snd

/-- The outcomes that were recorded, without the questions in between. -/
def outcomes (history : CircuitHistory) : CircuitHistory :=
  history.filter fun made => made.1.records

/-- No call is made before an earlier one, and none after a given time. -/
def Timely (history : CircuitHistory) (now : Time) : Prop :=
  (history.map Prod.snd ++ [now]).Pairwise (· ≤ ·)

instance (history : CircuitHistory) (now : Time) : Decidable (history.Timely now) :=
  inferInstanceAs (Decidable (List.Pairwise _ _))

/-- Enough failures were recorded since the last success, and the last one was a short time ago. -/
def Tripped (opts : CircuitBreakerOptions) (history : CircuitHistory) (now : Time) : Prop :=
  opts.failureThreshold ≤ history.failures ∧
    ∃ last ∈ history.lastFailure, now - last < opts.cooldownMs

instance (opts : CircuitBreakerOptions) (history : CircuitHistory) (now : Time) :
    Decidable (history.Tripped opts now) :=
  inferInstanceAs (Decidable (_ ∧ _))

variable {history : CircuitHistory} {call : CircuitCall} {now later : Time}

/-- The count starts anew with a success, goes up with a failure, and is kept by a question. -/
theorem failures_concat : failures (history ++ [(call, now)]) =
    if call = .recordSuccess then 0
    else if call = .recordFailure then history.failures + 1
    else history.failures := by
  cases call <;> simp [failures, sinceSuccess]

/-- Only a failure is the last one afterwards. -/
theorem lastFailure_concat : lastFailure (history ++ [(call, now)]) =
    if call = .recordFailure then some now else history.lastFailure := by
  cases call <;> simp [lastFailure]

/-- A timely history was so before its last call, which is the latest of it. -/
theorem Timely.of_concat (timely : Timely (history ++ [(call, now)]) later) :
    history.Timely now ∧ now ≤ later := by
  simp only [Timely, List.map_append, List.map_cons, List.map_nil] at timely
  obtain ⟨earlier, _, last⟩ := List.pairwise_append.mp timely
  exact ⟨earlier, last now (by simp) later (by simp)⟩

/-- Questions change neither the failures nor the last of them. -/
theorem failures_outcomes (history : CircuitHistory) :
    history.outcomes.failures = history.failures := by
  -- A last call that is a question is left out, and counts for nothing.
  induction history using List.reverseRecOn with
  | nil => rfl
  | append_singleton earlier made ih =>
    obtain ⟨call, now⟩ := made
    have cut : outcomes (earlier ++ [(call, now)]) =
        outcomes earlier ++ if call.records then [(call, now)] else [] := by
      cases recorded : call.records <;> simp [outcomes, recorded]
    rw [cut]
    cases call <;> simp [CircuitCall.records, failures_concat, ih]

theorem lastFailure_outcomes (history : CircuitHistory) :
    history.outcomes.lastFailure = history.lastFailure := by
  have failure (made : CircuitCall × Time) :
      (decide (made.1 = .recordFailure) && made.1.records) = decide (made.1 = .recordFailure) := by
    cases made.1 <;> rfl
  simp only [lastFailure, outcomes, List.filter_filter, failure]

/-- Whether a history has tripped a breaker is told from its outcomes. -/
theorem tripped_outcomes {opts : CircuitBreakerOptions} :
    history.outcomes.Tripped opts now ↔ history.Tripped opts now := by
  simp only [Tripped, failures_outcomes, lastFailure_outcomes]

end CircuitHistory

namespace CircuitBreaker

/-- Make a call, and leave the breaker as it leaves it. -/
def call (breaker : CircuitBreaker) : CircuitCall → Time → CircuitBreaker
  | .recordSuccess, _ => breaker.recordSuccess
  | .recordFailure, now => breaker.recordFailure now
  -- Whether a call is allowed is read off the state, so asking may move the breaker as well.
  | .getState, now | .canAttempt, now => breaker.getState now

/-- A new breaker after some calls. -/
def after (opts : CircuitBreakerOptions) (history : CircuitHistory) : CircuitBreaker :=
  history.foldl (fun breaker made => breaker.call made.1 made.2) { opts }

/-- What the fields of a breaker say of its history. -/
structure Reflects (breaker : CircuitBreaker) (history : CircuitHistory) : Prop where
  counted : breaker.consecutiveFailures = history.failures
  closed_iff : breaker.state = .closed ↔
    (history.failures : Int) < breaker.opts.failureThreshold
  opened : breaker.state ≠ .closed → history.lastFailure = some breaker.openedAt
  -- A breaker that probes has cooled down, and stays so.
  cooled : breaker.state = .halfOpen → ∀ now, history.Timely now →
    breaker.opts.cooldownMs ≤ now - breaker.openedAt

variable {breaker : CircuitBreaker} {history : CircuitHistory} {now : Time}

/-- No call touches the options. -/
theorem opts_call (call : CircuitCall) : (breaker.call call now).opts = breaker.opts := by
  cases call with
  | recordSuccess => rfl
  | recordFailure =>
    simp only [CircuitBreaker.call, recordFailure]
    split <;> rfl
  | getState | canAttempt =>
    simp only [CircuitBreaker.call, getState]
    split <;> rfl

/-- A new breaker has no history. -/
theorem reflects_init {opts : CircuitBreakerOptions} (threshold : 1 ≤ opts.failureThreshold) :
    Reflects { opts } [] where
  counted := rfl
  closed_iff := iff_of_true rfl threshold
  opened open_ := absurd rfl open_
  cooled probes := by cases probes

/-- A success closes the breaker, whatever it was before. -/
theorem reflects_recordSuccess (threshold : 1 ≤ breaker.opts.failureThreshold) :
    breaker.recordSuccess.Reflects (history ++ [(.recordSuccess, now)]) where
  counted := by simp [CircuitHistory.failures_concat, recordSuccess]
  closed_iff := by
    have none_ : CircuitHistory.failures (history ++ [(.recordSuccess, now)]) = 0 :=
      CircuitHistory.failures_concat
    exact iff_of_true rfl (none_ ▸ threshold)
  opened open_ := absurd rfl open_
  cooled probes := by cases probes

/-- A failure is counted, and the one that opens the breaker is the last one so far. -/
theorem Reflects.recordFailure (reflects : breaker.Reflects history) :
    (breaker.recordFailure now).Reflects (history ++ [(.recordFailure, now)]) := by
  have failures : CircuitHistory.failures (history ++ [(.recordFailure, now)]) =
      history.failures + 1 := CircuitHistory.failures_concat
  have last : CircuitHistory.lastFailure (history ++ [(.recordFailure, now)]) = some now :=
    CircuitHistory.lastFailure_concat
  have counted := reflects.counted
  by_cases spent : breaker.opts.failureThreshold ≤ breaker.consecutiveFailures + 1
  · -- The breaker opens, or opens anew.
    have moved : breaker.recordFailure now =
        { breaker with
          consecutiveFailures := breaker.consecutiveFailures + 1
          state := .opened, openedAt := now } := if_pos spent
    rw [moved]
    refine ⟨?_, iff_of_false (by simp) ?_, fun _ => last, fun probes => by cases probes⟩
    · rw [failures, counted, Int.natCast_add_one]
    · rw [failures, Int.not_lt]
      simpa [counted] using spent
  · -- With fewer failures than the threshold, the breaker is closed and stays so.
    have moved : breaker.recordFailure now =
        { breaker with consecutiveFailures := breaker.consecutiveFailures + 1 } := if_neg spent
    have below : ((history.failures + 1 : Nat) : Int) < breaker.opts.failureThreshold := by
      rw [counted] at spent
      omega
    have closed : breaker.state = .closed := reflects.closed_iff.mpr (by omega)
    rw [moved]
    refine ⟨?_, iff_of_true closed (failures ▸ below), fun open_ => absurd closed open_,
      fun probes => ?_⟩
    · rw [failures, counted, Int.natCast_add_one]
    · cases closed.symm.trans probes

/-- A question records nothing, and an open breaker it moves has cooled down. -/
theorem Reflects.getState (reflects : breaker.Reflects history) {call : CircuitCall}
    (question : call.records = false) :
    (breaker.getState now).Reflects (history ++ [(call, now)]) := by
  have noSuccess : call ≠ .recordSuccess := by
    rintro rfl
    cases question
  have noFailure : call ≠ .recordFailure := by
    rintro rfl
    cases question
  have failures : CircuitHistory.failures (history ++ [(call, now)]) = history.failures := by
    rw [CircuitHistory.failures_concat, if_neg noSuccess, if_neg noFailure]
  have last : CircuitHistory.lastFailure (history ++ [(call, now)]) = history.lastFailure := by
    rw [CircuitHistory.lastFailure_concat, if_neg noFailure]
  by_cases elapsed : breaker.state = .opened ∧ breaker.opts.cooldownMs ≤ now - breaker.openedAt
  · have moved : breaker.getState now = { breaker with state := .halfOpen } := if_pos elapsed
    have tripped : breaker.state ≠ .closed := by simp [elapsed.1]
    rw [moved]
    refine ⟨reflects.counted.trans (by rw [failures]), iff_of_false (by simp) ?_, fun _ => ?_,
      fun _ later timely => ?_⟩
    · rw [failures]
      exact fun below => tripped (reflects.closed_iff.mpr below)
    · rw [last]
      exact reflects.opened tripped
    · -- What has elapsed now has elapsed at any later time.
      exact Int.le_trans elapsed.2 (Int.sub_le_sub_right timely.of_concat.2 _)
  · have same : breaker.getState now = breaker := if_neg elapsed
    rw [same]
    refine ⟨reflects.counted.trans (by rw [failures]), ?_, fun open_ => ?_,
      fun probes later timely => ?_⟩
    · rw [failures]
      exact reflects.closed_iff
    · rw [last]
      exact reflects.opened open_
    · obtain ⟨earlier, onward⟩ := timely.of_concat
      exact Int.le_trans (reflects.cooled probes now earlier) (Int.sub_le_sub_right onward _)

/-- Whatever is called, the fields of a breaker say what its history does. -/
theorem Reflects.call (reflects : breaker.Reflects history)
    (threshold : 1 ≤ breaker.opts.failureThreshold) (made : CircuitCall) (now : Time) :
    (breaker.call made now).Reflects (history ++ [(made, now)]) := by
  cases made with
  | recordSuccess => exact reflects_recordSuccess threshold
  | recordFailure => exact reflects.recordFailure
  | getState => exact reflects.getState rfl
  | canAttempt => exact reflects.getState rfl

variable {opts : CircuitBreakerOptions}

@[simp] theorem opts_after (history : CircuitHistory) : (after opts history).opts = opts := by
  -- Each call of the history keeps the options of the breaker it is made on.
  induction history using List.reverseRecOn with
  | nil => rfl
  | append_singleton earlier made ih =>
    simp only [after, List.foldl_append, List.foldl_cons, List.foldl_nil] at ih ⊢
    rw [opts_call, ih]

/-- After any calls, the fields of a breaker say what its history does. -/
theorem reflects_after (threshold : 1 ≤ opts.failureThreshold) (history : CircuitHistory) :
    (after opts history).Reflects history := by
  -- The induction takes the last call off, as the breaker has made it last.
  induction history using List.reverseRecOn with
  | nil => exact reflects_init threshold
  | append_singleton earlier made ih =>
    obtain ⟨call, now⟩ := made
    have onward := ih.call (by simpa using threshold) call now
    simpa [after] using onward

/-- A breaker refuses a call exactly if its history has tripped it. -/
theorem Reflects.refuses_iff (reflects : breaker.Reflects history) {now : Time}
    (timely : history.Timely now) :
    breaker.canAttempt now = false ↔ history.Tripped breaker.opts now := by
  -- Only an open breaker that has not cooled down refuses.
  have refuses : breaker.canAttempt now = false ↔
      breaker.state = .opened ∧ now - breaker.openedAt < breaker.opts.cooldownMs := by
    by_cases elapsed : breaker.state = .opened ∧
        breaker.opts.cooldownMs ≤ now - breaker.openedAt
    · have moved : breaker.getState now = { breaker with state := .halfOpen } := if_pos elapsed
      rw [canAttempt, moved]
      exact iff_of_false (by simp) fun refused => Int.not_lt.mpr elapsed.2 refused.2
    · have same : breaker.getState now = breaker := if_neg elapsed
      rw [canAttempt, same, decide_eq_false_iff_not, not_not]
      refine ⟨fun open_ => ⟨open_, Int.not_le.mp fun cooled => ?_⟩, And.left⟩
      exact elapsed ⟨open_, cooled⟩
  rw [refuses]
  cases state : breaker.state with
  | closed =>
    have below := reflects.closed_iff.mp state
    refine iff_of_false (by simp) fun tripped => ?_
    have spent := tripped.1
    omega
  | opened =>
    have open_ : breaker.state ≠ .closed := by simp [state]
    have spent := Int.not_lt.mp (mt reflects.closed_iff.mpr open_)
    rw [CircuitHistory.Tripped, reflects.opened open_]
    constructor
    · intro refused
      exact ⟨spent, breaker.openedAt, rfl, refused.2⟩
    · rintro ⟨_, last, found, recent⟩
      cases found
      exact ⟨rfl, recent⟩
  | halfOpen =>
    have cooled := reflects.cooled state now timely
    have open_ : breaker.state ≠ .closed := by simp [state]
    refine iff_of_false (by simp) fun tripped => ?_
    obtain ⟨last, found, recent⟩ := tripped.2
    rw [reflects.opened open_] at found
    cases found
    exact absurd cooled (Int.not_le.mpr recent)

/--
A breaker refuses a call exactly if its history has tripped it.

How often it was asked for its state before, and when, makes no difference.
-/
theorem refuses_iff_tripped (threshold : 1 ≤ opts.failureThreshold) (timely : history.Timely now) :
    ((after opts history).canAttempt now = false ↔ history.Tripped opts now) ∧
    ∀ other : CircuitHistory, other.Timely now → other.outcomes = history.outcomes →
      (after opts other).canAttempt now = (after opts history).canAttempt now := by
  have refuses (any : CircuitHistory) (timely : any.Timely now) :
      (after opts any).canAttempt now = false ↔ any.Tripped opts now := by
    simpa using (reflects_after threshold any).refuses_iff timely
  refine ⟨refuses history timely, fun other timelyToo same => ?_⟩
  rw [Bool.eq_iff_iff, ← not_iff_not, Bool.not_eq_true, Bool.not_eq_true, refuses other timelyToo,
    refuses history timely]
  -- Both are tripped by the outcomes they have in common.
  rw [← CircuitHistory.tripped_outcomes, same, CircuitHistory.tripped_outcomes]

/-- Three failures with a question in between, by a breaker that opens after three. -/
def threeFailures : CircuitHistory :=
  [(.recordFailure, 0), (.recordFailure, 0), (.getState, 1), (.recordFailure, 2)]

/-- The breaker refuses until a second after the third failure, and then lets a probe through. -/
theorem refuses_iff_tripped_threeFailures :
    (after ⟨3, 1000⟩ threeFailures).canAttempt 1001 = false ∧
      (after ⟨3, 1000⟩ threeFailures).canAttempt 1002 = true := by
  have early : threeFailures.Timely 1001 := by decide
  have late : threeFailures.Timely 1002 := by decide
  have threshold : 1 ≤ (⟨3, 1000⟩ : CircuitBreakerOptions).failureThreshold := by decide
  refine ⟨(refuses_iff_tripped threshold early).1.mpr (by decide), ?_⟩
  rw [← Bool.not_eq_false, (refuses_iff_tripped threshold late).1]
  decide

end CircuitBreaker

end TimeOff
