import TimeOff.System.Calls
import TimeOff.Transport.Exchange

/-!
As long as connections hold and fewer failures are injected than the circuit stands, it never opens.

Nobody behind the HTTP client can then tell it from the in-process client.
-/

namespace TimeOff

/-- Whether an outcome is a transient failure. -/
def transient (result : Except HcmError HcmAnswer) : Bool :=
  match result with
  | .error (.unavailable _) => true
  | _ => false

namespace HcmCore

/-- The injected failures that are left. -/
def failuresLeft (core : HcmCore) : Int :=
  max 0 core.faults.failuresToInject

/-- A read is answered or refused. -/
theorem getBalance_refused {core : HcmCore} {now : Time} {employeeId locationId : String}
    {error : HcmError} (failed : core.getBalance now employeeId locationId = .error error) :
    ∃ code message, error = .rejection code message := by
  -- A read looks at the invalid dimensions and at the rows, and has no transient failure.
  unfold getBalance at failed
  dsimp only at failed
  split at failed
  · cases failed
    exact ⟨_, _, rfl⟩
  · split at failed
    · cases failed
    · split at failed
      · cases failed
      · cases failed
        exact ⟨_, _, rfl⟩

/-- A call injects no failure, and one that fails transiently costs one of them. -/
theorem failuresLeft_serve (core : HcmCore) (now : Time) (call : HcmRequest) :
    (core.serve now call).1.failuresLeft ≤ core.failuresLeft ∧
      (transient (core.serve now call).2 = true →
        (core.serve now call).1.failuresLeft + 1 ≤ core.failuresLeft) := by
  cases call with
  | getBalance employeeId locationId =>
    simp only [serve, inProcessHcmClient]
    split
    · rename_i failed
      obtain ⟨code, message, rfl⟩ := getBalance_refused failed
      exact ⟨le_rfl, fun fails => by cases fails⟩
    · rename_i answered
      rw [failuresLeft, faults_getBalance answered]
      exact ⟨le_rfl, fun fails => by cases fails⟩
  | applyDelta cmd =>
    simp only [serve, inProcessHcmClient, failuresLeft, failures_applyDelta]
    refine ⟨?_, fun fails => ?_⟩
    · split
      · dsimp only
        omega
      · exact le_rfl
    · -- The failure was one of those that were injected.
      obtain ⟨message, failed⟩ : ∃ message,
          (core.applyDelta now cmd).2 = .error (.unavailable message) := by
        generalize (core.applyDelta now cmd).2 = result at fails
        cases result with
        | ok ack => cases fails
        | error error =>
          cases error with
          | rejection code message => cases fails
          | unavailable message => exact ⟨message, rfl⟩
      obtain ⟨unused, failing⟩ := applyDelta_unavailable failed
      simp only [unused, failing, Option.isNone_none, and_self, if_true]
      omega

/-- The control surface injects no failure unless it is told to. -/
theorem failuresLeft_control (core : HcmCore) (now : Time) {control : HcmControl}
    (mild : ∀ body, control = .faults body → body.failuresToInject = none) :
    (core.control now control).failuresLeft ≤ core.failuresLeft := by
  -- Only the fault settings name a number of failures, and a reset takes it back to none.
  cases control with
  | reset =>
    simp only [HcmCore.control, reset, failuresLeft]
    omega
  | faults body =>
    have untold := mild body rfl
    simp [HcmCore.control, configureFaults, failuresLeft, untold]
  | seed employeeId locationId balance => exact le_rfl
  | adjust employeeId locationId delta =>
    simp only [HcmCore.control]
    split
    · rename_i adjusted
      rw [failuresLeft, faults_adjust adjusted]
      exact le_rfl
    · exact le_rfl

end HcmCore

namespace Exchange

/-- A caller sees its response whole, and a transient failure it is told of was served. -/
structure Heard (made : HttpCall) : Prop where
  whole : made.cut = false
  failed : ∀ message, made.answered = some (.error (.unavailable message)) →
    ∃ text, made.served = some (.error (.unavailable text)) ∧ message = "HCM 503: " ++ text

/-- A response that carries a transient failure and has not arrived yet. -/
def failing (made : HttpCall) : Bool :=
  made.answered.isNone && made.served.any transient

/-- Steps in which no connection fails and no further failure is injected. -/
def Mild (_exchange : Exchange) : ExchangeAction → Prop
  | .fail _ _ _ | .lose _ _ _ => False
  | .control (.faults body) _ => body.failuresToInject = none
  | _ => True

/-- What a closed circuit still stands, and that nobody was told of a failure of the network. -/
structure Calm (exchange : Exchange) : Prop where
  closed : exchange.client.breaker.state = .closed
  counted : 0 ≤ exchange.client.breaker.consecutiveFailures
  budget : exchange.client.breaker.consecutiveFailures + exchange.core.failuresLeft +
    exchange.calls.countP failing < exchange.client.breaker.opts.failureThreshold
  admitted : ∀ made ∈ exchange.calls, made.admitted = true
  told : ∀ made ∈ exchange.calls, Heard made

variable {exchange before after : Exchange}

/-- Rewriting a call changes the number of failing responses by its own. -/
theorem countP_rewritten {calls : List HttpCall} {index : Nat} {made : HttpCall}
    (found : calls[index]? = some made) (changed : HttpCall) :
    (calls.set index changed).countP failing + (if failing made then 1 else 0) =
      calls.countP failing + (if failing changed then 1 else 0) := by
  obtain ⟨below, same⟩ := List.getElem?_eq_some_iff.mp found
  -- What is rewritten is counted before, if it fails.
  have counted : (if failing made then 1 else 0) ≤ calls.countP failing := by
    split
    · rename_i fails
      exact List.countP_pos_iff.mpr ⟨made, List.mem_of_getElem? found, fails⟩
    · exact Nat.zero_le _
  rw [List.countP_set below, same]
  omega

/-- A closed circuit admits a call and stays closed. -/
theorem Calm.enter (calm : exchange.Calm) (now : Time) :
    exchange.client.enter now = (exchange.client, true) := by
  -- A closed circuit has no cooldown to wait for.
  have same : exchange.client.breaker.getState now = exchange.client.breaker := by
    simp [CircuitBreaker.getState, calm.closed]
  simp [HttpHcmClient.enter, CircuitBreaker.canAttempt, same, calm.closed]

/-- As long as a failing response is on its way, one more failure leaves the circuit closed. -/
theorem Calm.below (calm : exchange.Calm) (pending : 0 < exchange.calls.countP failing) :
    exchange.client.breaker.consecutiveFailures + 1 <
      exchange.client.breaker.opts.failureThreshold := by
  have budget := calm.budget
  have left : 0 ≤ exchange.core.failuresLeft := le_max_left _ _
  omega

/-- Rewriting a call with what is true of it keeps what is known of all of them. -/
theorem Calm.rewritten (calm : exchange.Calm) (index : Nat) (changed : HttpCall)
    (admitted : changed.admitted = true) (told : Heard changed) :
    ∀ made ∈ exchange.calls.set index changed, made.admitted = true ∧ Heard made := by
  -- Every other call is one that was there before.
  intro made member
  rcases List.mem_or_eq_of_mem_set member with old | rfl
  · exact ⟨calm.admitted made old, calm.told made old⟩
  · exact ⟨admitted, told⟩

/-- A call that is told something is not on its way any more, so a failure may be counted for it. -/
theorem Calm.answered (calm : exchange.Calm) {index : Nat} {made changed : HttpCall}
    (found : exchange.calls[index]? = some made) (told : Heard changed)
    (answered : changed.answered.isSome = true) (admitted : changed.admitted = true)
    {client : HttpHcmClient}
    (opts : client.breaker.opts = exchange.client.breaker.opts)
    (closed : client.breaker.state = .closed) (counted : 0 ≤ client.breaker.consecutiveFailures)
    (most : client.breaker.consecutiveFailures ≤
      exchange.client.breaker.consecutiveFailures + if failing made then 1 else 0) :
    Calm { exchange with client, calls := exchange.calls.set index changed } := by
  have known := calm.rewritten index changed admitted told
  have settled : failing changed = false := by
    obtain ⟨answer, same⟩ := Option.isSome_iff_exists.mp answered
    simp [failing, same]
  -- What the circuit counts more, the responses on their way are fewer.
  have counts := countP_rewritten found changed
  have budget := calm.budget
  rw [settled, if_neg Bool.false_ne_true, Nat.add_zero] at counts
  refine ⟨closed, counted, ?_, fun other member => (known other member).1,
    fun other member => (known other member).2⟩
  dsimp only
  rw [opts]
  by_cases fails : failing made = true
  · rw [if_pos fails] at counts most
    omega
  · rw [if_neg fails] at counts most
    omega

/-- A response that arrives is told, and a failure costs what it was counted for. -/
theorem Calm.answer (calm : exchange.Calm) {index : Nat} {made : HttpCall}
    (found : exchange.calls[index]? = some made) (unanswered : made.answered = none) (now : Time)
    (reply : HttpReply HcmAnswer)
    (told : ∀ message, (exchange.client.guarded now reply).2 = .error (.unavailable message) →
      ∃ text, made.served = some (.error (.unavailable text)) ∧ message = "HCM 503: " ++ text) :
    (exchange.answer index made now reply).Calm := by
  let changed : HttpCall := { made with answered := some (exchange.client.guarded now reply).2 }
  have listed := List.mem_of_getElem? found
  have heard : Heard changed :=
    ⟨(calm.told made listed).whole, fun message same => told message (Option.some.inj same)⟩
  have counted := calm.counted
  -- What is left to show is what the circuit makes of the response.
  have calm_of {client : HttpHcmClient} (same : (exchange.client.guarded now reply).1 = client)
      (opts : client.breaker.opts = exchange.client.breaker.opts)
      (closed : client.breaker.state = .closed) (counted : 0 ≤ client.breaker.consecutiveFailures)
      (most : client.breaker.consecutiveFailures ≤
        exchange.client.breaker.consecutiveFailures + if failing made then 1 else 0) :
      (exchange.answer index made now reply).Calm := by
    subst same
    exact calm.answered found heard rfl (calm.admitted made listed) opts closed counted most
  -- A failure was counted among the failing responses, so it stays below the threshold.
  have failed {message : String}
      (same : exchange.client.guarded now reply =
        ({ breaker := exchange.client.breaker.recordFailure now }, .error (.unavailable message))) :
      (exchange.answer index made now reply).Calm := by
    obtain ⟨text, served, _⟩ := told message (congrArg Prod.snd same)
    have pending : failing made = true := by simp [failing, served, unanswered, transient]
    have once : 0 < exchange.calls.countP failing := List.countP_pos_iff.mpr ⟨made, listed, pending⟩
    have counting := exchange.client.breaker.recordFailure_of_lt now (calm.below once)
    rw [counting] at same
    refine calm_of (congrArg Prod.fst same) rfl calm.closed (Int.le_add_one counted) ?_
    rw [pending, if_pos rfl]
  cases parsed : reply.parse with
  | ok value =>
    -- A success forgets the failures before it.
    have same : (exchange.client.guarded now reply).1 =
        { breaker := exchange.client.breaker.recordSuccess } := by
      rw [HttpHcmClient.guarded, parsed]
    refine calm_of same rfl rfl le_rfl ?_
    dsimp only [CircuitBreaker.recordSuccess]
    split <;> omega
  | error thrown =>
    cases thrown with
    | other text => exact failed (by rw [HttpHcmClient.guarded, parsed])
    | hcm error =>
      cases error with
      | unavailable message => exact failed (by rw [HttpHcmClient.guarded, parsed])
      | rejection code message =>
        -- A refusal is no failure.
        have same : (exchange.client.guarded now reply).1 = exchange.client := by
          rw [HttpHcmClient.guarded, parsed]
        refine calm_of same rfl calm.closed counted ?_
        split <;> omega

/-- A request that is routed elsewhere costs nothing. -/
theorem Calm.strayed (calm : exchange.Calm) {index : Nat} {made : HttpCall}
    (found : exchange.calls[index]? = some made) (reply : HttpReply HcmAnswer) :
    Calm { exchange with
      calls := exchange.calls.set index { made with strayed := some reply } } := by
  have listed := List.mem_of_getElem? found
  have known := calm.rewritten index { made with strayed := some reply }
    (calm.admitted made listed) ⟨(calm.told made listed).whole, (calm.told made listed).failed⟩
  -- Whether a response fails does not depend on it.
  have counts := countP_rewritten found { made with strayed := some reply }
  have same : (exchange.calls.set index { made with strayed := some reply }).countP failing =
      exchange.calls.countP failing := Nat.add_right_cancel counts
  refine ⟨calm.closed, calm.counted, ?_, fun other member => (known other member).1,
    fun other member => (known other member).2⟩
  dsimp only
  rw [same]
  exact calm.budget

/-- A request that arrives fails at the cost of an injected failure. -/
theorem Calm.arrived (calm : exchange.Calm) {index : Nat} {made : HttpCall}
    (found : exchange.calls[index]? = some made) (admitted : made.admitted = true)
    (unserved : made.served = none) (now : Time) :
    Calm { exchange with
      core := (exchange.core.serve now made.call).1
      calls := exchange.calls.set index
        { made with served := some (exchange.core.serve now made.call).2 }
      log := exchange.log ++ [.served index made.call now] } := by
  let changed : HttpCall := { made with served := some (exchange.core.serve now made.call).2 }
  -- Nobody was told of a failure of a call that is served only now.
  have earlier := calm.told made (List.mem_of_getElem? found)
  have known := calm.rewritten index changed admitted ⟨earlier.whole, fun message told => by
    obtain ⟨text, served, _⟩ := earlier.failed message told
    cases unserved.symm.trans served⟩
  have counts := countP_rewritten found changed
  have quiet : failing made = false := by simp [failing, unserved]
  obtain ⟨most, costs⟩ := exchange.core.failuresLeft_serve now made.call
  have budget := calm.budget
  refine ⟨calm.closed, calm.counted, ?_, fun other member => (known other member).1,
    fun other member => (known other member).2⟩
  rw [quiet] at counts
  show exchange.client.breaker.consecutiveFailures +
    (exchange.core.serve now made.call).1.failuresLeft +
      ((exchange.calls.set index changed).countP failing : Int) <
        exchange.client.breaker.opts.failureThreshold
  -- A response that fails spends one of the injected failures, and any other none.
  cases fails : transient (exchange.core.serve now made.call).2 with
  | true =>
    have once := costs fails
    have more : (exchange.calls.set index changed).countP failing ≤
        exchange.calls.countP failing + 1 := by
      simp only [Bool.false_eq_true, if_false, Nat.add_zero] at counts
      rw [counts]
      split <;> omega
    omega
  | false =>
    have harmless : failing changed = false := by simp [failing, changed, fails]
    rw [harmless] at counts
    have same : (exchange.calls.set index changed).countP failing =
        exchange.calls.countP failing := counts
    omega

/-- Every mild step keeps the circuit closed. -/
theorem step_calm {start : HcmCore} {action : ExchangeAction} (calm : before.Calm)
    (faithful : ∀ made ∈ before.calls, Faithful start before.log made)
    (mild : before.Mild action) (taken : before.step action = some after) : after.Calm := by
  cases step_move taken with
  | calls made now admitted unserved _ whole answered =>
    -- A closed circuit lets the call through, and nothing has become of it yet.
    rw [calm.enter now] at admitted ⊢
    rw [admitted, if_pos rfl] at answered
    refine ⟨calm.closed, calm.counted, ?_, fun other member => ?_, fun other member => ?_⟩
    · simpa [List.countP_append, failing, unserved] using calm.budget
    · rcases List.mem_append.mp member with old | new
      · exact calm.admitted other old
      · exact List.mem_singleton.mp new ▸ admitted
    · rcases List.mem_append.mp member with old | new
      · exact calm.told other old
      · rw [List.mem_singleton.mp new]
        refine ⟨whole, fun message told => ?_⟩
        rw [answered] at told
        cases told
  | arrives index made now found admitted unserved =>
    exact calm.arrived found admitted unserved now
  | strays index made reply now found => exact calm.strayed found reply
  | responds index made result now found served unanswered =>
    refine calm.answer found unanswered now _ fun message failed => ?_
    -- The caller is told the outcome, a transient failure under its status.
    rw [guarded_guard] at failed
    cases result with
    | ok value => cases failed
    | error error =>
      cases error with
      | rejection => cases failed
      | unavailable text =>
        cases failed
        exact ⟨text, served, rfl⟩
  | bounces index made reply now found _ strayed unanswered =>
    refine calm.answer found unanswered now _ fun message failed => ?_
    -- The router responds with no failure.
    obtain ⟨earlier, _, replied⟩ :=
      (faithful made (List.mem_of_getElem? found)).strayed reply strayed
    have told := HcmRoute.guarded_reply replied before.client now
    rw [failed] at told
    exact absurd told (HcmRoute.told_ne_unavailable _ _ message)
  | fails index made error now => exact absurd mild id
  | loses index made reply error now => exact absurd mild id
  | controls control now =>
    have untold : ∀ body, control = .faults body → body.failuresToInject = none := by
      rintro body rfl
      exact mild
    have fewer := before.core.failuresLeft_control now untold
    have budget := calm.budget
    exact ⟨calm.closed, calm.counted, by dsimp only; omega, calm.admitted, calm.told⟩

instance (exchange : Exchange) : (action : ExchangeAction) → Decidable (exchange.Mild action)
  | .fail _ _ _ | .lose _ _ _ => instDecidableFalse
  | .control (.faults body) _ => (inferInstance : Decidable (body.failuresToInject = none))
  | .call .. | .arrive .. | .respond .. | .control .reset _ | .control (.seed ..) _
  | .control (.adjust ..) _ => instDecidableTrue

/-- In every exchange that mild steps reach the circuit is closed. -/
theorem Reachable.calm {failureThreshold cooldownMs : Option Int} {core : HcmCore}
    (few : core.failuresLeft < failureThreshold.getD 5)
    (reached : Exchange.Reachable Mild (.create failureThreshold cooldownMs) core exchange) :
    exchange.Calm := by
  -- A new client starts calm, and mild steps keep it so.
  induction reached with
  | start =>
    refine ⟨rfl, le_rfl, ?_, fun _ member => (by cases member), fun _ member => (by cases member)⟩
    show 0 + core.failuresLeft + 0 < failureThreshold.getD 5
    omega
  | step earlier mild taken calm =>
    obtain ⟨_, linear⟩ := Reachable.linear earlier
    exact step_calm calm linear.faithful mild taken

/--
A new client whose connections hold refuses no call, as long as fewer failures are injected than its
circuit stands, however the calls overlap.

Each caller is told what the same call was given in the process itself, a transient failure under
its status, and the server ends where the calls would have brought it there. A call that is routed
elsewhere is not one of them, and is told what the router responds with.
-/
theorem http_transparent {failureThreshold cooldownMs : Option Int} {core : HcmCore}
    (few : core.failuresLeft < failureThreshold.getD 5)
    (reached : Exchange.Reachable Mild (.create failureThreshold cooldownMs) core exchange) :
    ∃ results, core.replay exchange.log = (exchange.core, results) ∧
      ∀ index made, exchange.calls[index]? = some made → made.admitted = true ∧
        (made.call.route = .endpoint → ∀ answer, made.answered = some answer →
          ∃ result, (index, made.call, result) ∈ results ∧
            answer = result.mapError HcmError.overHttp) ∧
        (made.call.route ≠ .endpoint → index ∉ results.map (·.1) ∧
          ∀ answer, made.answered = some answer → ∃ earlier, earlier <+: exchange.log ∧
            made.call.route.told (core.replay earlier).1 = some answer) := by
  have calm := reached.calm few
  obtain ⟨results, linear⟩ := reached.linear
  refine ⟨results, linear.replayed, fun index made found => ?_⟩
  have listed := List.mem_of_getElem? found
  have own := linear.faithful made listed
  -- A transient failure that is told was served, and so leads to the endpoint.
  have failure (answer) (known : made.answered = some answer)
      (failed : ∃ message, answer = .error (.unavailable message)) :
      ∃ result, made.served = some result ∧ answer = result.mapError HcmError.overHttp := by
    obtain ⟨message, rfl⟩ := failed
    obtain ⟨text, served, rfl⟩ := (calm.told made listed).failed message known
    exact ⟨_, served, rfl⟩
  refine ⟨calm.admitted made listed, fun leads answer known => ?_, fun misses =>
    ⟨fun number => ?_, fun answer known => ?_⟩⟩
  · -- What a caller is told is an outcome of the replay.
    have outcome : ∃ result, made.served = some result ∧
        answer = result.mapError HcmError.overHttp := by
      cases answer with
      | ok value => exact ⟨_, own.done leads known, rfl⟩
      | error error =>
        cases error with
        | rejection code message =>
          have served := (own.heard leads known (by simp)).resolve_right fun lost => by
            cases lost.1.symm.trans (calm.told made listed).whole
          exact ⟨_, served, rfl⟩
        | unavailable message => exact failure _ known ⟨message, rfl⟩
    obtain ⟨result, served, same⟩ := outcome
    exact ⟨result, (linear.served _ _ _).mpr ⟨made, found, rfl, served⟩, same⟩
  · obtain ⟨result, served⟩ := linear.served_of_listed found number
    exact misses (own.leads result served).1
  · rcases own.told answer known with failed | served | bounced | lost
    · obtain ⟨result, served, _⟩ := failure answer known failed
      exact absurd (own.leads result served).1 misses
    · exact absurd (own.leads answer served).1 misses
    · exact bounced
    · cases lost.1.symm.trans (calm.told made listed).whole

/-- Four failures are injected, a debit is sent five times, and a read is routed to the corpus. -/
def fourFailuresRun : List ExchangeAction :=
  let debit : HcmRequest := .applyDelta ⟨"e", "l", 3, .debit, "debit:r"⟩
  [.call debit 0, .call debit 1, .arrive 1 2, .arrive 0 3, .respond 0 4, .call debit 5,
    .respond 1 6, .arrive 2 7, .call debit 8, .arrive 3 9, .respond 3 10, .respond 2 11,
    .call debit 12, .arrive 4 13, .respond 4 14, .call (.getBalance ".." "corpus") 15, .arrive 5 16,
    .respond 5 17]

/-- The fifth time it is acknowledged, by a server that was never shut off. -/
theorem http_transparent_fourFailures : ∃ core exchange results,
    Exchange.Reachable Mild (.create none none) core exchange ∧ core.failuresLeft = 4 ∧
      core.replay exchange.log = (exchange.core, results) ∧
      (exchange.calls.all (·.admitted) && exchange.calls.length == 6) = true := by
  let core : HcmCore := (HcmCore.seed { faults := { failuresToInject := 4 } } 0 "e" "l" 10).1
  have executed : (Runs.run step (fun exchange action => decide (exchange.Mild action))
      (init (.create none none) core) fourFailuresRun).map (fun exchange =>
        exchange.calls.length == 6) = some true := by decide +kernel
  obtain ⟨exchange, reached, six⟩ :=
    Runs.exists_reachable_of_run (fun _ _ mild => of_decide_eq_true mild) executed
  obtain ⟨results, replayed, told⟩ := http_transparent (by decide) reached
  refine ⟨core, exchange, results, reached, rfl, replayed, ?_⟩
  rw [six, Bool.and_true, List.all_eq_true]
  intro made member
  obtain ⟨index, found⟩ := List.getElem?_of_mem member
  exact (told index made found).1

end Exchange

end TimeOff
