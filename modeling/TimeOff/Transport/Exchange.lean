import TimeOff.Hcm.Routes
import TimeOff.Library.Runs

/-!
Overlapping calls over HTTP, each of which may be lost on its way there or on its way back.

They act on the system of record as the same calls made in its process, one after the other, but for
those that its router sends elsewhere.
-/

namespace TimeOff

/-- One call of the HTTP client, with what has become of it. -/
structure HttpCall where
  call : HcmRequest
  -- Whether the circuit let it through.
  admitted : Bool
  -- What the server made of it, once it has arrived there.
  served : Option (Except HcmError HcmAnswer) := none
  -- What the server responded with in place of that, if the call has missed its endpoint.
  strayed : Option (HttpReply HcmAnswer) := none
  -- Whether the body of its response was lost.
  cut : Bool := false
  -- What its caller was told.
  answered : Option (Except HcmError HcmAnswer) := none

/-- The response of the server, once it has one. -/
def HttpCall.reply (made : HttpCall) : Option (HttpReply HcmAnswer) :=
  (made.served.map MockHcmController.guard).or made.strayed

/-- What the server has done, in the order in which it did it. -/
inductive Happening where
  | served (index : Nat) (call : HcmRequest) (now : Time)
  | controlled (control : HcmControl) (now : Time)

/-- The client, the server, and all calls that were made. -/
structure Exchange where
  client : HttpHcmClient
  core : HcmCore
  calls : List HttpCall := []
  -- Bookkeeping for statements.
  log : List Happening := []

/-- Every step of the exchange. -/
inductive ExchangeAction where
  -- The client is called: the request is sent, or the circuit refuses it.
  | call (call : HcmRequest) (now : Time)
  -- A request arrives at the server, possibly after its caller has given up.
  | arrive (index : Nat) (now : Time)
  -- The response arrives at the client.
  | respond (index : Nat) (now : Time)
  -- The connection fails, or the timeout aborts the request.
  | fail (index : Nat) (error : String) (now : Time)
  -- The connection fails between the status of a response and the end of its body.
  | lose (index : Nat) (error : String) (now : Time)
  | control (control : HcmControl) (now : Time)

namespace Exchange

/-- Tell a caller what became of its call, with the outcome recorded by the circuit. -/
def answer (exchange : Exchange) (index : Nat) (made : HttpCall) (now : Time)
    (reply : HttpReply HcmAnswer) : Exchange :=
  let (client, result) := exchange.client.guarded now reply
  { exchange with
    client, calls := exchange.calls.set index { made with answered := some result } }

/-- One step of the exchange. -/
def step (exchange : Exchange) : ExchangeAction → Option Exchange
  | .call call now =>
    let (client, admitted) := exchange.client.enter now
    let answered := if admitted then none else some (.error HttpHcmClient.circuitOpen)
    some { exchange with client, calls := exchange.calls ++ [{ call, admitted, answered }] }
  | .arrive index now =>
    match exchange.calls[index]? with
    | some made =>
      if made.admitted && made.reply.isNone then
        match made.call.route.reply exchange.core with
        -- The request has missed its endpoint, so nothing is asked of the system of record.
        | some strayed =>
          some { exchange with
            calls := exchange.calls.set index { made with strayed := some strayed } }
        | none =>
          let (core, result) := exchange.core.serve now made.call
          some { exchange with
            core
            calls := exchange.calls.set index { made with served := some result }
            log := exchange.log ++ [.served index made.call now] }
      else none
    | none => none
  | .respond index now =>
    match exchange.calls[index]? with
    | some made =>
      match made.reply, made.answered with
      | some reply, none => some (exchange.answer index made now reply)
      | _, _ => none
    | none => none
  | .fail index error now =>
    match exchange.calls[index]? with
    | some made =>
      match made.answered with
      | none => some (exchange.answer index made now (.unreachable error))
      | some _ => none
    | none => none
  | .lose index error now =>
    match exchange.calls[index]? with
    | some made =>
      match made.reply, made.answered with
      | some reply, none =>
        some (exchange.answer index { made with cut := true } now (reply.cutShort error))
      | _, _ => none
    | none => none
  | .control control now =>
    some { exchange with
      core := exchange.core.control now control
      log := exchange.log ++ [.controlled control now] }

/-- Everything a step can do. -/
inductive Move (before : Exchange) : ExchangeAction → Exchange → Prop
  | calls (call : HttpCall) (now : Time) :
      call.admitted = (before.client.enter now).2 → call.served = none → call.strayed = none →
      call.cut = false →
      call.answered = (if call.admitted then none else some (.error HttpHcmClient.circuitOpen)) →
      Move before (.call call.call now)
        { before with client := (before.client.enter now).1, calls := before.calls ++ [call] }
  | arrives (index : Nat) (made : HttpCall) (now : Time) :
      before.calls[index]? = some made → made.admitted = true → made.served = none →
      made.strayed = none → made.call.route = .endpoint →
      Move before (.arrive index now)
        { before with
          core := (before.core.serve now made.call).1
          calls := before.calls.set index
            { made with served := some (before.core.serve now made.call).2 }
          log := before.log ++ [.served index made.call now] }
  | strays (index : Nat) (made : HttpCall) (reply : HttpReply HcmAnswer) (now : Time) :
      before.calls[index]? = some made → made.admitted = true → made.served = none →
      made.strayed = none → made.call.route.reply before.core = some reply →
      Move before (.arrive index now)
        { before with calls := before.calls.set index { made with strayed := some reply } }
  | responds (index : Nat) (made : HttpCall) (result : Except HcmError HcmAnswer) (now : Time) :
      before.calls[index]? = some made → made.served = some result → made.answered = none →
      Move before (.respond index now)
        (before.answer index made now (MockHcmController.guard result))
  | bounces (index : Nat) (made : HttpCall) (reply : HttpReply HcmAnswer) (now : Time) :
      before.calls[index]? = some made → made.served = none → made.strayed = some reply →
      made.answered = none →
      Move before (.respond index now) (before.answer index made now reply)
  | fails (index : Nat) (made : HttpCall) (error : String) (now : Time) :
      before.calls[index]? = some made → made.answered = none →
      Move before (.fail index error now) (before.answer index made now (.unreachable error))
  | loses (index : Nat) (made : HttpCall) (reply : HttpReply HcmAnswer) (error : String)
      (now : Time) :
      before.calls[index]? = some made → made.reply = some reply → made.answered = none →
      Move before (.lose index error now)
        (before.answer index { made with cut := true } now (reply.cutShort error))
  | controls (control : HcmControl) (now : Time) :
      Move before (.control control now)
        { before with
          core := before.core.control now control
          log := before.log ++ [.controlled control now] }

/-- A step is one of these moves. -/
theorem step_move {before after : Exchange} {action : ExchangeAction}
    (taken : before.step action = some after) : Move before action after := by
  -- Each action unfolds to its guards, and to the state it leaves.
  cases action with
  | call call now =>
    cases taken
    exact .calls { call, admitted := _, answered := _ } now rfl rfl rfl rfl rfl
  | arrive index now =>
    simp only [step] at taken
    split at taken
    · rename_i made found
      split at taken
      · rename_i ready
        rw [Bool.and_eq_true, Option.isNone_iff_eq_none, HttpCall.reply, Option.or_eq_none_iff,
          Option.map_eq_none_iff] at ready
        obtain ⟨admitted, unserved, unstrayed⟩ := ready
        -- The route decides whether the endpoint serves the request.
        split at taken
        · rename_i reply misses
          cases taken
          exact .strays index made reply now found admitted unserved unstrayed misses
        · rename_i leads
          cases taken
          exact .arrives index made now found admitted unserved unstrayed
            (HcmRoute.eq_endpoint_of_reply leads)
      · cases taken
    · cases taken
  | respond index now =>
    simp only [step] at taken
    split at taken
    · rename_i made found
      split at taken
      · rename_i reply sent unanswered
        cases taken
        rcases Option.or_eq_some_iff.mp sent with guarded | ⟨unserved, strayed⟩
        · obtain ⟨result, served, rfl⟩ := Option.map_eq_some_iff.mp guarded
          exact .responds index made result now found served unanswered
        · exact .bounces index made reply now found (Option.map_eq_none_iff.mp unserved) strayed
            unanswered
      · cases taken
    · cases taken
  | fail index error now =>
    simp only [step] at taken
    split at taken
    · rename_i made found
      split at taken
      · rename_i unanswered
        cases taken
        exact .fails index made error now found unanswered
      · cases taken
    · cases taken
  | lose index error now =>
    simp only [step] at taken
    split at taken
    · rename_i made found
      split at taken
      · rename_i reply sent unanswered
        cases taken
        exact .loses index made reply error now found sent unanswered
      · cases taken
    · cases taken
  | control control now =>
    cases taken
    exact .controls control now

/-- An exchange in which nothing was called yet. -/
def init (client : HttpHcmClient) (core : HcmCore) : Exchange :=
  { client, core }

/-- The exchanges that are reached from a client and a server by steps that are allowed. -/
abbrev Reachable (allowed : Exchange → ExchangeAction → Prop) (client : HttpHcmClient)
    (core : HcmCore) : Exchange → Prop :=
  Runs.Reachable step allowed (init client core)

end Exchange

/-- A call that was served, by its number, with its outcome. -/
abbrev ServedCall := Nat × HcmRequest × Except HcmError HcmAnswer

namespace HcmCore

/-- Let the server do one thing in its own process. -/
def happen (done : HcmCore × List ServedCall) : Happening → HcmCore × List ServedCall
  | .served index call now =>
    ((done.1.serve now call).1, done.2 ++ [(index, call, (done.1.serve now call).2)])
  | .controlled control now => (done.1.control now control, done.2)

/-- Do the same things in the process itself, one after the other, without a network. -/
def replay (core : HcmCore) (log : List Happening) : HcmCore × List ServedCall :=
  log.foldl happen (core, [])

/-- A replay that goes on. -/
theorem replay_concat (core : HcmCore) (log : List Happening) (happening : Happening) :
    core.replay (log ++ [happening]) = happen (core.replay log) happening := by
  rw [replay, List.foldl_append]
  rfl

end HcmCore

namespace Exchange

/-- What a caller is told whose call has missed its endpoint, after some of what the server did. -/
def Bounced (start : HcmCore) (log : List Happening) (made : HttpCall)
    (answer : Except HcmError HcmAnswer) : Prop :=
  ∃ earlier, earlier <+: log ∧ made.call.route.told (start.replay earlier).1 = some answer

/-- What a caller is told that has seen no more of a refusal than its status. -/
def Bare (made : HttpCall) (answer : Except HcmError HcmAnswer) : Prop :=
  made.cut = true ∧
    ((∃ code message, made.served = some (.error (.rejection code message))) ∧
        answer = .error (HttpHcmClient.bareRefusal 422) ∨
      (∃ url, made.call.route = .missing url) ∧ answer = .error (HttpHcmClient.bareRefusal 404))

/-- What a caller knows is true, and a call that was refused never arrives. -/
structure Faithful (start : HcmCore) (log : List Happening) (made : HttpCall) : Prop where
  told : ∀ answer, made.answered = some answer →
    (∃ message, answer = .error (.unavailable message)) ∨ made.served = some answer ∨
      Bounced start log made answer ∨ Bare made answer
  kept : made.admitted = false → made.served = none ∧ made.strayed = none ∧
    made.answered = some (.error HttpHcmClient.circuitOpen)
  -- Only an endpoint serves, and it never serves the corpus.
  leads : ∀ result, made.served = some result →
    made.call.route = .endpoint ∧ ∀ rows, result ≠ .ok (.corpus rows)
  strayed : ∀ reply, made.strayed = some reply →
    ∃ earlier, earlier <+: log ∧ made.call.route.reply (start.replay earlier).1 = some reply

/-- The calls that were served are those of the replay, each of them once. -/
structure Linear (start : HcmCore) (exchange : Exchange) (results : List ServedCall) : Prop where
  replayed : start.replay exchange.log = (exchange.core, results)
  distinct : (results.map (·.1)).Nodup
  served : ∀ index call result, (index, call, result) ∈ results ↔
    ∃ made, exchange.calls[index]? = some made ∧ made.call = call ∧ made.served = some result
  faithful : ∀ made ∈ exchange.calls, Faithful start exchange.log made

variable {start : HcmCore} {exchange before after : Exchange} {results : List ServedCall}

/-- A number that is in use finds its call in the list where it was rewritten. -/
theorem getElem?_rewritten {calls : List HttpCall} {index : Nat} {made : HttpCall}
    (found : calls[index]? = some made) (changed : HttpCall) (other : Nat) :
    (calls.set index changed)[other]? = if other = index then some changed else calls[other]? := by
  -- Setting an index that is in range is seen there and nowhere else.
  have below : index < calls.length := (List.getElem?_eq_some_iff.mp found).1
  rw [List.getElem?_set]
  by_cases same : index = other
  · subst same
    simp [below]
  · rw [if_neg same, if_neg (Ne.symm same)]

/-- What is found after a rewriting is the rewritten call, or was found before. -/
theorem rewritten_cases {calls : List HttpCall} {index other : Nat} {own changed made : HttpCall}
    (stored : calls[index]? = some own) (found : (calls.set index changed)[other]? = some made) :
    other = index ∧ changed = made ∨ calls[other]? = some made := by
  -- The number that was rewritten finds the new call, and every other one its own.
  rw [getElem?_rewritten stored] at found
  split at found
  · rename_i here
    exact Or.inl ⟨here, Option.some.inj found⟩
  · exact Or.inr found

/-- A caller that was told what the router responded with was so, whatever the server does later. -/
theorem Bounced.mono {log later : List Happening} {made : HttpCall}
    {answer : Except HcmError HcmAnswer} (bounced : Bounced start log made answer)
    (grown : log <+: later) : Bounced start later made answer := by
  obtain ⟨earlier, first, same⟩ := bounced
  exact ⟨earlier, first.trans grown, same⟩

/-- What is true of a call stays so while the server goes on. -/
theorem Faithful.mono {log later : List Happening} {made : HttpCall}
    (faithful : Faithful start log made) (grown : log <+: later) :
    Faithful start later made where
  told answer known := (faithful.told answer known).imp_right fun heard =>
    heard.imp_right fun routed => routed.imp_left fun bounced => bounced.mono grown
  kept := faithful.kept
  leads := faithful.leads
  strayed reply sent := by
    obtain ⟨earlier, first, same⟩ := faithful.strayed reply sent
    exact ⟨earlier, first.trans grown, same⟩

/-- What an endpoint tells its caller is a failure, what the call was served, or a bare refusal. -/
theorem Faithful.heard {log : List Happening} {made : HttpCall}
    (faithful : Faithful start log made) (leads : made.call.route = .endpoint)
    {answer : Except HcmError HcmAnswer} (known : made.answered = some answer)
    (certain : ∀ message, answer ≠ .error (.unavailable message)) :
    made.served = some answer ∨ made.cut = true ∧ answer = .error (HttpHcmClient.bareRefusal 422) ∧
      ∃ code message, made.served = some (.error (.rejection code message)) := by
  rcases faithful.told _ known with
    ⟨message, failed⟩ | served | ⟨_, _, bounced⟩ | ⟨cut, ⟨refused, bare⟩ | ⟨⟨url, missing⟩, _⟩⟩
  · exact absurd failed (certain message)
  · exact Or.inl served
  -- A call that leads to its endpoint does not bounce.
  · rw [leads] at bounced
    cases bounced
  · exact Or.inr ⟨cut, bare, refused⟩
  · cases leads.symm.trans missing

/-- An answer of an endpoint is the one its call was served. -/
theorem Faithful.done {log : List Happening} {made : HttpCall}
    (faithful : Faithful start log made) (leads : made.call.route = .endpoint)
    {answer : HcmAnswer} (known : made.answered = some (.ok answer)) :
    made.served = some (.ok answer) :=
  (faithful.heard leads known (by simp)).resolve_right fun ⟨_, bare, _⟩ => by cases bare

/-- A refusal of an endpoint is told of a call that was refused. -/
theorem Faithful.refused {log : List Happening} {made : HttpCall}
    (faithful : Faithful start log made) (leads : made.call.route = .endpoint)
    {code : RejectionCode} {message : String}
    (known : made.answered = some (.error (.rejection code message))) :
    ∃ own text, made.served = some (.error (.rejection own text)) := by
  rcases faithful.heard leads known (by simp) with served | ⟨_, _, refused⟩
  · exact ⟨code, message, served⟩
  · exact refused

/-- A row is told by an endpoint only. -/
theorem Faithful.row {log : List Happening} {made : HttpCall}
    (faithful : Faithful start log made) {row : HcmBalanceRow}
    (known : made.answered = some (.ok (.row row))) : made.served = some (.ok (.row row)) := by
  -- Neither a failure nor an answer of the router holds a row.
  rcases faithful.told _ known with
    ⟨_, failed⟩ | served | ⟨_, _, bounced⟩ | ⟨_, ⟨_, bare⟩ | ⟨_, bare⟩⟩
  · cases failed
  · exact served
  · exact absurd bounced (HcmRoute.told_ne_row _ _ row)
  · cases bare
  · cases bare

/-- The corpus is told only to a call that is routed to it. -/
theorem Faithful.corpus {log : List Happening} {made : HttpCall}
    (faithful : Faithful start log made) {rows : List HcmBalanceRow}
    (known : made.answered = some (.ok (.corpus rows))) : made.call.route = .corpus := by
  -- No endpoint that is called serves the corpus, so the router has told it.
  rcases faithful.told _ known with
    ⟨_, failed⟩ | served | ⟨_, _, bounced⟩ | ⟨_, ⟨_, bare⟩ | ⟨_, bare⟩⟩
  · cases failed
  · exact absurd rfl ((faithful.leads _ served).2 rows)
  · exact HcmRoute.eq_corpus_of_told bounced
  · cases bare
  · cases bare

/-- A call that has been told something, or has strayed, is served as before. -/
theorem Linear.rewritten (linear : Linear start exchange results) {index : Nat}
    {made changed : HttpCall} (found : exchange.calls[index]? = some made) (client : HttpHcmClient)
    (call : changed.call = made.call) (served : changed.served = made.served)
    (faithful : Faithful start exchange.log changed) :
    Linear start { exchange with client, calls := exchange.calls.set index changed } results where
  replayed := linear.replayed
  distinct := linear.distinct
  -- The rewritten call is listed as it was, and so are the others.
  served other named result := by
    rw [linear.served]
    simp only [getElem?_rewritten found]
    by_cases same : other = index
    · subst same
      simp [found, call, served]
    · simp [same]
  -- Only this call knows more than before, and what it knows is true.
  faithful other member := by
    rcases List.mem_or_eq_of_mem_set member with old | rfl
    · exact linear.faithful other old
    · exact faithful

/-- Telling a caller what is true keeps the exchange linear. -/
theorem Linear.answer (linear : Linear start exchange results) {index : Nat} {made : HttpCall}
    (found : exchange.calls[index]? = some made) (now : Time) (reply : HttpReply HcmAnswer)
    (faithful : Faithful start exchange.log
      { made with answered := some (exchange.client.guarded now reply).2 }) :
    Linear start (exchange.answer index made now reply) results :=
  linear.rewritten found _ rfl rfl faithful

/-- A call that is made has not been served. -/
theorem Linear.called (linear : Linear start exchange results) (client : HttpHcmClient)
    (made : HttpCall) (unserved : made.served = none)
    (faithful : Faithful start exchange.log made) :
    Linear start { exchange with client, calls := exchange.calls ++ [made] } results where
  replayed := linear.replayed
  distinct := linear.distinct
  served index call result := by
    rw [linear.served]
    -- A number is in use already, or it is that of the new call.
    by_cases old : index < exchange.calls.length
    · simp [List.getElem?_append_left old]
    · rw [List.getElem?_append_right (Nat.le_of_not_lt old),
        List.getElem?_eq_none (Nat.le_of_not_lt old)]
      constructor
      · rintro ⟨_, absent, _⟩
        cases absent
      · -- The new call cannot have been served.
        rintro ⟨other, listed, _, served⟩
        obtain rfl := List.mem_singleton.mp (List.mem_of_getElem? listed)
        cases unserved.symm.trans served
  faithful other member := by
    rcases List.mem_append.mp member with old | new
    · exact linear.faithful other old
    · obtain rfl := List.mem_singleton.mp new
      exact faithful

/-- A request that arrives is served after all that were served before it. -/
theorem Linear.arrived (linear : Linear start exchange results) {index : Nat} {made : HttpCall}
    (found : exchange.calls[index]? = some made) (admitted : made.admitted = true)
    (unserved : made.served = none) (unstrayed : made.strayed = none)
    (leads : made.call.route = .endpoint) (now : Time) :
    Linear start
      { exchange with
        core := (exchange.core.serve now made.call).1
        calls := exchange.calls.set index
          { made with served := some (exchange.core.serve now made.call).2 }
        log := exchange.log ++ [.served index made.call now] }
      (results ++ [(index, made.call, (exchange.core.serve now made.call).2)]) where
  replayed := by
    rw [HcmCore.replay_concat, linear.replayed]
    rfl
  distinct := by
    -- A number that was served before would not be unserved now.
    have absent : index ∉ results.map (·.1) := by
      intro listed
      obtain ⟨⟨other, call, result⟩, member, rfl⟩ := List.mem_map.mp listed
      obtain ⟨again, same, _, served⟩ := (linear.served other call result).mp member
      cases found.symm.trans same
      cases unserved.symm.trans served
    rw [List.map_append, List.nodup_append]
    refine ⟨linear.distinct, List.nodup_singleton _, ?_⟩
    rintro one listed two new rfl
    rw [List.map_singleton, List.mem_singleton] at new
    have same : one = index := new
    exact absent (same ▸ listed)
  served other call result := by
    simp only [List.mem_append, List.mem_singleton, getElem?_rewritten found, linear.served]
    -- The new outcome is that of the number that arrives.
    by_cases same : other = index
    · subst same
      simp only [found, Option.some.injEq, exists_eq_left', unserved, reduceCtorEq, and_false,
        false_or, Prod.mk.injEq, true_and, if_true]
      exact and_congr eq_comm eq_comm
    · simp [same]
  faithful other member := by
    have grown := List.prefix_append exchange.log [.served index made.call now]
    rcases List.mem_or_eq_of_mem_set member with old | rfl
    · exact (linear.faithful other old).mono grown
    · have own := linear.faithful made (List.mem_of_getElem? found)
      -- Whoever knows more than a failure was served before, and a refused call never arrives.
      refine ⟨fun answer known => ?_, fun refused => ?_, fun result served => ?_,
        fun reply sent => ?_⟩
      · rcases own.told answer known with
          failed | served | ⟨_, _, bounced⟩ | ⟨_, ⟨⟨_, _, served⟩, _⟩ | ⟨⟨_, missing⟩, _⟩⟩
        · exact Or.inl failed
        · cases unserved.symm.trans served
        · rw [leads] at bounced
          cases bounced
        · cases unserved.symm.trans served
        · cases leads.symm.trans missing
      · cases admitted.symm.trans refused
      · cases served
        exact ⟨leads, exchange.core.serve_ne_corpus now made.call⟩
      · cases unstrayed.symm.trans sent

/-- What the client is told of an outcome that reaches it. -/
theorem guarded_guard (client : HttpHcmClient) (now : Time)
    (result : Except HcmError HcmAnswer) :
    (client.guarded now (MockHcmController.guard result)).2 =
      result.mapError HcmError.overHttp := by
  -- The guard of the server and the parser of the client cancel out.
  rw [HttpHcmClient.guarded, parse_guard]
  cases result with
  | ok value => rfl
  | error error => cases error <;> rfl

/-- A call that was just made knows nothing, or that it was refused. -/
theorem faithful_new {log : List Happening} {made : HttpCall} (unserved : made.served = none)
    (unstrayed : made.strayed = none)
    (answered : made.answered =
      if made.admitted then none else some (.error HttpHcmClient.circuitOpen)) :
    Faithful start log made := by
  refine ⟨fun answer known => ?_, fun refused => ?_, fun result served => ?_, fun reply sent => ?_⟩
  · -- A call that was let through knows nothing, and any other the error of the open circuit.
    rw [answered] at known
    split at known
    · cases known
    · exact Or.inl ⟨_, (Option.some.inj known).symm⟩
  · rw [refused, if_neg Bool.false_ne_true] at answered
    exact ⟨unserved, unstrayed, answered⟩
  · cases unserved.symm.trans served
  · cases unstrayed.symm.trans sent

/-- Telling a caller something that is true leaves the rest of its call. -/
theorem Faithful.answer {log : List Happening} {made : HttpCall}
    (faithful : Faithful start log made) (unanswered : made.answered = none)
    {answer : Except HcmError HcmAnswer}
    (true_ : (∃ message, answer = .error (.unavailable message)) ∨ made.served = some answer ∨
      Bounced start log made answer ∨ Bare made answer) :
    Faithful start log { made with answered := some answer } where
  told known same := Option.some.inj same ▸ true_
  kept refused := by
    -- A call that was refused has been told so.
    cases unanswered.symm.trans (faithful.kept refused).2.2
  leads := faithful.leads
  strayed := faithful.strayed

/-- Losing the body of a response says nothing of the call as long as its caller is not told. -/
theorem Faithful.losing {log : List Happening} {made : HttpCall}
    (faithful : Faithful start log made) (unanswered : made.answered = none) :
    Faithful start log { made with cut := true } where
  told answer known := by cases unanswered.symm.trans known
  kept := faithful.kept
  leads := faithful.leads
  strayed := faithful.strayed

/-- Without the body of a response its caller is told a failure, or a refusal by its status. -/
theorem Faithful.lost {log : List Happening} {made : HttpCall}
    (faithful : Faithful start log made) (unanswered : made.answered = none)
    {reply : HttpReply HcmAnswer} (sent : made.reply = some reply) (client : HttpHcmClient)
    (now : Time) (error : String) :
    Faithful start log { made with
      cut := true, answered := some (client.guarded now (reply.cutShort error)).2 } := by
  refine (faithful.losing unanswered).answer unanswered ?_
  -- The response is that of the endpoint to an outcome, or that of the router.
  rcases Option.or_eq_some_iff.mp sent with guarded | ⟨_, strayed⟩
  · obtain ⟨result, served, rfl⟩ := Option.map_eq_some_iff.mp guarded
    cases result with
    | ok value => exact Or.inl ⟨error, rfl⟩
    | error thrown =>
      cases thrown with
      | rejection code message =>
        exact Or.inr (Or.inr (Or.inr ⟨rfl, Or.inl ⟨⟨code, message, served⟩, rfl⟩⟩))
      | unavailable message => exact Or.inl ⟨_, rfl⟩
  · obtain ⟨earlier, _, replied⟩ := faithful.strayed reply strayed
    cases leads : made.call.route with
    | endpoint =>
      rw [leads] at replied
      cases replied
    | corpus =>
      rw [leads] at replied
      cases replied
      exact Or.inl ⟨error, rfl⟩
    | missing url =>
      rw [leads] at replied
      cases replied
      exact Or.inr (Or.inr (Or.inr ⟨rfl, Or.inr ⟨⟨url, leads⟩, rfl⟩⟩))

/-- A request that is routed elsewhere is responded to as it would be after all so far. -/
theorem Faithful.stray {log : List Happening} {made : HttpCall}
    (faithful : Faithful start log made) (admitted : made.admitted = true)
    {reply : HttpReply HcmAnswer}
    (misses : made.call.route.reply (start.replay log).1 = some reply) :
    Faithful start log { made with strayed := some reply } where
  told := faithful.told
  -- A refused call never arrives.
  kept refused := by cases admitted.symm.trans refused
  leads := faithful.leads
  strayed _ sent := ⟨log, List.prefix_rfl, misses.trans sent⟩

/-- Every step keeps the exchange linear. -/
theorem step_linear {action : ExchangeAction} (linear : Linear start before results)
    (taken : before.step action = some after) : ∃ more, Linear start after more := by
  cases step_move taken with
  | calls made now _ unserved unstrayed _ answered =>
    exact ⟨results, linear.called _ made unserved (faithful_new unserved unstrayed answered)⟩
  | arrives index made now found admitted unserved unstrayed leads =>
    exact ⟨_, linear.arrived found admitted unserved unstrayed leads now⟩
  | strays index made reply now found admitted _ _ misses =>
    -- The response is that of the router to what the server has done so far.
    have own := linear.faithful made (List.mem_of_getElem? found)
    have sofar : (start.replay before.log).1 = before.core := congrArg Prod.fst linear.replayed
    rw [← sofar] at misses
    exact ⟨results, linear.rewritten found before.client rfl rfl (own.stray admitted misses)⟩
  | responds index made result now found served unanswered =>
    -- An answer and a refusal come through as they are.
    have own := linear.faithful made (List.mem_of_getElem? found)
    refine ⟨results, linear.answer found now _ (own.answer unanswered ?_)⟩
    rw [guarded_guard]
    cases result with
    | ok value => exact Or.inr (Or.inl served)
    | error error =>
      cases error with
      | rejection => exact Or.inr (Or.inl served)
      | unavailable message => exact Or.inl ⟨_, rfl⟩
  | bounces index made reply now found _ strayed unanswered =>
    -- The client reads the response of the router as it stands.
    have own := linear.faithful made (List.mem_of_getElem? found)
    obtain ⟨earlier, first, replied⟩ := own.strayed reply strayed
    exact ⟨results, linear.answer found now _ (own.answer unanswered
      (Or.inr (Or.inr (Or.inl
        ⟨earlier, first, HcmRoute.guarded_reply replied before.client now⟩))))⟩
  | fails index made error now found unanswered =>
    -- The caller is told of a failure of the connection, which the server knows nothing of.
    have own := linear.faithful made (List.mem_of_getElem? found)
    exact ⟨results, linear.answer found now _ (own.answer unanswered (Or.inl ⟨_, rfl⟩))⟩
  | loses index made reply error now found sent unanswered =>
    -- The call has lost the body of its response, and its caller is told so much.
    have own := linear.faithful made (List.mem_of_getElem? found)
    exact ⟨results, linear.rewritten found _ rfl rfl (own.lost unanswered sent _ now error)⟩
  | controls control now =>
    -- The control surface is no call, so nothing is served.
    refine ⟨results, ?_, linear.distinct, linear.served, fun made member => ?_⟩
    · rw [HcmCore.replay_concat, linear.replayed]
      rfl
    · exact (linear.faithful made member).mono (List.prefix_append _ _)

/-- Every exchange that is reached is linear. -/
theorem Reachable.linear {allowed : Exchange → ExchangeAction → Prop} {client : HttpHcmClient}
    {core : HcmCore} (reached : Exchange.Reachable allowed client core exchange) :
    ∃ results, Linear core exchange results := by
  -- Nothing is called at first, and each step keeps the exchange linear.
  induction reached with
  | start =>
    exact ⟨[], rfl, List.nodup_nil, fun _ _ _ => by simp [init], fun _ member => nomatch member⟩
  | step _ _ taken ih =>
    obtain ⟨results, linear⟩ := ih
    exact step_linear linear taken

/-- A number that is listed is that of a call that was served. -/
theorem Linear.served_of_listed (linear : Linear start exchange results) {index : Nat}
    {made : HttpCall} (found : exchange.calls[index]? = some made)
    (listed : index ∈ results.map (·.1)) : ∃ result, made.served = some result := by
  -- The listed result is that of a call with this number, and it is the only one.
  obtain ⟨⟨_, call, result⟩, member, rfl⟩ := List.mem_map.mp listed
  obtain ⟨again, same, _, served⟩ := (linear.served _ _ _).mp member
  cases found.symm.trans same
  exact ⟨result, served⟩

/--
Whatever the network does to overlapping calls, the server is where the calls that arrived would
have brought it in its own process, one after the other, and none of them arrived twice.

An answer or a refusal that a caller is told is the one its call was given there, a refusal whose
body is lost by its status alone, and a call that the circuit refused is never served. Nor is a
call that is routed elsewhere: it is told what the router responds with, after some of what the
server did.
-/
theorem http_linearises {client : HttpHcmClient} {core : HcmCore}
    (reached : Exchange.Reachable (fun _ _ => True) client core exchange) :
    ∃ results, core.replay exchange.log = (exchange.core, results) ∧
      (results.map (·.1)).Nodup ∧
      (∀ index call result, (index, call, result) ∈ results ↔
        ∃ made, exchange.calls[index]? = some made ∧ made.call = call ∧
          made.served = some result) ∧
      ∀ index made, exchange.calls[index]? = some made →
        (made.call.route = .endpoint →
          (∀ answer, made.answered = some (.ok answer) →
            (index, made.call, .ok answer) ∈ results) ∧
          ∀ code message, made.answered = some (.error (.rejection code message)) →
            (index, made.call, .error (.rejection code message)) ∈ results ∨
              made.cut = true ∧ HcmError.rejection code message = HttpHcmClient.bareRefusal 422 ∧
                ∃ own text, (index, made.call, .error (.rejection own text)) ∈ results) ∧
        (made.call.route ≠ .endpoint → index ∉ results.map (·.1) ∧
          ∀ answer, made.answered = some answer →
            (∃ message, answer = .error (.unavailable message)) ∨
              (∃ earlier, earlier <+: exchange.log ∧
                made.call.route.told (core.replay earlier).1 = some answer) ∨
              made.cut = true ∧ answer = .error (HttpHcmClient.bareRefusal 404)) ∧
        (made.admitted = false → index ∉ results.map (·.1)) := by
  obtain ⟨results, linear⟩ := reached.linear
  refine ⟨results, linear.replayed, linear.distinct, linear.served, fun index made found => ?_⟩
  -- What a caller knows is what the replay lists for its number.
  have own := linear.faithful made (List.mem_of_getElem? found)
  refine ⟨fun leads => ⟨fun answer known => ?_, fun code message known => ?_⟩,
    fun misses => ⟨fun listed => ?_, fun answer known => ?_⟩, fun refused listed => ?_⟩
  · exact (linear.served _ _ _).mpr ⟨made, found, rfl, own.done leads known⟩
  · -- A refusal whose body was lost is that of another text.
    rcases own.heard leads known (by simp) with served | ⟨cut, bare, code, message, served⟩
    · exact Or.inl ((linear.served _ _ _).mpr ⟨made, found, rfl, served⟩)
    · exact Or.inr ⟨cut, Except.error.inj bare, code, message,
        (linear.served _ _ _).mpr ⟨made, found, rfl, served⟩⟩
  · obtain ⟨result, served⟩ := linear.served_of_listed found listed
    exact misses (own.leads result served).1
  · rcases own.told answer known with
      failed | served | bounced | ⟨cut, ⟨⟨_, _, served⟩, _⟩ | ⟨_, bare⟩⟩
    · exact Or.inl failed
    · exact absurd (own.leads answer served).1 misses
    · exact Or.inr (Or.inl bounced)
    · exact absurd (own.leads _ served).1 misses
    · exact Or.inr (Or.inr ⟨cut, bare⟩)
  · obtain ⟨result, served⟩ := linear.served_of_listed found listed
    cases served.symm.trans (own.kept refused).1

/-- Taking a list of steps in an exchange in which nothing was called yet. -/
def run (client : HttpHcmClient) (core : HcmCore) (actions : List ExchangeAction) :
    Option Exchange :=
  Runs.run step (fun _ _ => true) (init client core) actions

/--
A debit times out, is sent again, and arrives the first time after the second. A read of an empty
employee ends in a 404, and the refusal of another debit loses its body.
-/
def retriedRun : List ExchangeAction :=
  [.control (.seed "e" "l" 10) 0, .call (.applyDelta ⟨"e", "l", 3, .debit, "debit:r"⟩) 0,
    .fail 0 "AbortError" 3000, .call (.applyDelta ⟨"e", "l", 3, .debit, "debit:r"⟩) 3200,
    .arrive 1 3201, .respond 1 3202, .arrive 0 4000, .call (.getBalance "" "l") 5000,
    .arrive 2 5001, .respond 2 5002, .call (.applyDelta ⟨"n", "l", 3, .debit, "debit:s"⟩) 6000,
    .arrive 3 6001, .lose 3 "terminated" 6002]

/-- After that run all debits were served and the read was not, and the days were taken once. -/
theorem http_linearises_retried : ∃ exchange results,
    Exchange.Reachable (fun _ _ => True) (.create none none) {} exchange ∧
      HcmCore.replay {} exchange.log = (exchange.core, results) ∧
      (results.map (·.1)).Nodup ∧ exchange.log.length = 4 ∧
      (exchange.calls.map (·.cut)) = [false, false, false, true] ∧
      (exchange.core.balances.find (key "e" "l")).map (·.balance) = some 7 := by
  -- The run is executed, with the read that is routed elsewhere among its calls.
  have executed : (run (.create none none) {} retriedRun).map (fun exchange =>
      decide (exchange.log.length = 4) &&
        decide ((exchange.calls.map (·.cut)) = [false, false, false, true]) &&
        decide ((exchange.core.balances.find (key "e" "l")).map (·.balance) = some 7)) =
          some true := by decide +kernel
  obtain ⟨exchange, reached, ended⟩ :=
    Runs.exists_reachable_of_run (fun _ _ _ => trivial) executed
  simp only [Bool.and_eq_true, decide_eq_true_eq] at ended
  obtain ⟨results, replayed, distinct, _⟩ := http_linearises reached
  exact ⟨exchange, results, reached, replayed, distinct, ended.1.1, ended.1.2, ended.2⟩

end Exchange

end TimeOff
