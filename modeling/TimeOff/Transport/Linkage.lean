import TimeOff.Account.Effects
import TimeOff.Propagation.Coupling
import TimeOff.Transport.Deployment

/-! What the service knows of its deliveries fits what the server remembers of them. -/

namespace TimeOff

namespace Exchange

/-- What a step does to the calls and to the server. -/
inductive Effect (before : Exchange) (action : ExchangeAction) (after : Exchange) : Prop
  | calls (made : HttpCall) (now : Time) :
      action = .call made.call now → made.served = none →
      after.calls = before.calls ++ [made] → after.core = before.core → after.log = before.log →
      Effect before action after
  | serves (index : Nat) (made : HttpCall) (now : Time) :
      before.calls[index]? = some made → made.served = none →
      after.calls = before.calls.set index
        { made with served := some (before.core.serve now made.call).2 } →
      after.core = (before.core.serve now made.call).1 →
      after.log = before.log ++ [.served index made.call now] → Effect before action after
  -- A caller is told something, or a request is routed elsewhere.
  | rewrites (index : Nat) (made changed : HttpCall) :
      before.calls[index]? = some made → changed.call = made.call →
      changed.served = made.served →
      (made.answered = none ∧ changed.answered.isSome ∨ changed.answered = made.answered) →
      after.calls = before.calls.set index changed →
      after.core = before.core → after.log = before.log → Effect before action after
  | controls (control : HcmControl) (now : Time) :
      action = .control control now → after.calls = before.calls →
      after.core = before.core.control now control →
      after.log = before.log ++ [.controlled control now] → Effect before action after

variable {before after exchange : Exchange} {action : ExchangeAction}

/-- A step is one of these effects. -/
theorem step_effect (taken : before.step action = some after) : Effect before action after := by
  -- Responses and failures differ in what is told only, and a stray request in what is known of it.
  cases step_move taken with
  | calls made now _ unserved => exact .calls made now rfl unserved rfl rfl rfl
  | arrives index made now found _ unserved =>
    exact .serves index made now found unserved rfl rfl rfl
  | strays index made reply now found =>
    exact .rewrites index made { made with strayed := some reply } found rfl rfl (Or.inr rfl) rfl
      rfl rfl
  | responds index made _ now found _ unanswered | bounces index made _ now found _ _ unanswered
  | fails index made _ now found unanswered =>
    exact .rewrites index made { made with answered := some _ } found rfl rfl
      (Or.inl ⟨unanswered, rfl⟩) rfl rfl rfl
  | loses index made _ _ now found _ unanswered =>
    exact .rewrites index made { made with cut := true, answered := some _ } found rfl rfl
      (Or.inl ⟨unanswered, rfl⟩) rfl rfl rfl
  | controls control now => exact .controls control now rfl rfl rfl rfl

/-- A call that is made comes after all that were made before it. -/
theorem called {call : HcmRequest} {now : Time}
    (taken : before.step (.call call now) = some after) :
    ∃ made, after.calls = before.calls ++ [made] ∧ made.call = call := by
  cases step_move taken with
  | calls made => exact ⟨made, rfl, rfl⟩

/-- Rewriting a call in place keeps what each number calls. -/
theorem call_set {calls : List HttpCall} {index other : Nat} {made changed kept : HttpCall}
    (found : calls[index]? = some made) (same : changed.call = made.call)
    (stored : calls[other]? = some kept) :
    ∃ later, (calls.set index changed)[other]? = some later ∧ later.call = kept.call := by
  rw [getElem?_rewritten found]
  -- Only the rewritten number can have changed, and its request is the same.
  by_cases own : other = index
  · subst own
    cases found.symm.trans stored
    exact ⟨changed, if_pos rfl, same⟩
  · exact ⟨kept, (if_neg own).trans stored, rfl⟩

/-- Every call keeps its number and its request. -/
theorem call_kept (taken : before.step action = some after) {index : Nat} {made : HttpCall}
    (found : before.calls[index]? = some made) :
    ∃ later, after.calls[index]? = some later ∧ later.call = made.call := by
  -- Calls are appended or rewritten in place, and never removed.
  cases step_effect taken with
  | calls new _ _ _ grown =>
    refine ⟨made, ?_, rfl⟩
    rw [grown, List.getElem?_append_left (List.getElem?_eq_some_iff.mp found).1, found]
  | serves _ _ _ own _ rewritten =>
    rw [rewritten]
    exact call_set own rfl found
  | rewrites _ _ _ own same _ _ rewritten =>
    rw [rewritten]
    exact call_set own same found
  | controls _ _ _ same => exact ⟨made, same ▸ found, rfl⟩

/-- What is called after a step was called before, or is what the step calls. -/
theorem call_of_step (taken : before.step action = some after) {made : HttpCall}
    (member : made ∈ after.calls) :
    (∃ old ∈ before.calls, old.call = made.call) ∨ ∃ now, action = .call made.call now := by
  -- A rewritten call was there before, with the same request.
  cases step_effect taken with
  | calls new now called _ grown =>
    rw [grown] at member
    rcases List.mem_append.mp member with old | last
    · exact Or.inl ⟨made, old, rfl⟩
    · exact Or.inr ⟨now, List.mem_singleton.mp last ▸ called⟩
  | serves _ old _ own _ rewritten =>
    rw [rewritten] at member
    rcases List.mem_or_eq_of_mem_set member with kept | rfl
    · exact Or.inl ⟨made, kept, rfl⟩
    · exact Or.inl ⟨old, List.mem_of_getElem? own, rfl⟩
  | rewrites _ old _ own same _ _ rewritten =>
    rw [rewritten] at member
    rcases List.mem_or_eq_of_mem_set member with kept | rfl
    · exact Or.inl ⟨made, kept, rfl⟩
    · exact Or.inl ⟨old, List.mem_of_getElem? own, same.symm⟩
  | controls _ _ _ same => exact Or.inl ⟨made, same ▸ member, rfl⟩

/-- What was served after a step was served before, or is served by the step. -/
theorem served_of_step (taken : before.step action = some after) {index : Nat} {made : HttpCall}
    {result : Except HcmError HcmAnswer} (found : after.calls[index]? = some made)
    (served : made.served = some result) :
    ∃ old, before.calls[index]? = some old ∧ old.call = made.call ∧
      (old.answered = none ∨ old.answered = made.answered) ∧
      (old.served = some result ∨
        old.served = none ∧ ∃ now, before.core.serve now old.call = (after.core, result)) := by
  -- A call that the step does not rewrite was served before.
  have unchanged (same : before.calls[index]? = some made) :
      ∃ old, before.calls[index]? = some old ∧ old.call = made.call ∧
        (old.answered = none ∨ old.answered = made.answered) ∧
        (old.served = some result ∨
          old.served = none ∧ ∃ now, before.core.serve now old.call = (after.core, result)) :=
    ⟨made, same, rfl, Or.inr rfl, Or.inl served⟩
  cases step_effect taken with
  | calls new _ _ unserved grown =>
    rw [grown] at found
    -- The call that is made now is not served yet.
    by_cases old : index < before.calls.length
    · exact unchanged (List.getElem?_append_left old ▸ found)
    · rw [List.getElem?_append_right (Nat.le_of_not_lt old)] at found
      have last := List.mem_singleton.mp (List.mem_of_getElem? found)
      rw [last, unserved] at served
      cases served
  | serves number own now stored unserved rewritten core =>
    rcases rewritten_cases stored (rewritten ▸ found) with ⟨rfl, rfl⟩ | same
    · have answered : (before.core.serve now own.call).2 = result := Option.some.inj served
      exact ⟨own, stored, rfl, Or.inr rfl,
        Or.inr ⟨unserved, now, Prod.ext core.symm answered⟩⟩
    · exact unchanged same
  | rewrites number own _ stored same unserved told rewritten =>
    rcases rewritten_cases stored (rewritten ▸ found) with ⟨rfl, rfl⟩ | other
    · exact ⟨own, stored, same.symm, told.imp And.left Eq.symm,
        Or.inl (unserved.symm.trans served)⟩
    · exact unchanged other
  | controls _ _ _ same => exact unchanged (same ▸ found)

/-- What was served stays served. -/
theorem served_kept (taken : before.step action = some after) {index : Nat} {made : HttpCall}
    {result : Except HcmError HcmAnswer} (found : before.calls[index]? = some made)
    (served : made.served = some result) :
    ∃ later, after.calls[index]? = some later ∧ later.call = made.call ∧
      later.served = some result := by
  cases step_effect taken with
  | calls new _ _ _ grown =>
    refine ⟨made, ?_, rfl, served⟩
    rw [grown, List.getElem?_append_left (List.getElem?_eq_some_iff.mp found).1, found]
  | serves number own _ stored unserved rewritten =>
    refine ⟨made, ?_, rfl, served⟩
    rw [rewritten, getElem?_rewritten stored, if_neg, found]
    -- A call that has been served is not served again.
    rintro rfl
    cases found.symm.trans stored
    cases unserved.symm.trans served
  | rewrites number own _ stored same unserved _ rewritten =>
    rw [rewritten, getElem?_rewritten stored]
    split
    · rename_i here
      subst here
      cases found.symm.trans stored
      exact ⟨_, rfl, same, unserved.trans served⟩
    · exact ⟨made, found, rfl, served⟩
  | controls _ _ _ same => exact ⟨made, same ▸ found, rfl, served⟩

/-- Whatever the server was asked was called. -/
def Logged (exchange : Exchange) : Prop :=
  ∀ index call now, Happening.served index call now ∈ exchange.log →
    ∃ made ∈ exchange.calls, made.call = call

/-- Every step keeps the log one of calls. -/
theorem step_logged (logged : before.Logged) (taken : before.step action = some after) :
    after.Logged := by
  intro index call now member
  -- What was called before is still called, under its number.
  have earlier (old : Happening.served index call now ∈ before.log) :
      ∃ made ∈ after.calls, made.call = call := by
    obtain ⟨made, listed, rfl⟩ := logged index call now old
    obtain ⟨number, found⟩ := List.getElem?_of_mem listed
    obtain ⟨later, kept, same⟩ := call_kept taken found
    exact ⟨later, List.mem_of_getElem? kept, same⟩
  cases step_effect taken with
  | calls _ _ _ _ _ _ same => exact earlier (same ▸ member)
  | rewrites _ _ _ _ _ _ _ _ _ same => exact earlier (same ▸ member)
  | controls _ _ _ _ _ grown =>
    rw [grown] at member
    rcases List.mem_append.mp member with old | new
    · exact earlier old
    · cases List.mem_singleton.mp new
  | serves number made at_ found _ _ _ grown =>
    rw [grown] at member
    rcases List.mem_append.mp member with old | new
    · exact earlier old
    · cases List.mem_singleton.mp new
      -- The request that is served is that of a call.
      obtain ⟨later, kept, again⟩ := call_kept taken found
      exact ⟨later, List.mem_of_getElem? kept, again⟩

end Exchange

/-- Whether a message of a type may have been handed to the client. -/
def Progress.Handed (progress : Progress) (type : OutboxType) : Prop :=
  progress.sent type ∨ type = .debit ∧ progress = .failed

/-- What was handed to the client stays so, whatever comes of it. -/
theorem Progress.handed_of_next {progress target : Progress} {event : Event} {type : OutboxType}
    (moves : progress.next event = some target) (handed : progress.Handed type) :
    target.Handed type := by
  rcases handed with sent | ⟨rfl, rfl⟩
  · rcases sent_of_next moves sent with still | ⟨rfl, delivering⟩
    · exact Or.inl still
    · -- A refused message was handed over before.
      cases steps_of_next moves with
      | fail =>
        cases delivering
        exact Or.inr ⟨rfl, rfl⟩
      | refuseAbandoned =>
        cases delivering
        exact Or.inl trivial
      | refuseCredit version absorbed =>
        cases delivering
        exact Or.inl (by simp [Progress.sent])
  · cases steps_of_next moves with
    | absorb _ snapshot => exact Or.inr ⟨rfl, rfl⟩

namespace Service

variable {before after service : Service} {action : ServiceAction} {msg : OutboxMessage}

/-- A message that was handed to the client for a stored request. -/
structure Handed (service : Service) (msg : OutboxMessage) : Prop where
  owned : ∃ request, service.store.requests.find msg.requestId = some request ∧
    msg.OwnedBy request.terms
  handed : ∀ progress, (service.store.dossier msg.requestId).Shows progress →
    progress.Handed msg.type

/-- A message that was handed over stays so. -/
theorem Handed.step (handed : before.Handed msg) (coherent : before.Coherent)
    (taken : before.step action = some after) : after.Handed msg where
  owned := by
    obtain ⟨request, found, own⟩ := handed.owned
    obtain ⟨moved, again, terms⟩ := step_terms coherent taken found
    exact ⟨moved, again, terms ▸ own⟩
  handed target reached := by
    -- The progress after the step was shown before, or comes from one that was.
    rcases shown_or_heard coherent taken reached with
      shown | ⟨progress, event, shown, _, moves⟩
    · exact handed.handed target shown
    · exact Progress.handed_of_next moves (handed.handed progress shown)

/-- A message in the memory of the processor may be handed to the client. -/
theorem Coherent.handed (coherent : service.Coherent) (held : msg ∈ service.processor.held) :
    service.Handed msg where
  owned := by
    -- The request is stored as long as its message is held.
    obtain ⟨_, shown⟩ := coherent.shown msg.requestId
    obtain ⟨_, request, found, _, own⟩ := coherent.of_held held shown
    exact ⟨request, found, own⟩
  handed _ shown := Or.inl (Progress.sent_of_delivering (coherent.of_held held shown).1)

/-- While a delivery is awaited, the processor waits. -/
theorem processor_kept (coherent : before.Coherent) (taken : before.step action = some after)
    {rest : List OutboxMessage} (due : before.processor.due = msg :: rest)
    (idle : before.processor.attempted = none) (unheard : ∀ result, action ≠ .answer result)
    (running : action ≠ .crash) : after.processor = before.processor := by
  -- Of the steps that change the memory of the processor, each needs an answer or an outcome.
  cases step_queue taken with
  | kept _ _ same | enqueued _ _ _ _ _ _ same | stopped _ _ _ _ _ same => exact same
  | claimed now _ resting =>
    -- A drain that has claimed something keeps the next one out.
    have nothing := coherent.idle resting
    simp [OutboxProcessor.held, due] at nothing
  | heard _ _ result answered => exact absurd answered (unheard result)
  | recorded _ _ _ _ _ _ attempted | caught _ _ _ _ attempted | escaped _ _ _ _ attempted =>
    cases idle.symm.trans attempted
  | crashed stopped => exact absurd stopped running

end Service

/-- What the server has acknowledged of a request that has come so far. -/
structure HcmCore.Settled (core : HcmCore) (id : String) (progress : Progress) : Prop where
  debited : ∀ version, progress.debitVersion = some version →
    ∃ ack, core.Acknowledged (debitKey id) ack ∧ ack.version = version
  credited : ∀ version absorbed, progress = .refunded version absorbed →
    ∃ ack, core.Acknowledged (creditKey id) ack

namespace HcmCore

variable {core after : HcmCore} {id : String} {progress target : Progress} {event : Event}

/-- What was acknowledged stays so. -/
theorem Settled.mono (settled : core.Settled id progress)
    (kept : ∀ K ack, core.Acknowledged K ack → after.Acknowledged K ack) :
    after.Settled id progress where
  debited version stamped := by
    -- The acknowledgement carries over, with its version.
    obtain ⟨ack, known, same⟩ := settled.debited version stamped
    exact ⟨ack, kept _ ack known, same⟩
  credited version absorbed refunded := by
    obtain ⟨ack, known⟩ := settled.credited version absorbed refunded
    exact ⟨ack, kept _ ack known⟩

/-- A request that hears the truth about its deliveries stays settled. -/
theorem Settled.next (settled : core.Settled id progress)
    (moves : progress.next event = some target)
    (sound : ∀ version, event = .acknowledged version → ∀ type, progress.delivering = some type →
      ∃ ack, core.Acknowledged (type.key id) ack ∧ ack.version = version) :
    core.Settled id target where
  debited version stamped := by
    -- A version is written with the acknowledgement of the debit, and kept from then on.
    rcases Progress.debitVersion_of_next moves stamped with earlier | ⟨rfl, delivering⟩
    · exact settled.debited version earlier
    · exact sound version rfl .debit delivering
  credited version absorbed refunded := by
    -- A refund is written with the acknowledgement of the credit.
    rcases Progress.refunded_of_next moves refunded with earlier | ⟨⟨credited, rfl⟩, delivering⟩
    · exact settled.credited version absorbed earlier
    · obtain ⟨ack, known, _⟩ := sound credited rfl .credit delivering
      exact ⟨ack, known⟩

/-- A credit is handed over only for a request whose debit was acknowledged. -/
theorem Settled.debit_of_credit (settled : core.Settled id progress)
    (handed : progress.Handed .credit) : ∃ ack, core.Acknowledged (debitKey id) ack := by
  -- A credit is handed over while its request is being cancelled after a commit.
  have stamped : ∃ version, progress.debitVersion = some version := by
    rcases handed with sent | ⟨other, _⟩
    · cases progress with
      | cancelling version _ _ | refunded version _ => exact ⟨version, rfl⟩
      | _ => cases sent
    · cases other
  obtain ⟨version, stamped⟩ := stamped
  obtain ⟨ack, known, _⟩ := settled.debited version stamped
  exact ⟨ack, known⟩

end HcmCore

namespace Exchange

variable {before after exchange : Exchange} {action : ExchangeAction}

/-- Without a reset, what the server has acknowledged stays so. -/
theorem acknowledged_step (kept : before.WithoutReset action)
    (taken : before.step action = some after) {K : String} {ack : ApplyDeltaAck}
    (acknowledged : before.core.Acknowledged K ack) : after.core.Acknowledged K ack := by
  -- Only requests and controls reach the server, and both are calls that forget nothing.
  cases step_effect taken with
  | calls _ _ _ _ _ same | rewrites _ _ _ _ _ _ _ _ same => rwa [same]
  | serves _ made now _ _ _ served =>
    rw [served, HcmCore.serve_asCall]
    exact acknowledged.step _
  | controls control now named _ controlled =>
    subst named
    have called : control.asCall now ≠ none := by
      cases control with
      | reset => exact absurd kept id
      | faults | seed | adjust => exact Option.some_ne_none _
    obtain ⟨made, asked⟩ := Option.ne_none_iff_exists'.mp called
    rw [controlled, before.core.control_asCall asked]
    exact acknowledged.step made

end Exchange

namespace Deployment

/-- Everything the server was asked, call by call, with the state it was asked in. -/
def account (deployment : Deployment) : List (HcmCore × HcmCall) :=
  HcmCore.history {} (deployment.exchange.log.filterMap Happening.asCall)

/-- The call that the processor awaits delivers the first message that is left. -/
def Awaiting (deployment : Deployment) : Prop :=
  ∀ index, deployment.awaited = some index → ∃ msg rest made,
    deployment.service.processor.due = msg :: rest ∧
      deployment.service.processor.attempted = none ∧
      deployment.exchange.calls[index]? = some made ∧ made.call = .applyDelta msg.command

/-- What the processor was told is what the server remembers. -/
def Truthful (deployment : Deployment) : Prop :=
  ∀ msg ack, deployment.service.processor.attempted = some (msg, .acked ack) →
    deployment.exchange.core.Acknowledged msg.idempotencyKey ack

/-- The two sides and the calls between them fit together. -/
structure Linked (deployment : Deployment) : Prop where
  coherent : deployment.service.Coherent
  remembers : deployment.exchange.Remembers
  linear : ∃ results, Exchange.Linear {} deployment.exchange results
  logged : deployment.exchange.Logged
  sent : ∀ made ∈ deployment.exchange.calls, ∀ cmd, made.call = .applyDelta cmd →
    ∃ msg : OutboxMessage, msg.command = cmd ∧ deployment.service.Handed msg
  awaits : deployment.Awaiting
  truthful : deployment.Truthful
  settled : ∀ id progress, (deployment.service.store.dossier id).Shows progress →
    deployment.exchange.core.Settled id progress
  -- A credit is served after the debit of its request was acknowledged.
  ordered : ∀ id, ∀ made ∈ deployment.account, HcmCore.Carries (creditKey id) made →
    ∃ ack, made.1.Acknowledged (debitKey id) ack

variable {before after deployment : Deployment} {action : DeploymentAction}

/-- The server is where the calls that arrived have brought it. -/
theorem Linked.core_eq (linked : deployment.Linked) :
    HcmCore.after {} (deployment.exchange.log.filterMap Happening.asCall) =
      deployment.exchange.core := by
  obtain ⟨results, linear⟩ := linked.linear
  have replayed := congrArg Prod.fst linear.replayed
  rwa [HcmCore.replay, HcmCore.replay_asCalls {} [] linked.remembers.named] at replayed

/-- An acknowledgement that is recorded for a request is one that the server remembers. -/
theorem Linked.sound (linked : before.Linked)
    {serviceAction : ServiceAction} {id : String} {progress : Progress} {version : Int}
    (shown : (before.service.store.dossier id).Shows progress)
    (heard : before.service.event id serviceAction = some (.acknowledged version))
    {type : OutboxType} (delivering : progress.delivering = some type) :
    ∃ ack, before.exchange.core.Acknowledged (type.key id) ack ∧ ack.version = version := by
  obtain ⟨msg, ack, _, _, _, _, attempted, rfl, same⟩ := (Service.event_cause heard).acknowledged
  have held : msg ∈ before.service.processor.held := by simp [OutboxProcessor.held, attempted]
  obtain ⟨concerns, request, _, _, own⟩ := linked.coherent.of_held held shown
  obtain rfl := Option.some.inj (concerns.symm.trans delivering)
  -- The message names the request, so its key is the one that is looked up.
  have key := own.key
  rw [← own.owner] at key
  exact ⟨ack, key ▸ linked.truthful msg ack attempted, same⟩

/-- A step of the service keeps the two sides linked. -/
theorem Linked.served (linked : before.Linked) (coherent : after.service.Coherent)
    {serviceAction : ServiceAction}
    (taken : before.service.step serviceAction = some after.service) {client : HttpHcmClient}
    (exchange : after.exchange = { before.exchange with client }) (awaits : after.Awaiting)
    (truthful : after.Truthful) : after.Linked where
  coherent := coherent
  remembers := by
    rw [exchange]
    exact ⟨linked.remembers.acknowledged, linked.remembers.named⟩
  linear := by
    obtain ⟨results, linear⟩ := linked.linear
    rw [exchange]
    exact ⟨results, linear.replayed, linear.distinct, linear.served, linear.faithful⟩
  logged := by
    rw [exchange]
    exact linked.logged
  sent made member cmd named := by
    rw [exchange] at member
    obtain ⟨msg, same, handed⟩ := linked.sent made member cmd named
    exact ⟨msg, same, handed.step linked.coherent taken⟩
  awaits := awaits
  truthful := truthful
  settled id target reached := by
    rw [exchange]
    -- An acknowledgement that is recorded now is one that the server remembers.
    rcases Service.shown_or_heard linked.coherent taken reached with
      kept | ⟨progress, event, shown, heard, moves⟩
    · exact linked.settled id target kept
    · exact (linked.settled id progress shown).next moves
        fun version same type delivering => linked.sound shown (same ▸ heard) delivering
  ordered := by
    rw [account, exchange]
    exact linked.ordered

/-- What a step of the network adds to the account. -/
theorem account_of_step {exchangeAction : ExchangeAction} (linked : before.Linked)
    (kept : before.exchange.WithoutReset exchangeAction)
    (taken : before.exchange.step exchangeAction = some after.exchange) :
    after.account = before.account ∧ after.exchange.core = before.exchange.core ∨
      ∃ call, after.account = before.account ++ [(before.exchange.core, call)] ∧
        ∀ cmd now, call = .applyDelta cmd now →
          ∃ made ∈ before.exchange.calls, made.call = .applyDelta cmd := by
  -- The account ends with the state in which the new call was made.
  have grown {happening : Happening} {call : HcmCall} (named : happening.asCall = some call)
      (log : after.exchange.log = before.exchange.log ++ [happening]) :
      after.account = before.account ++ [(before.exchange.core, call)] := by
    rw [account, log, List.filterMap_append, List.filterMap_cons_some named, List.filterMap_nil,
      HcmCore.history_concat, linked.core_eq]
    rfl
  cases Exchange.step_effect taken with
  | calls _ _ _ _ _ core log | rewrites _ _ _ _ _ _ _ _ core log =>
    exact Or.inl ⟨by rw [account, log]; rfl, core⟩
  | serves index made now found _ _ _ log =>
    refine Or.inr ⟨made.call.asCall now, grown rfl log, fun cmd at_ named => ?_⟩
    refine ⟨made, List.mem_of_getElem? found, ?_⟩
    -- Only a request for a delta is a delta in the account.
    cases called : made.call with
    | getBalance => simp [called, HcmRequest.asCall] at named
    | applyDelta other =>
      simp only [called, HcmRequest.asCall, HcmCall.applyDelta.injEq] at named
      rw [named.1]
  | controls control now named _ _ log =>
    subst named
    cases control with
    | reset => exact absurd kept id
    | faults | seed | adjust =>
      exact Or.inr ⟨_, grown rfl log, fun _ _ same => by cases same⟩

/-- A step of the client, the network or the server keeps the two sides linked. -/
theorem Linked.exchanged (linked : before.Linked) {exchangeAction : ExchangeAction}
    (kept : before.exchange.WithoutReset exchangeAction)
    (taken : before.exchange.step exchangeAction = some after.exchange)
    (service : after.service = before.service) (awaits : after.Awaiting)
    (sends : ∀ cmd now, exchangeAction = .call (.applyDelta cmd) now →
      ∃ msg : OutboxMessage, msg.command = cmd ∧ before.service.Handed msg) : after.Linked where
  coherent := service ▸ linked.coherent
  remembers := Exchange.step_remembers linked.remembers kept taken
  linear := by
    obtain ⟨_, linear⟩ := linked.linear
    exact Exchange.step_linear linear taken
  logged := Exchange.step_logged linked.logged taken
  sent made member cmd named := by
    rw [service]
    -- A delta that is called now was just handed over.
    rcases Exchange.call_of_step taken member with ⟨old, listed, same⟩ | ⟨now, called⟩
    · exact linked.sent old listed cmd (same.trans named)
    · exact sends cmd now (named ▸ called)
  awaits := awaits
  truthful msg ack attempted := by
    rw [service] at attempted
    exact Exchange.acknowledged_step kept taken (linked.truthful msg ack attempted)
  settled id progress shown := by
    rw [service] at shown
    exact (linked.settled id progress shown).mono fun _ _ known =>
      Exchange.acknowledged_step kept taken known
  ordered id made member carries := by
    rcases account_of_step linked kept taken with ⟨same, _⟩ | ⟨call, grown, calls⟩
    · exact linked.ordered id made (same ▸ member) carries
    · rw [grown] at member
      rcases List.mem_append.mp member with old | new
      · exact linked.ordered id made old carries
      · -- A credit that arrives now was handed over for a request whose debit was acknowledged.
        rw [List.mem_singleton.mp new] at carries ⊢
        obtain ⟨_, cmd, now, made, key⟩ := HcmCore.exists_command carries
        obtain ⟨_, rfl⟩ := Prod.mk.inj made
        obtain ⟨other, listed, named⟩ := calls cmd now rfl
        obtain ⟨msg, rfl, handed⟩ := linked.sent other listed cmd named
        obtain ⟨request, _, own⟩ := handed.owned
        obtain ⟨credit, same⟩ := OutboxType.key_injective
          (show OutboxType.credit.key id = _ from key.symm.trans own.key)
        obtain ⟨progress, shown⟩ := linked.coherent.shown msg.requestId
        have settled := (linked.settled _ progress shown).debit_of_credit
          (credit ▸ handed.handed progress shown)
        rwa [same, ← own.owner]

/-- A step of the service that hears nothing leaves what it was told. -/
theorem Truthful.served (truthful : before.Truthful) {serviceAction : ServiceAction}
    (taken : before.service.step serviceAction = some after.service)
    (core : after.exchange.core = before.exchange.core)
    (unheard : ∀ result, serviceAction ≠ .answer result) : after.Truthful := by
  intro msg ack attempted
  -- An outcome that is remembered without an answer was remembered before.
  rcases Service.attempted_of_step taken attempted with
    same | ⟨result, _, answered, _⟩ | ⟨_, _, _, heard⟩
  · exact core ▸ truthful msg ack same
  · exact absurd answered (unheard result)
  · cases heard

/-- What the processor is told now is what the server remembers. -/
theorem Linked.heard (linked : before.Linked) {index : Nat} {told : Except HcmError HcmAnswer}
    {result : Except HcmError ApplyDeltaAck} (awaited : before.awaited = some index)
    (known : before.exchange.told index = some told) (acked : HcmAnswer.acked told = some result)
    (taken : before.service.step (.answer result) = some after.service)
    (core : after.exchange.core = before.exchange.core) : after.Truthful := by
  intro msg ack attempted
  obtain ⟨other, rest, made, due, idle, found, called⟩ := linked.awaits index awaited
  rcases Service.attempted_of_step taken attempted with
    same | ⟨_, _, answered, dueToo, heard⟩ | ⟨_, _, same, _⟩
  · cases idle.symm.trans same
  · cases answered
    rw [due] at dueToo
    cases dueToo
    -- An acknowledgement comes through as the server has given it.
    have given : told = .ok (.ack ack) := by
      cases told with
      | error error =>
        cases acked
        cases error <;> cases heard
      | ok answer =>
        cases answer with
        | row | corpus => cases acked
        | ack given =>
          cases acked
          cases heard
          rfl
    obtain ⟨listed, here, answered⟩ := Option.bind_eq_some_iff.mp known
    cases found.symm.trans here
    obtain ⟨_, linear⟩ := linked.linear
    have served := (linear.faithful made (List.mem_of_getElem? found)).done
      (congrArg HcmRequest.route called) (given ▸ answered)
    rw [core]
    exact linked.remembers.acknowledged made (List.mem_of_getElem? found) _ ack called served
  · cases idle.symm.trans same

/-- What is awaited stays awaited while the processor and the calls stay. -/
theorem Awaiting.kept (awaits : before.Awaiting) (awaited : after.awaited = before.awaited)
    (processor : ∀ {msg : OutboxMessage} {rest : List OutboxMessage},
      before.service.processor.due = msg :: rest → before.service.processor.attempted = none →
        after.service.processor = before.service.processor)
    (calls : ∀ {index : Nat} {made : HttpCall}, before.exchange.calls[index]? = some made →
      ∃ later, after.exchange.calls[index]? = some later ∧ later.call = made.call) :
    after.Awaiting := by
  -- The message and the call stay what they are, and what the call was told may change.
  intro index waits
  obtain ⟨msg, rest, made, due, idle, found, called⟩ := awaits index (awaited ▸ waits)
  obtain ⟨later, there, same⟩ := calls found
  exact ⟨msg, rest, later, processor due idle ▸ due, processor due idle ▸ idle, there,
    same.trans called⟩

/-- Without a reset, every step keeps the two sides linked. -/
theorem step_linked (linked : before.Linked) (coherent : after.service.Coherent)
    (kept : before.WithoutReset action) (taken : before.step action = some after) :
    after.Linked := by
  -- The service, the exchange, or both ends of a delivery take the step.
  cases step_effect taken with
  | serves serviceAction unheard running moved exchange awaited =>
    refine linked.served coherent moved exchange ?_ ?_
    · exact linked.awaits.kept awaited
        (fun due idle => Service.processor_kept linked.coherent moved due idle unheard running)
        fun found => ⟨_, exchange ▸ found, rfl⟩
    · exact linked.truthful.served moved (congrArg Exchange.core exchange) unheard
  | sends msg rest now due idle _ moved service awaited =>
    have permitted : before.exchange.WithoutReset (.call (.applyDelta msg.command) now) := trivial
    refine linked.exchanged permitted moved service (fun index waits => ?_) fun cmd now same => ?_
    · -- The call that is made now delivers the first message that is left.
      obtain ⟨made, grown, called⟩ := Exchange.called moved
      cases awaited.symm.trans waits
      refine ⟨msg, rest, made, service ▸ due, service ▸ idle, ?_, called⟩
      rw [grown, List.getElem?_append_right le_rfl, Nat.sub_self]
      rfl
    · -- The message that is sent is one that the processor holds.
      cases same
      exact ⟨msg, rfl, linked.coherent.handed (by simp [OutboxProcessor.held, due])⟩
  | hears index told result awaits known acked moved exchange awaited =>
    refine linked.served coherent moved exchange (fun _ waits => ?_) ?_
    · cases awaited.symm.trans waits
    · -- What the processor is told comes from the server.
      exact linked.heard awaits known acked moved (congrArg Exchange.core exchange)
  | asks employeeId locationId now moved service awaited =>
    have permitted : before.exchange.WithoutReset (.call (.getBalance employeeId locationId) now) :=
      trivial
    refine linked.exchanged permitted moved service ?_ fun _ _ same => by cases same
    exact linked.awaits.kept awaited (fun _ _ => by rw [service]) (Exchange.call_kept moved)
  | passes exchangeAction silent controls moved service awaited =>
    have permitted := kept.exchange controls
    refine linked.exchanged permitted moved service ?_ fun cmd now same =>
      absurd same (silent _ now)
    exact linked.awaits.kept awaited (fun _ _ => by rw [service]) (Exchange.call_kept moved)
  | gives service exchange awaited =>
    refine ⟨coherent, ?_, ?_, ?_, ?_, ?_, ?_, ?_, ?_⟩
    · exact exchange ▸ linked.remembers
    · exact exchange ▸ linked.linear
    · exact exchange ▸ linked.logged
    · rw [exchange, service]
      exact linked.sent
    · exact linked.awaits.kept awaited (fun _ _ => by rw [service])
        fun found => ⟨_, exchange ▸ found, rfl⟩
    · rw [Truthful, exchange, service]
      exact linked.truthful
    · rw [exchange, service]
      exact linked.settled
    · rw [account, exchange]
      exact linked.ordered
  | crashes client moved exchange awaited =>
    refine linked.served coherent moved exchange (fun _ waits => ?_) ?_
    · cases awaited.symm.trans waits
    · exact linked.truthful.served moved (by rw [exchange]) (by simp)

/-- Before the first step nothing was asked and nothing is known. -/
theorem linked_init (failureThreshold cooldownMs : Option Int) :
    (init failureThreshold cooldownMs).Linked where
  coherent := Service.coherent_init
  remembers := ⟨fun _ member => (by cases member), fun _ member => (by cases member)⟩
  linear := ⟨[], rfl, List.nodup_nil, fun _ _ _ => by simp [init, Exchange.init],
    fun _ member => by cases member⟩
  logged _ _ _ member := by cases member
  sent _ member := by cases member
  awaits _ waits := by cases waits
  truthful _ _ attempted := by cases attempted
  settled id progress shown := by
    obtain rfl := Progress.eq_unknown shown.status.symm
    exact ⟨fun _ stamped => (by cases stamped), fun _ _ refunded => (by cases refunded)⟩
  ordered _ _ member := by cases member

/-- In every state that is reached without a reset the two sides are linked. -/
theorem Reachable.linked {failureThreshold cooldownMs : Option Int}
    (reached : Deployment.Reachable WithoutReset failureThreshold cooldownMs deployment) :
    deployment.Linked := by
  -- The reachable states of the service are coherent, which each step of the induction needs.
  induction reached with
  | start => exact linked_init failureThreshold cooldownMs
  | step earlier kept taken linked =>
    have after := Deployment.Reachable.service (.step earlier kept taken)
    exact step_linked linked after.coherent kept taken

end Deployment

end TimeOff
