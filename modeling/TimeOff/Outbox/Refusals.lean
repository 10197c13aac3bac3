import TimeOff.Hcm.HttpHcmClient
import TimeOff.Lifecycle.Correspondence

/-! Which responses to a delivered debit give its hold up, and which ones only cost a retry. -/

namespace TimeOff

/-- Whether the body of an error carries one of the domain codes. -/
def ErrorBody.domainCode (body : ErrorBody) : Bool :=
  body.code = some "INSUFFICIENT_BALANCE" || body.code = some "INVALID_DIMENSIONS"

namespace HttpResponse

/-- Whether a response is a successful one. -/
def success : HttpResponse → Bool
  | .transportError _ => false
  | .received status _ => okStatus status

/-- Whether a response refuses the delivery with authority: a client error with a domain code. -/
def authoritative : HttpResponse → Bool
  | .received status (.json _ error) => 400 ≤ status && status ≤ 499 && error.domainCode
  | _ => false

/--
Whether a response is taken for what it is.

Below the server errors, a body other than null has to carry a domain code, and it must be a client
error. The throttling status is always retried, so there it must not carry one.
-/
def plain : HttpResponse → Bool
  | .transportError _ => true
  | .received status body =>
    okStatus status || 500 ≤ status ||
      match body with
      | .null => true
      | .unreadable _ => status = 429
      | .json _ error =>
        if status = 429 then !error.domainCode else 400 ≤ status && error.domainCode

/-- What a response comes to, and whether it is taken for what it is. -/
inductive Reading (response : HttpResponse) : Except HcmError ApplyDeltaAck → Prop
  | acked (ack : ApplyDeltaAck) : response.success = true → response.plain = true →
      response.authoritative = false → Reading response (.ok ack)
  -- A retry is right unless the refusal had authority.
  | retried (message : String) : response.plain = !response.authoritative →
      Reading response (.error (.unavailable message))
  -- Giving up is right if the refusal had authority.
  | refused (code : RejectionCode) (message : String) : response.success = false →
      response.plain = response.authoritative → Reading response (.error (.rejection code message))

/-- The rule for a response that reports a failure of the server, or throttles. -/
theorem reading_of_unavailable {status : Nat} {body : ResponseBody} {message : String}
    (later : 500 ≤ status ∨ status = 429) :
    Reading (.received status body) (.error (.unavailable message)) := by
  -- A server error is never authoritative, and throttling is by its domain code only.
  refine .retried message ?_
  rcases later with server | rfl
  · cases body <;> simp [plain, authoritative, server]
    omega
  · cases body <;> simp [plain, authoritative, okStatus]

/-- The rule for a response that is taken for a refusal. -/
theorem reading_of_rejection {status : Nat} {body : ResponseBody} {code : RejectionCode}
    {message : String} (failed : okStatus status = false)
    (now : ¬(500 ≤ status ∨ status = 429)) (notNull : body ≠ .null) :
    Reading (.received status body) (.error (.rejection code message)) := by
  -- What is left below the server errors is authoritative when it is a client error with a code.
  refine .refused code message failed ?_
  rw [not_or] at now
  cases body with
  | null => exact absurd rfl notNull
  | unreadable error => simp [plain, authoritative, failed, now.1, now.2]
  | json ack error =>
    have client : status ≤ 499 := by omega
    simp [plain, authoritative, failed, now.1, now.2, client]

/-- Every response comes to one of the three readings. -/
theorem reading (client : HttpHcmClient) (now : Time) (response : HttpResponse) :
    Reading response (client.answer now response) := by
  cases response with
  | transportError error => exact .retried _ rfl
  | received status body =>
    cases succeeded : okStatus status with
    | true =>
      -- A success is never authoritative, whatever its body is.
      have plain : (HttpResponse.received status body).plain = true := by simp [plain, succeeded]
      have harmless : (HttpResponse.received status body).authoritative = false := by
        simp only [okStatus, Bool.and_eq_true, decide_eq_true_eq] at succeeded
        cases body <;> simp [authoritative]
        omega
      cases body with
      | unreadable error | null =>
        simp only [HttpHcmClient.answer, HttpHcmClient.guarded, reply, succeeded, if_true,
          HttpReply.parse]
        exact .retried _ (by rw [plain, harmless]; rfl)
      | json ack error =>
        simp only [HttpHcmClient.answer, HttpHcmClient.guarded, reply, succeeded, if_true,
          HttpReply.parse]
        exact .acked ack succeeded plain harmless
    | false =>
      -- The status decides, unless the body is null and nothing can be read of it.
      have read (error : ErrorBody) (notNull : body ≠ .null)
          (parsed : (HttpResponse.received status body).reply = .failed status error) :
          Reading (.received status body) (client.answer now (.received status body)) := by
        simp only [HttpHcmClient.answer, HttpHcmClient.guarded, parsed, HttpReply.parse,
          parseFailure]
        by_cases later : 500 ≤ status ∨ status = 429
        · simp only [later, if_true]
          exact reading_of_unavailable later
        · simp only [later, if_false]
          exact reading_of_rejection succeeded later notNull
      cases body with
      | null =>
        simp only [HttpHcmClient.answer, HttpHcmClient.guarded, reply, succeeded,
          Bool.false_eq_true, if_false, HttpReply.parse]
        exact .retried _ (by simp [plain, authoritative])
      | unreadable error => exact read {} (by simp) (by simp [reply, succeeded])
      | json ack error => exact read error (by simp) (by simp [reply, succeeded])

end HttpResponse

/-- A request that was cancelled while approved stays cancelled, whatever it hears. -/
theorem Progress.cancelled_of_next {debit : Undelivered} {event : Event} {target : Progress}
    (moved : (Progress.abandoned debit).next event = some target) :
    target.status = some .cancelled := by
  cases steps_of_next moved <;> rfl

namespace Store

/-- The status of a stored request. -/
def statusOf (store : Store) (id : String) : Option RequestStatus :=
  (store.requests.find id).map (·.status)

/-- A request has failed and its hold is released, neither of which was so before. -/
structure GivesUp (before after : Store) (id : String) : Prop where
  moved : before.statusOf id ≠ some .failed ∧ after.statusOf id = some .failed
  released : before.activeHolds id ≠ [] ∧ after.activeHolds id = []

/-- A hold is given up on an authoritative refusal only, and any other failure costs a retry. -/
structure GivesUpRightly (before after : Store) (msg : OutboxMessage) (response : HttpResponse)
    (now : Time) : Prop where
  givenUp : GivesUp before after msg.requestId ↔ response.authoritative = true
  retried : response.success = false → response.authoritative = false →
    after.requests = before.requests ∧ after.ledger = before.ledger ∧
      ∃ error, after = before.markRetryOrDead msg error now

/-- Recording a retry writes nothing but the outbox. -/
theorem markRetryOrDead_outbox (store : Store) (msg : OutboxMessage) (error : String)
    (now : Time) : ∃ outbox, store.markRetryOrDead msg error now = { store with outbox } := by
  simp only [markRetryOrDead]
  split
  · exact ⟨_, rfl⟩
  · exact ⟨_, rfl⟩

variable {store : Store} {id : String} {progress : Progress}

theorem statusOf_of_shows (shown : (store.dossier id).Shows progress) :
    store.statusOf id = progress.status :=
  shown.status

/-- A dossier shows an open hold exactly if its progress lists one. -/
theorem activeHolds_eq_nil_iff (shown : (store.dossier id).Shows progress)
    (stored : (store.requests.find id).isSome = true) :
    store.activeHolds id = [] ↔
      (progress.entries.filter fun seen => seen.1 = .reserve ∧ seen.2.1 = .active) = [] := by
  obtain ⟨request, found⟩ := Option.isSome_iff_exists.mp stored
  obtain rfl := Table.key_of_find found
  rw [← map_view_activeHolds shown, List.map_eq_nil_iff]

/-- A progress with a status belongs to a stored request. -/
theorem isSome_of_shows (shown : (store.dossier id).Shows progress) {status : RequestStatus}
    (current : progress.status = some status) : (store.requests.find id).isSome = true := by
  have listed := (statusOf_of_shows shown).trans current
  simpa [statusOf] using Option.isSome_of_eq_some listed

end Store

namespace Service

variable {service after : Service} {msg : OutboxMessage} {attempt : Attempt}
  {entryId eventId : String} {now : Time}

/-- Recording a debit gives its hold up exactly if the debit of an approved request was refused. -/
theorem givesUp_iff_refused (coherent : service.Coherent)
    (attempted : service.processor.attempted = some (msg, attempt)) (debit : msg.type = .debit)
    (taken : service.step (.operate (.record entryId eventId now)) = some after) :
    Store.GivesUp service.store after.store msg.requestId ↔
      service.store.statusOf msg.requestId = some .approved ∧
        ∃ message, attempt = .refused message := by
  -- A debit in flight belongs to an approved request, or to one that was cancelled since.
  obtain ⟨progress, shown⟩ := coherent.shown msg.requestId
  obtain ⟨target, moved, shownAfter⟩ := (record_moves coherent attempted taken).own progress shown
  have status := Store.statusOf_of_shows shown
  have statusAfter := Store.statusOf_of_shows shownAfter
  have delivering := (coherent.of_held (by simp [OutboxProcessor.held, attempted]) shown).1
  rw [debit] at delivering
  have unmoved (other : target.status ≠ some .failed) :
      ¬Store.GivesUp service.store after.store msg.requestId := fun gives =>
    other (statusAfter.symm.trans gives.moved.2)
  rcases Progress.delivering_debit delivering with rfl | rfl
  · cases attempt with
    | refused message =>
      obtain rfl : Progress.failed = target := Option.some.inj moved
      refine iff_of_true ⟨⟨by simp [status, Progress.status], statusAfter⟩, ?_, ?_⟩
        ⟨status, message, rfl⟩
      · rw [ne_eq, Store.activeHolds_eq_nil_iff shown (Store.isSome_of_shows shown rfl)]
        simp [Progress.entries]
      · rw [Store.activeHolds_eq_nil_iff shownAfter (Store.isSome_of_shows shownAfter rfl)]
        simp [Progress.entries]
    | acked ack =>
      obtain rfl : Progress.committed ack.version false = target := Option.some.inj moved
      exact iff_of_false (unmoved (by simp [Progress.status])) (by simp)
    | errored message =>
      obtain rfl : Progress.approved (if decide (OutboxService.maxAttempts ≤ msg.attempts + 1)
        then .dead else .failed) = target := Option.some.inj moved
      exact iff_of_false (unmoved (by simp [Progress.status])) (by simp)
  · -- A cancelled request stays cancelled, however its debit ends.
    refine iff_of_false (unmoved ?_) (by simp [status, Progress.status])
    simp [Progress.cancelled_of_next moved]

/-- What recording an attempt leaves is what its transaction writes. -/
theorem store_of_record (attempted : service.processor.attempted = some (msg, attempt))
    (taken : service.step (.operate (.record entryId eventId now)) = some after) :
    after.store = service.store.recordAttempt msg attempt entryId eventId now := by
  cases step_move taken with
  | records _ _ _ _ _ again =>
    cases attempted.symm.trans again
    rfl

/-- A message that is parked as refused is not one whose retry was recorded. -/
theorem refused_ne_retried (coherent : service.Coherent)
    (held : msg ∈ service.processor.held) (reason error : String) :
    service.store.applyRejection msg reason ≠ service.store.markRetryOrDead msg error now := by
  -- The retry counts an attempt of the row in flight, and the refusal does not.
  intro same
  have stored := coherent.held msg held
  have rows := congrArg (fun store : Store => store.outbox.rows) same
  have refusal := Store.rows_recordAttempt service.store msg (.refused reason) "" "" now
  have retry := Store.rows_recordAttempt service.store msg (.errored error) "" "" now
  have rewritten := List.map_inj_left.mp (refusal.symm.trans (rows.trans retry)) _ stored
  have attempts := congrArg (·.attempts) rewritten
  by_cases parked : OutboxService.maxAttempts ≤ msg.attempts + 1 <;>
    simp [Attempt.settledRow, OutboxMessage.claimedRow, parked] at attempts

/--
A debit's hold is given up rightly exactly for the responses that are taken for what they are.

An authoritative refusal must also find the request still approved.
-/
theorem gives_up_rightly_iff (reached : Reachable service) {client : HttpHcmClient} {heard : Time}
    {response : HttpResponse}
    (attempted : service.processor.attempted =
      some (msg, Attempt.ofResult (client.answer heard response)))
    (debit : msg.type = .debit)
    (taken : service.step (.operate (.record entryId eventId now)) = some after) :
    Store.GivesUpRightly service.store after.store msg response now ↔
      response.plain = true ∧ (response.authoritative = true →
        service.store.statusOf msg.requestId = some .approved) := by
  have coherent := reached.coherent
  have gives := givesUp_iff_refused coherent attempted debit taken
  have store := store_of_record attempted taken
  have held : msg ∈ service.processor.held := by simp [OutboxProcessor.held, attempted]
  generalize answered : client.answer heard response = result at *
  have reading := answered ▸ HttpResponse.reading client heard response
  cases reading with
  | acked ack succeeded plain harmless =>
    refine iff_of_true ⟨?_, fun failed => ?_⟩ ⟨plain, fun refused => ?_⟩
    · simp [gives, Attempt.ofResult, harmless]
    · simp [succeeded] at failed
    · simp [harmless] at refused
  | retried message plain =>
    -- The transaction of a transient failure writes the retry and nothing else.
    constructor
    · intro rightly
      have harmless : response.authoritative = false := by
        refine eq_false_of_ne_true fun refused => ?_
        have given := gives.mp (rightly.givenUp.mpr refused)
        simp [Attempt.ofResult] at given
      exact ⟨by simp [plain, harmless], by simp [harmless]⟩
    · intro given
      obtain ⟨taken_, _⟩ := given
      have harmless : response.authoritative = false := by simpa [plain] using taken_
      refine ⟨by simp [gives, Attempt.ofResult, harmless], fun _ _ => ?_⟩
      have recorded : after.store = service.store.markRetryOrDead msg message now := store
      obtain ⟨outbox, same⟩ := service.store.markRetryOrDead_outbox msg message now
      exact ⟨by rw [recorded, same], by rw [recorded, same], message, recorded⟩
  | refused code message failed plain =>
    -- The request hears of the refusal, and no retry is counted.
    constructor
    · intro rightly
      have refused : response.authoritative = true := by
        refine eq_true_of_ne_false fun harmless => ?_
        obtain ⟨_, _, error, same⟩ := rightly.retried failed harmless
        exact refused_ne_retried coherent held message error (store.symm.trans same)
      exact ⟨plain.trans refused, fun _ => (gives.mp (rightly.givenUp.mpr refused)).1⟩
    · intro given
      obtain ⟨taken_, approved⟩ := given
      have refused : response.authoritative = true := plain.symm.trans taken_
      refine ⟨iff_of_true (gives.mpr ⟨approved refused, message, rfl⟩) refused, ?_⟩
      simp [refused]

/-- A debit for three days that is delivered and responded to. -/
def respondedRun (response : HttpResponse) : List ServiceAction :=
  [.insertBalance "e" "l" ⟨"e", "l", 10, 1, 0⟩,
    .operate (.create "r" ⟨"e", "l", "2025-01-06", "2025-01-08", 3, none, true⟩ none),
    .operate (.submit "r" "hold"),
    .operate (.approve "r" "debit" 0),
    .operate (.drain 0),
    .answer ((HttpHcmClient.create none none).answer 0 response)]

/-- What the run delivers, with the outcome that is to be recorded. -/
def responded (response : HttpResponse) (service : Service) : Bool :=
  service.processor.attempted.any fun held =>
    held.1.requestId = "r" && held.1.type = .debit &&
      held.2 = Attempt.ofResult ((HttpHcmClient.create none none).answer 0 response)

/-- The outcome of the delivered debit is recorded, and a test of the step passes. -/
theorem exists_responded {response : HttpResponse} {test : Service → Service → Bool}
    (executed : (run (respondedRun response)).map (fun service =>
      responded response service &&
        (service.step (.operate (.record "commit" "drift" 0))).any (test service)) = some true) :
    ∃ (service after : Service) (msg : OutboxMessage), Reachable service ∧
      service.processor.attempted = some (msg, Attempt.ofResult
        ((HttpHcmClient.create none none).answer 0 response)) ∧
      msg.requestId = "r" ∧ msg.type = .debit ∧
      service.step (.operate (.record "commit" "drift" 0)) = some after ∧
      test service after = true := by
  obtain ⟨service, reached, passed⟩ := exists_reachable_of_run executed
  obtain ⟨held, recorded⟩ := Bool.and_eq_true_iff.mp passed
  obtain ⟨⟨msg, attempt⟩, attempted, seen⟩ := (Option.any_eq_true _ _).mp held
  obtain ⟨after, taken, tested⟩ := (Option.any_eq_true _ _).mp recorded
  simp only [Bool.and_eq_true, decide_eq_true_eq] at seen
  obtain ⟨⟨owner, debit⟩, rfl⟩ := seen
  exact ⟨service, after, msg, reached, attempted, owner, debit, taken, tested⟩

/-- A refusal with a domain code, as the system of record answers an overdraft. -/
def overdraft : HttpResponse :=
  .received 422 (.json ⟨"", 0, 0, false, false⟩
    ⟨some "INSUFFICIENT_BALANCE", some "insufficient balance"⟩)

/-- The page of a proxy that knows no such path. -/
def notFound : HttpResponse :=
  .received 404 (.unreadable "SyntaxError: Unexpected token < in JSON")

/-- The refused overdraft is given up rightly. -/
theorem gives_up_rightly_iff_overdraft : ∃ (service after : Service) (msg : OutboxMessage),
    service.step (.operate (.record "commit" "drift" 0)) = some after ∧
      Store.GivesUpRightly service.store after.store msg overdraft 0 := by
  have executed : (run (respondedRun overdraft)).map (fun service =>
      responded overdraft service &&
        (service.step (.operate (.record "commit" "drift" 0))).any fun _ =>
          service.store.statusOf "r" = some .approved) = some true := by
    decide
  obtain ⟨service, after, msg, reached, attempted, owner, debit, taken, approved⟩ :=
    exists_responded executed
  refine ⟨service, after, msg, taken,
    (gives_up_rightly_iff reached attempted debit taken).mpr ⟨rfl, ?_⟩⟩
  rw [owner]
  exact fun _ => of_decide_eq_true approved

/-- A page that is no answer of the system of record gives the hold up. -/
theorem not_gives_up_rightly_notFound : ∃ (service after : Service) (msg : OutboxMessage),
    Reachable service ∧
      service.processor.attempted = some (msg, Attempt.ofResult
        ((HttpHcmClient.create none none).answer 0 notFound)) ∧
      msg.type = .debit ∧
      service.step (.operate (.record "commit" "drift" 0)) = some after ∧
      ¬Store.GivesUpRightly service.store after.store msg notFound 0 := by
  have executed : (run (respondedRun notFound)).map (fun service =>
      responded notFound service &&
        (service.step (.operate (.record "commit" "drift" 0))).any fun after =>
          service.store.statusOf "r" ≠ some .failed && after.store.statusOf "r" = some .failed &&
            !(service.store.activeHolds "r").isEmpty && (after.store.activeHolds "r").isEmpty) =
      some true := by
    decide
  obtain ⟨service, after, msg, reached, attempted, owner, debit, taken, gone⟩ :=
    exists_responded executed
  refine ⟨service, after, msg, reached, attempted, debit, taken, fun rightly => ?_⟩
  simp only [Bool.and_eq_true, decide_eq_true_eq, Bool.not_eq_true', List.isEmpty_eq_false_iff,
    List.isEmpty_iff] at gone
  obtain ⟨⟨moved, held⟩, released⟩ := gone
  -- The request has failed and its hold is gone, although the response has no authority.
  have refused := rightly.givenUp.mp (owner ▸ ⟨moved, held, released⟩)
  simp [notFound, HttpResponse.authoritative] at refused

end Service

end TimeOff
