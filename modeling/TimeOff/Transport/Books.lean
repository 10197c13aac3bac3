import TimeOff.Transport.Propagation

/-! The books of the system of record behind a network, which loses and repeats requests. -/

namespace TimeOff

namespace HcmCore

variable {core : HcmCore} {K : String} {ack : ApplyDeltaAck} {calls : List HcmCall}

/-- What was acknowledged when a call was made still is at the end. -/
theorem acknowledged_of_history {made : HcmCore × HcmCall} (member : made ∈ core.history calls)
    (acknowledged : made.1.Acknowledged K ack) : (core.after calls).Acknowledged K ack := by
  -- A later call forgets nothing.
  induction calls generalizing core with
  | nil => cases member
  | cons call rest ih =>
    rcases List.mem_cons.mp member with rfl | later
    · exact acknowledged.after
    · exact ih later

end HcmCore

/-- Where no ghost success was switched on, what is acknowledged was done. -/
theorem System.Honest.applies {core : HcmCore} (honest : System.Honest core) {K : String}
    {ack : ApplyDeltaAck} (acknowledged : core.Acknowledged K ack) : core.applies K = true := by
  obtain ⟨entry, found, _⟩ := acknowledged
  rw [HcmCore.applies, found, Option.any_some]
  exact honest.effective entry (Table.mem_of_find found)

namespace Exchange

/-- A server on which no ghost success is switched on stays honest. -/
theorem honest_step {before after : Exchange} {action : ExchangeAction}
    (honest : System.Honest before.core) (taken : before.step action = some after)
    (permitted : ∀ control now, action = .control control now → control ≠ .reset ∧
      ∀ body, control = .faults body → body.ghostSuccess ≠ some true) :
    System.Honest after.core := by
  -- A step that leaves the faults and the acknowledgements leaves the server honest.
  have carried {core : HcmCore} (faults : core.faults = before.core.faults)
      (applied : core.applied = before.core.applied) : System.Honest core :=
    ⟨faults ▸ honest.real, applied ▸ honest.effective⟩
  cases step_effect taken with
  | calls _ _ _ _ _ same | rewrites _ _ _ _ _ _ _ _ same => exact same ▸ honest
  | serves _ made now _ _ _ served =>
    rw [served]
    cases made.call with
    | applyDelta cmd => exact honest.applyDelta now cmd
    | getBalance employeeId locationId =>
      simp only [HcmCore.serve, inProcessHcmClient]
      cases read : before.core.getBalance now employeeId locationId with
      | error error => exact honest
      | ok pair =>
        exact carried (HcmCore.faults_getBalance read) (HcmCore.applied_getBalance read)
  | controls control now named _ controlled =>
    obtain ⟨running, mild⟩ := permitted control now named
    rw [controlled]
    cases control with
    | reset => exact absurd rfl running
    | seed employeeId locationId balance => exact carried rfl rfl
    | adjust employeeId locationId delta =>
      simp only [HcmCore.control]
      cases adjusted : before.core.adjust now employeeId locationId delta with
      | error error => exact honest
      | ok pair =>
        exact carried (HcmCore.faults_adjust adjusted) (HcmCore.applied_adjust adjusted)
    | faults body =>
      refine ⟨?_, honest.effective⟩
      have off := mild body rfl
      simp only [HcmCore.control, HcmCore.configureFaults, honest.real]
      -- A patch that says nothing about ghost successes leaves them off.
      cases chosen : body.ghostSuccess with
      | none => rfl
      | some ghost =>
        cases ghost with
        | false => rfl
        | true => exact absurd chosen off

end Exchange

namespace Deployment

variable {deployment : Deployment} {failureThreshold cooldownMs : Option Int}

/-- The steps that neither reset the system of record nor switch its ghost successes on. -/
def WithoutGhosts (_ : Deployment) : DeploymentAction → Prop
  | .control .reset _ => False
  | .control (.faults body) _ => body.ghostSuccess ≠ some true
  | _ => True

instance (deployment : Deployment) :
    (action : DeploymentAction) → Decidable (deployment.WithoutGhosts action)
  | .control .reset _ => .isFalse id
  | .control (.faults body) _ => inferInstanceAs (Decidable (body.ghostSuccess ≠ some true))
  | .control (.seed _ _ _) _ | .control (.adjust _ _ _) _
  | .operate _ | .deliver _ | .hear | .read _ _ _ _ | .finishRead _ _ _ | .ingest _ _ _
  | .arrive _ _ | .respond _ _ | .fail _ _ _ | .lose _ _ _ | .crash => .isTrue trivial

/-- Without ghost successes there is no reset either. -/
theorem withoutReset (deployment : Deployment) (action : DeploymentAction)
    (permitted : deployment.WithoutGhosts action) : deployment.WithoutReset action := by
  -- A control is a reset in both conditions or in none.
  cases action with
  | control control now =>
    cases control with
    | reset => exact permitted
    | faults | seed | adjust => exact trivial
  | _ => exact trivial

/-- Without ghost successes, everything that is acknowledged was done. -/
theorem Reachable.honest
    (reached : Deployment.Reachable WithoutGhosts failureThreshold cooldownMs deployment) :
    System.Honest deployment.exchange.core := by
  induction reached with
  | start => exact ⟨rfl, fun _ kept => by cases kept⟩
  | @step before after action _ permitted taken honest =>
    -- Only the network and its controls reach the server.
    cases step_effect taken with
    | serves _ _ _ _ exchange | hears _ _ _ _ _ _ _ exchange | gives _ exchange =>
      exact exchange ▸ honest
    | sends _ _ _ _ _ _ moved | asks _ _ _ moved =>
      exact Exchange.honest_step honest moved fun _ _ same => by cases same
    | crashes _ _ exchange =>
      rw [exchange]
      exact honest
    | passes exchangeAction _ controls moved =>
      refine Exchange.honest_step honest moved fun control now same => ?_
      have named := controls control now same
      subst named
      cases control with
      | reset => exact absurd permitted id
      | faults body => exact ⟨nofun, fun _ chosen => HcmControl.faults.inj chosen ▸ permitted⟩
      | seed | adjust => exact ⟨nofun, fun _ chosen => by cases chosen⟩

/-- The days that a request has cost on the other side. -/
def costs (deployment : Deployment) (request : TimeOffRequest) : Int :=
  (if deployment.exchange.core.applies (debitKey request.id) then request.days else 0) -
    if deployment.exchange.core.applies (creditKey request.id) then request.days else 0

/-- The days that the requests on a row have cost. -/
def daysOut (deployment : Deployment) (k : String) : Int :=
  ((deployment.service.store.requests.rows.filter fun request =>
    key request.employeeId request.locationId = k).map deployment.costs).sum

/-- The keys of all messages that there can be. -/
def messageKeys (requests : List TimeOffRequest) : List String :=
  requests.flatMap fun request => [debitKey request.id, creditKey request.id]

/-- Different messages have different keys. -/
theorem nodup_messageKeys {requests : List TimeOffRequest}
    (distinct : (requests.map (·.id)).Nodup) : (messageKeys requests).Nodup := by
  -- The two keys of a request differ, and those of two requests do.
  rw [messageKeys, List.nodup_flatMap]
  refine ⟨fun request _ => ?_, ?_⟩
  · rw [List.nodup_cons, List.mem_singleton]
    exact ⟨debitKey_ne_creditKey _ _, List.nodup_singleton _⟩
  · refine (List.pairwise_map.mp distinct).imp ?_
    intro first second different K one other
    have named {id : String} (listed : K ∈ [debitKey id, creditKey id]) :
        ∃ type : OutboxType, K = type.key id := by
      rcases List.mem_cons.mp listed with debit | rest
      · exact ⟨.debit, debit⟩
      · exact ⟨.credit, List.mem_singleton.mp rest⟩
    obtain ⟨_, rfl⟩ := named one
    obtain ⟨_, same⟩ := named other
    exact different (OutboxType.key_injective same).2

/-- What the two keys of a request have changed in a row is what it has cost there. -/
theorem Propagates.total {request : TimeOffRequest} (propagates : deployment.Propagates request)
    (k : String) :
    (HcmCore.changesBy (debitKey request.id) k deployment.account).sum +
        (HcmCore.changesBy (creditKey request.id) k deployment.account).sum =
      if key request.employeeId request.locationId = k then -deployment.costs request else 0 := by
  -- Each of the two keys adds its days, or nothing, and only on the row of its pair.
  have debit := propagates.once .debit k
  have credit := propagates.once .credit k
  simp only [OutboxType.key, OutboxType.signed] at debit credit
  rw [debit, credit]
  by_cases own : key request.employeeId request.locationId = k
  · subst own
    simp only [true_and, if_true, costs]
    split <;> split <;> simp
  · simp [own, Ne.symm own]

/-- What all keys have changed in a row is what the requests have cost there. -/
theorem sum_messageKeys {requests : List TimeOffRequest}
    (propagates : ∀ request ∈ requests, deployment.Propagates request) (k : String) :
    ((messageKeys requests).map fun K =>
      (HcmCore.changesBy K k deployment.account).sum).sum =
        -((requests.filter fun request =>
          key request.employeeId request.locationId = k).map deployment.costs).sum := by
  -- The keys of a request are next to each other in the list.
  induction requests with
  | nil => rfl
  | cons request rest ih =>
    have first := (propagates request List.mem_cons_self).total k
    have others := ih fun other member => propagates other (List.mem_cons_of_mem _ member)
    have unfolded : messageKeys (request :: rest) =
        debitKey request.id :: creditKey request.id :: messageKeys rest := rfl
    rw [unfolded, List.map_cons, List.map_cons, List.sum_cons, List.sum_cons, others]
    by_cases own : key request.employeeId request.locationId = k
    · rw [if_pos own] at first
      rw [List.filter_cons_of_pos (by simpa using own), List.map_cons, List.sum_cons]
      omega
    · rw [if_neg own] at first
      rw [List.filter_cons_of_neg (by simpa using own)]
      omega

/-- A key that has an effect was carried by a call that was served. -/
theorem Propagates.carried {request : TimeOffRequest} (propagates : deployment.Propagates request)
    (type : OutboxType)
    (applied : deployment.exchange.core.applies (type.key request.id) = true) :
    ∃ made ∈ deployment.account, HcmCore.Carries (type.key request.id) made := by
  -- What has an effect is listed as a change, and a change is made by a call.
  have once := propagates.once type (key request.employeeId request.locationId)
  rw [if_pos ⟨rfl, applied⟩] at once
  have listed : type.signed request.days ∈ HcmCore.changesBy (type.key request.id)
      (key request.employeeId request.locationId) deployment.account := by
    rw [once]
    exact List.mem_singleton_self _
  obtain ⟨made, member, changed⟩ := List.mem_filterMap.mp listed
  split at changed
  · rename_i carries
    exact ⟨made, member, carries.1⟩
  · cases changed

/-- Nothing is given back that was not taken. -/
theorem Propagates.debited {request : TimeOffRequest} (propagates : deployment.Propagates request)
    (linked : deployment.Linked) (honest : System.Honest deployment.exchange.core)
    (credited : deployment.exchange.core.applies (creditKey request.id) = true) :
    deployment.exchange.core.applies (debitKey request.id) = true := by
  -- The credit was served after the debit was acknowledged, and honestly so.
  obtain ⟨made, member, carries⟩ := propagates.carried .credit credited
  obtain ⟨ack, known⟩ := propagates.ordered made member carries
  have still := HcmCore.acknowledged_of_history member known
  rw [linked.core_eq] at still
  exact honest.applies still

/--
Without ghost successes the balance behind the network is, in every state of every run, what the
system of record changed itself, less the days that the requests have cost there.

A request costs its days or nothing, a committed one its days, and one that was not approved
nothing, also when it was withdrawn.
-/
theorem books_balance_over_http
    (reached : Deployment.Reachable WithoutGhosts failureThreshold cooldownMs deployment)
    (k : String) :
    deployment.exchange.core.balanceOf k =
        HcmCore.ownChanges k deployment.account - deployment.daysOut k ∧
      ∀ request ∈ deployment.service.store.requests.rows,
        (deployment.costs request = 0 ∨ deployment.costs request = request.days) ∧
          (request.status = .committed → deployment.costs request = request.days) ∧
          (deployment.Unapproved request → deployment.costs request = 0) := by
  have permitted := reached.mono withoutReset
  have linked := Reachable.linked permitted
  have honest := reached.honest
  have propagates : ∀ request ∈ deployment.service.store.requests.rows,
      deployment.Propagates request := fun request stored =>
    linked.propagates (Table.find_of_mem stored)
  constructor
  · -- Every delta in the log has the key of a message of a stored request.
    have covered : ∀ call ∈ deployment.exchange.log.filterMap Happening.asCall, ∀ K,
        call.deltaKey = some K → K ∈ messageKeys deployment.service.store.requests.rows := by
      intro call asked K carried
      cases call with
      | applyDelta cmd now =>
        cases carried
        obtain ⟨msg, rfl, handed⟩ := linked.handed asked
        obtain ⟨request, found, own⟩ := handed.owned
        refine List.mem_flatMap.mpr ⟨request, Table.mem_of_find found, ?_⟩
        have named : msg.command.idempotencyKey = msg.type.key request.id := own.key
        rw [named]
        cases msg.type with
        | debit => exact List.mem_cons_self
        | credit => exact List.mem_cons_of_mem _ (List.mem_singleton_self _)
      | _ => cases carried
    -- So the balance is grouped by the keys, and each request adds up to what it costs.
    have balance := HcmCore.balanceOf_by_keys {} _ k
      (nodup_messageKeys deployment.service.store.requests.nodup) covered
    rw [linked.core_eq] at balance
    have start : HcmCore.balanceOf {} k = 0 := rfl
    rw [balance, start, Int.zero_add, Int.sub_eq_add_neg, daysOut, ← sum_messageKeys propagates k]
    rfl
  · intro request stored
    have own := propagates request stored
    obtain ⟨progress, shown⟩ := linked.coherent.shown request.id
    have found := Table.find_of_mem stored
    have status := shown.status_eq found
    -- What was not handed over has no effect.
    have spared (type : OutboxType) (kept : ¬progress.Handed type) :
        deployment.exchange.core.applies (type.key request.id) = false := by
      rw [Bool.eq_false_iff]
      intro applied
      obtain ⟨made, member, carries⟩ := own.carried type applied
      exact kept (linked.handed_of_carries found shown member carries)
    refine ⟨?_, fun committed => ?_, fun unapproved => ?_⟩
    · cases credited : deployment.exchange.core.applies (creditKey request.id) with
      | true => simp [costs, credited, own.debited linked honest credited]
      | false => cases debited : deployment.exchange.core.applies (debitKey request.id) <;>
          simp [costs, credited, debited]
    · -- A commit was acknowledged, and nothing was given back for it.
      obtain ⟨version, absorbed, rfl⟩ :=
        Progress.eq_committed (status.trans (congrArg some committed))
      obtain ⟨ack, known, _⟩ := (linked.settled _ _ shown).debited version rfl
      have debited := honest.applies known
      -- A credit is only handed over once a committed request is cancelled.
      have credited := spared .credit fun handed => by
        rcases handed with sent | ⟨other, _⟩
        · exact sent
        · cases other
      simp only [OutboxType.key] at credited
      simp [costs, debited, credited]
    · have none_ := unapproved.messages found shown
      have debited := spared .debit (Progress.not_handed none_)
      have credited := spared .credit (Progress.not_handed none_)
      simp only [OutboxType.key] at debited credited
      simp [costs, debited, credited]

/-- After a request that was late three of ten days are out there, and they are out once. -/
theorem books_balance_over_http_late : ∃ deployment : Deployment,
    deployment.exchange.log.length = 4 ∧
      HcmCore.ownChanges (key "e" "l") deployment.account = 10 ∧
      deployment.daysOut (key "e" "l") = 3 ∧
      deployment.exchange.core.balanceOf (key "e" "l") =
        HcmCore.ownChanges (key "e" "l") deployment.account - deployment.daysOut (key "e" "l") := by
  have executed : (Runs.run step (fun deployment action => decide (deployment.WithoutGhosts action))
      (init none none) lateRun).map (fun deployment =>
        decide (deployment.exchange.log.length = 4) &&
          decide (HcmCore.ownChanges (key "e" "l") deployment.account = 10) &&
          decide (deployment.daysOut (key "e" "l") = 3)) = some true := by
    decide +kernel
  obtain ⟨deployment, reached, ended⟩ :=
    Runs.exists_reachable_of_run (fun _ _ permitted => of_decide_eq_true permitted) executed
  simp only [Bool.and_eq_true, decide_eq_true_eq] at ended
  exact ⟨deployment, ended.1.1, ended.1.2, ended.2,
    (books_balance_over_http reached (key "e" "l")).1⟩

end Deployment

end TimeOff
