import TimeOff.Account.Versions
import TimeOff.Ingestion.Authenticity
import TimeOff.Transport.Linkage

/-!
Cached balances that were read over a network.

Reads overtake one another and are told late, and the circuit may refuse them, but what is cached
was true once and is never ahead of the other side. A pair whose ids lead to the corpus is no pair
of the other side, and is cached with the defaults of its columns.
-/

namespace TimeOff

namespace HcmCore

variable {core : HcmCore} {k : String} {version balance : Int} {calls : List HcmCall}

instance (core : HcmCore) (k : String) (version balance : Int) :
    Decidable (core.Holds k version balance) :=
  decidable_of_iff ((core.balances.find k).any fun row =>
    decide (row.version = version) && decide (row.balance = balance)) (by
      simp [Holds, Option.any_eq_true])

/-- A row that has moved on has done so after any further calls. -/
theorem MovedOn.after (moved : core.MovedOn k version balance) :
    (core.after calls).MovedOn k version balance := by
  induction calls generalizing core with
  | nil => exact moved
  | cons call rest ih => exact ih (moved.step call)

/-- A row has moved on from what it showed at any moment of a history. -/
theorem movedOn_of_history {made : HcmCore × HcmCall} (member : made ∈ core.history calls)
    (holds : made.1.Holds k version balance) : (core.after calls).MovedOn k version balance := by
  -- The state of a call shows the row, and the calls from there on move it on.
  induction calls generalizing core with
  | nil => cases member
  | cons call rest ih =>
    rcases List.mem_cons.mp member with rfl | later
    · exact MovedOn.after (Or.inl holds)
    · exact ih later

/-- What is told of a row is what it shows when the read is served. -/
theorem holds_of_serve {after : HcmCore} {now : Time} {employeeId locationId : String}
    {row : HcmBalanceRow}
    (served : core.serve now (.getBalance employeeId locationId) = (after, .ok (.row row))) :
    after.Holds (key employeeId locationId) row.version row.balance := by
  simp only [serve, inProcessHcmClient] at served
  -- A read that throws tells no row.
  cases read : core.getBalance now employeeId locationId with
  | error error =>
    rw [read] at served
    cases served
  | ok pair =>
    rw [read] at served
    cases served
    exact ⟨_, getBalance_found read, rfl, rfl⟩

end HcmCore

namespace Deployment

variable {before after deployment : Deployment} {action : DeploymentAction} {k : String}
  {version balance : Int}

/-- The states the server has been in. -/
def moments (deployment : Deployment) : List HcmCore :=
  deployment.account.map Prod.fst ++ [deployment.exchange.core]

/-- At some moment a row showed a version and a balance. -/
def Held (deployment : Deployment) (k : String) (version balance : Int) : Prop :=
  ∃ core ∈ deployment.moments, core.Holds k version balance

instance (deployment : Deployment) (k : String) (version balance : Int) :
    Decidable (deployment.Held k version balance) :=
  inferInstanceAs (Decidable (∃ core ∈ deployment.moments, core.Holds k version balance))

/-- No reset, and what comes by itself is what a row once showed, however late and however often. -/
def Authentic (deployment : Deployment) : DeploymentAction → Prop
  | .control .reset _ => False
  | .ingest _ _ update =>
    deployment.Held (key update.employeeId update.locationId) update.version update.balance
  | _ => True

instance (deployment : Deployment) :
    (action : DeploymentAction) → Decidable (deployment.Authentic action)
  | .control .reset _ => .isFalse id
  | .ingest _ _ update => inferInstanceAs (Decidable (deployment.Held
    (key update.employeeId update.locationId) update.version update.balance))
  | .control (.faults _) _ | .control (.seed _ _ _) _ | .control (.adjust _ _ _) _
  | .operate _ | .deliver _ | .hear | .read _ _ _ _ | .finishRead _ _ _
  | .arrive _ _ | .respond _ _ | .fail _ _ _ | .lose _ _ _ | .crash => .isTrue trivial

/-- An authentic step is no reset. -/
theorem Authentic.withoutReset (permitted : deployment.Authentic action) :
    deployment.WithoutReset action := by
  -- Of the controls only the reset is excluded.
  cases action with
  | control control now =>
    cases control with
    | reset => exact permitted
    | faults | seed | adjust => exact trivial
  | _ => exact trivial

/-- A pair is fetched from the corpus, and its balance and its version are the defaults. -/
structure Blank (employeeId locationId : String) (version balance : Int) : Prop where
  leads : (HcmRequest.getBalance employeeId locationId).route = .corpus
  -- No other employee is fetched from there.
  above : employeeId = ".."
  version : version = 0
  balance : balance = 0

/-- Every balance that is cached, or on its way to be, was held once, unless it is blank. -/
structure Sourced (deployment : Deployment) : Prop where
  cached : ∀ balance ∈ deployment.service.store.balances.rows,
    deployment.Held (key balance.employeeId balance.locationId) balance.lastReconciledVersion
      balance.hcmBalance ∨
      Blank balance.employeeId balance.locationId balance.lastReconciledVersion balance.hcmBalance
  served : ∀ made ∈ deployment.exchange.calls, ∀ employeeId locationId row,
    made.call = .getBalance employeeId locationId → made.served = some (.ok (.row row)) →
      deployment.Held (key employeeId locationId) row.version row.balance
  -- A read waits for the call that asks about its pair.
  asked : ∀ read ∈ deployment.reads, ∃ made, deployment.exchange.calls[read.call]? = some made ∧
    made.call = .getBalance read.employeeId read.locationId

/-- What is told to a read was held when the read was served. -/
theorem Sourced.told (sourced : deployment.Sourced) (linked : deployment.Linked)
    {employeeId locationId : String} {row : HcmBalanceRow}
    (told : deployment.Told employeeId locationId row) :
    deployment.Held (key employeeId locationId) row.version row.balance := by
  obtain ⟨read, listed, rfl, rfl, known⟩ := told
  obtain ⟨made, found, called⟩ := sourced.asked read listed
  obtain ⟨there, here, answered⟩ := Option.bind_eq_some_iff.mp known
  cases found.symm.trans here
  -- An answer comes through as the server has given it.
  obtain ⟨_, linear⟩ := linked.linear
  have member := List.mem_of_getElem? found
  exact sourced.served made member _ _ row called ((linear.faithful made member).row answered)

/-- Only a pair that is routed to the corpus is told the corpus. -/
theorem Sourced.misled (sourced : deployment.Sourced) (linked : deployment.Linked)
    {employeeId locationId : String} (misled : deployment.Misled employeeId locationId) :
    (HcmRequest.getBalance employeeId locationId).route = .corpus := by
  -- The read waits for a call about its pair, and that call was told the corpus.
  obtain ⟨read, listed, rfl, rfl, rows, known⟩ := misled
  obtain ⟨made, found, called⟩ := sourced.asked read listed
  obtain ⟨there, here, answered⟩ := Option.bind_eq_some_iff.mp known
  cases found.symm.trans here
  obtain ⟨_, linear⟩ := linked.linear
  exact called ▸ (linear.faithful made (List.mem_of_getElem? found)).corpus answered

/-- Without a reset, every step keeps the moments that there have been. -/
theorem moments_of_step (linked : before.Linked) (kept : before.WithoutReset action)
    (taken : before.step action = some after) :
    ∀ core ∈ before.moments, core ∈ after.moments := by
  -- The service and a new client leave the account and the server.
  have unmoved {client : HttpHcmClient}
      (exchange : after.exchange = { before.exchange with client }) :
      ∀ core ∈ before.moments, core ∈ after.moments := by
    rw [moments, moments, account, account, exchange]
    exact fun _ member => member
  have exchanged {exchangeAction : ExchangeAction}
      (permitted : before.exchange.WithoutReset exchangeAction)
      (moved : before.exchange.step exchangeAction = some after.exchange) :
      ∀ core ∈ before.moments, core ∈ after.moments := by
    intro core member
    rcases account_of_step linked permitted moved with ⟨same, unserved⟩ | ⟨call, grown, _⟩
    · rwa [moments, same, unserved]
    · -- The state the call was made in is the last one in the account.
      rw [moments, grown, List.map_append]
      exact List.mem_append_left _ member
  cases step_effect taken with
  | serves _ _ _ _ exchange => exact unmoved exchange
  | hears _ _ _ _ _ _ _ exchange => exact unmoved exchange
  | gives _ exchange => exact unmoved exchange
  | crashes _ _ exchange => exact unmoved exchange
  | sends _ _ _ _ _ _ moved => exact exchanged (kept.exchange fun _ _ same => by cases same) moved
  | asks _ _ _ moved => exact exchanged (kept.exchange fun _ _ same => by cases same) moved
  | passes _ _ controls moved => exact exchanged (kept.exchange controls) moved

/-- After every step, what is cached was held once. -/
theorem Sourced.cached_step (sourced : before.Sourced) (linked : before.Linked)
    (permitted : before.Authentic action) (taken : before.step action = some after)
    (still : ∀ {k version balance}, before.Held k version balance → after.Held k version balance)
    {balance : Balance} (cached : balance ∈ after.service.store.balances.rows) :
    after.Held (key balance.employeeId balance.locationId) balance.lastReconciledVersion
      balance.hcmBalance ∨
      Blank balance.employeeId balance.locationId balance.lastReconciledVersion
        balance.hcmBalance := by
  -- What was cached before was held before, or is blank still.
  have earlier (old : balance ∈ before.service.store.balances.rows) :=
    (sourced.cached balance old).imp_left still
  -- A step that neither loads nor reconciles writes no balance.
  have unwritten {serviceAction : ServiceAction}
      (moved : before.service.step serviceAction = some after.service)
      (loads : ∀ employeeId locationId row,
        serviceAction ≠ .insertBalance employeeId locationId row)
      (reconciles : ∀ uuid now update, serviceAction ≠ .reconcileKey uuid now update) :
      after.Held (key balance.employeeId balance.locationId) balance.lastReconciledVersion
        balance.hcmBalance ∨
        Blank balance.employeeId balance.locationId balance.lastReconciledVersion
          balance.hcmBalance := by
    rcases Service.cached_of_step linked.coherent moved cached with
      old | ⟨_, inserted, _⟩ | ⟨_, _, _, reconciled, _⟩
    · exact earlier old
    · exact absurd inserted (loads _ _ _)
    · exact absurd reconciled (reconciles _ _ _)
  cases step_effect taken with
  | serves serviceAction _ _ moved _ _ _ _ inserts reconciles =>
    rcases Service.cached_of_step linked.coherent moved cached with
      old | ⟨row, inserted, worth, told⟩ | ⟨uuid, now, update, reconciled, employee, location,
        worth, told⟩
    · exact earlier old
    · rw [worth, told]
      -- What is loaded is the row that was told, or the defaults without one.
      rcases inserts _ _ row inserted with known | ⟨misled, now, rfl⟩
      · exact Or.inl (still (sourced.told linked known))
      · have leads := sourced.misled linked misled
        exact Or.inr ⟨leads, above_of_route leads, rfl, rfl⟩
    · rw [employee, location, worth, told]
      -- An update comes by itself, as what the row once showed, or from a read.
      rcases reconciles uuid now update reconciled with rfl | ⟨_, _, row, rfl, known⟩
      · exact Or.inl (still permitted)
      · exact Or.inl (still (sourced.told linked known))
  | hears _ _ _ _ _ _ moved => exact unwritten moved (by simp) (by simp)
  | crashes _ moved => exact unwritten moved (by simp) (by simp)
  | sends _ _ _ _ _ _ _ service => exact earlier (service ▸ cached)
  | asks _ _ _ _ service => exact earlier (service ▸ cached)
  | passes _ _ _ _ service => exact earlier (service ▸ cached)
  | gives service => exact earlier (service ▸ cached)

/-- A step of the client, the network or the server serves reads with what their rows show. -/
theorem Sourced.served_step (sourced : before.Sourced) {exchangeAction : ExchangeAction}
    (taken : before.exchange.step exchangeAction = some after.exchange)
    (still : ∀ {k version balance}, before.Held k version balance → after.Held k version balance)
    {made : HttpCall} (member : made ∈ after.exchange.calls) {employeeId locationId : String}
    {row : HcmBalanceRow} (called : made.call = .getBalance employeeId locationId)
    (served : made.served = some (.ok (.row row))) :
    after.Held (key employeeId locationId) row.version row.balance := by
  obtain ⟨index, found⟩ := List.getElem?_of_mem member
  obtain ⟨old, stored, same, _, earlier | ⟨_, now, answered⟩⟩ :=
    Exchange.served_of_step taken found served
  · exact still (sourced.served old (List.mem_of_getElem? stored) _ _ row (same.trans called)
      earlier)
  · -- The row shows it in the state that the read leaves.
    rw [same, called] at answered
    have now_ : after.exchange.core ∈ after.moments :=
      List.mem_append_right _ (List.mem_singleton_self _)
    exact ⟨_, now_, HcmCore.holds_of_serve answered⟩

/-- Every authentic step keeps the sources of the cached balances. -/
theorem step_sourced (sourced : before.Sourced) (linked : before.Linked)
    (permitted : before.Authentic action) (taken : before.step action = some after) :
    after.Sourced := by
  have grown := moments_of_step linked permitted.withoutReset taken
  have still {k : String} {version balance : Int} (held : before.Held k version balance) :
      after.Held k version balance := by
    obtain ⟨core, member, holds⟩ := held
    exact ⟨core, grown core member, holds⟩
  -- Without a step of the exchange, the calls are the same.
  have uncalled (calls : after.exchange.calls = before.exchange.calls)
      (reads : ∀ read ∈ after.reads, read ∈ before.reads) : after.Sourced := by
    refine ⟨fun _ => sourced.cached_step linked permitted taken still, ?_, ?_⟩
    · rw [calls]
      exact fun made member _ _ row called served =>
        still (sourced.served made member _ _ row called served)
    · rw [calls]
      exact fun read listed => sourced.asked read (reads read listed)
  -- With one, every read still finds the call that was made for it.
  have exchanged {exchangeAction : ExchangeAction}
      (moved : before.exchange.step exchangeAction = some after.exchange)
      (asked : ∀ read ∈ after.reads, read ∈ before.reads ∨
        ∃ made, after.exchange.calls[read.call]? = some made ∧
          made.call = .getBalance read.employeeId read.locationId) : after.Sourced := by
    refine ⟨fun _ => sourced.cached_step linked permitted taken still,
      fun made member _ _ row called served =>
        sourced.served_step moved still member called served, fun read listed => ?_⟩
    rcases asked read listed with old | new
    · obtain ⟨made, found, called⟩ := sourced.asked read old
      obtain ⟨later, there, same⟩ := Exchange.call_kept moved found
      exact ⟨later, there, same.trans called⟩
    · exact new
  cases step_effect taken with
  | serves _ _ _ _ exchange _ _ reads =>
    exact uncalled (congrArg Exchange.calls exchange) reads
  | hears _ _ _ _ _ _ _ exchange _ _ reads =>
    exact uncalled (congrArg Exchange.calls exchange) (by rw [reads]; exact fun _ kept => kept)
  | gives _ exchange _ _ reads => exact uncalled (congrArg Exchange.calls exchange) reads
  | crashes _ _ exchange _ _ reads => exact uncalled (by rw [exchange]) (by simp [reads])
  | sends _ _ _ _ _ _ moved _ _ _ reads =>
    exact exchanged moved fun read listed => Or.inl (reads ▸ listed)
  | passes _ _ _ moved _ _ _ reads =>
    exact exchanged moved fun read listed => Or.inl (reads ▸ listed)
  | asks employeeId locationId now moved _ _ _ reads =>
    refine exchanged moved fun read listed => (reads read listed).imp_right ?_
    rintro ⟨number, rfl, rfl⟩
    -- The new read waits for the call that was made for it.
    obtain ⟨made, added, called⟩ := Exchange.called moved
    refine ⟨made, ?_, called⟩
    rw [added, number, List.getElem?_append_right le_rfl, Nat.sub_self]
    rfl

variable {failureThreshold cooldownMs : Option Int}

/-- In every state that is reached by authentic steps, what is cached was held once. -/
theorem Reachable.sourced
    (reached : Deployment.Reachable Authentic failureThreshold cooldownMs deployment) :
    deployment.Sourced := by
  -- At first nothing is cached, called or read.
  induction reached with
  | start =>
    exact ⟨fun _ member => (by cases member), fun _ member => (by cases member),
      fun _ member => (by cases member)⟩
  | step earlier permitted taken sourced =>
    have linked := Deployment.Reachable.linked
      (earlier.mono fun _ _ permitted => Authentic.withoutReset permitted)
    exact step_sourced sourced linked permitted taken

/-- Every row has moved on from what it showed at any moment. -/
theorem Linked.movedOn (linked : deployment.Linked) (held : deployment.Held k version balance) :
    deployment.exchange.core.MovedOn k version balance := by
  -- The moments are the states of the account and the one that is reached.
  obtain ⟨core, member, holds⟩ := held
  rcases List.mem_append.mp member with earlier | now
  · obtain ⟨made, listed, rfl⟩ := List.mem_map.mp earlier
    rw [← linked.core_eq]
    exact HcmCore.movedOn_of_history listed holds
  · exact Or.inl (List.mem_singleton.mp now ▸ holds)

/-- A step keeps every cached pair, with a row that succeeds the one before. -/
theorem step_succeeds (coherent : before.service.Coherent)
    (taken : before.step action = some after) {pair : String × String} {old : Balance}
    (found : before.service.store.balances.find pair = some old) :
    ∃ new, after.service.store.balances.find pair = some new ∧ old.Succeeds new := by
  -- The cache is written by the service only.
  rcases step_service taken with same | ⟨serviceAction, served⟩
  · exact ⟨old, same ▸ found, .refl old⟩
  · exact Service.step_succeeds coherent served found

/-- A cached balance that follows its row. -/
structure Follows (deployment : Deployment) (balance : Balance) : Prop where
  held : deployment.Held (key balance.employeeId balance.locationId)
    balance.lastReconciledVersion balance.hcmBalance
  behind : balance.lastReconciledVersion ≤
    deployment.exchange.core.versionOf (key balance.employeeId balance.locationId)
  -- At the version of the row it is the balance of the row.
  current : balance.lastReconciledVersion =
      deployment.exchange.core.versionOf (key balance.employeeId balance.locationId) →
    balance.hcmBalance =
      deployment.exchange.core.balanceOf (key balance.employeeId balance.locationId)

/-- What a row held, it has moved on from. -/
theorem Linked.follows (linked : deployment.Linked) {balance : Balance}
    (held : deployment.Held (key balance.employeeId balance.locationId)
      balance.lastReconciledVersion balance.hcmBalance) : deployment.Follows balance := by
  -- A row shows one balance at a version, and no lower version later.
  rcases linked.movedOn held with ⟨row, found, version, worth⟩ | above
  · refine ⟨held, ?_, fun _ => ?_⟩
    · rw [HcmCore.versionOf_of_find found, version]
    · rw [HcmCore.balanceOf_of_find found, worth]
  · exact ⟨held, above.le, fun same => absurd same above.ne⟩

/--
Over a network, every cached balance is one that its row held, and is never ahead of the row, unless
its ids lead to the corpus and it holds the defaults.

Every step, also one in which the process of the service starts again, keeps what is cached or
replaces it under a higher version.
-/
theorem snapshots_follow_over_http
    (reached : Deployment.Reachable Authentic failureThreshold cooldownMs deployment) :
    (∀ balance ∈ deployment.service.store.balances.rows, deployment.Follows balance ∨
      Blank balance.employeeId balance.locationId balance.lastReconciledVersion
        balance.hcmBalance) ∧
      ∀ action after, deployment.step action = some after →
        ∀ pair old, deployment.service.store.balances.find pair = some old →
          ∃ new, after.service.store.balances.find pair = some new ∧ old.Succeeds new := by
  -- Authentic steps are no resets, so the two sides are linked.
  have linked := Deployment.Reachable.linked
    (reached.mono fun _ _ permitted => Authentic.withoutReset permitted)
  constructor
  · intro balance cached
    exact (reached.sourced.cached balance cached).imp_left linked.follows
  · intro action after taken pair old found
    exact step_succeeds linked.coherent taken found

/--
Two first loads of which the older one is told last, an update that is late, and a restart, after
which a first load is routed to the corpus.
-/
def racingReads : List DeploymentAction :=
  [.control (.seed "e" "l" 10) 0, .read .firstLoad "e" "l" 0, .read .firstLoad "e" "l" 0,
    .arrive 0 0, .control (.adjust "e" "l" 5) 1, .arrive 1 1, .respond 1 2,
    .finishRead 1 "unused" 2, .respond 0 3, .finishRead 0 "unused" 3,
    .ingest "late" 4 ⟨"e", "l", 10, 1, some 0⟩, .read .reconcileAll "e" "l" 5, .crash, .arrive 2 6,
    .read .firstLoad ".." "Corpus" 7, .arrive 3 8, .respond 3 9, .finishRead 0 "unused" 9]

/-- After that run the newer of the two balances is cached, and it is the one of the row. -/
theorem snapshots_follow_over_http_racing : ∃ deployment balance,
    deployment.service.store.balances.find ("e", "l") = some balance ∧ balance.hcmBalance = 15 ∧
      deployment.service.store.balances.rows.length = 2 ∧ deployment.exchange.log.length = 5 ∧
      Follows deployment balance := by
  have executed : (Runs.run step (fun deployment action => decide (deployment.Authentic action))
      (init none none) racingReads).map (fun deployment =>
        decide ((deployment.service.store.balances.find ("e", "l")).any fun balance =>
          balance.hcmBalance = 15) &&
          decide (deployment.service.store.balances.rows.length = 2) &&
          decide (deployment.exchange.log.length = 5)) = some true := by
    decide +kernel
  obtain ⟨deployment, reached, ended⟩ :=
    Runs.exists_reachable_of_run (fun _ _ permitted => of_decide_eq_true permitted) executed
  simp only [Bool.and_eq_true, decide_eq_true_eq] at ended
  obtain ⟨balance, found, worth⟩ := (Option.any_eq_true _ _).mp ended.1.1
  have worth := of_decide_eq_true worth
  refine ⟨deployment, balance, found, worth, ended.1.2, ended.2, ?_⟩
  -- A balance of fifteen is no default.
  have either := (snapshots_follow_over_http reached).1 balance (Table.mem_of_find found)
  exact either.resolve_right fun blank => absurd (worth.symm.trans blank.balance) (by decide)

end Deployment

end TimeOff
