import TimeOff.Balance.Available
import TimeOff.Balance.Watermark
import TimeOff.Propagation.Orderly

/-! The available balance never promises more days than the system of record holds. -/

namespace TimeOff

/-- A pair without separators shares its key with no other pair. -/
theorem key_injective {employeeId locationId otherEmployee otherLocation : String}
    (employee : '|' ∉ employeeId.toList) (location : '|' ∉ locationId.toList)
    (same : key employeeId locationId = key otherEmployee otherLocation) :
    employeeId = otherEmployee ∧ locationId = otherLocation := by
  -- The first separator ends the employee, and what follows it is the location.
  have letters := congrArg String.toList same
  simp only [key, String.toList_append, List.append_assoc, List.singleton_append,
    show "|".toList = ['|'] from rfl] at letters
  obtain ⟨left, _, right⟩ := (List.append_cons_inj_of_notMem employee location).mp letters
  exact ⟨String.toList_inj.mp left, String.toList_inj.mp right⟩

namespace HcmCore

variable {before after : HcmCore} {k : String}

/-- A call does not lower a balance, unless it writes the first row of its key. -/
def Raises (before after : HcmCore) (k : String) : Prop :=
  before.balanceOf k ≤ after.balanceOf k ∨ after.versionOf k ≤ 1

/-- What a raising call posts is no loss. -/
theorem Raises.posting (raises : Raises before after k) {cause : Option String} {posting : Posting}
    (member : posting ∈ postingBetween before after k cause) :
    0 ≤ posting.delta ∨ posting.version ≤ 1 := by
  unfold postingBetween at member
  -- There is a posting only where the balance or its version has changed.
  split at member
  · cases member
  · rw [List.mem_singleton.mp member]
    exact raises.imp Int.sub_nonneg_of_le id

/-- Provisioning raises a balance when the new one is not below the old one. -/
theorem seed_raises (core : HcmCore) (now : Time) {employeeId locationId : String} {balance : Int}
    (above : ∀ row, core.balances.find (TimeOff.key employeeId locationId) = some row →
      row.balance ≤ balance) :
    Raises core (core.seed now employeeId locationId balance).1
      (TimeOff.key employeeId locationId) := by
  have written : (core.seed now employeeId locationId balance).1.balances.find
      (TimeOff.key employeeId locationId) =
        some (core.seedRow now employeeId locationId balance) := Table.find_save_self _ _
  -- A new row has the first version, and an old one is raised.
  cases found : core.balances.find (TimeOff.key employeeId locationId) with
  | none =>
    apply Or.inr
    rw [versionOf_of_find written]
    simp [seedRow, found]
  | some row =>
    apply Or.inl
    rw [balanceOf_of_find written, balanceOf_of_find found]
    exact above row found

/-- An adjustment that adds raises the balance. -/
theorem adjust_raises {now : Time} {employeeId locationId : String} {delta : Int}
    {row : HcmBalanceRow}
    (adjusted : before.adjust now employeeId locationId delta = .ok (after, row))
    (adds : 0 ≤ delta) : Raises before after (TimeOff.key employeeId locationId) := by
  -- The row of the key is the stored one with the delta added.
  obtain ⟨stored, found, named, balance, _, rfl⟩ := adjust_ok adjusted
  have written : (before.balances.save row).find (TimeOff.key employeeId locationId) = some row :=
    named ▸ Table.find_save_self before.balances row
  apply Or.inl
  rw [balanceOf_of_find found, balanceOf_of_find written, balance]
  exact Int.le_add_of_nonneg_right adds

/-- A read raises the balance: it leaves the row alone, or writes the first one. -/
theorem getBalance_raises {now : Time} {employeeId locationId : String} {row : HcmBalanceRow}
    (answered : before.getBalance now employeeId locationId = .ok (after, row)) :
    Raises before after (TimeOff.key employeeId locationId) := by
  -- A row that is there is not written, and one that is not is the first of its key.
  rcases getBalance_ok answered with ⟨_, rfl⟩ | ⟨absent, created⟩
  · exact Or.inl le_rfl
  · cases created
    exact before.seed_raises now (by simp [absent])

end HcmCore

namespace System

/-- What was posted without a message is no loss, and every other posting names its message. -/
structure Raised (system : System) : Prop where
  causeless : ∀ posting ∈ system.history.postings, posting.cause = none →
    0 ≤ posting.delta ∨ posting.version ≤ 1
  caused : ∀ posting ∈ system.history.postings, ∀ k, posting.cause = some k →
    ∃ id, ∃ type : OutboxType, k = type.key id

variable {before after : System} {action : Action}

/-- A call that posts without a message keeps the postings raised, when it raises the balance. -/
theorem Raised.observed (raised : before.Raised) {k : String}
    (postings : after.history.postings =
      before.history.postings ++ postingBetween before.hcm after.hcm k none)
    (raises : HcmCore.Raises before.hcm after.hcm k) : after.Raised := by
  -- The old postings are raised, and the new one raises its key.
  refine ⟨fun posting member causeless => ?_, fun posting member cause caused => ?_⟩
  · rcases List.mem_append.mp (postings ▸ member) with old | new
    · exact raised.causeless posting old causeless
    · exact raises.posting new
  · rcases List.mem_append.mp (postings ▸ member) with old | new
    · exact raised.caused posting old cause caused
    · cases (rowKey_of_mem_postingBetween new).2.2.symm.trans caused

/-- An orderly step keeps the postings raised. -/
theorem step_raised (raised : before.Raised) (coherent : before.service.Coherent)
    (taken : before.step action = some after) (orderly : before.Orderly action) : after.Raised := by
  -- Most steps post nothing.
  have quiet (postings : after.history.postings = before.history.postings) : after.Raised :=
    ⟨by rw [postings]; exact raised.causeless, by rw [postings]; exact raised.caused⟩
  cases step_effect taken with
  | operates _ _ _ _ _ _ history => exact quiet (by rw [history])
  | loses _ _ _ _ _ _ history => exact quiet (by rw [history])
  | inserts _ _ _ _ _ _ _ _ history => exact quiet (by rw [history])
  | reconciles _ _ _ _ _ _ _ _ _ history => exact quiet (by rw [history])
  | crashes _ _ _ _ _ history => exact quiet (by rw [history])
  | configures _ _ _ _ _ _ history => exact quiet (by rw [history])
  | reads _ _ _ _ answered _ _ history =>
    exact raised.observed (by rw [history]; rfl) (HcmCore.getBalance_raises answered)
  | seeds _ _ _ now same hcm _ _ _ history =>
    subst same
    exact raised.observed (by rw [history]; rfl) (hcm ▸ before.hcm.seed_raises now orderly)
  | adjusts _ _ _ _ _ same adjusted _ _ _ history =>
    subst same
    exact raised.observed (by rw [history]; rfl) (HcmCore.adjust_raises adjusted orderly)
  | delivers msg rest _ _ _ _ due _ _ _ _ _ _ history =>
    -- A delivery posts under the key of its message, which names the request.
    have held : msg ∈ before.service.processor.held := by simp [OutboxProcessor.held, due]
    obtain ⟨_, shown⟩ := coherent.shown msg.requestId
    obtain ⟨_, request, _, _, own⟩ := coherent.of_held held shown
    rw [History.observe] at history
    refine ⟨fun posting member causeless => ?_, fun posting member cause caused => ?_⟩
    · rcases List.mem_append.mp (by simpa [history] using member) with old | new
      · exact raised.causeless posting old causeless
      · cases (rowKey_of_mem_postingBetween new).2.2.symm.trans causeless
    · rcases List.mem_append.mp (by simpa [history] using member) with old | new
      · exact raised.caused posting old cause caused
      · obtain rfl := Option.some.inj ((rowKey_of_mem_postingBetween new).2.2.symm.trans caused)
        exact ⟨_, _, own.key⟩

/-- In every orderly run the postings are raised. -/
theorem Reachable.raised {system : System} (reached : System.Reachable Orderly system) :
    system.Raised := by
  refine Runs.Reachable.invariant ?_ ?_ reached
  · -- At first nothing is posted.
    exact ⟨fun _ member => (nomatch member), fun _ member => (nomatch member)⟩
  · intro before action after earlier raised orderly taken
    exact step_raised raised (System.Reachable.service earlier).coherent taken orderly

end System

/-- What a posting has taken from a key after a version. -/
def Posting.owed (k : String) (version : Int) (posting : Posting) : Int :=
  if posting.rowKey = k ∧ version < posting.version then -posting.delta else 0

/-- What was posted since a version is what was not taken since. -/
theorem History.since_eq (history : History) (k : String) (version : Int) :
    history.since k version = -(history.postings.map (·.owed k version)).sum := by
  rw [since, Grouping.sum_filter, List.sum_neg, List.map_map]
  congr 1
  apply List.map_congr_left
  intro posting _
  -- A posting counts with its delta from the version on, and not before.
  by_cases later : posting.rowKey = k ∧ version < posting.version <;> simp [Posting.owed, later]

open Classical in
/-- The request whose message caused a posting. -/
noncomputable def Posting.owner (posting : Posting) : Option String :=
  posting.cause.bind fun k =>
    if named : ∃ id, ∃ type : OutboxType, k = type.key id then some named.choose else none

namespace Posting

variable {posting : Posting} {id : String}

/-- A posting is owned by the request that one of its messages names. -/
theorem owner_eq_some : posting.owner = some id ↔
    posting.cause = some (debitKey id) ∨ posting.cause = some (creditKey id) := by
  unfold owner
  cases cause : posting.cause with
  | none => simp
  | some k =>
    rw [Option.bind_some]
    constructor
    · intro owned
      split at owned
      · rename_i named
        -- The key of the message was built from the id that is chosen.
        obtain ⟨type, same⟩ := named.choose_spec
        rw [Option.some.inj owned] at same
        cases type with
        | debit => exact Or.inl (congrArg some same)
        | credit => exact Or.inr (congrArg some same)
      · cases owned
    · intro names
      have named : ∃ other, ∃ type : OutboxType, k = type.key other := by
        rcases names with same | same
        · exact ⟨id, .debit, Option.some.inj same⟩
        · exact ⟨id, .credit, Option.some.inj same⟩
      rw [dif_pos named]
      obtain ⟨type, same⟩ := named.choose_spec
      apply congrArg some
      rcases names with own | own
      · have both : type.key named.choose = OutboxType.debit.key id :=
          same.symm.trans (Option.some.inj own)
        exact (OutboxType.key_injective both).2
      · have both : type.key named.choose = OutboxType.credit.key id :=
          same.symm.trans (Option.some.inj own)
        exact (OutboxType.key_injective both).2

end Posting

/-- What the postings of a request have taken is what its debit and its credit have taken. -/
theorem History.groupSum_owed (history : History) (id : String) (k : String) (version : Int) :
    Grouping.groupSum history.postings Posting.owner (·.owed k version) (some id) =
      ((history.changesBy (debitKey id)).map (·.owed k version)).sum +
        ((history.changesBy (creditKey id)).map (·.owed k version)).sum := by
  simp only [Grouping.groupSum, changesBy, Grouping.sum_filter, ← List.sum_map_add]
  congr 1
  apply List.map_congr_left
  intro posting _
  simp only [Posting.owner_eq_some]
  -- A posting of nothing takes nothing, and no posting has both causes.
  by_cases nothing : posting.delta = 0
  · simp [Posting.owed, nothing]
  · by_cases debit : posting.cause = some (debitKey id)
    · simp [nothing, debit, debitKey_ne_creditKey]
    · simp [nothing, debit]

namespace System

variable {system : System} {request : TimeOffRequest} {k : String} {version : Int}

/-- A posting of a request takes its days from the key of its pair, if it is later. -/
theorem owed_posting (request : TimeOffRequest) (type : OutboxType) (stamp : Int) :
    (request.posting type stamp).owed k version =
      if key request.employeeId request.locationId = k ∧ version < stamp
      then -type.signed request.days else 0 := rfl

/-- A credit takes nothing. -/
theorem owed_credit_nonpos {progress : Progress} (posted : system.Posted)
    (found : system.service.store.requests.find request.id = some request)
    (shown : (system.service.store.dossier request.id).Shows progress)
    (coupled : Coupled system.hcm.applied request.id progress) (k : String) (version : Int) :
    ((system.history.changesBy (creditKey request.id)).map (·.owed k version)).sum ≤ 0 := by
  have credits := posted.changes found .credit
  rw [OutboxType.key] at credits
  rcases credits with none_ | ⟨entry, acknowledged, _, one⟩
  · simp [none_]
  · -- A credit that is applied has given the days of its request back.
    have positive : 0 < request.days :=
      days_pos_of_applied found shown coupled (show system.hcm.applied.find
        (OutboxType.credit.key request.id) = _ from acknowledged)
    rw [one, List.map_singleton, List.sum_singleton, owed_posting]
    split
    · simpa [OutboxType.signed] using positive.le
    · exact le_rfl

/-- The credit of a refunded request came after its debit, and gives back what that one took. -/
theorem owed_credit_refunded {stamp : Int} {absorbed : Bool} (posted : system.Posted)
    (honest : Honest system.hcm)
    (found : system.service.store.requests.find request.id = some request)
    (coupled : Coupled system.hcm.applied request.id (.refunded stamp absorbed))
    {entry : AppliedEntry}
    (acknowledged : system.hcm.applied.find (debitKey request.id) = some entry)
    (later : version < entry.ack.version) :
    ((system.history.changesBy (creditKey request.id)).map
      (·.owed (key request.employeeId request.locationId) version)).sum = -request.days := by
  obtain ⟨refund, acknowledgedToo⟩ :=
    Option.isSome_iff_exists.mp (coupled.credited stamp absorbed rfl)
  have effective := honest.effective refund (Table.mem_of_find acknowledgedToo)
  obtain ⟨again, foundAgain, earlier⟩ :=
    posted.ordered request.id refund acknowledgedToo effective
  cases acknowledged.symm.trans foundAgain
  -- The credit has posted the days of the request, at its own version.
  have credits : system.history.changesBy (OutboxType.credit.key request.id) = _ :=
    posted.effective _ request found .credit refund acknowledgedToo effective
  rw [OutboxType.key] at credits
  rw [credits, List.map_singleton, List.sum_singleton, owed_posting,
    if_pos ⟨rfl, later.trans earlier⟩]
  simp only [OutboxType.signed]

/-- A later debit that was applied is still taken off, or has been credited later still. -/
theorem owed_le_takes {progress : Progress} (posted : system.Posted) (honest : Honest system.hcm)
    (marked : system.service.Marked)
    (found : system.service.store.requests.find request.id = some request)
    (shown : (system.service.store.dossier request.id).Shows progress)
    (coupled : Coupled system.hcm.applied request.id progress)
    (free : ¬system.Stranded request.id)
    (mark : system.service.store.watermark request.pair = version) :
    ((system.history.changesBy (debitKey request.id)).map
        (·.owed (key request.employeeId request.locationId) version)).sum +
      ((system.history.changesBy (creditKey request.id)).map
        (·.owed (key request.employeeId request.locationId) version)).sum ≤
      progress.takes request.days := by
  have credit := owed_credit_nonpos posted found shown coupled
    (key request.employeeId request.locationId) version
  have takes : 0 ≤ progress.takes request.days := by
    by_cases empty : progress.entries = []
    · simp [Progress.takes, empty]
    · exact Progress.takes_nonneg (Store.positive_of_entries shown found empty).le
  have debits := posted.changes found .debit
  rw [OutboxType.key] at debits
  rcases debits with none_ | ⟨entry, acknowledged, _, one⟩
  · simp only [none_, List.map_nil, List.sum_nil]
    omega
  · have applied : (system.hcm.applied.find (debitKey request.id)).isSome = true := by
      rw [acknowledged]
      rfl
    rw [one, List.map_singleton, List.sum_singleton, owed_posting]
    by_cases later : version < entry.ack.version
    · have stamped {stamp : Int} (known : progress.debitVersion = some stamp) :
          stamp = entry.ack.version := by
        obtain ⟨again, found, same⟩ := coupled.debited stamp known
        cases acknowledged.symm.trans found
        exact same.symm
      have above {stamp : Int} (absorbed : progress.absorbedVersion = some stamp) :
          stamp ≤ version := mark ▸ marked _ progress request stamp shown found absorbed
      simp only [later, and_self, if_true, OutboxType.signed, neg_neg]
      cases progress with
      | unknown | draft | withdrawn | held | rejected | released | failed =>
        -- A debit that was never sent, or was refused, is not applied.
        have unapplied := coupled.unsent .debit id
        rw [OutboxType.key] at unapplied
        simp [unapplied] at applied
      | approved debit =>
        simp only [Progress.takes_eq]
        omega
      | committed stamp absorbed | cancelling stamp absorbed credit =>
        cases absorbed with
        | false =>
          simp only [Progress.takes_eq, Bool.false_eq_true, if_false]
          omega
        | true =>
          -- An absorbed commit is not later than the watermark.
          have known := stamped rfl
          have low := above rfl
          omega
      | refunded stamp absorbed =>
        have back := owed_credit_refunded posted honest found coupled acknowledged later
        simp only [Progress.takes_eq]
        omega
      | abandoned debit => exact absurd ⟨⟨_, shown, trivial⟩, applied⟩ free
      | overtaken stamp absorbed => exact absurd ⟨⟨_, shown, trivial⟩, applied⟩ free
    · simp only [later, and_false, if_false]
      omega

/-- What a request has taken from a pair since its watermark, its entries still take. -/
theorem owed_le_taken {employeeId locationId : String} (posted : system.Posted)
    (honest : Honest system.hcm) (marked : system.service.Marked)
    (linked : system.Linked) (coherent : system.service.Coherent)
    (free : ∀ id, ¬system.Stranded id) (employee : '|' ∉ employeeId.toList)
    (location : '|' ∉ locationId.toList)
    (mark : system.service.store.watermark (employeeId, locationId) = version) (id : String) :
    Grouping.groupSum system.history.postings Posting.owner
        (·.owed (key employeeId locationId) version) (some id) ≤
      Grouping.groupSum system.service.store.ledger.rows (·.requestId)
        (·.takenFrom (employeeId, locationId)) (some id) := by
  rw [History.groupSum_owed]
  obtain ⟨progress, shown⟩ := coherent.shown id
  have coupled := linked.coupled id progress shown
  have total : Grouping.groupSum system.service.store.ledger.rows (·.requestId)
      (·.takenFrom (employeeId, locationId)) (some id) =
        ((system.service.store.entriesOf id).map (·.takenFrom (employeeId, locationId))).sum := rfl
  rw [total]
  cases found : system.service.store.requests.find id with
  | none =>
    -- Nothing was posted for a request that is not stored.
    obtain rfl := Store.unknown_of_absent shown found
    have debits := posted.ineffective (debitKey id) (by
      have unapplied := coupled.unsent .debit (fun sent => sent)
      rw [OutboxType.key] at unapplied
      simp [unapplied])
    have credits := posted.ineffective (creditKey id) (by
      have unapplied := coupled.unsent .credit (fun sent => sent)
      rw [OutboxType.key] at unapplied
      simp [unapplied])
    have empty : system.service.store.entriesOf id = [] := List.map_eq_nil_iff.mp shown.entries
    simp [debits, credits, empty]
  | some request =>
    obtain rfl := Table.key_of_find found
    rw [Store.sum_entriesOf (shown.owned request found) shown]
    by_cases same : key request.employeeId request.locationId = key employeeId locationId
    · obtain ⟨rfl, rfl⟩ := key_injective employee location same.symm
      simp only [TimeOffRequest.terms, if_true]
      exact owed_le_takes posted honest marked found shown coupled (free _) mark
    · -- A request of another pair has taken nothing from this one.
      have other : (request.employeeId, request.locationId) ≠ (employeeId, locationId) := by
        intro clash
        simp only [Prod.mk.injEq] at clash
        exact same (by rw [clash.1, clash.2])
      have nothing (type : OutboxType) :
          ((system.history.changesBy (type.key request.id)).map
            (·.owed (key employeeId locationId) version)).sum = 0 := by
        rcases posted.changes found type with none_ | ⟨_, _, _, one⟩
        · simp [none_]
        · simp [one, owed_posting, same]
      have debits := nothing .debit
      have credits := nothing .credit
      simp only [OutboxType.key] at debits credits
      simp [debits, credits, TimeOffRequest.terms, other]

/-- What was posted without a message takes nothing after the first version. -/
theorem Raised.owed_unowned (raised : system.Raised) (first : 1 ≤ version) (k : String) :
    ((system.history.postings.filter fun posting => posting.owner = none).map
      (·.owed k version)).sum ≤ 0 := by
  -- The postings without an owner are those without a message.
  refine (List.sum_le_card_nsmul _ 0 fun owed member => ?_).trans_eq (nsmul_zero _)
  obtain ⟨posting, kept, rfl⟩ := List.mem_map.mp member
  obtain ⟨listed, unowned⟩ := List.mem_filter.mp kept
  have causeless : posting.cause = none := by
    cases cause : posting.cause with
    | none => rfl
    | some named =>
      obtain ⟨id, type, rfl⟩ := raised.caused posting listed named cause
      have owned : posting.owner = some id := by
        rw [Posting.owner_eq_some, cause]
        cases type with
        | debit => exact Or.inl rfl
        | credit => exact Or.inr rfl
      simp [owned] at unowned
  -- A loss would need a message, or the first version.
  have gain := raised.causeless posting listed causeless
  unfold Posting.owed
  split
  · rename_i later
    omega
  · exact le_rfl

/-- A balance that was held at a version has a row. -/
theorem Attests.exists_row {balance : Int} (attested : system.Attests k version balance) :
    ∃ row, system.hcm.balances.find k = some row := by
  cases found : system.hcm.balances.find k with
  | some row => exact ⟨row, rfl⟩
  | none =>
    -- Without a row the version is zero, and one that is attested is positive.
    have known := attested.known
    have positive := attested.positive
    simp only [HcmCore.versionOf, found, Option.map_none, Option.getD_none] at known
    omega

/--
In an orderly run the available balance of a pair is at most what the system of record holds for it,
in every state and however old the cached balance is.
-/
theorem available_le_balance {system : System} (reached : System.Reachable Orderly system)
    {employeeId locationId : String} (employee : '|' ∉ employeeId.toList)
    (location : '|' ∉ locationId.toList)
    (loaded : (system.service.store.balances.find (employeeId, locationId)).isSome = true) :
    ∃ row, system.hcm.balances.find (key employeeId locationId) = some row ∧
      computeAvailable (system.service.store.computeComponents employeeId locationId) ≤
        row.balance := by
  have coherent := (System.Reachable.service reached).coherent
  have marked := (System.Reachable.service reached).marked
  have posted := System.Reachable.posted reached
  have raised := Reachable.raised reached
  have honest := honest_of_reachable
    (Runs.Reachable.mono (fun _ _ => Orderly.withoutGhosts) reached)
  obtain ⟨balance, found⟩ := Option.isSome_iff_exists.mp loaded
  have pair : balance.employeeId = employeeId ∧ balance.locationId = locationId := by
    have named := Table.key_of_find found
    simpa [Balance.pair] using named
  -- The row that is cached was held once, and the postings since explain the current one.
  have attested := (System.Reachable.explained reached).cached balance (Table.mem_of_find found)
  rw [pair.1, pair.2] at attested
  have mark : system.service.store.watermark (employeeId, locationId) =
      balance.lastReconciledVersion := Store.watermark_of_find found
  have cached : system.service.store.cached (employeeId, locationId) = balance.hcmBalance := by
    simp [Store.cached, found]
  have each : ∀ owner, Grouping.groupSum system.history.postings Posting.owner
        (·.owed (key employeeId locationId) balance.lastReconciledVersion) owner ≤
      Grouping.groupSum system.service.store.ledger.rows (·.requestId)
        (·.takenFrom (employeeId, locationId)) owner := by
    intro owner
    cases owner with
    | some id =>
      exact owed_le_taken posted honest marked (System.Reachable.linked reached) coherent
        (Reachable.not_stranded reached) employee location mark id
    | none =>
      have none_ := coherent.orphans
      rw [Store.orphans_eq] at none_
      simp only [Grouping.groupSum, none_, List.map_nil, List.sum_nil]
      exact raised.owed_unowned attested.positive (key employeeId locationId)
  -- Summed over the owners, nothing was taken that the ledger does not still take.
  have taken := Grouping.sum_le_of_groups each
  obtain ⟨row, held⟩ := attested.exists_row
  refine ⟨row, held, ?_⟩
  have explains := attested.explains
  rw [HcmCore.balanceOf_of_find held, History.since_eq] at explains
  have available := system.service.store.available_eq employeeId locationId
  rw [Store.available, cached] at available
  omega

/--
Three days are taken while the answer is lost, a day is granted, two more days are held, and the row
from before the grant arrives late.
-/
def orderlyRun : List Action :=
  [.seed "e" "l" 10 0, .readBalance "e" "l" 0, .insertBalance 0,
    .operate (.create "r" ⟨"e", "l", "2025-01-06", "2025-01-08", 3, none, true⟩ none),
    .operate (.submit "r" "hold"), .operate (.approve "r" "debit" 0), .operate (.drain 0),
    .deliver .answerLost 0, .adjust "e" "l" 1 1,
    .operate (.create "s" ⟨"e", "l", "2025-02-03", "2025-02-04", 2, none, true⟩ none),
    .operate (.submit "s" "second"), .operate (.record "unused" "drift" 2), .operate (.drain 300),
    .deliver .answered 300, .operate (.record "commit" "drift" 300),
    .ingest "event" 400 ⟨"e", "l", 7, 2, 0⟩]

/-- After that run five days are shown as available, of eight that are held. -/
theorem available_le_balance_orderlyRun : ∃ system row, System.Reachable Orderly system ∧
    system.service.store.available "e" "l" = 5 ∧
      system.hcm.balances.find (key "e" "l") = some row ∧
      computeAvailable (system.service.store.computeComponents "e" "l") ≤ row.balance := by
  -- The run is executed, and the theorem is applied to where it ends.
  have executed : (run Orderly orderlyRun).map (fun system =>
      (system.service.store.balances.find ("e", "l")).isSome &&
        decide (system.service.store.available "e" "l" = 5)) = some true := by decide +kernel
  obtain ⟨system, reached, ended⟩ := exists_reachable_of_run executed
  simp only [Bool.and_eq_true, decide_eq_true_eq] at ended
  obtain ⟨row, held, most⟩ := available_le_balance reached (by decide) (by decide) ended.1
  exact ⟨system, row, reached, ended.2, held, most⟩

end System

end TimeOff
