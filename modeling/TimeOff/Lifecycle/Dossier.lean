import TimeOff.Service.SyncService
import TimeOff.Service.TimeOffService

/-! What the database holds about one request, and how each statement changes it. -/

namespace TimeOff

/-- What a request is about, which never changes. -/
structure Terms where
  id : String
  employeeId : String
  locationId : String
  days : Int
  deriving DecidableEq, Repr

/-- What a stored request is about. -/
def TimeOffRequest.terms (request : TimeOffRequest) : Terms :=
  { id := request.id, employeeId := request.employeeId, locationId := request.locationId
    days := request.days }

/-- Everything the database holds about one request. -/
structure Dossier where
  request : Option TimeOffRequest
  entries : List BalanceLedgerEntry
  messages : List OutboxMessage

namespace Dossier

/-- The dossier with its request replaced. -/
def withRequest (dossier : Dossier) (request : TimeOffRequest) : Dossier :=
  { dossier with request := some request }

/-- The dossier with one more ledger entry. -/
def addEntry (dossier : Dossier) (entry : BalanceLedgerEntry) : Dossier :=
  { dossier with entries := dossier.entries ++ [entry] }

/-- The dossier with one more message. -/
def addMessage (dossier : Dossier) (msg : OutboxMessage) : Dossier :=
  { dossier with messages := dossier.messages ++ [msg] }

/-- The dossier with its ledger entries rewritten in place. -/
def mapEntries (dossier : Dossier) (set : BalanceLedgerEntry → BalanceLedgerEntry) : Dossier :=
  { dossier with entries := dossier.entries.map set }

/-- The dossier with its messages rewritten in place. -/
def mapMessages (dossier : Dossier) (set : OutboxMessage → OutboxMessage) : Dossier :=
  { dossier with messages := dossier.messages.map set }

/-- Rewriting entries changes nothing when it leaves each of them alone. -/
theorem mapEntries_eq_self {dossier : Dossier} {set : BalanceLedgerEntry → BalanceLedgerEntry}
    (same : ∀ entry ∈ dossier.entries, set entry = entry) : dossier.mapEntries set = dossier := by
  unfold mapEntries
  rw [(List.map_congr_left same).trans (List.map_id _)]

/-- Rewriting messages changes nothing when it leaves each of them alone. -/
theorem mapMessages_eq_self {dossier : Dossier} {set : OutboxMessage → OutboxMessage}
    (same : ∀ msg ∈ dossier.messages, set msg = msg) : dossier.mapMessages set = dossier := by
  unfold mapMessages
  rw [(List.map_congr_left same).trans (List.map_id _)]

end Dossier

namespace Store

/-- The dossier of a request. -/
def dossier (store : Store) (id : String) : Dossier :=
  { request := store.requests.find id
    entries := store.entriesOf id
    messages := store.messagesOf id }

/-- The ledger entries that belong to no request. -/
def orphans (store : Store) : List BalanceLedgerEntry :=
  store.ledger.rows.filter fun entry => entry.requestId.isNone

section Statements

variable (store : Store) (id : String)

/-- Saving a request replaces it in its own dossier and reaches no other. -/
theorem dossier_saveRequest (request : TimeOffRequest) :
    (store.saveRequest request).dossier id =
      if request.id = id then
        (store.dossier id).withRequest request.saved
      else store.dossier id := by
  -- The saved row is found under its own id and under no other.
  unfold saveRequest dossier
  by_cases own : request.saved.id = id
  · have same : request.id = id := own
    simp only [Table.find_save, own, same, if_true]
    rfl
  · have other : ¬request.id = id := own
    simp only [Table.find_save, own, other, if_false]
    rfl

/-- Writing a new ledger entry extends the dossier of its owner. -/
theorem dossier_saveEntry {entry : BalanceLedgerEntry}
    (fresh : store.ledger.find entry.id = none) :
    { store with ledger := store.ledger.save entry }.dossier id =
      if entry.requestId = some id then (store.dossier id).addEntry entry
      else store.dossier id := by
  -- The new entry joins the slice of its owner at the end.
  simp only [dossier, entriesOf, messagesOf, Table.filter_save_of_fresh _ fresh]
  by_cases own : entry.requestId = some id <;> simp [own, Dossier.addEntry]

/-- Writing a new ledger entry of a request extends its dossier. -/
theorem dossier_saveEntry_self (entry : BalanceLedgerEntry)
    (fresh : store.ledger.find entry.id = none) (owner : entry.requestId = some id) :
    { store with ledger := store.ledger.save entry }.dossier id =
      (store.dossier id).addEntry entry :=
  (dossier_saveEntry store id fresh).trans (if_pos owner)

/-- Writing a new message extends the dossier of its owner. -/
theorem dossier_saveMessage {msg : OutboxMessage} (fresh : store.outbox.find msg.id = none) :
    { store with outbox := store.outbox.save msg }.dossier id =
      if msg.requestId = id then (store.dossier id).addMessage msg else store.dossier id := by
  -- The new message joins the slice of its owner at the end.
  simp only [dossier, entriesOf, messagesOf, Table.filter_save_of_fresh _ fresh]
  by_cases own : msg.requestId = id <;> simp [own, Dossier.addMessage]

/-- Enqueueing for a request extends its dossier. -/
theorem dossier_enqueue_self (uuid : String) (now : Time) (input : EnqueueInput)
    (fresh : store.outbox.find uuid = none) :
    (store.enqueue uuid now input).dossier input.requestId =
      (store.dossier input.requestId).addMessage (input.message uuid now) :=
  (dossier_saveMessage store _ fresh).trans (if_pos rfl)

/-- An update of ledger entries that keeps their owners rewrites every dossier in place. -/
theorem dossier_updateLedger (matching : BalanceLedgerEntry → Bool)
    (set : BalanceLedgerEntry → BalanceLedgerEntry) (keeps : ∀ entry, (set entry).id = entry.id)
    (owner : ∀ entry, (set entry).requestId = entry.requestId) :
    { store with ledger := store.ledger.update matching set keeps }.dossier id =
      (store.dossier id).mapEntries fun entry =>
        if matching entry then set entry else entry := by
  -- The owner column is not written, so no entry changes its slice.
  simp only [dossier, entriesOf, messagesOf, Dossier.mapEntries]
  rw [Table.filter_update]
  intro entry
  rw [owner]

/-- An update of messages that keeps their owners rewrites every dossier in place. -/
theorem dossier_updateOutbox (matching : OutboxMessage → Bool)
    (set : OutboxMessage → OutboxMessage) (keeps : ∀ msg, (set msg).id = msg.id)
    (owner : ∀ msg, (set msg).requestId = msg.requestId) :
    { store with outbox := store.outbox.update matching set keeps }.dossier id =
      (store.dossier id).mapMessages fun msg => if matching msg then set msg else msg := by
  -- The owner column is not written, so no message changes its slice.
  simp only [dossier, entriesOf, messagesOf, Dossier.mapMessages]
  rw [Table.filter_update]
  intro msg
  rw [owner]

end Statements

/-- What a change leaves of each entry: everything but its state. -/
def KeepsEntries (before after : Store) : Prop :=
  ∀ entry ∈ before.ledger.rows, ∃ state, { entry with state := state } ∈ after.ledger.rows

theorem KeepsEntries.refl (store : Store) : KeepsEntries store store :=
  fun entry member => ⟨entry.state, member⟩

theorem KeepsEntries.trans {first second third : Store} (left : KeepsEntries first second)
    (right : KeepsEntries second third) : KeepsEntries first third := by
  -- The second change finds the entry with the state that the first one gave it.
  intro entry member
  obtain ⟨_, there⟩ := left entry member
  obtain ⟨state, after⟩ := right _ there
  exact ⟨state, after⟩

theorem keepsEntries_save (store : Store) {entry : BalanceLedgerEntry}
    (fresh : store.ledger.find entry.id = none) :
    KeepsEntries store { store with ledger := store.ledger.save entry } := by
  -- A new entry is appended, and the old ones stay in front of it.
  intro other member
  refine ⟨other.state, ?_⟩
  rw [Table.rows_save_of_fresh fresh]
  exact List.mem_append_left _ member

theorem keepsEntries_update (store : Store) (matching : BalanceLedgerEntry → Bool)
    (state : LedgerState) (keeps : ∀ entry : BalanceLedgerEntry,
      ({ entry with state := state } : BalanceLedgerEntry).id = entry.id) :
    KeepsEntries store { store with
      ledger := store.ledger.update matching (fun entry => { entry with state }) keeps } := by
  -- A matched entry is found again with its new state, any other as it was.
  intro entry member
  by_cases matched : matching entry
  · exact ⟨state, List.mem_map.mpr ⟨entry, member, by simp [matched]⟩⟩
  · exact ⟨entry.state, List.mem_map.mpr ⟨entry, member, by simp [matched]⟩⟩

/--
A change that concerns one request only.

The other dossiers and the cached balances stay, the request keeps its terms, and the ledger loses
nothing.
-/
structure ActsOn (id : String) (before after : Store) : Prop where
  others : ∀ other, other ≠ id → after.dossier other = before.dossier other
  orphans : after.orphans = before.orphans
  balances : after.balances = before.balances
  terms : ∀ request, before.requests.find id = some request →
    ∃ moved, after.requests.find id = some moved ∧ moved.terms = request.terms
  entries : KeepsEntries before after

theorem ActsOn.refl (id : String) (store : Store) : ActsOn id store store :=
  ⟨fun _ _ => rfl, rfl, rfl, fun request found => ⟨request, found, rfl⟩, KeepsEntries.refl store⟩

theorem ActsOn.trans {id : String} {first second third : Store} (left : ActsOn id first second)
    (right : ActsOn id second third) : ActsOn id first third where
  others other different := (right.others other different).trans (left.others other different)
  orphans := right.orphans.trans left.orphans
  balances := right.balances.trans left.balances
  terms := by
    -- The terms are compared across the request that lies in between.
    intro request found
    obtain ⟨moved, there, same⟩ := left.terms request found
    obtain ⟨final, after, still⟩ := right.terms moved there
    exact ⟨final, after, still.trans same⟩
  entries := left.entries.trans right.entries

section Frames

variable (store : Store)

theorem actsOn_saveRequest (request : TimeOffRequest)
    (same : ∀ stored, store.requests.find request.id = some stored →
      request.terms = stored.terms) :
    ActsOn request.id store (store.saveRequest request) where
  -- A request is stored under its own id, so the other dossiers do not see it.
  others other different := by rw [dossier_saveRequest, if_neg different.symm]
  orphans := rfl
  balances := rfl
  terms stored found := ⟨_, Table.find_save_self _ _, same stored found⟩
  entries := KeepsEntries.refl store

/-- Saving a changed copy of a stored request concerns that request only. -/
theorem actsOn_saveChanged {request changed : TimeOffRequest}
    (found : store.requests.find request.id = some request)
    (terms : changed.terms = request.terms) :
    ActsOn request.id store (store.saveRequest changed) := by
  -- The changed copy carries the id of the stored one, which is the one replaced.
  have named : changed.id = request.id := congrArg Terms.id terms
  rw [← named]
  apply actsOn_saveRequest
  intro stored there
  rw [named, found] at there
  cases there
  exact terms

theorem actsOn_saveEntry {id : String} (entry : BalanceLedgerEntry)
    (fresh : store.ledger.find entry.id = none) (owner : entry.requestId = some id) :
    ActsOn id store { store with ledger := store.ledger.save entry } where
  -- A fresh entry lands in the dossier of its owner.
  others other different := by
    rw [dossier_saveEntry store other fresh, if_neg]
    simpa [owner] using different.symm
  orphans := by
    simp [Store.orphans, Table.filter_save_of_fresh _ fresh, owner]
  balances := rfl
  terms request found := ⟨request, found, rfl⟩
  entries := keepsEntries_save store fresh

theorem actsOn_enqueue (uuid : String) (now : Time) (input : EnqueueInput)
    (fresh : store.outbox.find uuid = none) :
    ActsOn input.requestId store (store.enqueue uuid now input) where
  -- A fresh message lands in the dossier of the request it names.
  others other different := by
    unfold enqueue
    rw [dossier_saveMessage, if_neg]
    · exact different.symm
    · exact fresh
  orphans := rfl
  balances := rfl
  terms request found := ⟨request, found, rfl⟩
  entries := KeepsEntries.refl store

theorem actsOn_events (id : String) (events : Table ReconciliationEvent.id) :
    ActsOn id store { store with events := events } :=
  ⟨fun _ _ => rfl, rfl, rfl, fun request found => ⟨request, found, rfl⟩, KeepsEntries.refl store⟩

/-- A change of state of one owner's ledger entries concerns that owner only. -/
theorem actsOn_updateLedger {id : String} (matching : BalanceLedgerEntry → Bool)
    (state : LedgerState) (own : ∀ entry, matching entry → entry.requestId = some id) :
    ActsOn id store { store with
      ledger :=
        store.ledger.update matching (fun entry => { entry with state }) fun _ => rfl } where
  others other different := by
    -- No entry of another request matches, so its dossier is rewritten to itself.
    rw [dossier_updateLedger store other]
    · apply Dossier.mapEntries_eq_self
      intro entry member
      have named := (mem_entriesOf.mp member).2
      rw [if_neg]
      intro matched
      exact different (Option.some.inj (named.symm.trans (own entry matched)))
    · exact fun _ => rfl
  orphans := by
    -- An entry without an owner is matched by no change of an owner.
    refine Table.filter_update_of_disjoint _ store.ledger matching
      (fun entry => { entry with state }) (fun _ => rfl) (fun _ => rfl) ?_
    intro entry _ orphaned
    rw [Bool.eq_false_iff]
    intro matched
    simp [own entry matched] at orphaned
  balances := rfl
  terms request found := ⟨request, found, rfl⟩
  entries := keepsEntries_update store matching state fun _ => rfl

/-- An update of one owner's messages concerns that owner only. -/
theorem actsOn_updateOutbox {id : String} (matching : OutboxMessage → Bool)
    (set : OutboxMessage → OutboxMessage) (keeps : ∀ msg, (set msg).id = msg.id)
    (owner : ∀ msg, (set msg).requestId = msg.requestId)
    (own : ∀ msg ∈ store.outbox.rows, matching msg → msg.requestId = id) :
    ActsOn id store { store with outbox := store.outbox.update matching set keeps } where
  others other different := by
    -- A message of another request is not matched, so its dossier stays.
    rw [dossier_updateOutbox store other matching set keeps owner]
    apply Dossier.mapMessages_eq_self
    intro msg member
    obtain ⟨stored, named⟩ := mem_messagesOf.mp member
    rw [if_neg]
    intro matched
    exact different (named.symm.trans (own msg stored matched))
  orphans := rfl
  balances := rfl
  terms request found := ⟨request, found, rfl⟩
  entries := KeepsEntries.refl store

end Frames

end Store

end TimeOff
