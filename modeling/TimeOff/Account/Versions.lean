import TimeOff.Account.Calls

/-! Versions as watermarks: what a history shows of a row is ordered by them and told by them. -/

namespace TimeOff

namespace HcmCore

variable {core after : HcmCore} {made : HcmCore × HcmCall} {k : String} {version balance : Int}

/-- What a step of a history shows of the row under a key: a returned row, a row of the corpus, or
the acknowledgement of a command that is no repetition. -/
inductive Shows (k : String) (made : HcmCore × HcmCall) : Int → Int → Prop
  | row (row : HcmBalanceRow) :
      reply made = .row row → row.key = k → Shows k made row.version row.balance
  | corpus (rows : List HcmBalanceRow) (row : HcmBalanceRow) :
      reply made = .corpus rows → row ∈ rows → row.key = k → Shows k made row.version row.balance
  | ack (ack : ApplyDeltaAck) :
      made.2.rowKey = some k → reply made = .ack ack → ack.replayed = false →
      Shows k made ack.version ack.balance

/-- What the versions of a row say about the balances a history shows. -/
structure FaithfulVersions (k : String) (history : List (HcmCore × HcmCall)) : Prop where
  -- The version goes up in every step that changes the balance.
  rises : ∀ made ∈ history, (left made).balanceOf k ≠ made.1.balanceOf k →
    made.1.versionOf k < (left made).versionOf k
  -- A version that is shown later is no lower.
  ordered : history.Pairwise fun earlier later => ∀ version balance version' balance',
    Shows k earlier version balance → Shows k later version' balance' → version ≤ version'
  -- One version shows one balance, within a step and across the history.
  told : ∀ earlier ∈ history, ∀ later ∈ history, ∀ version balance balance',
    Shows k earlier version balance → Shows k later version balance' → balance = balance'

/-- A row is stored, and shows a version and a balance. -/
def Holds (core : HcmCore) (k : String) (version balance : Int) : Prop :=
  ∃ row, core.balances.find k = some row ∧ row.version = version ∧ row.balance = balance

/-- What a settlement acknowledges is the row it leaves. -/
theorem holds_of_settle {now : Time} {cmd : ApplyDeltaCommand} {row : HcmBalanceRow}
    {ack : ApplyDeltaAck}
    (found : core.balances.find (key cmd.employeeId cmd.locationId) = some row)
    (settled : (core.settle now cmd row).2 = .ok ack) :
    (core.settle now cmd row).1.Holds (key cmd.employeeId cmd.locationId) ack.version
      ack.balance := by
  -- A ghost success shows the row as it is, and a real one the row it has just written.
  simp only [settle] at settled ⊢
  split at settled
  · rename_i ghost
    cases settled
    rw [if_pos ghost]
    exact ⟨row, found, rfl, rfl⟩
  · rename_i real
    rw [if_neg real]
    split at settled
    · cases settled
    · rename_i fits
      cases settled
      rw [if_neg fits]
      refine ⟨settledRow now cmd row, ?_, rfl, rfl⟩
      have named : row.key = key cmd.employeeId cmd.locationId := Table.key_of_find found
      rw [← named]
      exact Table.find_save_self core.balances (settledRow now cmd row)

/-- What a command is acknowledged with is the row it leaves, unless it is repeated. -/
theorem holds_of_applyDelta {now : Time} {cmd : ApplyDeltaCommand} {ack : ApplyDeltaAck}
    (returned : (core.applyDelta now cmd).2 = .ok ack) (fresh : ack.replayed = false) :
    (core.applyDelta now cmd).1.Holds (key cmd.employeeId cmd.locationId) ack.version
      ack.balance := by
  -- Past the replay and the faults, the command is settled against the stored row or a new one.
  unfold applyDelta at returned ⊢
  cases known : core.applied.find cmd.idempotencyKey with
  | some prior =>
    simp only [known] at returned
    cases returned
    cases fresh
  | none =>
    simp only [known] at returned ⊢
    split at returned
    · cases returned
    · rename_i working
      rw [if_neg working]
      split at returned
      · cases returned
      · rename_i valid
        rw [if_neg valid]
        cases found : core.balances.find (key cmd.employeeId cmd.locationId) with
        | some row =>
          simp only [found] at returned ⊢
          exact holds_of_settle found returned
        | none =>
          simp only [found] at returned ⊢
          split at returned
          · rename_i created
            rw [if_pos created]
            exact holds_of_settle (Table.find_save_self core.balances
              (core.seedRow now cmd.employeeId cmd.locationId 0)) returned
          · cases returned

/-- A row that is answered is the one that is stored afterwards. -/
theorem find_of_reply {row : HcmBalanceRow} (returned : reply made = .row row) :
    (left made).balances.find row.key = some row := by
  obtain ⟨core, call⟩ := made
  -- Seeds, adjustments and reads are the calls that answer a row.
  cases call with
  | seed employeeId locationId balance now =>
    cases returned
    exact Table.find_save_self _ _
  | adjust employeeId locationId delta now =>
    simp only [reply, left, HcmCore.call, answered] at returned ⊢
    split at returned
    · rename_i after other adjusted
      cases returned
      obtain ⟨_, _, _, _, _, rfl⟩ := adjust_ok adjusted
      exact Table.find_save_self _ _
    · cases returned
  | getBalance employeeId locationId now =>
    simp only [reply, left, HcmCore.call, answered] at returned ⊢
    split at returned
    · rename_i after other read
      cases returned
      have found := getBalance_found read
      rwa [← Table.key_of_find found] at found
    · cases returned
  | applyDelta cmd now =>
    simp only [reply, HcmCore.call] at returned
    split at returned <;> cases returned
  | configureFaults patch => cases returned
  | dumpCorpus => cases returned

/-- Only the corpus call is answered with the corpus. -/
theorem corpus_of_reply {rows : List HcmBalanceRow} (returned : reply made = .corpus rows) :
    left made = made.1 ∧ rows = made.1.balances.rows := by
  obtain ⟨core, call⟩ := made
  cases call with
  | dumpCorpus =>
    cases returned
    exact ⟨rfl, rfl⟩
  | adjust | getBalance =>
    simp only [reply, HcmCore.call, answered] at returned
    split at returned <;> cases returned
  | applyDelta cmd now =>
    simp only [reply, HcmCore.call] at returned
    split at returned <;> cases returned
  | _ => cases returned

/-- What a step shows of a row is what it leaves there. -/
theorem Shows.holds (shown : Shows k made version balance) :
    (left made).Holds k version balance := by
  cases shown with
  | row row returned named => exact ⟨row, named ▸ find_of_reply returned, rfl, rfl⟩
  | corpus rows row returned member named =>
    obtain ⟨same, rfl⟩ := corpus_of_reply returned
    exact ⟨row, by rw [same, ← named, Table.find_of_mem member], rfl, rfl⟩
  | ack ack about returned fresh =>
    obtain ⟨core, call⟩ := made
    obtain ⟨cmd, now, rfl, answered⟩ := command_of_ack returned
    cases about
    exact holds_of_applyDelta answered fresh

/-- A row has moved on from what it showed: it shows the same, or it has a higher version. -/
def MovedOn (core : HcmCore) (k : String) (version balance : Int) : Prop :=
  core.Holds k version balance ∨ version < core.versionOf k

/-- What a row shows is its version. -/
theorem Holds.versionOf (holds : core.Holds k version balance) : core.versionOf k = version := by
  obtain ⟨row, found, rfl, _⟩ := holds
  exact versionOf_of_find found

/-- A row shows one version and one balance. -/
theorem Holds.unique {version' balance' : Int} (first : core.Holds k version balance)
    (second : core.Holds k version' balance') : version = version' ∧ balance = balance' := by
  obtain ⟨row, found, rfl, rfl⟩ := first
  obtain ⟨other, foundToo, rfl, rfl⟩ := second
  cases found.symm.trans foundToo
  exact ⟨rfl, rfl⟩

/-- A step leaves a row alone, or takes its version up. -/
theorem row_of_call (core : HcmCore) (call : HcmCall) (k : String) :
    (core.call call).1.balances.find k = core.balances.find k ∨
      core.versionOf k < (core.call call).1.versionOf k := by
  cases about : call.rowKey with
  | none => exact Or.inl (by rw [balances_of_rowKey about])
  | some own =>
    have touches := touches_of_rowKey core about
    by_cases same : k = own
    · subst same
      apply touches.moves.imp_right
      intro given
      obtain ⟨row, found, higher⟩ := given
      rwa [versionOf_of_find found]
    · exact Or.inl (touches.others k same)

/-- A row that has moved on goes on doing so. -/
theorem MovedOn.step (moved : core.MovedOn k version balance) (call : HcmCall) :
    (core.call call).1.MovedOn k version balance := by
  rcases row_of_call core call k with same | higher
  · -- A row that is left alone shows what it showed.
    have kept : (core.call call).1.versionOf k = core.versionOf k := by
      simp only [HcmCore.versionOf, same]
    rcases moved with ⟨row, found, shown⟩ | above
    · exact Or.inl ⟨row, same.trans found, shown⟩
    · exact Or.inr (kept ▸ above)
  · rcases moved with holds | above
    · exact Or.inr (holds.versionOf ▸ higher)
    · exact Or.inr (above.trans higher)

/-- What is shown of a row that has moved on is no older, and the same if the version is. -/
theorem MovedOn.shows {version' balance' : Int} (moved : core.MovedOn k version balance)
    (holds : core.Holds k version' balance') :
    version ≤ version' ∧ (version = version' → balance = balance') := by
  rcases moved with before | above
  · obtain ⟨rfl, rfl⟩ := before.unique holds
    exact ⟨le_rfl, fun _ => rfl⟩
  · rw [holds.versionOf] at above
    exact ⟨above.le, fun same => absurd same above.ne⟩

/-- The versions of every row are faithful, whatever faults are set on the way. -/
theorem faithful_versions (calls : List HcmCall) (k : String) :
    FaithfulVersions k (history {} calls) := by
  -- Whatever is shown of a row, the row has moved on from it in every later state.
  obtain ⟨moved, _⟩ := (trace_history {} calls).pairwise
    (fun made state => ∀ version balance, Shows k made version balance →
      state.MovedOn k version balance)
    (fun before call after taken version balance shown => by
      cases taken
      exact Or.inl shown.holds)
    (fun made before call after taken earlier version balance shown => by
      cases taken
      exact (earlier version balance shown).step call)
  have ordered : (history {} calls).Pairwise fun earlier later =>
      ∀ version balance version' balance', Shows k earlier version balance →
        Shows k later version' balance' →
          version ≤ version' ∧ (version = version' → balance = balance') :=
    moved.imp fun {earlier later} kept version balance version' balance' shown shownLater =>
      ((kept version balance shown).step later.2).shows shownLater.holds
  refine ⟨?_, ordered.imp fun both version balance version' balance' shown shownLater =>
    (both version balance version' balance' shown shownLater).1, ?_⟩
  · intro made _ changed
    rcases row_of_call made.1 made.2 k with same | higher
    · exact absurd (by simp only [left, balanceOf, same]) changed
    · exact higher
  · -- Of two steps one is the later one, and within one step a row is shown as it is left.
    refine List.Pairwise.forall_of_forall_of_flip ?_ (ordered.imp ?_) (ordered.imp ?_)
    · intro made _ version balance balance' shown shownToo
      exact (shown.holds.unique shownToo.holds).2
    · intro earlier later both version balance balance' shown shownLater
      exact (both version balance version balance' shown shownLater).2 rfl
    · intro earlier later both version balance balance' shownLater shown
      exact ((both version balance' version balance shown shownLater).2 rfl).symm

end HcmCore

end TimeOff
