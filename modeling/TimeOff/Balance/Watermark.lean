import TimeOff.Lifecycle.Coherence

/-! The watermark of a pair: it never goes down, and no commit above it is absorbed. -/

namespace TimeOff

namespace Progress

/-- The version of a commit that a snapshot has absorbed. -/
def absorbedVersion : Progress → Option Int
  | .committed version absorbed | .cancelling version absorbed _ | .refunded version absorbed
  | .overtaken version absorbed => if absorbed then some version else none
  | _ => none

variable {progress target : Progress} {event : Event} {version : Int}

/-- A commit is absorbed by a snapshot that is at least as new. -/
theorem absorbedVersion_of_next (moves : progress.next event = some target)
    (absorbed : target.absorbedVersion = some version) :
    progress.absorbedVersion = some version ∨
      ∃ snapshot, event = .absorbed snapshot ∧ version ≤ snapshot := by
  cases steps_of_next moves with
  | absorb progress snapshot =>
    cases progress with
    | committed stamp before | cancelling stamp before credit | overtaken stamp before =>
      cases before with
      | true => exact Or.inl absorbed
      -- A commit that was not absorbed before is so now for the snapshot of this step.
      | false =>
        simp only [absorb, absorbedVersion, Bool.false_or, decide_eq_true_eq,
          Option.ite_none_right_eq_some, Option.some.injEq] at absorbed
        obtain ⟨reached, rfl⟩ := absorbed
        exact Or.inr ⟨snapshot, rfl, reached⟩
    | _ => exact Or.inl absorbed
  | commit | overtake => simp [absorbedVersion] at absorbed
  | _ => exact Or.inl absorbed

end Progress

namespace Service

variable {before after : Service} {action : ServiceAction}

/-- A step takes a fresh update of a cached pair over, or leaves its row. -/
theorem found_of_step (coherent : before.Coherent) (taken : before.step action = some after)
    (pair : String × String)
    (cached : (∃ employeeId locationId row, action = .insertBalance employeeId locationId row) →
      (before.store.balances.find pair).isSome = true) :
    after.store.balances.find pair = before.store.balances.find pair ∨
      ∃ update : HcmBalanceUpdate, update.pair = pair ∧
        before.store.watermark pair < update.version ∧
        Store.Absorbs update before.store after.store := by
  cases step_change coherent taken with
  | moves _ _ _ moves => exact Or.inl (by rw [moves.acts.balances])
  | claims _ _ _ same => exact Or.inl (by rw [same]; rfl)
  | loads employeeId locationId row inserted same =>
    -- The pair is cached already, so a row that was read for it is ignored.
    obtain ⟨balance, found⟩ :=
      Option.isSome_iff_exists.mp (cached ⟨employeeId, locationId, row, inserted⟩)
    apply Or.inl
    simp only [same, Store.insertBalance, Table.find_insertOrIgnore, found]
    split <;> rfl
  | absorbs _ _ update _ fresh absorbs =>
    by_cases own : update.pair = pair
    · exact Or.inr ⟨update, own, own ▸ fresh, absorbs⟩
    · exact Or.inl (absorbs.found_other own)
  | nothing _ same => exact Or.inl (by rw [same])

/-- A step that is no first load takes a watermark up to a fresh update, or leaves it. -/
theorem watermark_of_step (coherent : before.Coherent) (taken : before.step action = some after)
    (pair : String × String)
    (cached : (∃ employeeId locationId row, action = .insertBalance employeeId locationId row) →
      (before.store.balances.find pair).isSome = true) :
    after.store.watermark pair = before.store.watermark pair ∨
      ∃ update : HcmBalanceUpdate, update.pair = pair ∧
        before.store.watermark pair < update.version ∧
        Store.Absorbs update before.store after.store :=
  (found_of_step coherent taken pair cached).imp_left fun same => by
    simp only [Store.watermark, same]

/-- The watermark of a cached pair never goes down. -/
theorem watermark_le_of_step (coherent : before.Coherent) (taken : before.step action = some after)
    {pair : String × String} (cached : (before.store.balances.find pair).isSome = true) :
    before.store.watermark pair ≤ after.store.watermark pair := by
  -- The watermark stays, or goes up to a fresh update.
  rcases watermark_of_step coherent taken pair fun _ => cached with
    same | ⟨update, rfl, fresh, absorbs⟩
  · exact same.ge
  · rw [absorbs.watermark, if_pos rfl]
    exact fresh.le

/-- A fresh update takes the watermark of its pair up to its version. -/
theorem watermark_of_reconcileKey {uuid : String} {now : Time} {update : HcmBalanceUpdate}
    (taken : before.step (.reconcileKey uuid now update) = some after)
    (fresh : before.store.watermark update.pair < update.version) :
    after.store.watermark update.pair = update.version := by
  -- The row of the pair is written with the version of the update.
  cases step_move taken with
  | reconciles =>
    rw [(before.store.reconcileKey_fresh uuid now fresh).2.2.watermark, if_pos rfl]

/-- Every absorbed commit was acknowledged at the watermark of its pair or below. -/
def Marked (service : Service) : Prop :=
  ∀ id progress request version, (service.store.dossier id).Shows progress →
    service.store.requests.find id = some request → progress.absorbedVersion = some version →
      version ≤ service.store.watermark request.pair

/-- Every step keeps the absorbed commits below the watermarks. -/
theorem step_marked (coherent : before.Coherent) (taken : before.step action = some after)
    (marked : before.Marked) : after.Marked := by
  intro id target request version reached found absorbed
  -- An entry was absorbed already, and its watermark has not gone down since.
  have earlier (progress : Progress) (shown : (before.store.dossier id).Shows progress)
      (old : progress.absorbedVersion = some version) :
      version ≤ after.store.watermark request.pair := by
    have holding : progress.entries ≠ [] := by
      cases progress <;> simp [Progress.absorbedVersion, Progress.entries] at old ⊢
    obtain ⟨entry, member, stored, storedFound, pair⟩ := exists_entry_of_shown shown holding
    obtain ⟨_, again, terms⟩ := step_terms coherent taken storedFound
    cases found.symm.trans again
    have samePair : request.pair = stored.pair :=
      TimeOffRequest.pair_of_terms terms
    have cached := coherent.loaded entry (Store.mem_entriesOf.mp member).1
    rw [pair] at cached
    rw [samePair]
    exact (marked id progress stored version shown storedFound old).trans
      (watermark_le_of_step coherent taken cached)
  rcases shown_or_heard coherent taken reached with kept | ⟨progress, event, shown, heard, next⟩
  · exact earlier target kept absorbed
  · rcases Progress.absorbedVersion_of_next next absorbed with old | ⟨snapshot, rfl, reached_⟩
    · exact earlier progress shown old
    · -- The snapshot of this step is now the watermark of the pair.
      obtain ⟨uuid, now, update, rfl, rfl, fresh, pair⟩ := (event_cause heard).absorbed
      obtain ⟨stored, storedFound, own⟩ := Option.map_eq_some_iff.mp pair
      obtain ⟨_, again, terms⟩ := step_terms coherent taken storedFound
      cases found.symm.trans again
      have samePair : request.pair = update.pair :=
        (TimeOffRequest.pair_of_terms terms).trans own
      rw [samePair, watermark_of_reconcileKey taken fresh]
      exact reached_

/-- In every reachable state the absorbed commits are below the watermarks. -/
theorem Reachable.marked {service : Service} (reached : Reachable service) : service.Marked := by
  refine Runs.Reachable.invariant ?_ ?_ reached
  · -- Nothing is stored at first.
    intro id progress request version shown found
    cases found
  · intro before action after earlier marked _ taken
    exact step_marked (Reachable.coherent earlier) taken marked

end Service

end TimeOff
