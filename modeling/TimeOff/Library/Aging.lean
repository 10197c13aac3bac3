import TimeOff.Library.Table

/-! Tables that lose no row: every row stays, changed at most as a relation on rows allows. -/

namespace Table

variable {ρ κ : Type*} {key : ρ → κ} {aged : ρ → ρ → Prop}

/-- Every row of one table is in the other, as it was or changed as it may be. -/
def Ages (aged : ρ → ρ → Prop) (before after : Table key) : Prop :=
  ∀ row ∈ before.rows, ∃ later ∈ after.rows, aged row later

/-- A table that is left alone loses nothing. -/
theorem Ages.refl (same : ∀ row, aged row row) (table : Table key) : Ages aged table table :=
  fun row member => ⟨row, member, same row⟩

/-- What two changes may do one after the other, a single one may do. -/
theorem Ages.trans (compose : ∀ first second third, aged first second → aged second third →
      aged first third) {first second third : Table key} (earlier : Ages aged first second)
    (later : Ages aged second third) : Ages aged first third := by
  -- A row is followed through the table in the middle.
  intro row member
  obtain ⟨middle, there, once⟩ := earlier row member
  obtain ⟨last, after, twice⟩ := later middle there
  exact ⟨last, after, compose row middle last once twice⟩

/-- An update changes the rows it matches, each as it may. -/
theorem ages_update (same : ∀ row, aged row row) (table : Table key) {matching : ρ → Bool}
    (set : ρ → ρ) (keeps : ∀ row, key (set row) = key row)
    (may : ∀ row ∈ table.rows, matching row = true → aged row (set row)) :
    Ages aged table (table.update matching set keeps) := by
  -- Every row is there again, changed only if it is matched.
  intro row member
  refine ⟨_, List.mem_map_of_mem member, ?_⟩
  split
  · rename_i matched
    exact may row member matched
  · exact same row

section Saves

variable [DecidableEq κ]

/-- A new row is put behind the others. -/
theorem ages_save_of_fresh (same : ∀ row, aged row row) {table : Table key} {row : ρ}
    (fresh : table.find (key row) = none) : Ages aged table (table.save row) := by
  -- Under a fresh key nothing is replaced.
  intro other member
  refine ⟨other, ?_, same other⟩
  rw [rows_save_of_fresh fresh]
  exact List.mem_append_left _ member

/-- A row that is saved again replaces the one it may have come from. -/
theorem ages_save_of_found (same : ∀ row, aged row row) {table : Table key} {row old : ρ}
    (found : table.find (key row) = some old) (may : aged old row) :
    Ages aged table (table.save row) := by
  intro other member
  by_cases named : key other = key row
  · -- The one row under the key is the one that was found.
    obtain rfl := Table.eq_of_key_eq member (mem_of_find found)
      (named.trans (key_of_find found).symm)
    exact ⟨row, mem_save.mpr (Or.inl rfl), may⟩
  · exact ⟨other, mem_save.mpr (Or.inr ⟨member, named⟩), same other⟩

/-- An insert that ignores a taken key replaces nothing. -/
theorem ages_insertOrIgnore (same : ∀ row, aged row row) (table : Table key) (row : ρ) :
    Ages aged table (table.insertOrIgnore row) := by
  -- Either the key is taken and the table stays, or the row is new.
  unfold insertOrIgnore
  split
  · exact .refl same table
  · rename_i absent
    exact ages_save_of_fresh same (Option.not_isSome_iff_eq_none.mp absent)

end Saves

end Table
