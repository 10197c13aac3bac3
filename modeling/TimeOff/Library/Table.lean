import Mathlib.Data.List.Nodup

/-! Relational tables with a primary key, and the row statements a service runs against them. -/

/-- A list of rows in insertion order, no two of which share their primary key. -/
structure Table {ρ κ : Type*} (key : ρ → κ) where
  rows : List ρ
  nodup : (rows.map key).Nodup

namespace Table

variable {ρ κ : Type*} {key : ρ → κ}

/-- The table before any row was written. -/
def empty : Table key where
  rows := []
  nodup := List.nodup_nil

@[simp] theorem rows_empty : (empty : Table key).rows = [] := rfl

/-- `UPDATE … SET … WHERE …` for a change that leaves the primary key alone. -/
def update (table : Table key) (matching : ρ → Bool) (set : ρ → ρ)
    (keeps : ∀ row, key (set row) = key row) : Table key where
  rows := table.rows.map fun row => if matching row then set row else row
  nodup := by
    -- Every row keeps its key, so the list of keys is the one the table already had.
    have same : (table.rows.map fun row => if matching row then set row else row).map key =
        table.rows.map key := by
      rw [List.map_map]
      apply List.map_congr_left
      intro row _
      by_cases chosen : matching row <;> simp [chosen, keeps]
    exact same ▸ table.nodup

theorem rows_update (table : Table key) (matching : ρ → Bool) (set : ρ → ρ)
    (keeps : ∀ row, key (set row) = key row) :
    (table.update matching set keeps).rows =
      table.rows.map fun row => if matching row then set row else row := rfl

/-- An update that matches no row leaves the table. -/
theorem update_of_disjoint (table : Table key) (matching : ρ → Bool) (set : ρ → ρ)
    (keeps : ∀ row, key (set row) = key row) (disjoint : ∀ row, matching row = false) :
    table.update matching set keeps = table := by
  cases table with
  | mk rows nodup => simp [update, disjoint]

section Slices

variable (slice : ρ → Bool)

/-- A slice that the change respects is updated in place. -/
theorem filter_update (table : Table key) (matching : ρ → Bool) (set : ρ → ρ)
    (keeps : ∀ row, key (set row) = key row) (respects : ∀ row, slice (set row) = slice row) :
    (table.update matching set keeps).rows.filter slice =
      (table.rows.filter slice).map fun row => if matching row then set row else row := by
  -- The change happens inside the slice or outside it, but never moves a row across.
  rw [rows_update, List.filter_map]
  congr 1
  apply List.filter_congr
  intro row _
  by_cases chosen : matching row <;> simp [chosen, respects]

/-- An update that matches nothing inside a slice leaves the slice alone. -/
theorem filter_update_of_disjoint (table : Table key) (matching : ρ → Bool) (set : ρ → ρ)
    (keeps : ∀ row, key (set row) = key row) (respects : ∀ row, slice (set row) = slice row)
    (disjoint : ∀ row ∈ table.rows, slice row → matching row = false) :
    (table.update matching set keeps).rows.filter slice = table.rows.filter slice := by
  rw [filter_update slice table matching set keeps respects]
  -- No row of the slice is rewritten, so the map is the identity on it.
  have untouched : ∀ row ∈ table.rows.filter slice,
      (if matching row then set row else row) = row := by
    intro row member
    obtain ⟨stored, inside⟩ := List.mem_filter.mp member
    simp [disjoint row stored inside]
  exact (List.map_congr_left untouched).trans (List.map_id _)

end Slices

/-- Two stored rows with one key are one row. -/
theorem eq_of_key_eq {table : Table key} {left right : ρ} (leftMember : left ∈ table.rows)
    (rightMember : right ∈ table.rows) (same : key left = key right) : left = right :=
  List.inj_on_of_nodup_map table.nodup leftMember rightMember same

variable [DecidableEq κ]

/-- The row stored under a primary key. -/
def find (table : Table key) (k : κ) : Option ρ :=
  table.rows.find? fun row => key row = k

/-- A found row is a member of the table and carries the requested key. -/
theorem find_eq_some {table : Table key} {k : κ} {row : ρ} :
    table.find k = some row ↔ row ∈ table.rows ∧ key row = k := by
  -- A hit is a member under the key, and the key is carried by no second member.
  constructor
  · intro found
    have named := List.find?_some found
    exact ⟨List.mem_of_find?_eq_some found, by simpa using named⟩
  · intro given
    obtain ⟨member, named⟩ := given
    -- Another row under the same key would repeat that key in the table.
    cases found : table.find k with
    | none =>
      have absent := List.find?_eq_none.mp found row member
      simp [named] at absent
    | some other =>
      have otherMember := List.mem_of_find?_eq_some found
      have otherNamed : key other = k := by simpa using List.find?_some found
      rw [List.inj_on_of_nodup_map table.nodup otherMember member (otherNamed.trans named.symm)]

/-- A key is absent exactly when no row carries it. -/
theorem find_eq_none {table : Table key} {k : κ} :
    table.find k = none ↔ ∀ row ∈ table.rows, key row ≠ k := by
  simp [find, List.find?_eq_none]

/-- Every stored row is found under its own key. -/
theorem find_of_mem {table : Table key} {row : ρ} (member : row ∈ table.rows) :
    table.find (key row) = some row :=
  find_eq_some.mpr ⟨member, rfl⟩

theorem mem_of_find {table : Table key} {k : κ} {row : ρ} (found : table.find k = some row) :
    row ∈ table.rows :=
  (find_eq_some.mp found).1

theorem key_of_find {table : Table key} {k : κ} {row : ρ} (found : table.find k = some row) :
    key row = k :=
  (find_eq_some.mp found).2

/-- The rows under a primary key are the one that is found, if there is one. -/
theorem filter_key (table : Table key) (k : κ) :
    table.rows.filter (fun row => key row = k) = (table.find k).toList := by
  cases found : table.find k with
  | none =>
    rw [Option.toList_none, List.filter_eq_nil_iff]
    intro row member
    simpa using find_eq_none.mp found row member
  | some row =>
    -- The row is listed once, for a second time would repeat its key.
    obtain ⟨member, named⟩ := find_eq_some.mp found
    obtain ⟨before, after, split⟩ := List.append_of_mem member
    have nodup := table.nodup
    rw [split, List.map_append, List.map_cons, List.nodup_append, List.nodup_cons] at nodup
    obtain ⟨-, ⟨notAfter, -⟩, notBefore⟩ := nodup
    have left : before.filter (fun row => key row = k) = [] := by
      rw [List.filter_eq_nil_iff]
      intro other listed
      simpa [named] using notBefore (key other) (List.mem_map_of_mem listed) (key row) (by simp)
    have right : after.filter (fun row => key row = k) = [] := by
      rw [List.filter_eq_nil_iff]
      intro other listed same
      refine notAfter (List.mem_map.mpr ⟨other, listed, ?_⟩)
      rw [named]
      simpa using same
    simp [split, left, right, named]

@[simp] theorem find_empty (k : κ) : (empty : Table key).find k = none := rfl

/-- Saving by primary key: the row replaces the one under its key, or is appended. -/
def save (table : Table key) (row : ρ) : Table key where
  rows := if (table.find (key row)).isSome
    then table.rows.map fun old => if key old = key row then row else old
    else table.rows ++ [row]
  nodup := by
    split
    · -- Replacing a row by one with the same key leaves the list of keys as it was.
      have same : (table.rows.map fun old => if key old = key row then row else old).map key =
          table.rows.map key := by
        rw [List.map_map]
        apply List.map_congr_left
        intro old _
        by_cases replaced : key old = key row <;> simp [replaced]
      exact same ▸ table.nodup
    · rename_i absent
      -- A key that was not found is different from all the keys before it.
      have fresh := find_eq_none.mp (Option.not_isSome_iff_eq_none.mp absent)
      rw [List.map_append, List.nodup_append]
      refine ⟨table.nodup, by simp, ?_⟩
      intro k member other otherMember same
      obtain ⟨old, oldMember, rfl⟩ := List.mem_map.mp member
      simp only [List.map_cons, List.map_nil, List.mem_singleton] at otherMember
      exact fresh old oldMember (same.trans otherMember)

/-- A row with a new key goes to the end of the table. -/
theorem rows_save_of_fresh {table : Table key} {row : ρ} (fresh : table.find (key row) = none) :
    (table.save row).rows = table.rows ++ [row] := by
  simp [save, fresh]

/-- A row with a known key takes the place of the old one. -/
theorem rows_save_of_found {table : Table key} {row old : ρ}
    (found : table.find (key row) = some old) :
    (table.save row).rows = table.rows.map fun old => if key old = key row then row else old := by
  simp [save, found]

/-- The rows after a save are the saved one and the rows under other keys. -/
theorem mem_save {table : Table key} {row other : ρ} :
    other ∈ (table.save row).rows ↔ other = row ∨ other ∈ table.rows ∧ key other ≠ key row := by
  -- A save appends or replaces, so the two shapes of the table are told apart.
  cases found : table.find (key row) with
  | none =>
    rw [rows_save_of_fresh found, List.mem_append, List.mem_singleton, or_comm]
    -- With a fresh key, the condition on the other rows holds by itself.
    have fresh := find_eq_none.mp found
    exact or_congr Iff.rfl ⟨fun member => ⟨member, fresh other member⟩, And.left⟩
  | some old =>
    obtain ⟨oldMember, oldNamed⟩ := find_eq_some.mp found
    rw [rows_save_of_found found, List.mem_map]
    constructor
    · intro given
      obtain ⟨source, member, rfl⟩ := given
      by_cases replaced : key source = key row
      · simp [replaced]
      · simp [replaced, member]
    · intro either
      rcases either with rfl | ⟨member, different⟩
      · exact ⟨old, oldMember, by simp [oldNamed]⟩
      · exact ⟨other, member, by simp [different]⟩

/-- A save changes what is found under the saved key and nothing else. -/
theorem find_save (table : Table key) (row : ρ) (k : κ) :
    (table.save row).find k = if key row = k then some row else table.find k := by
  -- Under the saved key membership decides; any other key keeps what it had.
  split
  · rename_i named
    exact find_eq_some.mpr ⟨mem_save.mpr (Or.inl rfl), named⟩
  · rename_i different
    apply Option.ext
    intro other
    rw [find_eq_some, find_eq_some, mem_save]
    -- Under any other key the saved row cannot be the one that is found.
    constructor
    · intro given
      obtain ⟨rfl | ⟨member, _⟩, named⟩ := given
      · exact absurd named different
      · exact ⟨member, named⟩
    · intro given
      obtain ⟨member, named⟩ := given
      exact ⟨Or.inr ⟨member, fun same => different (same.symm.trans named)⟩, named⟩

@[simp] theorem find_save_self (table : Table key) (row : ρ) :
    (table.save row).find (key row) = some row := by
  simp [find_save]

/-- `INSERT OR IGNORE`: a row whose key is taken is dropped. -/
def insertOrIgnore (table : Table key) (row : ρ) : Table key :=
  if (table.find (key row)).isSome then table else table.save row

/-- An ignored insert leaves the stored row, and an accepted one adds the new row. -/
theorem find_insertOrIgnore (table : Table key) (row : ρ) (k : κ) :
    (table.insertOrIgnore row).find k =
      if key row = k then some ((table.find k).getD row) else table.find k := by
  -- The stored row wins whenever its key was taken before the insert.
  unfold insertOrIgnore
  split
  · rename_i taken
    obtain ⟨old, found⟩ := Option.isSome_iff_exists.mp taken
    by_cases named : key row = k
    · subst named; simp [found]
    · simp [named]
  · rename_i absent
    have fresh := Option.not_isSome_iff_eq_none.mp absent
    rw [find_save]
    by_cases named : key row = k
    · subst named; simp [fresh]
    · simp [named]

/-- An update reaches a key exactly when the row under it matches. -/
theorem find_update (table : Table key) (matching : ρ → Bool) (set : ρ → ρ)
    (keeps : ∀ row, key (set row) = key row) (k : κ) :
    (table.update matching set keeps).find k =
      (table.find k).map fun row => if matching row then set row else row := by
  -- The change keeps every key, so a row is found where its source was found.
  apply Option.ext
  intro row
  rw [find_eq_some, Option.map_eq_some_iff, rows_update, List.mem_map]
  -- An unmatched row is its own image, and a matched one keeps its key.
  have keyed : ∀ source : ρ, key (if matching source then set source else source) = key source := by
    intro source
    split
    · exact keeps source
    · rfl
  constructor
  · intro given
    obtain ⟨⟨source, member, rfl⟩, named⟩ := given
    exact ⟨source, find_eq_some.mpr ⟨member, (keyed source).symm.trans named⟩, rfl⟩
  · intro given
    obtain ⟨source, found, rfl⟩ := given
    obtain ⟨member, named⟩ := find_eq_some.mp found
    exact ⟨⟨source, member, rfl⟩, (keyed source).trans named⟩

/-- A new row joins the slices that select it, at their end. -/
theorem filter_save_of_fresh (slice : ρ → Bool) {table : Table key} {row : ρ}
    (fresh : table.find (key row) = none) :
    (table.save row).rows.filter slice =
      table.rows.filter slice ++ if slice row then [row] else [] := by
  -- The new row is the last one, so it joins the end of the slice or none of it.
  rw [rows_save_of_fresh fresh, List.filter_append]
  congr 1
  by_cases inside : slice row <;> simp [inside]

/-- An update of the row under one key is a save of what it makes of that row. -/
theorem update_eq_save {table : Table key} {row old : ρ} (found : table.find (key row) = some old)
    (set : ρ → ρ) (keeps : ∀ row, key (set row) = key row) (same : set old = row) :
    table.update (fun other => decide (key other = key row)) set keeps = table.save row := by
  -- The only row that matches is the one that was found.
  have rows : (table.update (fun other => decide (key other = key row)) set keeps).rows =
      (table.save row).rows := by
    rw [rows_update, rows_save_of_found found]
    apply List.map_congr_left
    intro other member
    by_cases named : key other = key row
    · have own : other = old :=
        eq_of_key_eq member (mem_of_find found) (named.trans (key_of_find found).symm)
      simp [own, same, key_of_find found]
    · simp [named]
  cases updated : table.update (fun other => decide (key other = key row)) set keeps
  cases saved : table.save row
  rw [updated, saved] at rows
  cases rows
  rfl

end Table
