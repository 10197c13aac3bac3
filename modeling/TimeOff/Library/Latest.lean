import Mathlib.Order.Lattice
import Mathlib.Order.Defs.LinearOrder

/-! A register that keeps the latest of the versioned values it is given. -/

namespace Latest

/-- A value with the version it carries. -/
structure Stamped (ν α : Type*) where
  version : ν
  value : α
  deriving DecidableEq

variable {ν α : Type*} [LinearOrder ν]

/-- A register takes an update over when its version is above the current one. -/
def take (current update : Stamped ν α) : Stamped ν α :=
  if current.version < update.version then update else current

/-- A register is given updates one after the other. -/
def absorb (current : Stamped ν α) (updates : List (Stamped ν α)) : Stamped ν α :=
  updates.foldl take current

@[simp] theorem absorb_nil (current : Stamped ν α) : absorb current [] = current := rfl

@[simp] theorem absorb_cons (current update : Stamped ν α) (rest : List (Stamped ν α)) :
    absorb current (update :: rest) = absorb (take current update) rest := rfl

theorem version_take (current update : Stamped ν α) :
    (take current update).version = max current.version update.version := by
  -- The update is taken exactly when its version is the larger one.
  unfold take
  split
  · rename_i newer
    exact (max_eq_right newer.le).symm
  · rename_i stale
    exact (max_eq_left (not_lt.mp stale)).symm

/-- The version of the register is the highest it has seen. -/
theorem version_absorb (current : Stamped ν α) (updates : List (Stamped ν α)) :
    (absorb current updates).version = (updates.map (·.version)).foldl max current.version := by
  -- The induction generalises the current value, which each update may replace.
  induction updates generalizing current with
  | nil => rfl
  | cons update rest ih => rw [absorb_cons, ih, version_take]; rfl

/-- The register never falls behind its start. -/
theorem le_version_absorb (current : Stamped ν α) (updates : List (Stamped ν α)) :
    current.version ≤ (absorb current updates).version := by
  -- Each update raises the version or leaves it.
  induction updates generalizing current with
  | nil => exact le_rfl
  | cons update rest ih =>
    have first : current.version ≤ (take current update).version := by
      rw [version_take]
      exact le_max_left _ _
    exact first.trans (ih _)

/-- The register never falls behind an update it was given. -/
theorem version_le_absorb (current : Stamped ν α) {updates : List (Stamped ν α)}
    {update : Stamped ν α} (member : update ∈ updates) :
    update.version ≤ (absorb current updates).version := by
  -- The update is met somewhere in the list, and the register only rises after it.
  induction updates generalizing current with
  | nil => cases member
  | cons head rest ih =>
    rcases List.mem_cons.mp member with rfl | later
    · have taken : update.version ≤ (take current update).version := by
        rw [version_take]
        exact le_max_right _ _
      exact taken.trans (le_version_absorb _ rest)
    · exact ih _ later

/-- The register holds its start, or a newer update it was given. -/
theorem absorb_cases (current : Stamped ν α) (updates : List (Stamped ν α)) :
    absorb current updates = current ∨
      absorb current updates ∈ updates ∧
        current.version < (absorb current updates).version := by
  -- The first update either replaces the start or is passed over.
  induction updates generalizing current with
  | nil => exact Or.inl rfl
  | cons update rest ih =>
    rw [absorb_cons]
    by_cases newer : current.version < update.version
    · have taken : take current update = update := if_pos newer
      rw [taken]
      rcases ih update with same | ⟨member, above⟩
      · exact Or.inr (by simp [same, newer])
      · exact Or.inr ⟨List.mem_cons_of_mem _ member, newer.trans above⟩
    · have kept : take current update = current := if_neg newer
      rw [kept]
      exact (ih current).imp_right fun ⟨member, above⟩ => ⟨List.mem_cons_of_mem _ member, above⟩

/-- Updates in which a version determines the value. -/
def Consistent (updates : List (Stamped ν α)) : Prop :=
  ∀ left ∈ updates, ∀ right ∈ updates, left.version = right.version → left = right

/-- Only the set of consistent updates matters, not their order or how often each arrives. -/
theorem absorb_congr (current : Stamped ν α) {left right : List (Stamped ν α)}
    (consistent : Consistent left) (same : ∀ update, update ∈ left ↔ update ∈ right) :
    absorb current left = absorb current right := by
  -- Both end at the same version, so a value that was taken over is the same on both sides.
  -- Every update of one side is met on the other side, which ends no lower.
  have bounded (updates others : List (Stamped ν α)) (each : ∀ update ∈ updates, update ∈ others) :
      (absorb current updates).version ≤ (absorb current others).version := by
    rcases absorb_cases current updates with kept | ⟨member, _⟩
    · rw [kept]
      exact le_version_absorb current others
    · exact version_le_absorb current (each _ member)
  have versions := le_antisymm (bounded left right fun update => (same update).mp)
    (bounded right left fun update => (same update).mpr)
  rcases absorb_cases current left with kept | ⟨member, above⟩
  · rcases absorb_cases current right with keptToo | ⟨_, aboveToo⟩
    · exact kept.trans keptToo.symm
    -- One side cannot rise above the start while the other stays there.
    · rw [← versions, kept] at aboveToo
      exact absurd aboveToo (lt_irrefl _)
  · rcases absorb_cases current right with kept | ⟨memberToo, _⟩
    · rw [versions, kept] at above
      exact absurd above (lt_irrefl _)
    · exact consistent _ member _ ((same _).mpr memberToo) versions

end Latest
