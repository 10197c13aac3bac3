import Mathlib.Algebra.BigOperators.Group.List.Basic
import Mathlib.Algebra.Ring.Nat
import Mathlib.Data.List.Sort

/-! Jobs that are served in rounds, so many at a time, each as often as it has lives. -/

namespace Rounds

variable {α : Type*}

variable (lives : α → ℕ)

/-- What serving jobs leaves of them: each is finished, or is left with fewer lives. -/
inductive Served : List α → List α → Prop
  | nil : Served [] []
  | finished {jobs left : List α} (job : α) : Served jobs left → Served (job :: jobs) left
  | kept {job again : α} {jobs left : List α} : lives again < lives job → Served jobs left →
      Served (job :: jobs) (again :: left)

/-- A round serves as many jobs as it may, whichever they are, and leaves the others. -/
structure Round (limit : ℕ) (before after served others left : List α) : Prop where
  chosen : before.Perm (served ++ others)
  full : served.length = min limit before.length
  serves : Served lives served left
  leaves : after.Perm (left ++ others)

/-- So many rounds, one after the other. -/
inductive Iterated (limit : ℕ) : ℕ → List α → List α → Prop
  | none (jobs : List α) : Iterated limit 0 jobs jobs
  | round {count : ℕ} {before middle after served others left : List α} :
      Round lives limit before middle served others left → Iterated limit count middle after →
      Iterated limit (count + 1) before after

/-- How often jobs can be served: each once more than it has lives. -/
def load (jobs : List α) : ℕ :=
  (jobs.map fun job => lives job + 1).sum

variable {lives : α → ℕ} {limit most count : ℕ}
  {before after jobs served others left : List α}

namespace Served

/-- Serving never adds a job. -/
theorem length_le (served : Served lives jobs left) : left.length ≤ jobs.length := by
  -- A finished job is gone, and a kept one is replaced by itself.
  induction served with
  | nil => exact Nat.le_refl 0
  | finished job _ ih => exact ih.trans (Nat.le_succ _)
  | kept _ _ ih => exact Nat.succ_le_succ ih

/-- What is left has fewer lives than what was served may have had. -/
theorem fewer (served : Served lives jobs left) :
    ∀ {bound : ℕ}, (∀ job ∈ jobs, lives job ≤ bound) → ∀ job ∈ left, lives job < bound := by
  induction served with
  | nil => exact fun _ _ member => nomatch member
  | finished job _ ih =>
    intro bound bounded
    exact ih fun other member => bounded other (List.mem_cons_of_mem _ member)
  | kept less _ ih =>
    intro bound bounded job member
    -- The first one has lost a life, the others by induction.
    rcases List.mem_cons.mp member with rfl | later
    · exact less.trans_le (bounded _ List.mem_cons_self)
    · exact ih (fun other member => bounded other (List.mem_cons_of_mem _ member)) job later

end Served

namespace Round

/-- A round gives nobody more lives than there were. -/
theorem bounded (round : Round lives limit before after served others left)
    (bounded : ∀ job ∈ before, lives job ≤ most) : ∀ job ∈ after, lives job ≤ most := by
  intro job member
  have known (other : α) (listed : other ∈ served ++ others) : lives other ≤ most :=
    bounded other (round.chosen.mem_iff.mpr listed)
  -- A served job has lost lives, and the others keep theirs.
  rcases List.mem_append.mp (round.leaves.mem_iff.mp member) with front | back
  · exact (round.serves.fewer (fun other listed => known other (List.mem_append_left _ listed))
      job front).le
  · exact known job (List.mem_append_right _ back)

/-- A round that may serve all jobs leaves none of them aside. -/
theorem others_eq_nil (round : Round lives limit before after served others left)
    (few : before.length ≤ limit) : others = [] := by
  have all := round.chosen.length_eq
  rw [List.length_append, round.full, Nat.min_eq_right few] at all
  exact List.length_eq_zero_iff.mp (by omega)

/-- A round that may serve all jobs takes a life of each. -/
theorem fewer (round : Round lives limit before after served others left)
    (few : before.length ≤ limit) (bounded : ∀ job ∈ before, lives job ≤ most) :
    after.length ≤ limit ∧ ∀ job ∈ after, lives job < most := by
  obtain rfl := round.others_eq_nil few
  have same := round.chosen
  have rest := round.leaves
  rw [List.append_nil] at same rest
  refine ⟨?_, fun job member => ?_⟩
  · exact rest.length_eq.trans_le (round.serves.length_le.trans (same.length_eq.symm.trans_le few))
  · exact round.serves.fewer (fun other listed => bounded other (same.mem_iff.mpr listed)) job
      (rest.mem_iff.mp member)

end Round

namespace Iterated

/-- Jobs that fit into one round are gone after as many rounds as they have lives, and one more. -/
theorem gone (rounds : Iterated lives limit count before after) (few : before.length ≤ limit)
    (bounded : ∀ job ∈ before, lives job < count) : after = [] := by
  induction rounds with
  | none jobs =>
    refine List.eq_nil_iff_forall_not_mem.mpr fun job member => ?_
    exact absurd (bounded job member) (Nat.not_lt_zero _)
  | round one _ ih =>
    -- The first round takes a life of each, and the others do the rest.
    obtain ⟨still, less⟩ := one.fewer few fun job member => Nat.le_of_lt_succ (bounded job member)
    exact ih still less

end Iterated

end Rounds
