import Mathlib.Algebra.BigOperators.Group.Finset.Piecewise
import Mathlib.Algebra.Order.BigOperators.Group.Finset
import Mathlib.Algebra.Ring.Int.Defs

/-! Sums over lists whose elements belong to groups, compared group by group. -/

namespace Grouping

variable {α β κ : Type*} [DecidableEq κ]

/-- The sum over the chosen elements is the sum over all with nothing for the others. -/
theorem sum_filter (list : List α) (chosen : α → Bool) (weight : α → ℤ) :
    ((list.filter chosen).map weight).sum =
      (list.map fun element => if chosen element then weight element else 0).sum := by
  -- An element left out of the filter counts for nothing in the other sum.
  induction list with
  | nil => rfl
  | cons head rest ih => by_cases picked : chosen head <;> simp [picked, ih]

/-- The total weight of the elements of one group. -/
def groupSum (list : List α) (group : α → κ) (weight : α → ℤ) (k : κ) : ℤ :=
  ((list.filter fun element => group element = k).map weight).sum

/-- A total is the sum over any set of groups that has all the groups of the list. -/
theorem sum_eq_sum_groups (list : List α) (group : α → κ) (weight : α → ℤ) (groups : Finset κ)
    (covered : ∀ element ∈ list, group element ∈ groups) :
    (list.map weight).sum = ∑ k ∈ groups, groupSum list group weight k := by
  -- The head of the list adds its weight to its own group and to no other.
  induction list with
  | nil => simp [groupSum]
  | cons head rest ih =>
    have split : ∀ k, groupSum (head :: rest) group weight k =
        (if group head = k then weight head else 0) + groupSum rest group weight k := by
      intro k
      by_cases own : group head = k <;> simp [groupSum, own]
    have head_ := covered head List.mem_cons_self
    simp only [split, Finset.sum_add_distrib, Finset.sum_ite_eq, head_, if_true,
      List.map_cons, List.sum_cons]
    rw [ih fun element member => covered element (List.mem_cons_of_mem _ member)]

variable {left : List α} {right : List β} {ofLeft : α → κ} {ofRight : β → κ}
  {leftWeight : α → ℤ} {rightWeight : β → ℤ}

/-- A total is at most another one when that holds in every group. -/
theorem sum_le_of_groups (each : ∀ k,
      groupSum left ofLeft leftWeight k ≤ groupSum right ofRight rightWeight k) :
    (left.map leftWeight).sum ≤ (right.map rightWeight).sum := by
  -- Both totals are split over the groups of the two lists together.
  let groups := (left.map ofLeft).toFinset ∪ (right.map ofRight).toFinset
  have leftCovered : ∀ element ∈ left, ofLeft element ∈ groups := fun element member =>
    Finset.mem_union_left _ (List.mem_toFinset.mpr (List.mem_map_of_mem member))
  have rightCovered : ∀ element ∈ right, ofRight element ∈ groups := fun element member =>
    Finset.mem_union_right _ (List.mem_toFinset.mpr (List.mem_map_of_mem member))
  rw [sum_eq_sum_groups left ofLeft leftWeight groups leftCovered,
    sum_eq_sum_groups right ofRight rightWeight groups rightCovered]
  exact Finset.sum_le_sum fun k _ => each k

/-- When only one group differs, the totals differ by as much as that group does. -/
theorem sum_eq_add_of_groups (changed : κ) {difference : ℤ}
    (own : groupSum right ofRight rightWeight changed =
      groupSum left ofLeft leftWeight changed + difference)
    (others : ∀ k, k ≠ changed →
      groupSum right ofRight rightWeight k = groupSum left ofLeft leftWeight k) :
    (right.map rightWeight).sum = (left.map leftWeight).sum + difference := by
  -- The difference is booked on the changed group, and the others cancel.
  let groups := insert changed ((left.map ofLeft).toFinset ∪ (right.map ofRight).toFinset)
  have leftCovered : ∀ element ∈ left, ofLeft element ∈ groups := fun element member =>
    Finset.mem_insert_of_mem
      (Finset.mem_union_left _ (List.mem_toFinset.mpr (List.mem_map_of_mem member)))
  have rightCovered : ∀ element ∈ right, ofRight element ∈ groups := fun element member =>
    Finset.mem_insert_of_mem
      (Finset.mem_union_right _ (List.mem_toFinset.mpr (List.mem_map_of_mem member)))
  have each : ∀ k ∈ groups, groupSum right ofRight rightWeight k =
      groupSum left ofLeft leftWeight k + if changed = k then difference else 0 := by
    intro k _
    by_cases same : changed = k
    · subst same
      simp [own]
    · simp [same, others k (Ne.symm same)]
  rw [sum_eq_sum_groups left ofLeft leftWeight groups leftCovered,
    sum_eq_sum_groups right ofRight rightWeight groups rightCovered, Finset.sum_congr rfl each,
    Finset.sum_add_distrib, Finset.sum_ite_eq, if_pos (Finset.mem_insert_self _ _)]

end Grouping
