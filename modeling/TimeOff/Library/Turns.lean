import Mathlib.Data.List.Nodup

/-! Orders in which calls have had their turns, each with a result that the calls before decide. -/

namespace Turns

variable {ι ρ : Type*} {turn : List ι → ι → ρ} {order : List ι} {call other : ι} {result : ρ}

/-- A call has had its turn in an order, with the result that the calls before it decide. -/
def Had (turn : List ι → ι → ρ) (order : List ι) (call : ι) (result : ρ) : Prop :=
  call ∈ order ∧ ∀ earlier rest, order = earlier ++ call :: rest → result = turn earlier call

/-- A call that had its turn keeps it when another one gets its own. -/
theorem Had.snoc (had : Had turn order call result) (different : call ≠ other) :
    Had turn (order ++ [other]) call result := by
  refine ⟨List.mem_append_left _ had.1, fun earlier rest same => ?_⟩
  -- The new call is the last one of the order, so the cut lies before it.
  rcases List.eq_nil_or_concat rest with rfl | ⟨kept, last, rfl⟩
  · obtain ⟨_, single⟩ := List.append_inj' same rfl
    exact absurd (List.cons.inj single).1 (Ne.symm different)
  · rw [List.concat_eq_append, ← List.cons_append, ← List.append_assoc] at same
    exact had.2 earlier kept (List.append_inj' same rfl).1

/-- The last call of an order has its turn after all the others. -/
theorem Had.last (nodup : (order ++ [call]).Nodup) (decided : result = turn order call) :
    Had turn (order ++ [call]) call result := by
  refine ⟨by simp, fun earlier rest same => ?_⟩
  rcases List.eq_nil_or_concat rest with rfl | ⟨kept, last, rfl⟩
  · rw [← (List.append_inj' same rfl).1]
    exact decided
  · -- Otherwise the call would occur twice.
    rw [List.concat_eq_append, ← List.cons_append, ← List.append_assoc] at same
    obtain ⟨rfl, _⟩ := List.append_inj' same rfl
    simp [List.nodup_append] at nodup

/-- An order without repetition stays one when a call that is absent gets its turn. -/
theorem nodup_snoc (nodup : order.Nodup) (absent : call ∉ order) : (order ++ [call]).Nodup := by
  refine List.nodup_append.mpr ⟨nodup, List.nodup_singleton _, ?_⟩
  rintro left member right single rfl
  exact absent (List.mem_singleton.mp single ▸ member)

end Turns
