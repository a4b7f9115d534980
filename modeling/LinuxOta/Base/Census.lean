-- SUMMARY: How many members of a finite population are in a state of some kind, and what one move does to their number.
import Mathlib.Algebra.BigOperators.Group.Finset.Piecewise
import Mathlib.Algebra.BigOperators.Ring.Finset
import Mathlib.Data.Fintype.BigOperators

/-! # A census

`f t` is the state member `t` is in, and `P` the kind of state that is counted. -/

namespace Census

variable {T S : Type*} [Fintype T] (P : S → Prop) [DecidablePred P]

/-- The number of members in a state of the kind. -/
def count (f : T → S) : Nat := (Finset.univ.filter fun t => P (f t)).card

variable {P} {f : T → S}

theorem count_pos_iff : 0 < count P f ↔ ∃ t, P (f t) := by
  simp [count, Finset.card_pos, Finset.filter_nonempty_iff]

variable [DecidableEq T]

/-- One member moves: it is no longer counted for the state it leaves, and is for the one it
enters. -/
theorem count_update (f : T → S) (t : T) (v : S) :
    count P (Function.update f t v) + (if P (f t) then 1 else 0) = count P f + (if P v then 1 else 0) := by
  simp only [count, Finset.card_filter]
  rw [← Finset.add_sum_erase Finset.univ _ (Finset.mem_univ t),
    ← Finset.add_sum_erase Finset.univ (fun t => if P (f t) then 1 else 0) (Finset.mem_univ t)]
  have hrest : ∑ x ∈ Finset.univ.erase t, (if P (Function.update f t v x) then 1 else 0) =
      ∑ x ∈ Finset.univ.erase t, if P (f x) then 1 else 0 := by
    refine Finset.sum_congr rfl fun x hx => ?_
    rw [Function.update_of_ne (Finset.ne_of_mem_erase hx)]
  rw [hrest, Function.update_self]
  omega

theorem count_enter {t : T} {v : S} (hold : ¬ P (f t)) (hnew : P v) :
    count P (Function.update f t v) = count P f + 1 := by
  have h := count_update (P := P) f t v
  rwa [if_neg hold, if_pos hnew] at h

/-- At most one member leaves. -/
theorem count_le_succ (f : T → S) (t : T) (v : S) :
    count P f ≤ count P (Function.update f t v) + 1 := by
  have h := count_update (P := P) f t v
  split at h <;> split at h <;> omega

theorem count_le_of_not (v : S) {t : T} (hold : ¬ P (f t)) :
    count P f ≤ count P (Function.update f t v) := by
  have h := count_update (P := P) f t v
  rw [if_neg hold] at h
  omega

end Census
