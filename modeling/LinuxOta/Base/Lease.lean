-- SUMMARY: Resources that are opened, used and closed: what a trace does to one of them, and that it closes it once and last.
import Mathlib.Data.List.Basic

/-! # Leases

A trace is seen from one resource: every entry opens, uses or closes it, or does not
concern it. -/

namespace Lease

/-- What an entry of a trace does to the resource. -/
inductive Use where
  | opens
  | uses
  | closes
  deriving DecidableEq, Repr

/-- A resource that is opened is closed once, and nothing is done to it after it was closed. -/
structure ClosedOnce (us : List Use) : Prop where
  once : .opens ∈ us → us.count .closes = 1
  last : ∀ pre post, us = pre ++ .closes :: post → post = []

theorem closedOnce_nil : ClosedOnce [] where
  once h := absurd h (by simp)
  last pre post h := by simp at h

/-- A resource that is closed at the end. -/
theorem closedOnce_of_uses {us : List Use} (hus : ∀ u ∈ us, u = .uses) :
    ClosedOnce (.opens :: (us ++ [.closes])) where
  once _ := by
    have hzero : us.count .closes = 0 :=
      List.count_eq_zero.mpr fun hmem => absurd (hus _ hmem) (by decide)
    simp [hzero]
  last pre post h := by
    rcases List.eq_nil_or_concat post with rfl | ⟨post', u, rfl⟩
    · rfl
    · -- the first entry opens, so that the closing one lies among the uses
      cases pre with
      | nil => exact absurd (List.cons.inj h).1 (by decide)
      | cons v pre =>
        have htail : us ++ [.closes] = pre ++ .closes :: post'.concat u := (List.cons.inj h).2
        rw [List.concat_eq_append, ← List.cons_append, ← List.append_assoc] at htail
        have hmem : Use.closes ∈ us := by
          rw [(List.append_inj' htail rfl).1]
          simp
        exact absurd (hus _ hmem) (by decide)

/-- A resource that is never closed. -/
theorem not_closedOnce_of_open {us : List Use} (hus : .closes ∉ us) : ¬ ClosedOnce (.opens :: us) := by
  intro h
  have hone := h.once (by simp)
  rw [List.count_cons_of_ne (by decide), List.count_eq_zero.mpr hus] at hone
  exact absurd hone (by decide)

/-- A resource that is closed twice. -/
theorem not_closedOnce_of_closes (us : List Use) : ¬ ClosedOnce (us ++ [.closes, .closes]) := by
  intro h
  exact absurd (h.last us [.closes] rfl) (by simp)

end Lease
