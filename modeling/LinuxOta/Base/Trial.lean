-- SUMMARY: A candidate that is tried a bounded number of times before a fallback takes over, and systems that behave so.
import Mathlib.Logic.Function.Iterate

/-! # Bounded trials -/

/-- A candidate on trial: it is started while it has tries left, then the fallback. -/
structure Trial (α : Type*) where
  candidate : α
  fallback : α
  left : Nat

namespace Trial

variable {α : Type*}

/-- What is started next. -/
def starts (t : Trial α) : α :=
  if 0 < t.left then t.candidate else t.fallback

/-- The trial after one start. -/
def next (t : Trial α) : Trial α := { t with left := t.left - 1 }

/-- The fallback is started for good. -/
theorem next_of_spent {t : Trial α} (h : ¬ 0 < t.left) : t.next = t := by
  obtain ⟨candidate, fallback, left⟩ := t
  obtain rfl : left = 0 := Nat.eq_zero_of_not_pos h
  rfl

theorem next_iterate (t : Trial α) (n : Nat) : next^[n] t = { t with left := t.left - n } := by
  induction n with
  | zero => rfl
  | succ n ih =>
    rw [Function.iterate_succ_apply', ih]
    rfl

/-- The first `left` starts are of the candidate, and all later ones of the fallback. -/
theorem starts_iterate (t : Trial α) (n : Nat) :
    (next^[n] t).starts = if n < t.left then t.candidate else t.fallback := by
  rw [next_iterate, starts]
  exact if_congr Nat.sub_pos_iff_lt rfl rfl

/-- A system with state `σ`, stepped by `step`, conducts a trial: `R` relates its states
to trials, and is kept when both make a step. -/
structure Conducts {σ : Type*} (step : σ → σ) (start : σ → Option α) (R : σ → Trial α → Prop) : Prop where
  starts : ∀ s t, R s t → start s = some t.starts
  next : ∀ s t, R s t → R (step s) t.next

namespace Conducts

variable {σ : Type*} {step : σ → σ} {start : σ → Option α} {R : σ → Trial α → Prop}

theorem iterate (h : Conducts step start R) {s : σ} {t : Trial α} (hR : R s t) (n : Nat) :
    R (step^[n] s) (Trial.next^[n] t) := by
  induction n with
  | zero => exact hR
  | succ n ih =>
    rw [Function.iterate_succ_apply', Function.iterate_succ_apply']
    exact h.next _ _ ih

/-- What such a system starts at every step. -/
theorem start_iterate (h : Conducts step start R) {s : σ} {t : Trial α} (hR : R s t) (n : Nat) :
    start (step^[n] s) = some (if n < t.left then t.candidate else t.fallback) := by
  rw [h.starts _ _ (h.iterate hR n), starts_iterate]

end Conducts
end Trial
