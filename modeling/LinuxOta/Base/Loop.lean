-- SUMMARY: Loops as a step function that goes on or stops: the states reached, the end, invariants, and termination by a measure.
import Mathlib.Logic.Relation

/-! # Loops

`turn s` is the state after one more turn from `s`, or the result when the loop stops
there. -/

namespace Loop

variable {S R : Type*} (turn : S → S ⊕ R)

/-- The loop gets from the first state to the second one. -/
def Reaches : S → S → Prop :=
  Relation.ReflTransGen fun s s' => turn s = .inl s'

/-- The loop stops, with a result. -/
inductive Ends : S → R → Prop where
  | stop {s : S} {r : R} (h : turn s = .inr r) : Ends s r
  | next {s s' : S} {r : R} (h : turn s = .inl s') (hrest : Ends s' r) : Ends s r

/-- The loop never stops after `s`, and every turn leads to a state with `P`. -/
def Forever (P : S → Prop) (s : S) : Prop :=
  ∀ s', Reaches turn s s' → ∃ s'', turn s' = .inl s'' ∧ P s''

variable {turn} {I P : S → Prop} {s s' : S} {r : R}

/-- What every turn keeps holds of every state reached. -/
theorem Reaches.invariant (hstep : ∀ s s', I s → turn s = .inl s' → I s') (h : Reaches turn s s')
    (hs : I s) : I s' := by
  induction h with
  | refl => exact hs
  | tail _ hturn ih => exact hstep _ _ ih hturn

/-- A loop that ends stops in a state that it reaches. -/
theorem Ends.exists_reaches (h : Ends turn s r) : ∃ s', Reaches turn s s' ∧ turn s' = .inr r := by
  induction h with
  | stop h => exact ⟨_, .refl, h⟩
  | next hturn _ ih =>
    obtain ⟨s', hreach, hstop⟩ := ih
    exact ⟨s', .head hturn hreach, hstop⟩

/-- A loop that ends does so from every state that it reaches. -/
theorem Ends.of_reaches (h : Ends turn s r) (hreach : Reaches turn s s') : Ends turn s' r := by
  induction hreach with
  | refl => exact h
  | tail _ hturn ih =>
    cases ih with
    | stop hstop => exact absurd (hstop.symm.trans hturn) (by simp)
    | next hturn' hrest => rwa [← Sum.inl.inj (hturn'.symm.trans hturn)]

/-- A state that every turn leads back to, with `P`. -/
theorem forever_of_invariant (hstep : ∀ s, I s → ∃ s', turn s = .inl s' ∧ I s' ∧ P s') (hs : I s) :
    Forever turn P s := by
  intro s' hreach
  have hs' : I s' := by
    refine hreach.invariant (fun s₁ s₂ hs₁ hturn => ?_) hs
    obtain ⟨s₂', hturn', hs₂', -⟩ := hstep s₁ hs₁
    rwa [Sum.inl.inj (hturn.symm.trans hturn')]
  obtain ⟨s'', hturn, -, hP⟩ := hstep s' hs'
  exact ⟨s'', hturn, hP⟩

theorem Forever.not_ends (h : Forever turn P s) : ¬ Ends turn s r := by
  intro hends
  obtain ⟨s', hreach, hstop⟩ := hends.exists_reaches
  obtain ⟨s'', hturn, -⟩ := h s' hreach
  exact absurd (hstop.symm.trans hturn) (by simp)

end Loop
