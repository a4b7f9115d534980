-- SUMMARY: The states in which a sequence of effects may be cut off: between two of them, or in the middle of one.
import Mathlib.Data.List.Basic

/-! # Crashes

A run is the list of its entries, each with its effect on a state. -/

namespace Crash

variable {α σ : Type*} (effect : α → σ → σ)

/-- The state after the entries of a list. -/
def after (l : List α) (s : σ) : σ := l.foldl (fun s e => effect e s) s

@[simp] theorem after_nil (s : σ) : after effect [] s = s := rfl

@[simp] theorem after_cons (e : α) (l : List α) (s : σ) :
    after effect (e :: l) s = after effect l (effect e s) := rfl

theorem after_append (l l' : List α) (s : σ) :
    after effect (l ++ l') s = after effect l' (after effect l s) := List.foldl_append

/-- Entries without an effect. -/
theorem after_of_idle {l : List α} (h : ∀ e ∈ l, ∀ s, effect e s = s) (s : σ) : after effect l s = s := by
  induction l with
  | nil => rfl
  | cons e l ih =>
    obtain ⟨he, hl⟩ := List.forall_mem_cons.mp h
    rw [after_cons, he, ih hl]

variable (torn : α → σ → σ → Prop)

/-- The states a run may be cut off in: where an entry is torn, or behind the last one. -/
def States : List α → σ → σ → Prop
  | [], s, s' => s' = s
  | e :: l, s, s' => torn e s s' ∨ States l (effect e s) s'

@[simp] theorem states_nil (s s' : σ) : States effect torn [] s s' ↔ s' = s := Iff.rfl

@[simp] theorem states_cons (e : α) (l : List α) (s s' : σ) :
    States effect torn (e :: l) s s' ↔ torn e s s' ∨ States effect torn l (effect e s) s' := Iff.rfl

variable {effect torn}

theorem states_iff {l : List α} {s s' : σ} :
    States effect torn l s s' ↔
      (∃ pre e post, l = pre ++ e :: post ∧ torn e (after effect pre s) s') ∨ s' = after effect l s := by
  induction l generalizing s with
  | nil => simp
  | cons e l ih =>
    rw [states_cons, ih, after_cons, ← or_assoc]
    refine or_congr_left ?_
    constructor
    · rintro (htorn | ⟨pre, e', post, rfl, htorn⟩)
      · exact ⟨[], e, l, rfl, htorn⟩
      · exact ⟨e :: pre, e', post, rfl, htorn⟩
    · rintro ⟨pre, e', post, heq, htorn⟩
      cases pre with
      | nil =>
        obtain ⟨rfl, rfl⟩ := List.cons.inj heq
        exact .inl htorn
      | cons e'' pre =>
        obtain ⟨rfl, rfl⟩ := List.cons.inj heq
        exact .inr ⟨pre, e', post, rfl, htorn⟩

theorem states_refl (hrefl : ∀ e s, torn e s s) (l : List α) (s : σ) : States effect torn l s s := by
  cases l with
  | nil => rfl
  | cons e l => exact .inl (hrefl e s)

/-- What is idle, torn or not, adds nothing. -/
theorem states_append_of_idle {l l' : List α} (hrefl : ∀ e s, torn e s s)
    (h : ∀ e ∈ l, ∀ s, effect e s = s) (htorn : ∀ e ∈ l, ∀ s s', torn e s s' → s' = s) {s s' : σ} :
    States effect torn (l ++ l') s s' ↔ States effect torn l' s s' := by
  induction l with
  | nil => rfl
  | cons e l ih =>
    obtain ⟨he, hl⟩ := List.forall_mem_cons.mp h
    obtain ⟨hte, htl⟩ := List.forall_mem_cons.mp htorn
    rw [List.cons_append, states_cons, he, ih hl htl]
    refine or_iff_right_of_imp fun htorn => ?_
    rw [hte s s' htorn]
    exact states_refl hrefl l' s

end Crash
