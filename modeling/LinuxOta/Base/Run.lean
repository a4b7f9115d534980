-- SUMMARY: Runs of a deterministic machine over a list of commands, and properties of all their steps.
import Mathlib.Init

/-! # Runs

`next c s` is the state after command `c` in state `s`. -/

namespace Run

variable {C S : Type*} (next : C → S → S)

/-- `P` holds of every command of the run and the state it is given in. -/
def Always (P : C → S → Prop) : List C → S → Prop
  | [], _ => True
  | c :: cs, s => P c s ∧ Always P cs (next c s)

instance decidableAlways {P : C → S → Prop} [∀ c s, Decidable (P c s)] :
    ∀ cs s, Decidable (Always next P cs s)
  | [], _ => .isTrue trivial
  | c :: cs, s =>
    have : Decidable (Always next P cs (next c s)) := decidableAlways cs (next c s)
    inferInstanceAs (Decidable (P c s ∧ Always next P cs (next c s)))

variable {next} {P Q : C → S → Prop}

theorem always_mono (h : ∀ c s, P c s → Q c s) :
    ∀ (cs : List C) (s : S), Always next P cs s → Always next Q cs s := by
  intro cs
  induction cs with
  | nil => exact fun _ _ => trivial
  | cons c cs ih => exact fun s hs => ⟨h c s hs.1, ih (next c s) hs.2⟩

theorem always_and : ∀ (cs : List C) (s : S), Always next P cs s → Always next Q cs s →
    Always next (fun c s => P c s ∧ Q c s) cs s := by
  intro cs
  induction cs with
  | nil => exact fun _ _ _ => trivial
  | cons c cs ih => exact fun s hP hQ => ⟨⟨hP.1, hQ.1⟩, ih (next c s) hP.2 hQ.2⟩

/-- Properties that agree on single steps agree on runs. -/
theorem always_congr (h : ∀ c s, P c s ↔ Q c s) (cs : List C) (s : S) :
    Always next P cs s ↔ Always next Q cs s :=
  ⟨always_mono (fun c s => (h c s).mp) cs s, always_mono (fun c s => (h c s).mpr) cs s⟩

/-- An invariant that the steps taken keep, and that gives `Q` at each of them, gives `Q`
along the run. -/
theorem always_of_invariant {I : S → Prop} (hstep : ∀ c s, P c s → I s → Q c s ∧ I (next c s)) :
    ∀ (cs : List C) (s : S), Always next P cs s → I s → Always next Q cs s := by
  intro cs
  induction cs with
  | nil => exact fun _ _ _ => trivial
  | cons c cs ih =>
    intro s hP hI
    obtain ⟨hQ, hI'⟩ := hstep c s hP.1 hI
    exact ⟨hQ, ih (next c s) hP.2 hI'⟩

end Run
