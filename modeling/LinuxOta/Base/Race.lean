-- SUMMARY: Operations that read a value and write a new one without a lock: which of them the value shows, and which are lost.
import Mathlib.Data.List.Basic
import Mathlib.Logic.Function.Basic

/-! # Races

A party reads the value, and writes at any time afterwards what its operation makes of
what it has read. -/

namespace Race

variable {ι κ σ : Type*}

/-- A value, with the operations that have made it of the first one. -/
structure Version (κ σ : Type*) where
  value : σ
  origin : List κ

/-- An operation that has read, with the number of those that had been written before. -/
structure Begun (κ σ : Type*) extends Version κ σ where
  op : κ
  count : Nat

structure State (ι κ σ : Type*) where
  current : Version κ σ
  written : List κ
  begun : ι → Option (Begun κ σ)

inductive Event (ι κ : Type*) where
  | read (i : ι) (op : κ)
  | write (i : ι)

/-- Nothing has been read. -/
def start (v : σ) : State ι κ σ := ⟨⟨v, []⟩, [], fun _ => none⟩

section
variable [DecidableEq ι] (f : κ → σ → Option σ)

/-- One step. An operation may give up instead of writing. -/
def step (s : State ι κ σ) : Event ι κ → State ι κ σ
  | .read i op => { s with begun := Function.update s.begun i (some ⟨s.current, op, s.written.length⟩) }
  | .write i =>
    match s.begun i with
    | none => s
    | some b =>
      let begun := Function.update s.begun i none
      match f b.op b.value with
      | none => { s with begun := begun }
      | some v => ⟨⟨v, b.origin ++ [b.op]⟩, s.written ++ [b.op], begun⟩

def run (s : State ι κ σ) (es : List (Event ι κ)) : State ι κ σ := es.foldl (step f) s

@[simp] theorem run_nil (s : State ι κ σ) : run f s [] = s := rfl

@[simp] theorem run_cons (s : State ι κ σ) (e : Event ι κ) (es : List (Event ι κ)) :
    run f s (e :: es) = run f (step f s e) es := rfl

/-- No write comes between the read and the write of an operation that does not give up. -/
def Isolated : State ι κ σ → List (Event ι κ) → Prop
  | _, [] => True
  | s, e :: es =>
    (∀ i b, e = .write i → s.begun i = some b → f b.op b.value ≠ none → b.count = s.written.length) ∧
      Isolated (step f s e) es

end

variable (f : κ → σ → Option σ)

/-- What operations make of a value one after the other. -/
def serial (ops : List κ) (v : σ) : σ := ops.foldl (fun v op => (f op v).getD v) v

@[simp] theorem serial_nil (v : σ) : serial f [] v = v := rfl

@[simp] theorem serial_cons (op : κ) (ops : List κ) (v : σ) :
    serial f (op :: ops) v = serial f ops ((f op v).getD v) := rfl

theorem serial_concat (ops : List κ) (op : κ) (v : σ) :
    serial f (ops ++ [op]) v = (f op (serial f ops v)).getD (serial f ops v) := by
  simp [serial, List.foldl_append]

/-! ## What a version shows -/

/-- The version was made by some of the operations `written`, one after the other. -/
structure Version.Serial (v₀ : σ) (written : List κ) (x : Version κ σ) : Prop where
  value : x.value = serial f x.origin v₀
  origin : x.origin.Sublist written

/-- The invariant of the races that start with `v₀`. -/
structure Consistent (v₀ : σ) (s : State ι κ σ) : Prop where
  current : s.current.Serial f v₀ s.written
  begun : ∀ i b, s.begun i = some b → b.count ≤ s.written.length ∧
    b.toVersion.Serial f v₀ (s.written.take b.count) ∧
    (b.count = s.written.length → b.toVersion = s.current)

variable {f} {v₀ : σ} {s : State ι κ σ}

theorem consistent_start (v₀ : σ) : Consistent f v₀ (start v₀ : State ι κ σ) :=
  ⟨⟨rfl, List.Sublist.refl _⟩, fun i b hb => by simp [start] at hb⟩

section
variable [DecidableEq ι]

/-- The step an operation writes in. -/
theorem step_write {i : ι} {b : Begun κ σ} {v : σ} (hb : s.begun i = some b) (hv : f b.op b.value = some v) :
    step f s (.write i) =
      ⟨⟨v, b.origin ++ [b.op]⟩, s.written ++ [b.op], Function.update s.begun i none⟩ := by
  simp only [step, hb, hv]

/-- A step in which nothing is written. -/
theorem step_idle {e : Event ι κ}
    (h : ∀ i b, e = .write i → s.begun i = some b → f b.op b.value = none) :
    (step f s e).current = s.current ∧ (step f s e).written = s.written := by
  cases e with
  | read i op => exact ⟨rfl, rfl⟩
  | write i =>
    cases hb : s.begun i with
    | none => simp [step, hb]
    | some b => simp [step, hb, h i b rfl hb]

theorem Consistent.step (h : Consistent f v₀ s) (e : Event ι κ) : Consistent f v₀ (Race.step f s e) := by
  have hcleared : ∀ {i j : ι} {b : Begun κ σ}, Function.update s.begun i none j = some b →
      s.begun j = some b := by
    intro i j b hb
    rcases eq_or_ne j i with rfl | hne
    · simp at hb
    · rwa [Function.update_of_ne hne] at hb
  cases e with
  | read i op =>
    refine ⟨h.current, fun j b hb => ?_⟩
    simp only [Race.step] at hb ⊢
    rcases eq_or_ne j i with rfl | hne
    · rw [Function.update_self] at hb
      obtain rfl := Option.some.inj hb
      refine ⟨Nat.le_refl _, ?_, fun _ => rfl⟩
      rw [List.take_length]
      exact h.current
    · rw [Function.update_of_ne hne] at hb
      exact h.begun j b hb
  | write i =>
    cases hb : s.begun i with
    | none => simpa only [Race.step, hb] using h
    | some b =>
      obtain ⟨hcount, hserial, -⟩ := h.begun i b hb
      cases hv : f b.op b.value with
      | none =>
        simp only [Race.step, hb, hv]
        exact ⟨h.current, fun j b' hb' => h.begun j b' (hcleared hb')⟩
      | some v =>
        rw [step_write hb hv]
        refine ⟨⟨?_, ?_⟩, fun j b' hb' => ?_⟩
        · rw [serial_concat, ← hserial.value, hv]
          rfl
        · exact (hserial.origin.trans (List.take_sublist _ _)).append_right [b.op]
        · -- what was read before the write is older than it
          obtain ⟨hcount', hserial', -⟩ := h.begun j b' (hcleared hb')
          refine ⟨?_, ?_, fun heq => ?_⟩
          · rw [List.length_append]
            exact Nat.le_add_right_of_le hcount'
          · rwa [List.take_append_of_le_length hcount']
          · rw [heq, List.length_append, List.length_singleton] at hcount'
            omega

theorem Consistent.run (h : Consistent f v₀ s) (es : List (Event ι κ)) : Consistent f v₀ (Race.run f s es) := by
  induction es generalizing s with
  | nil => exact h
  | cons e es ih => exact ih (h.step e)

/-- The value shows all operations after a write just when it did before, and no other write
came between. -/
theorem Consistent.shows_step_iff (h : Consistent f v₀ s) (e : Event ι κ) :
    (Race.step f s e).current.origin = (Race.step f s e).written ↔ s.current.origin = s.written ∧
      ∀ i b, e = .write i → s.begun i = some b → f b.op b.value ≠ none → b.count = s.written.length := by
  by_cases hidle : ∀ i b, e = .write i → s.begun i = some b → f b.op b.value = none
  · obtain ⟨hcurrent, hwritten⟩ := step_idle hidle
    rw [hcurrent, hwritten]
    exact (and_iff_left fun i b he hb hwrites => absurd (hidle i b he hb) hwrites).symm
  · push Not at hidle
    obtain ⟨i, b, rfl, hb, hwrites⟩ := hidle
    obtain ⟨v, hv⟩ := Option.ne_none_iff_exists'.mp hwrites
    obtain ⟨hcount, hserial, hfresh⟩ := h.begun i b hb
    have hsame : b.origin = s.written ↔ b.count = s.written.length ∧ s.current.origin = s.written := by
      constructor
      · intro heq
        have hlen := hserial.origin.length_le
        rw [heq, List.length_take] at hlen
        have hcount' : b.count = s.written.length := by omega
        exact ⟨hcount', hfresh hcount' ▸ heq⟩
      · rintro ⟨hcount', hall⟩
        rw [hfresh hcount', hall]
    rw [step_write hb hv, List.append_left_inj, hsame, and_comm]
    refine and_congr_right fun _ => ⟨fun heq j b' hj hb' _ => ?_, fun hall => hall i b rfl hb hwrites⟩
    obtain rfl := Event.write.inj hj
    obtain rfl := Option.some.inj (hb.symm.trans hb')
    exact heq

theorem Consistent.shows_run_iff (h : Consistent f v₀ s) (es : List (Event ι κ)) :
    (Race.run f s es).current.origin = (Race.run f s es).written ↔
      s.current.origin = s.written ∧ Isolated f s es := by
  induction es generalizing s with
  | nil => simp [Isolated]
  | cons e es ih => rw [run_cons, ih (h.step e), h.shows_step_iff e, and_assoc, Isolated]

end

end Race
