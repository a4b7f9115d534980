-- SUMMARY: The semaphore of the test program under every interleaving of its signals and waits.
import Mathlib.Logic.Function.Basic
import LinuxOta.Base.Run
import LinuxOta.System.LongWidth

namespace LinuxOta.PtSemaphore

/-! # pt_semaphoer.c

What is done between taking the mutex and releasing it is one step. A wait has two: up to
`pthread_cond_wait`, which releases the mutex, and from there on. -/

/-- Where a thread is. -/
inductive Phase where
  /-- It holds no call of `pt_sem_wait`. -/
  | running
  /-- In `pthread_cond_wait`, which nobody has woken. -/
  | blocked
  /-- Woken, and about to take the mutex again. -/
  | woken
  deriving DecidableEq, Repr

/-- The semaphore, the threads, and the calls that were made. -/
structure State (T : Type*) where
  num : Int
  phase : T → Phase
  /-- The number of calls of `pt_sem_signal`. -/
  signals : Nat
  /-- The number of waits that have returned. Each was woken by a signal of its own, and has
  consumed that. -/
  returned : Nat

/-- A step of a thread. -/
inductive Action (T : Type*) where
  /-- `pt_sem_signal`, where `pthread_cond_signal` wakes the thread `woken`. -/
  | signal (caller : T) (woken : Option T)
  /-- `pt_sem_wait` up to `pthread_cond_wait`. -/
  | wait (t : T)
  /-- The rest of `pt_sem_wait`. -/
  | resume (t : T)
  deriving DecidableEq, Repr

section
variable {T : Type*}

/-- `pt_sem_create`. -/
def ptSemCreate : State T := ⟨0, fun _ => .running, 0, 0⟩

variable [DecidableEq T] (w : LongWidth)

namespace State

def setPhase (s : State T) (t : T) (p : Phase) : State T :=
  { s with phase := Function.update s.phase t p }

/-- `pthread_cond_signal`. Without a waiting thread it does nothing. -/
def wake (s : State T) : Option T → State T
  | none => s
  | some t => s.setPhase t .woken

/-- `pt_sem_signal`. An overflow of `num` is taken to wrap around. -/
def ptSemSignal (s : State T) (woken : Option T) : State T :=
  let num := if s.num = w.longMax then -w.longMax - 1 else s.num + 1
  { s.wake woken with num := num, signals := s.signals + 1 }

/-- `pt_sem_wait` up to `pthread_cond_wait`. -/
def ptSemWait (s : State T) (t : T) : State T :=
  let num := if s.num > 0 then s.num - 1 else s.num
  { s.setPhase t .blocked with num := num }

/-- The return of `pt_sem_wait`. -/
def ptSemResume (s : State T) (t : T) : State T :=
  { s.setPhase t .running with returned := s.returned + 1 }

variable {w} (s : State T) (t : T) (woken : Option T)

@[simp] theorem wake_returned : (s.wake woken).returned = s.returned := by cases woken <;> rfl
@[simp] theorem ptSemSignal_signals : (s.ptSemSignal w woken).signals = s.signals + 1 := rfl
@[simp] theorem ptSemSignal_returned : (s.ptSemSignal w woken).returned = s.returned := wake_returned s woken
@[simp] theorem ptSemWait_signals : (s.ptSemWait t).signals = s.signals := rfl
@[simp] theorem ptSemWait_returned : (s.ptSemWait t).returned = s.returned := rfl
@[simp] theorem ptSemResume_num : (s.ptSemResume t).num = s.num := rfl
@[simp] theorem ptSemResume_signals : (s.ptSemResume t).signals = s.signals := rfl
@[simp] theorem ptSemResume_returned : (s.ptSemResume t).returned = s.returned + 1 := rfl

theorem ptSemSignal_num (h : s.num ≠ w.longMax) : (s.ptSemSignal w woken).num = s.num + 1 := if_neg h

theorem ptSemSignal_num_overflow (h : s.num = w.longMax) :
    (s.ptSemSignal w woken).num = -w.longMax - 1 := if_pos h

theorem ptSemWait_num_pos (h : s.num > 0) : (s.ptSemWait t).num = s.num - 1 := if_pos h

theorem ptSemWait_num (h : ¬ s.num > 0) : (s.ptSemWait t).num = s.num := if_neg h

end State

/-- The state after a step. -/
def next : Action T → State T → State T
  | .signal _ woken, s => s.ptSemSignal w woken
  | .wait t, s => s.ptSemWait t
  | .resume t, s => s.ptSemResume t

/-- The step can be taken: a signal wakes one of the waiting threads if there is one, and a
thread is woken by nothing else. -/
def Enabled : Action T → State T → Prop
  | .signal caller none, s => s.phase caller = .running ∧ ∀ t, s.phase t ≠ .blocked
  | .signal caller (some t), s => s.phase caller = .running ∧ s.phase t = .blocked
  | .wait t, s => s.phase t = .running
  | .resume t, s => s.phase t = .woken

/-! ## Signals that are lost -/

/-- `num` counts the signals that no wait has consumed, and while there is one, no thread
stays behind in `pthread_cond_wait` without a wakeup on its way. -/
structure KeepsSignals (s : State T) : Prop where
  num : s.num = (s.signals : Int) - s.returned
  waiting : ∀ t, s.phase t = .blocked → (∀ t', s.phase t' ≠ .woken) → s.signals ≤ s.returned

/-- A signal that does not overflow `num`, or a wait that begins without a signal to consume.
The return of a wait is none of these. -/
def Harmless : Action T → State T → Prop
  | .signal _ _, s => s.num ≠ w.longMax
  | .wait _, s => ¬ s.num > 0
  | .resume _, _ => False

instance decidableHarmless : ∀ (a : Action T) (s : State T), Decidable (Harmless w a s)
  | .signal _ _, s => inferInstanceAs (Decidable (s.num ≠ w.longMax))
  | .wait _, s => inferInstanceAs (Decidable (¬ s.num > 0))
  | .resume _, _ => inferInstanceAs (Decidable False)

/-- What holds as long as all steps are harmless: nothing was consumed, and threads that began to
wait before the first signal are still waiting or woken. -/
structure Unconsumed (s : State T) : Prop where
  num : s.num = s.signals
  returned : s.returned = 0
  waiting : ∀ t, s.phase t = .blocked → 0 < s.signals → ∃ t', s.phase t' = .woken

variable {w} {s : State T} {a : Action T}

omit [DecidableEq T] in
theorem unconsumed_create : Unconsumed (ptSemCreate : State T) where
  num := rfl
  returned := rfl
  waiting _ h := nomatch h

omit [DecidableEq T] in
theorem Unconsumed.keepsSignals (h : Unconsumed s) : KeepsSignals s where
  num := by rw [h.num, h.returned, Int.natCast_zero, Int.sub_zero]
  waiting t hblocked hnone := by
    by_contra hlt
    obtain ⟨t', hwoken⟩ := h.waiting t hblocked (by omega)
    exact hnone t' hwoken

/-- A signal wakes a thread if one waits. -/
theorem Unconsumed.signal (h : Unconsumed s) {caller : T} {woken : Option T}
    (hen : Enabled (.signal caller woken) s) (hnum : s.num ≠ w.longMax) :
    Unconsumed (s.ptSemSignal w woken) where
  num := by
    rw [State.ptSemSignal_num s woken hnum, h.num, State.ptSemSignal_signals, Int.natCast_succ]
  returned := by rw [State.ptSemSignal_returned, h.returned]
  waiting t hblocked _ := by
    cases woken with
    | none => exact absurd hblocked (hen.2 t)
    | some t' => exact ⟨t', Function.update_self t' _ _⟩

/-- A wait that begins without a signal to consume has nobody to be woken by yet. -/
theorem Unconsumed.wait (h : Unconsumed s) (t : T) (hnum : ¬ s.num > 0) :
    Unconsumed (s.ptSemWait t) where
  num := by rw [State.ptSemWait_num s t hnum, h.num, State.ptSemWait_signals]
  returned := h.returned
  waiting _ _ hsignals := by
    have hnone := h.num
    rw [State.ptSemWait_signals] at hsignals
    omega

theorem Unconsumed.step (h : Unconsumed s) (hen : Enabled a s) (ha : Harmless w a s) :
    Unconsumed (next w a s) := by
  cases a with
  | signal caller woken => exact h.signal hen ha
  | wait t => exact h.wait t ha
  | resume t => exact absurd ha id

theorem longMax_pos (w : LongWidth) : 0 < w.longMax := by
  cases w <;> decide

/-- Every other step makes a right count wrong. -/
theorem harmless_of_num (hnum : s.num = (s.signals : Int) - s.returned)
    (hnext : (next w a s).num = ((next w a s).signals : Int) - (next w a s).returned) :
    Harmless w a s := by
  cases a with
  | signal caller woken =>
    intro hmax
    have hpos := longMax_pos w
    rw [next, State.ptSemSignal_num_overflow s woken hmax, State.ptSemSignal_signals,
      State.ptSemSignal_returned] at hnext
    omega
  | wait t =>
    intro hpos
    rw [next, State.ptSemWait_num_pos s t hpos, State.ptSemWait_signals, State.ptSemWait_returned] at hnext
    omega
  | resume t =>
    rw [next, State.ptSemResume_num, State.ptSemResume_signals, State.ptSemResume_returned] at hnext
    exact absurd hnext (by omega)

variable (w) in
/-- No signal is lost in any state of a run if and only if all its steps are harmless. -/
theorem signals_kept_iff (as : List (Action T)) (hrun : Run.Always (next w) Enabled as ptSemCreate) :
    KeepsSignals (ptSemCreate : State T) ∧
        Run.Always (next w) (fun a s => KeepsSignals (next w a s)) as ptSemCreate ↔
      Run.Always (next w) (Harmless w) as ptSemCreate := by
  constructor
  · rintro ⟨hcreate, hkept⟩
    refine Run.always_of_invariant (I := KeepsSignals) ?_ as ptSemCreate hkept hcreate
    intro a s hnext hs
    exact ⟨harmless_of_num hs.num hnext.num, hnext⟩
  · intro hharmless
    refine ⟨unconsumed_create.keepsSignals, ?_⟩
    refine Run.always_of_invariant (I := Unconsumed) ?_ as ptSemCreate
      (Run.always_and as ptSemCreate hrun hharmless) unconsumed_create
    rintro a s ⟨hen, ha⟩ hs
    have hnext := hs.step hen ha
    exact ⟨hnext.keepsSignals, hnext⟩

end

/-- A thread waits, and the other one wakes it. -/
theorem signals_kept_waiting :
    KeepsSignals (ptSemCreate : State Bool) ∧
      Run.Always (next .bits32) (fun a s => KeepsSignals (next .bits32 a s))
        [.wait true, .signal false (some true)] (ptSemCreate : State Bool) :=
  (signals_kept_iff .bits32 [.wait true, .signal false (some true)] ⟨rfl, ⟨rfl, rfl⟩, trivial⟩).mpr
    ⟨by decide, by decide, trivial⟩

/-- A signal before the wait: the wait takes it from `num` and blocks all the same. -/
def signalFirst : List (Action Bool) := [.signal false none, .wait true]

/-- The state it leads to. -/
def afterSignalFirst : State Bool := signalFirst.foldl (fun s a => next .bits32 a s) ptSemCreate

theorem signals_not_kept :
    Run.Always (next .bits32) Enabled signalFirst ptSemCreate ∧
      afterSignalFirst.num ≠ (afterSignalFirst.signals : Int) - afterSignalFirst.returned ∧
      (afterSignalFirst.phase true = .blocked ∧ (∀ t, afterSignalFirst.phase t ≠ .woken) ∧
        afterSignalFirst.returned < afterSignalFirst.signals) := by
  refine ⟨⟨⟨rfl, ?_⟩, rfl, trivial⟩, ?_, rfl, ?_, ?_⟩ <;> decide

end LinuxOta.PtSemaphore
