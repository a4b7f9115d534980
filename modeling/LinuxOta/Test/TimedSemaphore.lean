-- SUMMARY: Threads that post and wait with deadlines: no wakeup is lost, and which posts are.
import LinuxOta.Base.Census
import LinuxOta.Test.PtSemaphore
import LinuxOta.Test.TimedWait

namespace LinuxOta.PtSemaphore

/-! # pt_sem_wait_time among other threads

What is done between taking the mutex and giving it up is one step, as for `pt_sem_wait`. -/

/-- Where a thread is in a call of `pt_sem_wait_time`. -/
inductive TimedPhase where
  /-- It is in no such call. -/
  | running
  /-- In `pthread_cond_timedwait`. -/
  | blocked
  /-- Woken, so that 0 will be returned once the mutex is free. -/
  | woken
  /-- Its time is up. A signal that comes now may still be spent on it. -/
  | expired (signalled : Bool)
  /-- Refused with `EINVAL` time and again, and in possession of the mutex. -/
  | spinning
  deriving DecidableEq, Repr

/-- A signal was spent on the thread, or it woke up by itself. -/
def TimedPhase.Roused (p : TimedPhase) : Prop := p = .woken ∨ p = .expired true

instance : DecidablePred TimedPhase.Roused := fun p =>
  inferInstanceAs (Decidable (p = .woken ∨ p = .expired true))

structure TimedState (T : Type*) where
  num : Int
  phase : T → TimedPhase
  /-- The number of calls of `pt_sem_signal` and `pt_sem_broadcast`. -/
  posts : Nat
  /-- The number of calls of `pt_sem_wait_time` that returned 0. -/
  acquired : Nat

/-- A step of a thread, or of the clock. -/
inductive TimedAction (w : LongWidth) (T : Type*) where
  /-- `pt_sem_signal`; `pthread_cond_signal` is spent on the thread `woken`. -/
  | signal (caller : T) (woken : Option T)
  | broadcast (caller : T)
  /-- `pt_sem_wait_time`, as far as it gets before it waits. -/
  | waitTime (t : T) (now : Timeval w) (timeMs : UInt32)
  /-- `pthread_cond_timedwait` returns 0 without having been signalled. -/
  | wakeup (t : T)
  | expire (t : T)
  /-- `pthread_cond_timedwait` returns, and the loop goes on from there. -/
  | resume (t : T)

variable {T : Type*}

/-- `pt_sem_create`. -/
def timedCreate : TimedState T := ⟨0, fun _ => .running, 0, 0⟩

variable {w : LongWidth}

namespace TimedState

/-- `sem->num += 1`. -/
def post (w : LongWidth) (s : TimedState T) : TimedState T :=
  let num := if s.num = w.longMax then -w.longMax - 1 else s.num + 1
  { s with num := num, posts := s.posts + 1 }

theorem post_num {s : TimedState T} (h : s.num ≠ w.longMax) : (s.post w).num = s.num + 1 := if_neg h

theorem post_num_overflow {s : TimedState T} (h : s.num = w.longMax) :
    (s.post w).num = -w.longMax - 1 := if_pos h

@[simp] theorem post_posts (w : LongWidth) (s : TimedState T) : (s.post w).posts = s.posts + 1 := rfl
@[simp] theorem post_acquired (w : LongWidth) (s : TimedState T) : (s.post w).acquired = s.acquired := rfl

end TimedState

section
variable [DecidableEq T]

namespace TimedState

def setPhase (s : TimedState T) (t : T) (p : TimedPhase) : TimedState T :=
  { s with phase := Function.update s.phase t p }

/-- `pthread_cond_signal`. -/
def rouse (s : TimedState T) : Option T → TimedState T
  | none => s
  | some t =>
    match s.phase t with
    | .expired _ => s.setPhase t (.expired true)
    | _ => s.setPhase t .woken

/-- `pthread_cond_broadcast`. -/
def rouseAll (s : TimedState T) : TimedState T :=
  { s with phase := fun t => if s.phase t = .blocked then .woken else s.phase t }

/-- The end of `pt_sem_wait_time`, behind its loop. -/
def leave (s : TimedState T) (t : T) (ret : Int) : TimedState T :=
  let (ret, num) := afterWait s.num ret
  { s.setPhase t .running with num := num, acquired := if ret = 0 then s.acquired + 1 else s.acquired }

/-- The loop condition, and what follows from it: the thread waits again as `p` says, or is
done. -/
def turn (s : TimedState T) (t : T) (ret : Int) (p : TimedPhase) : TimedState T :=
  if s.num ≤ 0 ∧ ret ≠ etimedout then s.setPhase t p else s.leave t ret

end TimedState

/-- The state after a step. -/
def timedNext : TimedAction w T → TimedState T → TimedState T
  | .signal _ woken, s => (s.post w).rouse woken
  | .broadcast _, s => (s.post w).rouseAll
  | .waitTime t now timeMs, s =>
    s.turn t 0 (if (timedout now timeMs).Valid then .blocked else .spinning)
  | .wakeup t, s => s.setPhase t .woken
  | .expire t, s => s.setPhase t (.expired false)
  | .resume t, s =>
    match s.phase t with
    | .woken => s.turn t 0 .blocked
    | .expired _ => s.turn t etimedout .blocked
    | _ => s

/-- No thread keeps the mutex. -/
def MutexFree (s : TimedState T) : Prop := ∀ t, s.phase t ≠ .spinning

/-- The step can be taken. A signal is spent on some thread if one waits. -/
def TimedEnabled : TimedAction w T → TimedState T → Prop
  | .signal caller none, s => s.phase caller = .running ∧ MutexFree s ∧ ∀ t, s.phase t ≠ .blocked
  | .signal caller (some t), s =>
    s.phase caller = .running ∧ MutexFree s ∧ (s.phase t = .blocked ∨ s.phase t = .expired false)
  | .broadcast caller, s => s.phase caller = .running ∧ MutexFree s
  | .waitTime t _ _, s => s.phase t = .running ∧ MutexFree s
  | .wakeup t, s => s.phase t = .blocked
  | .expire t, s => s.phase t = .blocked
  | .resume t, s => (s.phase t = .woken ∨ ∃ signalled, s.phase t = .expired signalled) ∧ MutexFree s

/-- A turn of the loop is one of `waitTurn`. -/
theorem TimedState.turn_eq (s : TimedState T) (t : T) (ret : Int) (deadline : Timespec)
    (wakeups : Nat → Wakeup) (k : Nat) :
    s.turn t ret (if deadline.Valid then .blocked else .spinning) =
      match waitTurn deadline wakeups ⟨k, s.num, ret⟩ with
      | .inl s' => s.setPhase t (if s'.ret = einval then .spinning else .blocked)
      | .inr (r, num) =>
        { s.setPhase t .running with num := num, acquired := if r = 0 then s.acquired + 1 else s.acquired } := by
  by_cases hgoes : s.num ≤ 0 ∧ ret ≠ etimedout
  · rw [turn, if_pos hgoes, waitTurn, if_pos hgoes, pthreadCondTimedwait]
    by_cases hvalid : deadline.Valid
    · simp [hvalid, (wakeups k).ret_ne]
    · simp [hvalid]
  · rw [turn, if_neg hgoes, waitTurn, if_neg hgoes]
    rfl

/-! ## What a turn does -/

namespace TimedState

variable {s : TimedState T} {t : T} {ret : Int} {p : TimedPhase}

@[simp] theorem setPhase_phase (s : TimedState T) (t : T) (p : TimedPhase) :
    (s.setPhase t p).phase = Function.update s.phase t p := rfl

theorem setPhase_phase_of_blocked {t' : T} (hp : p ≠ .blocked)
    (h : (s.setPhase t p).phase t' = .blocked) : s.phase t' = .blocked := by
  rw [setPhase_phase] at h
  rcases eq_or_ne t' t with rfl | hne
  · rw [Function.update_self] at h
    exact absurd h hp
  · rwa [Function.update_of_ne hne] at h

theorem leave_num (s : TimedState T) (t : T) (ret : Int) :
    (s.leave t ret).num = if s.num > 0 then s.num - 1 else s.num := by
  have hsnd : (s.leave t ret).num = (afterWait s.num ret).2 := rfl
  rw [hsnd, afterWait]
  split
  · split <;> rfl
  · rfl

theorem leave_phase (s : TimedState T) (t : T) (ret : Int) :
    (s.leave t ret).phase = Function.update s.phase t .running := rfl

theorem leave_posts (s : TimedState T) (t : T) (ret : Int) : (s.leave t ret).posts = s.posts := rfl

theorem leave_acquired_zero (s : TimedState T) (t : T) : (s.leave t 0).acquired = s.acquired + 1 := rfl

theorem leave_acquired_etimedout (s : TimedState T) (t : T) :
    (s.leave t etimedout).acquired = s.acquired := rfl

theorem turn_goes (hnum : s.num ≤ 0) (hret : ret ≠ etimedout) : s.turn t ret p = s.setPhase t p :=
  if_pos ⟨hnum, hret⟩

theorem turn_leaves (h : 0 < s.num ∨ ret = etimedout) : s.turn t ret p = s.leave t ret := by
  refine if_neg fun hgoes => ?_
  rcases h with hpos | hret
  · exact absurd hgoes.1 (Int.not_le.mpr hpos)
  · exact hgoes.2 hret

end TimedState

/-! ## No wakeup is lost -/

/-- The step is a post that overflows `num`. -/
def Overflows : TimedAction w T → TimedState T → Prop
  | .signal _ _, s => s.num = w.longMax
  | .broadcast _, s => s.num = w.longMax
  | _, _ => False

variable [Fintype T]

/-- While a thread waits, `num` is not ahead of the threads that were roused for it. -/
structure Awaited (s : TimedState T) : Prop where
  nonneg : 0 ≤ s.num
  bound : s.num + s.acquired ≤ s.posts
  waiting : ∀ t, s.phase t = .blocked → s.num ≤ Census.count TimedPhase.Roused s.phase

namespace Awaited

variable {s : TimedState T} {t : T} {a : TimedAction w T}

omit [DecidableEq T] in
theorem create : Awaited (timedCreate : TimedState T) where
  nonneg := Int.le_refl 0
  bound := Int.le_refl 0
  waiting _ h := nomatch h

omit [DecidableEq T] in
/-- A post that overflows nothing. -/
theorem post (h : Awaited s) (hnum : s.num ≠ w.longMax) :
    0 ≤ (s.post w).num ∧ (s.post w).num + (s.post w).acquired ≤ (s.post w).posts := by
  have hnonneg := h.nonneg
  have hbound := h.bound
  rw [TimedState.post_num hnum, TimedState.post_posts, TimedState.post_acquired]
  omega

/-- The end of a call takes one from `num`, and the thread from those that were roused. -/
theorem leave (h : Awaited s) {ret : Int} (hret : ret = etimedout ∨ ret = 0 ∧ 0 < s.num) :
    Awaited (s.leave t ret) where
  nonneg := by
    have hnonneg := h.nonneg
    rw [TimedState.leave_num]
    split <;> omega
  bound := by
    have hbound := h.bound
    rw [TimedState.leave_num, TimedState.leave_posts]
    rcases hret with rfl | ⟨rfl, hpos⟩
    · rw [TimedState.leave_acquired_etimedout]
      split <;> omega
    · rw [TimedState.leave_acquired_zero, if_pos hpos]
      omega
  waiting t' hblocked := by
    rw [TimedState.leave_phase] at hblocked
    have hwaiting := h.waiting t' (TimedState.setPhase_phase_of_blocked (by decide) hblocked)
    have hcount := Census.count_le_succ (P := TimedPhase.Roused) s.phase t .running
    rw [TimedState.leave_num, TimedState.leave_phase]
    split <;> omega

/-- With nothing to take, any number of threads may wait. -/
theorem setPhase (h : Awaited s) (p : TimedPhase) (hnum : s.num ≤ 0) : Awaited (s.setPhase t p) where
  nonneg := h.nonneg
  bound := h.bound
  waiting _ _ := Int.le_trans hnum (Int.natCast_nonneg _)

theorem turn (h : Awaited s) {ret : Int} (hret : ret = 0 ∨ ret = etimedout) (p : TimedPhase) :
    Awaited (s.turn t ret p) := by
  rcases hret with rfl | rfl
  · rcases lt_or_ge 0 s.num with hpos | hnum
    · rw [TimedState.turn_leaves (.inl hpos)]
      exact h.leave (.inr ⟨rfl, hpos⟩)
    · rw [TimedState.turn_goes hnum (by decide)]
      exact h.setPhase p hnum
  · rw [TimedState.turn_leaves (.inr rfl)]
    exact h.leave (.inl rfl)

/-- A waiting thread that stops waiting is no loss. -/
theorem stops (h : Awaited s) (ht : s.phase t = .blocked) {p : TimedPhase} (hp : p ≠ .blocked) :
    Awaited (s.setPhase t p) where
  nonneg := h.nonneg
  bound := h.bound
  waiting t' hblocked := by
    have hwaiting := h.waiting t' (TimedState.setPhase_phase_of_blocked hp hblocked)
    have hcount := Census.count_le_of_not (P := TimedPhase.Roused) (f := s.phase) (t := t) p
      (by rw [ht]; decide)
    exact Int.le_trans hwaiting (Int.ofNat_le.mpr hcount)

/-- A signal is spent on a thread that was not roused before, or finds none that waits. -/
theorem signal (h : Awaited s) (hnum : s.num ≠ w.longMax) {caller : T} {woken : Option T}
    (hen : TimedEnabled (w := w) (.signal caller woken) s) : Awaited ((s.post w).rouse woken) := by
  obtain ⟨hnonneg, hbound⟩ := h.post hnum
  cases woken with
  | none => exact ⟨hnonneg, hbound, fun t hblocked => absurd hblocked (hen.2.2 t)⟩
  | some t =>
    obtain ⟨p, hp, hnot, heq⟩ : ∃ p, TimedPhase.Roused p ∧ ¬ (s.phase t).Roused ∧
        (s.post w).rouse (some t) = (s.post w).setPhase t p := by
      rcases hen.2.2 with hblocked | hexpired
      · refine ⟨.woken, .inl rfl, by rw [hblocked]; decide, ?_⟩
        simp only [TimedState.rouse, TimedState.post, hblocked]
      · refine ⟨.expired true, .inr rfl, by rw [hexpired]; decide, ?_⟩
        simp only [TimedState.rouse, TimedState.post, hexpired]
    have hne : p ≠ .blocked := by
      rintro rfl
      exact absurd hp (by decide)
    rw [heq]
    refine ⟨hnonneg, hbound, fun t' hblocked => ?_⟩
    have hwaiting := h.waiting t' (TimedState.setPhase_phase_of_blocked (s := s.post w) hne hblocked)
    have hcount := Census.count_enter (f := s.phase) hnot hp
    have hnum' : ((s.post w).setPhase t p).num = s.num + 1 := TimedState.post_num hnum
    have hphase : ((s.post w).setPhase t p).phase = Function.update s.phase t p := rfl
    rw [hnum', hphase, hcount]
    omega

omit [DecidableEq T] in
theorem broadcast (h : Awaited s) (hnum : s.num ≠ w.longMax) : Awaited (s.post w).rouseAll where
  nonneg := (h.post hnum).1
  bound := (h.post hnum).2
  waiting t hblocked := by
    simp only [TimedState.rouseAll] at hblocked
    split at hblocked
    · cases hblocked
    · next hnot => exact absurd hblocked hnot

theorem step (h : Awaited s) (hen : TimedEnabled a s) (hfits : ¬ Overflows a s) :
    Awaited (timedNext a s) := by
  cases a with
  | signal caller woken => exact h.signal hfits hen
  | broadcast caller => exact h.broadcast hfits
  | waitTime t now timeMs => exact h.turn (.inl rfl) _
  | wakeup t => exact h.stops hen (by decide)
  | expire t => exact h.stops hen (by decide)
  | resume t =>
    rcases hen.1 with hphase | ⟨signalled, hphase⟩
    · simp only [timedNext, hphase]
      exact h.turn (.inl rfl) _
    · simp only [timedNext, hphase]
      exact h.turn (.inr rfl) _

end Awaited

variable {s : TimedState T} {t : T}

/-- A thread that was roused takes what there is. -/
theorem Awaited.exists_taker (h : Awaited s) (hblocked : s.phase t = .blocked) (hpos : 0 < s.num)
    (hfree : MutexFree s) : ∃ t', TimedEnabled (w := w) (.resume t') s ∧
      (timedNext (w := w) (.resume t') s).num = s.num - 1 := by
  have hcount : 0 < Census.count TimedPhase.Roused s.phase := by
    have hwaiting := h.waiting t hblocked
    omega
  obtain ⟨t', hroused⟩ := Census.count_pos_iff.mp hcount
  have hturn : ∀ ret, (s.turn t' ret .blocked).num = s.num - 1 := by
    intro ret
    rw [TimedState.turn_leaves (.inl hpos), TimedState.leave_num, if_pos hpos]
  rcases hroused with hwoken | hexpired
  · refine ⟨t', ⟨.inl hwoken, hfree⟩, ?_⟩
    simp only [timedNext, hwoken]
    exact hturn 0
  · refine ⟨t', ⟨.inr ⟨true, hexpired⟩, hfree⟩, ?_⟩
    simp only [timedNext, hexpired]
    exact hturn etimedout

variable (w) in
/-- `num` is not negative, and while a thread waits and there is something to take, the next step of
some other thread takes it, unless a thread keeps the mutex. -/
def WakeupKept (s : TimedState T) : Prop :=
  0 ≤ s.num ∧ ∀ t, s.phase t = .blocked → 0 < s.num → MutexFree s →
    ∃ t', TimedEnabled (w := w) (.resume t') s ∧ (timedNext (w := w) (.resume t') s).num = s.num - 1

/-- No wakeup is lost in any run of posts and waits that does not overflow `num`. -/
theorem wakeups_kept (as : List (TimedAction w T)) (hrun : Run.Always timedNext TimedEnabled as timedCreate)
    (hfits : Run.Always timedNext (fun a s => ¬ Overflows a s) as timedCreate) :
    Run.Always timedNext (fun a s => WakeupKept w (timedNext a s)) as timedCreate := by
  refine Run.always_of_invariant (I := Awaited) ?_ as timedCreate (Run.always_and as _ hrun hfits) Awaited.create
  rintro a s ⟨hen, hfits⟩ hs
  have hnext := hs.step hen hfits
  exact ⟨⟨hnext.nonneg, fun t => hnext.exists_taker⟩, hnext⟩

end

/-! ## Which posts are lost -/

section
variable [DecidableEq T]

/-- Every post can still be taken, or was taken by a call that returned 0. -/
def Accounted (s : TimedState T) : Prop := s.num = (s.posts : Int) - s.acquired

/-- The call returns `ETIMEDOUT` although it takes one from `num`. -/
def Swallows : TimedAction w T → TimedState T → Prop
  | .resume t, s => (∃ signalled, s.phase t = .expired signalled) ∧ 0 < s.num
  | _, _ => False

variable {s : TimedState T} {a : TimedAction w T}

/-- A turn with a fresh or a woken thread keeps the account. -/
theorem accounted_turn_zero (t : T) (p : TimedPhase) : Accounted (s.turn t 0 p) ↔ Accounted s := by
  rcases lt_or_ge 0 s.num with hpos | hnum
  · rw [TimedState.turn_leaves (.inl hpos), Accounted, Accounted, TimedState.leave_num, if_pos hpos,
      TimedState.leave_posts, TimedState.leave_acquired_zero]
    omega
  · rw [TimedState.turn_goes hnum (by decide)]
    exact Iff.rfl

/-- One with a thread that timed out keeps it exactly when there is nothing to take. -/
theorem accounted_turn_etimedout (h : Accounted s) (t : T) (p : TimedPhase) :
    Accounted (s.turn t etimedout p) ↔ ¬ 0 < s.num := by
  rw [Accounted] at h
  rw [TimedState.turn_leaves (.inr rfl), Accounted, TimedState.leave_num, TimedState.leave_posts,
    TimedState.leave_acquired_etimedout]
  split <;> omega

omit [DecidableEq T] in
theorem accounted_post (h : Accounted s) : Accounted (s.post w) ↔ s.num ≠ w.longMax := by
  rw [Accounted] at h
  have hpos := longMax_pos w
  constructor
  · intro hafter hmax
    rw [Accounted, TimedState.post_num_overflow hmax, TimedState.post_posts, TimedState.post_acquired] at hafter
    omega
  · intro hfits
    rw [Accounted, TimedState.post_num hfits, TimedState.post_posts, TimedState.post_acquired]
    omega

/-- A step keeps the account exactly when it neither overflows `num` nor swallows a post. -/
theorem accounted_next_iff (h : Accounted s) :
    Accounted (timedNext a s) ↔ ¬ Overflows a s ∧ ¬ Swallows a s := by
  cases a with
  | signal caller woken =>
    have hrouse : Accounted ((s.post w).rouse woken) ↔ Accounted (s.post w) := by
      cases woken with
      | none => exact Iff.rfl
      | some t =>
        unfold TimedState.rouse
        dsimp only
        split <;> exact Iff.rfl
    exact hrouse.trans ((accounted_post h).trans (and_iff_left id).symm)
  | broadcast caller => exact (accounted_post h).trans (and_iff_left id).symm
  | waitTime t now timeMs =>
    exact iff_of_true ((accounted_turn_zero t _).mpr h) ⟨id, id⟩
  | wakeup t => exact iff_of_true h ⟨id, id⟩
  | expire t => exact iff_of_true h ⟨id, id⟩
  | resume t =>
    cases hphase : s.phase t with
    | expired signalled =>
      simp only [timedNext, Overflows, Swallows, hphase]
      rw [accounted_turn_etimedout h]
      simp
    | woken =>
      simp only [timedNext, Overflows, Swallows, hphase]
      rw [accounted_turn_zero]
      simpa using h
    | running | blocked | spinning =>
      simp only [timedNext, Overflows, Swallows, hphase]
      simpa using h

/-- Through a run, every post can still be taken or was taken by a call that returned 0, if and
only if no post overflows `num` and no call reports a timeout while there is something to
take. -/
theorem posts_accounted_iff (as : List (TimedAction w T)) :
    Run.Always timedNext (fun a s => Accounted (timedNext a s)) as (timedCreate : TimedState T) ↔
      Run.Always timedNext (fun a s => ¬ Overflows a s ∧ ¬ Swallows a s) as timedCreate := by
  have hcreate : Accounted (timedCreate : TimedState T) := rfl
  constructor
  · intro hall
    refine Run.always_of_invariant (I := Accounted) ?_ as timedCreate hall hcreate
    exact fun a s hnext hs => ⟨(accounted_next_iff hs).mp hnext, hnext⟩
  · intro hall
    refine Run.always_of_invariant (I := Accounted) ?_ as timedCreate hall hcreate
    exact fun a s hstep hs => ⟨(accounted_next_iff hs).mpr hstep, (accounted_next_iff hs).mpr hstep⟩

end

/-- A thread waits, and the other one wakes it. -/
def wakingRun : List (TimedAction .bits32 Bool) := [.waitTime true epoch 0, .signal false (some true)]

theorem wakeups_kept_waking :
    Run.Always timedNext (fun a s => WakeupKept .bits32 (timedNext a s)) wakingRun timedCreate := by
  refine wakeups_kept wakingRun ⟨⟨rfl, ?_⟩, ⟨rfl, ?_, .inl rfl⟩, trivial⟩ ⟨id, ?_, trivial⟩
  · intro t
    simp [timedCreate]
  · intro t
    cases t <;> decide
  · unfold Overflows
    decide

/-- The time of the only waiting thread is up when the post comes. -/
def swallowingRun : List (TimedAction .bits32 Bool) :=
  [.waitTime true epoch 0, .expire true, .signal false none, .resume true]

/-- The thread takes the post, and reports `ETIMEDOUT`. -/
theorem post_swallowed :
    Run.Always timedNext TimedEnabled swallowingRun timedCreate ∧
      ¬ Accounted (swallowingRun.foldl (fun s a => timedNext a s) timedCreate) := by
  have hfree : ∀ t, (timedCreate : TimedState Bool).phase t ≠ .spinning := by
    intro t
    simp [timedCreate]
  refine ⟨⟨⟨rfl, hfree⟩, rfl, ⟨rfl, ?_, ?_⟩, ⟨.inr ⟨false, rfl⟩, ?_⟩, trivial⟩, ?_⟩
  · intro t
    cases t <;> decide
  · intro t
    cases t <;> decide
  · intro t
    cases t <;> decide
  · unfold Accounted
    decide

end LinuxOta.PtSemaphore
