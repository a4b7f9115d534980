-- SUMMARY: The deadline of `pt_sem_wait_time` and its loop, which never ends on a deadline that is refused.
import LinuxOta.Base.Loop
import LinuxOta.System.LongWidth

namespace LinuxOta.PtSemaphore

/-! # pt_sem_wait_time

`time_t`, `suseconds_t` and the nanoseconds have the width of `long`. -/

/-- `struct timeval`, as `gettimeofday` fills it. -/
structure Timeval (w : LongWidth) where
  sec : Int
  usec : Nat
  sec_ge : -w.longMax - 1 ≤ sec
  sec_le : sec ≤ w.longMax
  usec_lt : usec < 1000000

/-- `struct timespec`. -/
structure Timespec where
  sec : Int
  nsec : Int
  deriving DecidableEq, Repr

/-- What is taken for a deadline; any other one is refused with `EINVAL`. -/
def Timespec.Valid (t : Timespec) : Prop := 0 ≤ t.nsec ∧ t.nsec < 1000000000

instance (t : Timespec) : Decidable t.Valid := inferInstanceAs (Decidable (_ ∧ _))

/-- The time in nanoseconds. -/
def Timespec.nanos (t : Timespec) : Int := t.sec * 1000000000 + t.nsec

variable {w : LongWidth}

/-- The time in nanoseconds. -/
def Timeval.nanos (t : Timeval w) : Int := t.sec * 1000000000 + t.usec * 1000

/-- The deadline `timedout`. The product is one of unsigned numbers of 32 bits. -/
def timedout (now : Timeval w) (timeMs : UInt32) : Timespec where
  sec := w.wrap (now.sec + (timeMs / 1000).toNat)
  nsec := w.wrap (now.usec * 1000 + (timeMs % 1000 * 10000000).toNat)

/-! ## The loop -/

def etimedout : Int := 110

def einval : Int := 22

/-- How a `pthread_cond_timedwait` ends that is given a valid deadline. -/
structure Wakeup where
  ret : Int
  /-- `num` when the mutex is held again. -/
  num : Int
  ret_ne : ret ≠ einval

/-- `pthread_cond_timedwait`: what it returns, and `num` after it. A deadline that is not valid
is refused without releasing the mutex. -/
def pthreadCondTimedwait (deadline : Timespec) (wakeup : Wakeup) (num : Int) : Int × Int :=
  if deadline.Valid then (wakeup.ret, wakeup.num) else (einval, num)

/-- The variables of the loop, and the number of turns made. -/
structure WaitState where
  turn : Nat
  num : Int
  ret : Int
  deriving DecidableEq, Repr

/-- What is left to do behind the loop: what is returned, and `num`. -/
def afterWait (num ret : Int) : Int × Int :=
  let num := if num > 0 then num - 1 else num
  if ret ≠ 0 then (if ret = etimedout then etimedout else -1, num) else (0, num)

section
variable (deadline : Timespec) (wakeups : Nat → Wakeup)

/-- A turn of the loop of `pt_sem_wait_time`. -/
def waitTurn (s : WaitState) : WaitState ⊕ (Int × Int) :=
  if s.num ≤ 0 ∧ s.ret ≠ etimedout then
    let (ret, num) := pthreadCondTimedwait deadline (wakeups s.turn) s.num
    .inl ⟨s.turn + 1, num, ret⟩
  else .inr (afterWait s.num s.ret)

/-- The loop of a call that finds `num`, and that ends: what is returned, and `num`. -/
def WaitReturns (num : Int) (r : Int × Int) : Prop :=
  Loop.Ends (waitTurn deadline wakeups) ⟨0, num, 0⟩ r

/-- The loop of a call that finds `num` gets to where it repeats for ever, refused each time. -/
def SpinsOnEinval (num : Int) : Prop :=
  ∃ s, Loop.Reaches (waitTurn deadline wakeups) ⟨0, num, 0⟩ s ∧
    Loop.Forever (waitTurn deadline wakeups) (fun s => s.ret = einval) s

end

/-- `pt_sem_wait_time`, called at the time `now`. -/
def PtSemWaitTime (now : Timeval w) (timeMs : UInt32) : (Nat → Wakeup) → Int → Int × Int → Prop :=
  WaitReturns (timedout now timeMs)

/-- A turn that goes on has found nothing to consume, and has called `pthread_cond_timedwait`. -/
theorem waitTurn_eq_inl {deadline : Timespec} {wakeups : Nat → Wakeup} {s s' : WaitState}
    (h : waitTurn deadline wakeups s = .inl s') :
    s.num ≤ 0 ∧ s'.ret = (pthreadCondTimedwait deadline (wakeups s.turn) s.num).1 := by
  unfold waitTurn at h
  split at h
  · next hgoes =>
    obtain rfl := Sum.inl.inj h
    exact ⟨hgoes.1, rfl⟩
  · cases h

/-- It does exactly when it has to wait and the deadline is not valid. -/
theorem spinsOnEinval_iff (deadline : Timespec) (wakeups : Nat → Wakeup) (num : Int) :
    SpinsOnEinval deadline wakeups num ↔ num ≤ 0 ∧ ¬ deadline.Valid := by
  constructor
  · rintro ⟨s, hreach, hforever⟩
    obtain ⟨s', hturn, hret⟩ := hforever s .refl
    constructor
    · rcases hreach.cases_head with rfl | ⟨s₁, hfirst, -⟩
      · exact (waitTurn_eq_inl hturn).1
      · exact (waitTurn_eq_inl hfirst).1
    · intro hvalid
      rw [(waitTurn_eq_inl hturn).2, pthreadCondTimedwait, if_pos hvalid] at hret
      exact (wakeups s.turn).ret_ne hret
  · rintro ⟨hnum, hinvalid⟩
    have hzero : (0 : Int) ≠ etimedout := by decide
    have heinval : einval ≠ etimedout := by decide
    refine ⟨⟨0, num, 0⟩, .refl, ?_⟩
    refine Loop.forever_of_invariant (I := fun s => s.num ≤ 0 ∧ s.ret ≠ etimedout) ?_ ⟨hnum, hzero⟩
    rintro s hs
    refine ⟨⟨s.turn + 1, s.num, einval⟩, ?_, ⟨hs.1, heinval⟩, rfl⟩
    rw [waitTurn, if_pos hs, pthreadCondTimedwait, if_neg hinvalid]

/-- Such a call does not return. -/
theorem SpinsOnEinval.not_returns {deadline : Timespec} {wakeups : Nat → Wakeup} {num : Int}
    {r : Int × Int} (h : SpinsOnEinval deadline wakeups num) : ¬ WaitReturns deadline wakeups num r := by
  intro hends
  obtain ⟨s, hreach, hforever⟩ := h
  exact hforever.not_ends (hends.of_reaches hreach)

/-! ## The deadline -/

/-- The remainder that is stored as the nanoseconds of the deadline. -/
def nsecStored (w : LongWidth) (usec : Nat) (timeMs : UInt32) : Nat :=
  (usec * 1000 + timeMs.toNat % 1000 * 10000000 % 2 ^ 32) % 2 ^ w.bits

section
variable (now : Timeval w) (timeMs : UInt32)

theorem timedout_sec : (timedout now timeMs).sec = w.wrap (now.sec + (timeMs.toNat / 1000 : Nat)) := by
  simp [timedout]

theorem timedout_nsec : (timedout now timeMs).nsec =
    w.wrap (now.usec * 1000 + timeMs.toNat % 1000 * 10000000 % 2 ^ 32 : Nat) := by
  simp [timedout]

theorem timedout_valid_iff :
    (timedout now timeMs).Valid ↔ nsecStored w now.usec timeMs < 1000000000 := by
  rw [Timespec.Valid, timedout_nsec]
  exact w.wrap_range_iff (by decide)

/-- With the factor ten times what it should be, only no milliseconds are right. -/
theorem ms_eq_zero_of_dvd {ms : Nat} (hms : ms < 1000) (h : 2 ^ 32 ∣ ms * 10000000 - ms * 1000000) :
    ms = 0 := by
  have hfactor : ms * 10000000 - ms * 1000000 = 2 ^ 6 * (140625 * ms) := by
    rw [← Nat.mul_sub, Nat.mul_comm, ← Nat.mul_assoc]
    congr 1
  rw [hfactor] at h
  have hodd : 2 ^ 26 ∣ 140625 * ms := Nat.dvd_of_mul_dvd_mul_left (k := 2 ^ 6) (by decide) h
  have hms' : 2 ^ 26 ∣ ms := Nat.Coprime.dvd_of_dvd_mul_left (by decide) hodd
  exact Nat.eq_zero_of_dvd_of_lt hms' (Nat.lt_trans hms (by decide))

theorem nsecStored_eq_iff :
    nsecStored w now.usec timeMs = now.usec * 1000 + timeMs.toNat % 1000 * 1000000 ↔
      timeMs.toNat % 1000 = 0 := by
  have husec : now.usec * 1000 < 1000000000 := Nat.mul_lt_mul_of_pos_right now.usec_lt (by decide)
  have hmicros : now.usec * 1000 < 2 ^ w.bits := by
    cases w <;> exact Nat.lt_trans husec (by decide)
  have hms : timeMs.toNat % 1000 < 1000 := Nat.mod_lt _ (by decide)
  have hproduct : timeMs.toNat % 1000 * 10000000 % 2 ^ 32 < 2 ^ 32 := Nat.mod_lt _ (by decide)
  have hsum : now.usec * 1000 + timeMs.toNat % 1000 * 10000000 % 2 ^ 32 < 2 ^ 64 :=
    Nat.lt_trans (Nat.add_lt_add husec hproduct) (by decide)
  unfold nsecStored
  constructor
  · intro h
    apply ms_eq_zero_of_dvd hms
    cases w with
    | bits32 =>
      rw [LongWidth.bits, Nat.add_mod_mod] at h
      have hdvd := Nat.dvd_sub_mod (n := 2 ^ 32) (now.usec * 1000 + timeMs.toNat % 1000 * 10000000)
      rwa [h, Nat.add_sub_add_left] at hdvd
    | bits64 =>
      rw [LongWidth.bits, Nat.mod_eq_of_lt hsum, Nat.add_left_cancel_iff] at h
      have hdvd := Nat.dvd_sub_mod (n := 2 ^ 32) (timeMs.toNat % 1000 * 10000000)
      rwa [h] at hdvd
  · intro h
    rw [h, Nat.zero_mul, Nat.zero_mod, Nat.add_zero]
    exact Nat.mod_eq_of_lt hmicros

/-- The deadline is valid, and is `timeMs` milliseconds after `now`. -/
structure IsDeadline (deadline : Timespec) : Prop where
  valid : deadline.Valid
  nanos_eq : deadline.nanos = now.nanos + timeMs.toNat * 1000000

/-- As the deadline is valid, its seconds and nanoseconds are right one by one. -/
theorem isDeadline_timedout_iff :
    IsDeadline now timeMs (timedout now timeMs) ↔
      timeMs.toNat % 1000 = 0 ∧ now.sec + (timeMs.toNat / 1000 : Nat) ≤ w.longMax := by
  have husec := now.usec_lt
  have hms : timeMs.toNat % 1000 < 1000 := Nat.mod_lt _ (by decide)
  have hsplit := Nat.div_add_mod timeMs.toNat 1000
  have hnsec := w.wrap_eq_iff (x := now.usec * 1000 + timeMs.toNat % 1000 * 10000000 % 2 ^ 32)
    (v := now.usec * 1000 + timeMs.toNat % 1000 * 1000000) (by omega)
  rw [← timedout_nsec, ← nsecStored, nsecStored_eq_iff] at hnsec
  constructor
  · rintro ⟨⟨hge, hlt⟩, hexact⟩
    rw [Timespec.nanos, Timeval.nanos] at hexact
    have hsec : (timedout now timeMs).sec = now.sec + (timeMs.toNat / 1000 : Nat) := by
      rw [timedout_sec] at hexact ⊢
      exact w.wrap_eq_self (by omega) (by omega)
    refine ⟨hnsec.mp (by omega), ?_⟩
    rw [← hsec, timedout_sec]
    exact w.wrap_le _
  · rintro ⟨hnone, hmax⟩
    have hsec : (timedout now timeMs).sec = now.sec + (timeMs.toNat / 1000 : Nat) := by
      have hmin := now.sec_ge
      rw [timedout_sec, w.wrap_of_mem (by omega) hmax]
    have hnsec' := hnsec.mpr hnone
    constructor
    · rw [Timespec.Valid]
      omega
    · rw [Timespec.nanos, Timeval.nanos]
      omega

/-- A call is refused for ever if and only if it has to wait, and the nanoseconds are too many. -/
theorem spinsOnEinval_timedout_iff (wakeups : Nat → Wakeup) (num : Int) :
    SpinsOnEinval (timedout now timeMs) wakeups num ↔
      num ≤ 0 ∧ 1000000000 ≤ nsecStored w now.usec timeMs := by
  rw [spinsOnEinval_iff, timedout_valid_iff, Nat.not_lt]

/-- The deadline is what it should be, so that no call is refused for ever, if and only if there
are no milliseconds behind the seconds and the seconds do not overflow. -/
theorem wait_time_iff :
    (IsDeadline now timeMs (timedout now timeMs) ∧
      ∀ wakeups num, ¬ SpinsOnEinval (timedout now timeMs) wakeups num) ↔
      timeMs.toNat % 1000 = 0 ∧ now.sec + (timeMs.toNat / 1000 : Nat) ≤ w.longMax := by
  rw [← isDeadline_timedout_iff]
  constructor
  · exact And.left
  · intro hdeadline
    refine ⟨hdeadline, fun wakeups num hspins => ?_⟩
    exact ((spinsOnEinval_iff _ wakeups num).mp hspins).2 hdeadline.valid

end

/-- The time 0. -/
def epoch : Timeval w where
  sec := 0
  usec := 0
  sec_ge := by cases w <;> decide
  sec_le := by cases w <;> decide
  usec_lt := by decide

/-- To wait 100 ms from the start of a second gives 10^9 nanoseconds, which are refused for ever. -/
theorem wait_time_fails :
    ∃ now : Timeval .bits32, now.sec = 0 ∧ now.usec = 0 ∧ timedout now 100 = ⟨0, 1000000000⟩ ∧
      ¬ (timedout now 100).Valid ∧
      ∀ wakeups, SpinsOnEinval (timedout now 100) wakeups 0 ∧
        ∀ r, ¬ PtSemWaitTime now 100 wakeups 0 r := by
  have hnow : timedout (w := .bits32) epoch 100 = ⟨0, 1000000000⟩ := by decide
  have hinvalid : ¬ (timedout (w := .bits32) epoch 100).Valid := by
    rw [hnow]
    decide
  refine ⟨epoch, rfl, rfl, hnow, hinvalid, fun wakeups => ?_⟩
  have hspins := (spinsOnEinval_iff _ wakeups 0).mpr ⟨Int.le_refl 0, hinvalid⟩
  exact ⟨hspins, fun r => hspins.not_returns⟩

end LinuxOta.PtSemaphore
