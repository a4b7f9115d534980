-- SUMMARY: The semaphore that processes share by `sem_ctrl_create`: when it excludes all but one of them.
import LinuxOta.Base.Run
import Mathlib.Algebra.Group.Nat.Defs
import Mathlib.Data.Fintype.Defs
import Mathlib.Logic.Function.Basic
import Mathlib.Logic.Nontrivial.Defs

namespace LinuxOta.SemCtrl

/-! # Semaphores of processes

A set has one semaphore, as `sem_ctrl_create` asks for. -/

/-- `SEMVMX`. -/
def semvmx : Int := 32767

/-- A semaphore set of the system. -/
structure SemSet (P : Type*) where
  id : Int
  val : Int
  /-- `semadj`: what is added to the value when a process ends. -/
  adj : P → Int

/-- What `semop` comes to. -/
inductive Semop (P : Type*) where
  | done (set : SemSet P)
  | fails
  | sleeps

variable {P : Type*} [DecidableEq P]

/-- `semop` of process `p` with `SEM_UNDO`. -/
def semop (set : Option (SemSet P)) (p : P) (fd : Int) (num : Nat) (op : Int) : Semop P :=
  match set with
  | none => .fails
  | some set =>
    if set.id ≠ fd ∨ num ≠ 0 then .fails
    else if set.val + op < 0 then .sleeps
    else if semvmx < set.val + op then .fails
    else .done { set with val := set.val + op, adj := Function.update set.adj p (set.adj p - op) }

/-- `sem_p` and `sem_v`: what they return, and the set afterwards, unless the process sleeps. -/
def semCall (op : Int) (set : Option (SemSet P)) (p : P) (fd idx : Int) : Option (Int × Option (SemSet P)) :=
  if fd < 0 ∨ idx < 0 then some (-1, set)
  else match semop set p fd (idx.toNat % 2 ^ 16) op with
    | .done set' => some (0, some set')
    | .fails => some (-1, set)
    | .sleeps => none

/-- `sem_p`. -/
def semP (set : Option (SemSet P)) (p : P) (fd idx : Int) : Option (Int × Option (SemSet P)) :=
  semCall (-1) set p fd idx

/-- `sem_v`. -/
def semV (set : Option (SemSet P)) (p : P) (fd idx : Int) : Option (Int × Option (SemSet P)) :=
  semCall 1 set p fd idx

/-- `semget`, which gives a new set the identifier `fresh`. -/
def semget (fresh : Int) : Option (SemSet P) → SemSet P
  | some set => set
  | none => ⟨fresh, 0, fun _ => 0⟩

/-- `sem_set_val` of semaphore 0: what it returns, and the set afterwards. -/
def semSetVal (set : Option (SemSet P)) (fd val : Int) : Int × Option (SemSet P) :=
  match set with
  | none => (-1, none)
  | some set => if set.id = fd then (0, some ⟨fd, val, fun _ => 0⟩) else (-1, some set)

/-- How `semget` ends in `sem_ctrl_create`. -/
inductive SemgetAnswer where
  | given
  /-- `EEXIST`, and whether the second call then succeeds. -/
  | exists (again : Bool)
  | failed
  deriving DecidableEq, Repr

/-- `sem_ctrl_create`, with no other process between its calls. -/
def semCtrlCreate (set : Option (SemSet P)) (nsems : Int) (answer : SemgetAnswer) (fresh : Int) :
    Int × Option (SemSet P) :=
  if nsems ≤ 0 then (-1, set)
  else
    let got := semget fresh set
    match answer with
    | .failed => (-1, set)
    | .exists false => (-1, set)
    | .exists true => (got.id, some got)
    | .given => (got.id, (semSetVal (some got) got.id 1).2)

/-- `sem_ctrl_destroy`. -/
def semCtrlDestroy (set : Option (SemSet P)) (fd : Int) : Int × Option (SemSet P) :=
  if fd < 0 then (-1, set)
  else match set with
    | none => (-1, none)
    | some set => if set.id = fd then (0, none) else (-1, some set)

/-- The system takes back what a process that ends has done to the semaphore. -/
def undo (set : SemSet P) (p : P) : SemSet P :=
  { set with val := max 0 (min semvmx (set.val + set.adj p)), adj := Function.update set.adj p 0 }

/-! ## Processes

A process that is inside has called `sem_p` with success and has not called `sem_v` since. -/

structure State (P : Type*) where
  set : Option (SemSet P)
  /-- The value of the set was set. -/
  ready : Bool
  /-- The identifier by which a process got inside. -/
  inside : P → Option Int

/-- What a process does next. -/
inductive Action (P : Type*) where
  /-- `semget` in `sem_ctrl_create`. -/
  | get (fresh : Int)
  /-- `sem_set_val` in `sem_ctrl_create`. -/
  | setVal (fd : Int)
  | acquire (p : P) (fd : Int)
  | release (p : P)
  /-- The process ends, inside or not. -/
  | exit (p : P)
  | destroy (fd : Int)

/-- The state before any call. -/
def start : State P := ⟨none, false, fun _ => none⟩

/-- The state after a step. -/
def next : Action P → State P → State P
  | .get fresh, s => { s with set := some (semget fresh s.set), ready := s.set.isSome && s.ready }
  | .setVal fd, s =>
    let (ret, set) := semSetVal s.set fd 1
    { s with set := set, ready := s.ready || ret = 0 }
  | .acquire p fd, s =>
    match semP s.set p fd 0 with
    | some (ret, set) =>
      { s with set := set, inside := if ret = 0 then Function.update s.inside p (some fd) else s.inside }
    | none => s
  | .release p, s =>
    match (s.inside p).bind fun fd => semV s.set p fd 0 with
    | some (_, set) => { s with set := set, inside := Function.update s.inside p none }
    | none => s
  | .exit p, s => { s with set := s.set.map (undo · p), inside := Function.update s.inside p none }
  | .destroy fd, s =>
    let (ret, set) := semCtrlDestroy s.set fd
    { s with set := set, ready := s.ready && ret ≠ 0 }

/-- The step can be taken: identifiers still in use are not given again, a process that sleeps in
`sem_p` does not get on, and `sem_v` is for those inside. -/
def Enabled : Action P → State P → Prop
  | .get fresh, s => 0 ≤ fresh ∧ ∀ p, s.inside p ≠ some fresh
  | .acquire p fd, s => s.inside p = none ∧ (semP s.set p fd 0).isSome
  | .release p, s => (s.inside p).isSome
  | _, _ => True

instance [Fintype P] : ∀ (c : Action P) (s : State P), Decidable (Enabled c s)
  | .get fresh, s => inferInstanceAs (Decidable (0 ≤ fresh ∧ ∀ p, s.inside p ≠ some fresh))
  | .acquire p fd, s => inferInstanceAs (Decidable (s.inside p = none ∧ (semP s.set p fd 0).isSome))
  | .release p, s => inferInstanceAs (Decidable (s.inside p).isSome)
  | .setVal _, _ | .exit _, _ | .destroy _, _ => .isTrue trivial

/-- No two processes are inside. -/
def Exclusive (s : State P) : Prop := ∀ p q, (s.inside p).isSome → (s.inside q).isSome → p = q

/-- The step sets the value of the semaphore while a process is inside. -/
def Resets (c : Action P) (s : State P) : Prop :=
  ∃ set, s.set = some set ∧ c = .setVal set.id ∧ ∃ p, (s.inside p).isSome

/-! ## Single calls -/

section
variable {set : SemSet P} {p : P} {fd op : Int}

/-- A call for a set that exists. -/
theorem semCall_eq (hid : 0 ≤ set.id) (hmax : set.val + op ≤ semvmx) :
    semCall op (some set) p set.id 0 =
      if set.val + op < 0 then none
      else some (0, some
        { set with val := set.val + op, adj := Function.update set.adj p (set.adj p - op) }) := by
  rw [semCall, if_neg (by omega), semop, if_neg (by simp)]
  by_cases hneg : set.val + op < 0
  · rw [if_pos hneg, if_pos hneg]
  · rw [if_neg hneg, if_neg hneg, if_neg (Int.not_lt.mpr hmax)]

/-- A call for a set that does not exist. -/
theorem semCall_of_ne {set : Option (SemSet P)} (h : ∀ set', set = some set' → set'.id ≠ fd) :
    semCall op set p fd 0 = some (-1, set) := by
  rw [semCall]
  split
  · rfl
  cases set with
  | none => rfl
  | some set => rw [semop, if_pos (.inl (h set rfl))]

theorem semP_done (hid : 0 ≤ set.id) (hval : set.val = 1) :
    semP (some set) p set.id 0 =
      some (0, some { set with val := 0, adj := Function.update set.adj p (set.adj p + 1) }) := by
  rw [semP, semCall_eq hid (by rw [hval]; decide), hval, if_neg (by decide), Int.sub_neg]
  rfl

theorem semP_sleeps (hid : 0 ≤ set.id) (hval : set.val = 0) : semP (some set) p set.id 0 = none := by
  rw [semP, semCall_eq hid (by rw [hval]; decide), hval, if_pos (by decide)]

theorem semV_done (hid : 0 ≤ set.id) (hval : set.val = 0) :
    semV (some set) p set.id 0 =
      some (0, some { set with val := 1, adj := Function.update set.adj p (set.adj p - 1) }) := by
  rw [semV, semCall_eq hid (by rw [hval]; decide), hval, if_neg (by decide)]
  rfl

omit [DecidableEq P] in
/-- The set is gone, or nothing is done. -/
theorem semCtrlDestroy_cases (set : Option (SemSet P)) (fd : Int) :
    (semCtrlDestroy set fd).2 = none ∨
      (semCtrlDestroy set fd).2 = set ∧ (semCtrlDestroy set fd).1 ≠ 0 := by
  unfold semCtrlDestroy
  split
  · exact .inr ⟨rfl, by simp⟩
  cases set with
  | none => exact .inl rfl
  | some set =>
    by_cases hid : set.id = fd
    · exact .inl (by simp [hid])
    · exact .inr (by simp [hid])

/-- A creation that `semget` does not refuse is its two steps. -/
theorem semCtrlCreate_steps {nsems : Int} (hpos : 0 < nsems) (fresh : Int) (s : State P) :
    (semCtrlCreate s.set nsems .given fresh).2 =
      (next (.setVal (semCtrlCreate s.set nsems .given fresh).1) (next (.get fresh) s)).set := by
  rw [semCtrlCreate, if_neg (Int.not_le.mpr hpos)]
  rfl

end

/-! ## The invariant -/

/-- What the set says about the processes. -/
structure SetInv (s : State P) (set : SemSet P) : Prop where
  id : 0 ≤ set.id
  ready : s.ready = true →
    ((∀ p, s.inside p = none) ∧ set.val = 1) ∨ ((∃ p, s.inside p = some set.id) ∧ set.val = 0)
  unready : s.ready = false → (∀ p, s.inside p ≠ some set.id) ∧ set.val = 0
  adj : ∀ p, set.adj p = if s.inside p = some set.id then 1 else 0

structure Inv (s : State P) : Prop where
  alone : Exclusive s
  set : ∀ set, s.set = some set → SetInv s set

omit [DecidableEq P] in
theorem start_inv : Inv (start : State P) where
  alone := by simp [Exclusive, start]
  set := by simp [start]

theorem Exclusive.leave {s : State P} (h : Exclusive s) (p : P) (set : Option (SemSet P)) (ready : Bool) :
    Exclusive ⟨set, ready, Function.update s.inside p none⟩ := by
  have hother : ∀ q, (Function.update s.inside p none q).isSome → (s.inside q).isSome := by
    intro q hq
    rcases eq_or_ne q p with rfl | hne
    · simp at hq
    · rwa [Function.update_of_ne hne] at hq
  exact fun q r hq hr => h q r (hother q hq) (hother r hr)

namespace Inv

variable {s : State P} {p : P} {fd : Int}

omit [DecidableEq P] in
/-- A process that is inside when the set is ready got inside by it, and is the only one. -/
theorem inside_of_ready (h : Inv s) {set : SemSet P} (hset : s.set = some set) (hready : s.ready = true)
    (hp : (s.inside p).isSome) : s.inside p = some set.id ∧ set.val = 0 := by
  rcases (h.set set hset).ready hready with ⟨hnone, -⟩ | ⟨⟨q, hq⟩, hval⟩
  · simp [hnone] at hp
  · obtain rfl := h.alone p q hp (by simp [hq])
    exact ⟨hq, hval⟩

/-- When the last one goes, nobody is inside. -/
theorem leave_none (h : Inv s) (hp : (s.inside p).isSome) (q : P) :
    Function.update s.inside p none q = none := by
  rcases eq_or_ne q p with rfl | hne
  · rw [Function.update_self]
  · rw [Function.update_of_ne hne]
    by_contra hq
    exact hne (h.alone q p (Option.isSome_iff_ne_none.mpr hq) hp)

theorem get (h : Inv s) {fresh : Int} (he : Enabled (.get fresh) s) : Inv (next (.get fresh) s) where
  alone := h.alone
  set := by
    rintro set hset
    cases hs : s.set with
    | none =>
      simp only [next, hs, semget, Option.some.injEq, Option.isSome_none, Bool.false_and] at hset ⊢
      subst hset
      exact ⟨he.1, by simp, fun _ => ⟨he.2, rfl⟩, fun p => (if_neg (he.2 p)).symm⟩
    | some set' =>
      simp only [next, hs, semget, Option.some.injEq, Option.isSome_some, Bool.true_and] at hset ⊢
      subst hset
      have hinv := h.set set' hs
      exact ⟨hinv.id, hinv.ready, hinv.unready, hinv.adj⟩

theorem setVal (h : Inv s) (hc : ¬ Resets (.setVal fd) s) : Inv (next (.setVal fd) s) := by
  cases hs : s.set with
  | none =>
    refine ⟨h.alone, fun set hset => ?_⟩
    simp [next, hs, semSetVal] at hset
  | some set =>
    have hinv := h.set set hs
    by_cases hid : set.id = fd
    · have hnone : ∀ p, s.inside p = none := by
        intro p
        by_contra hp
        exact hc ⟨set, hs, by rw [hid], p, Option.isSome_iff_ne_none.mpr hp⟩
      refine ⟨h.alone, fun set' hset => ?_⟩
      simp only [next, hs, semSetVal, if_pos hid, Option.some.injEq] at hset
      subst hset
      refine ⟨hid ▸ hinv.id, fun _ => .inl ⟨hnone, rfl⟩, ?_, ?_⟩
      · simp [next, hs, semSetVal, hid]
      · intro p
        simp [next, hnone]
    · refine ⟨h.alone, fun set' hset => ?_⟩
      simp only [next, hs, semSetVal, if_neg hid, Option.some.injEq] at hset
      subst hset
      refine ⟨hinv.id, ?_, ?_, hinv.adj⟩
      · simpa [next, hs, semSetVal, hid] using hinv.ready
      · simpa [next, hs, semSetVal, hid] using hinv.unready

theorem acquire (h : Inv s) : Inv (next (.acquire p fd) s) := by
  by_cases hset : ∃ set, s.set = some set ∧ set.id = fd
  swap
  · have hfails : semCall (-1) s.set p fd 0 = some (-1, s.set) :=
      semCall_of_ne fun set hs hid => hset ⟨set, hs, hid⟩
    simp only [next, semP, hfails]
    exact h
  obtain ⟨set, hs, rfl⟩ := hset
  have hinv := h.set set hs
  by_cases hval : set.val = 0
  · simp only [next, hs, semP_sleeps hinv.id hval]
    exact h
  -- the semaphore is free, so that nobody is inside
  have hready : s.ready = true := by
    by_contra hnot
    exact hval (hinv.unready (by simpa using hnot)).2
  obtain ⟨hnone, hone⟩ := (hinv.ready hready).resolve_right fun hheld => hval hheld.2
  simp only [next, hs, semP_done hinv.id hone, ↓reduceIte]
  have hinside : ∀ q, (Function.update s.inside p (some set.id) q).isSome → q = p := by
    intro q hq
    by_contra hne
    rw [Function.update_of_ne hne, hnone] at hq
    exact absurd hq (by simp)
  refine ⟨fun q r hq hr => (hinside q hq).trans (hinside r hr).symm, fun set' hset => ?_⟩
  obtain rfl := Option.some.inj hset
  refine ⟨hinv.id, fun _ => .inr ⟨⟨p, Function.update_self ..⟩, rfl⟩, ?_, fun q => ?_⟩
  · intro hunready
    exact absurd (hready.symm.trans hunready) (by simp)
  · rcases eq_or_ne q p with rfl | hne
    · simp [hinv.adj, hnone]
    · simp [Function.update_of_ne hne, hinv.adj, hnone]

/-- What the set says when a process has gone that was not inside by it. -/
theorem leave_other {set : SemSet P} (hinv : SetInv s set) (hp : s.inside p ≠ some set.id)
    (cell : Option (SemSet P)) : SetInv ⟨cell, s.ready, Function.update s.inside p none⟩ set where
  id := hinv.id
  ready hready := by
    rcases hinv.ready hready with ⟨hnone, hval⟩ | ⟨⟨q, hq⟩, hval⟩
    · refine .inl ⟨fun q => ?_, hval⟩
      rcases eq_or_ne q p with rfl | hne
      · exact Function.update_self ..
      · exact (Function.update_of_ne hne ..).trans (hnone q)
    · have hne : q ≠ p := by
        rintro rfl
        exact hp hq
      exact .inr ⟨⟨q, (Function.update_of_ne hne ..).trans hq⟩, hval⟩
  unready hunready := by
    obtain ⟨hnone, hval⟩ := hinv.unready hunready
    refine ⟨fun q => ?_, hval⟩
    rcases eq_or_ne q p with rfl | hne
    · simp
    · simpa [Function.update_of_ne hne] using hnone q
  adj q := by
    rcases eq_or_ne q p with rfl | hne
    · simp [hinv.adj, hp]
    · simp [Function.update_of_ne hne, hinv.adj]

/-- What the set says when the process inside has gone. -/
theorem leave_holder (h : Inv s) {set : SemSet P} (hset : s.set = some set) (hp : s.inside p = some set.id)
    (cell : Option (SemSet P)) :
    SetInv ⟨cell, s.ready, Function.update s.inside p none⟩
      { set with val := 1, adj := Function.update set.adj p 0 } := by
  have hinv := h.set set hset
  have hsome : (s.inside p).isSome := by simp [hp]
  refine ⟨hinv.id, fun _ => .inl ⟨h.leave_none hsome, rfl⟩, fun hunready => ?_, fun q => ?_⟩
  · exact absurd hp ((hinv.unready hunready).1 p)
  · have hgone : Function.update s.inside p none q ≠ some set.id := by simp [h.leave_none hsome]
    refine Eq.trans ?_ (if_neg hgone).symm
    rcases eq_or_ne q p with rfl | hne
    · exact Function.update_self ..
    · have hq : s.inside q ≠ some set.id := fun hq => hne (h.alone q p (by simp [hq]) hsome)
      exact (Function.update_of_ne hne ..).trans ((hinv.adj q).trans (if_neg hq))

omit [DecidableEq P] in
/-- The semaphore is taken while the process inside has not gone. -/
theorem val_of_holder (h : Inv s) {set : SemSet P} (hset : s.set = some set)
    (hp : s.inside p = some set.id) : set.val = 0 ∧ set.adj p = 1 := by
  have hinv := h.set set hset
  have hsome : (s.inside p).isSome := by simp [hp]
  refine ⟨?_, by rw [hinv.adj, if_pos hp]⟩
  cases hready : s.ready with
  | false => exact (hinv.unready hready).2
  | true => exact (h.inside_of_ready hset hready hsome).2

theorem release (h : Inv s) (he : Enabled (.release p) s) : Inv (next (.release p) s) := by
  obtain ⟨fd, hfd⟩ := Option.isSome_iff_exists.mp he
  by_cases hset : ∃ set, s.set = some set ∧ set.id = fd
  swap
  · -- the set by which the process got inside was destroyed
    have hfails : semCall 1 s.set p fd 0 = some (-1, s.set) :=
      semCall_of_ne fun set hs hid => hset ⟨set, hs, hid⟩
    simp only [next, hfd, Option.bind_some, semV, hfails]
    refine ⟨h.alone.leave p _ _, fun set hs => leave_other (h.set set hs) ?_ _⟩
    rw [hfd]
    exact fun hid => hset ⟨set, hs, (Option.some.inj hid).symm⟩
  obtain ⟨set, hs, rfl⟩ := hset
  obtain ⟨hval, hadj⟩ := h.val_of_holder hs hfd
  simp only [next, hfd, Option.bind_some, hs, semV_done (h.set set hs).id hval, hadj, Int.sub_self]
  refine ⟨h.alone.leave p _ _, fun set' hset => ?_⟩
  obtain rfl := Option.some.inj hset
  exact h.leave_holder hs hfd _

theorem exit (h : Inv s) : Inv (next (.exit p) s) := by
  refine ⟨h.alone.leave p _ _, fun set' hset => ?_⟩
  obtain ⟨set, hs, rfl⟩ := Option.map_eq_some_iff.mp hset
  have hinv := h.set set hs
  by_cases hp : s.inside p = some set.id
  · obtain ⟨hval, hadj⟩ := h.val_of_holder hs hp
    rw [undo, hval, hadj]
    exact h.leave_holder hs hp _
  · have hadj : set.adj p = 0 := by rw [hinv.adj, if_neg hp]
    have hval : set.val = 0 ∨ set.val = 1 := by
      cases hready : s.ready with
      | false => exact .inl (hinv.unready hready).2
      | true => exact (hinv.ready hready).symm.imp And.right And.right
    have hclamp : max 0 (min semvmx set.val) = set.val := by
      rcases hval with hval | hval <;> rw [hval] <;> decide
    have hsame : undo set p = set := by
      have hupdate : Function.update set.adj p 0 = set.adj := by rw [← hadj, Function.update_eq_self]
      rw [undo, hadj, Int.add_zero, hclamp, hupdate]
    rw [hsame]
    exact leave_other hinv hp _

theorem destroy (h : Inv s) : Inv (next (.destroy fd) s) := by
  refine ⟨h.alone, fun set hset => ?_⟩
  rcases semCtrlDestroy_cases s.set fd with hnone | ⟨hsame, hret⟩
  · exact absurd (hnone.symm.trans hset) (by simp)
  · have hinv := h.set set (hsame.symm.trans hset)
    have hready : (next (.destroy fd) s).ready = s.ready := by simp [next, hret]
    exact ⟨hinv.id, fun h => hinv.ready (hready ▸ h), fun h => hinv.unready (hready ▸ h), hinv.adj⟩

/-- A step that does not set the value while a process is inside. -/
theorem step (h : Inv s) {c : Action P} (he : Enabled c s) (hc : ¬ Resets c s) : Inv (next c s) := by
  cases c with
  | get fresh => exact h.get he
  | setVal fd => exact h.setVal hc
  | acquire p fd => exact h.acquire
  | release p => exact h.release he
  | exit p => exact h.exit
  | destroy fd => exact h.destroy

end Inv

/-! ## Mutual exclusion -/

/-- Whoever gets inside next is alone there. -/
def AdmitsOne (s : State P) : Prop := ∀ p fd, Enabled (.acquire p fd) s → Exclusive (next (.acquire p fd) s)

/-- Setting the value while a process is inside lets another one in. -/
theorem Inv.not_admitsOne [Nontrivial P] {s : State P} (h : Inv s) {c : Action P} (hc : Resets c s) :
    ¬ AdmitsOne (next c s) := by
  obtain ⟨set, hs, rfl, p, hp⟩ := hc
  obtain ⟨q, hqp⟩ := exists_ne p
  have hq : s.inside q = none := by
    by_contra hq
    exact hqp (h.alone q p (Option.isSome_iff_ne_none.mpr hq) hp)
  have hset : semSetVal s.set set.id 1 = (0, some ⟨set.id, 1, fun _ => 0⟩) := by
    rw [hs, semSetVal, if_pos rfl]
  have hdone : semP (some ⟨set.id, 1, fun _ => 0⟩) q set.id 0 =
      some (0, some ⟨set.id, 0, Function.update (fun _ => 0) q (0 + 1)⟩) :=
    semP_done (h.set set hs).id rfl
  intro hadmits
  have hexclusive := hadmits q set.id ⟨hq, by simp [next, hset, hdone]⟩
  simp only [next, hset, hdone, ↓reduceIte] at hexclusive
  have hp' : (Function.update s.inside q (some set.id) p).isSome := by
    rwa [Function.update_of_ne hqp.symm]
  exact hqp (hexclusive q p (by simp) hp')

/-- `sem_p` goes through exactly when nobody is inside. -/
def Fair (s : State P) : Prop :=
  ∀ set, s.set = some set → s.ready = true → ∀ p, s.inside p = none →
    (Enabled (.acquire p set.id) s ↔ ∀ q, s.inside q = none)

theorem Inv.fair {s : State P} (h : Inv s) : Fair s := by
  intro set hs hready p hp
  have hinv := h.set set hs
  rcases hinv.ready hready with ⟨hnone, hval⟩ | ⟨⟨q, hq⟩, hval⟩
  · exact iff_of_true ⟨hp, by rw [hs, semP_done hinv.id hval]; rfl⟩ hnone
  · refine iff_of_false ?_ fun hnone => by simp [hnone] at hq
    rintro ⟨-, hgoes⟩
    rw [hs, semP_sleeps hinv.id hval] at hgoes
    exact absurd hgoes (by simp)

theorem Inv.admitsOne {s : State P} (h : Inv s) : AdmitsOne s := fun _ _ _ => h.acquire.alone

/-- Two or more processes create, use and destroy the semaphore, and end at any point. Whoever
gets inside is alone there for sure exactly when the value is never set, as every `sem_ctrl_create`
does, while a process is inside. Then nobody keeps the others out who has gone or ended. -/
theorem semCtrl_exclusive_iff [Nontrivial P] (cs : List (Action P))
    (henabled : Run.Always next Enabled cs start) :
    (Run.Always next (fun c s => AdmitsOne (next c s)) cs start ↔
      Run.Always next (fun c s => ¬ Resets c s) cs start) ∧
    (Run.Always next (fun c s => ¬ Resets c s) cs start →
      Run.Always next (fun c s => Exclusive (next c s) ∧ Fair (next c s)) cs start) := by
  have hkeeps : Run.Always next (fun c s => ¬ Resets c s) cs start →
      Run.Always next (fun c s => Inv (next c s)) cs start := fun hquiet =>
    Run.always_of_invariant
      (fun c s hc (hinv : Inv s) => ⟨hinv.step hc.1 hc.2, hinv.step hc.1 hc.2⟩) cs start
      (Run.always_and cs start henabled hquiet) start_inv
  refine ⟨⟨fun hadmits => ?_, fun hquiet => ?_⟩, fun hquiet => ?_⟩
  · refine Run.always_of_invariant (fun c s hc (hinv : Inv s) => ?_) cs start
      (Run.always_and cs start henabled hadmits) start_inv
    have hnot : ¬ Resets c s := fun hresets => hinv.not_admitsOne hresets hc.2
    exact ⟨hnot, hinv.step hc.1 hnot⟩
  · exact Run.always_mono (fun _ _ hinv => hinv.admitsOne) cs start (hkeeps hquiet)
  · exact Run.always_mono (fun _ _ hinv => ⟨hinv.alone, hinv.fair⟩) cs start (hkeeps hquiet)

/-- One process creates the semaphore and gets inside, and another one creates it again. -/
def createTwice : List (Action Bool) := [.get 5, .setVal 5, .acquire true 5, .get 6, .setVal 5]

theorem semCtrl_exclusive_iff_createTwice :
    ¬ Run.Always next (fun c s => AdmitsOne (next c s)) createTwice start := by
  rw [(semCtrl_exclusive_iff createTwice (by decide)).1]
  rintro ⟨-, -, -, -, hquiet, -⟩
  exact hquiet ⟨_, rfl, rfl, true, rfl⟩

end LinuxOta.SemCtrl
