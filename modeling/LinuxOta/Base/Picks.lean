-- SUMMARY: Placing the elements of a list at increasing indices, each at the first one that suits it.
import Mathlib.Data.List.Basic
import Mathlib.Data.List.Range
import Mathlib.Data.List.Pairwise
import Mathlib.Data.List.Perm.Subperm

/-! # Picking indices

The indices are those below `m`. Each element goes to the first index that suits
it and lies behind the one of the element before it. -/

namespace Picks

variable {α : Type*} {m n i : Nat}

/-- The first index with `p` from `n` on. -/
def first (p : Nat → Bool) (m n : Nat) : Option Nat := (List.range' n (m - n)).find? p

/-- All indices with `p` from `n` on. -/
def all (p : Nat → Bool) (m n : Nat) : List Nat := (List.range' n (m - n)).filter p

/-- The indices of the elements, or `none` when there are not enough. -/
def picks (suits : α → Nat → Bool) (m : Nat) : (n : Nat) → List α → Option (List Nat)
  | _, [] => some []
  | n, a :: as => (first (suits a) m n).bind fun i => (picks suits m (i + 1) as).map (i :: ·)

section
variable {p : Nat → Bool}

theorem range'_of_lt (h : n < m) :
    List.range' n (m - n) = n :: List.range' (n + 1) (m - (n + 1)) := by
  have hsub : m - n = m - (n + 1) + 1 := by omega
  rw [hsub, List.range'_succ]

theorem first_of_ge (h : m ≤ n) : first p m n = none := by
  simp [first, Nat.sub_eq_zero_of_le h]

theorem first_of_pos (h : n < m) (hp : p n = true) : first p m n = some n := by
  rw [first, range'_of_lt h, List.find?_cons_of_pos hp]

theorem first_of_neg (h : n < m) (hp : p n = false) : first p m n = first p m (n + 1) := by
  rw [first, range'_of_lt h, List.find?_cons_of_neg (by simp [hp]), first]

/-- What is known of the first index. -/
theorem first_spec (h : first p m n = some i) : n ≤ i ∧ i < m ∧ p i = true := by
  have hmem := List.mem_of_find?_eq_some h
  rw [List.mem_range'_1] at hmem
  exact ⟨hmem.1, by omega, List.find?_some h⟩

theorem all_pairwise : (all p m n).Pairwise (· < ·) :=
  List.Pairwise.filter p List.pairwise_lt_range'

theorem all_of_ge (h : m ≤ n) : all p m n = [] := by
  simp [all, Nat.sub_eq_zero_of_le h]

theorem all_of_pos (h : n < m) (hp : p n = true) : all p m n = n :: all p m (n + 1) := by
  rw [all, range'_of_lt h, List.filter_cons_of_pos hp, all]

theorem all_of_neg (h : n < m) (hp : p n = false) : all p m n = all p m (n + 1) := by
  rw [all, range'_of_lt h, List.filter_cons_of_neg (by simp [hp]), all]

/-- Induction over the indices from `n` on. -/
theorem upward {P : Nat → Prop} (past : ∀ n, m ≤ n → P n) (step : ∀ n, n < m → P (n + 1) → P n) :
    ∀ n, P n := by
  have hle : ∀ k n, m - n ≤ k → P n := by
    intro k
    induction k with
    | zero => exact fun n hk => past n (by omega)
    | succ k ih =>
      intro n hk
      rcases Nat.lt_or_ge n m with hlt | hge
      · exact step n hlt (ih _ (by omega))
      · exact past n hge
  exact fun n => hle _ n (Nat.le_refl _)

/-- There is a first index just when there is one at all, and the others lie behind it. -/
theorem all_eq (p : Nat → Bool) (m n : Nat) :
    all p m n = match first p m n with
      | some i => i :: all p m (i + 1)
      | none => [] := by
  induction n using upward (m := m) with
  | past n hge => rw [all_of_ge hge, first_of_ge hge]
  | step n hlt ih =>
    cases hp : p n with
    | true => rw [all_of_pos hlt hp, first_of_pos hlt hp]
    | false => rw [all_of_neg hlt hp, first_of_neg hlt hp, ih]

theorem first_le {j : Nat} (h : first p m n = some i) (hn : n ≤ j) (hj : j < m) (hp : p j = true) : i ≤ j := by
  have hmem : j ∈ all p m n := List.mem_filter.mpr ⟨List.mem_range'_1.mpr ⟨hn, by omega⟩, hp⟩
  have hsorted : (all p m n).Pairwise (· < ·) := all_pairwise
  rw [all_eq, h] at hmem hsorted
  rcases List.mem_cons.mp hmem with rfl | hmem
  · exact Nat.le_refl j
  · exact Nat.le_of_lt ((List.pairwise_cons.mp hsorted).1 j hmem)

theorem exists_first {j : Nat} (hn : n ≤ j) (hj : j < m) (hp : p j = true) : ∃ i ≤ j, first p m n = some i := by
  cases hfirst : first p m n with
  | none =>
    rw [first, List.find?_eq_none] at hfirst
    exact absurd hp (hfirst j (List.mem_range'_1.mpr ⟨hn, by omega⟩))
  | some i => exact ⟨i, first_le hfirst hn hj hp, rfl⟩

/-- The first index does not depend on the indices behind it. -/
theorem first_below {k : Nat} (h : first p m n = some i) (hi : i < k) (hk : k ≤ m) : first p k n = some i := by
  obtain ⟨hni, -, hp⟩ := first_spec h
  obtain ⟨j, hji, hfirst⟩ := exists_first hni hi hp
  obtain ⟨hnj, hjk, hpj⟩ := first_spec hfirst
  have hij := first_le h hnj (Nat.lt_of_lt_of_le hjk hk) hpj
  rw [hfirst, Nat.le_antisymm hji hij]

theorem all_congr {q : Nat → Bool} (h : ∀ i < m, p i = q i) : all p m n = all q m n :=
  List.filter_congr fun i hi => h i (by have hrange := List.mem_range'_1.mp hi; omega)

theorem first_congr {q : Nat → Bool} (h : ∀ i < m, p i = q i) : first p m n = first q m n := by
  have hall := all_congr (n := n) h
  rw [all_eq, all_eq] at hall
  cases hp : first p m n with
  | none =>
    cases hq : first q m n with
    | none => rfl
    | some j => simp [hp, hq] at hall
  | some i =>
    cases hq : first q m n with
    | none => simp [hp, hq] at hall
    | some j =>
      rw [hp, hq] at hall
      exact congrArg some (List.cons.inj hall).1

end

/-! ## Picks -/

section
variable {suits : α → Nat → Bool} {as : List α} {ps : List Nat}

theorem picks_length (h : picks suits m n as = some ps) : ps.length = as.length := by
  induction as generalizing n ps with
  | nil =>
    obtain rfl : [] = ps := by simpa [picks] using h
    rfl
  | cons a as ih =>
    simp only [picks, Option.bind_eq_some_iff, Option.map_eq_some_iff] at h
    obtain ⟨i, hi, qs, hqs, rfl⟩ := h
    simp [ih hqs]

theorem picks_congr {suits' : α → Nat → Bool} (h : ∀ a ∈ as, ∀ i < m, suits a i = suits' a i) :
    picks suits m n as = picks suits' m n as := by
  induction as generalizing n with
  | nil => rfl
  | cons a as ih =>
    have hrest : ∀ n, picks suits m n as = picks suits' m n as := fun n =>
      ih fun b hb => h b (List.mem_cons_of_mem _ hb)
    rw [picks, picks, first_congr (h a List.mem_cons_self)]
    simp only [hrest]

/-- Picks that end before the index `k` are found there. -/
theorem picks_below {k : Nat} (h : picks suits m n as = some ps) (hk : k ≤ m) (hps : ∀ i ∈ ps, i < k) :
    picks suits k n as = some ps := by
  induction as generalizing n ps with
  | nil => exact h
  | cons a as ih =>
    simp only [picks, Option.bind_eq_some_iff, Option.map_eq_some_iff] at h ⊢
    obtain ⟨i, hi, qs, hqs, rfl⟩ := h
    obtain ⟨hik, hqsk⟩ := List.forall_mem_cons.mp hps
    exact ⟨i, first_below hi hik hk, qs, ih hqs hqsk, rfl⟩

/-- Where every index from `k` on suits, there are picks. -/
theorem exists_picks {k : Nat} (hsuits : ∀ a ∈ as, ∀ i, k ≤ i → i < m → suits a i = true)
    (hlen : max n k + as.length ≤ m) : ∃ ps, picks suits m n as = some ps := by
  induction as generalizing n with
  | nil => exact ⟨[], rfl⟩
  | cons a as ih =>
    obtain ⟨ha, has⟩ := List.forall_mem_cons.mp hsuits
    rw [List.length_cons] at hlen
    obtain ⟨i, hle, hi⟩ := exists_first (p := suits a) (Nat.le_max_left n k) (by omega : max n k < m)
      (ha _ (Nat.le_max_right n k) (by omega))
    obtain ⟨ps, hps⟩ := ih (n := i + 1) has (by omega)
    exact ⟨i :: ps, by simp [picks, hi, hps]⟩

theorem length_le_of_picks (h : picks suits m n as = some ps) : as.length ≤ m - n := by
  induction as generalizing n ps with
  | nil => exact Nat.zero_le _
  | cons a as ih =>
    simp only [picks, Option.bind_eq_some_iff, Option.map_eq_some_iff] at h
    obtain ⟨i, hi, qs, hqs, rfl⟩ := h
    obtain ⟨hge, hlt, -⟩ := first_spec hi
    have hrest := ih hqs
    rw [List.length_cons]
    omega

/-- The indices lie from `n` on, and increase. -/
theorem picks_pairwise (h : picks suits m n as = some ps) :
    (∀ i ∈ ps, n ≤ i ∧ i < m) ∧ ps.Pairwise (· < ·) := by
  induction as generalizing n ps with
  | nil =>
    obtain rfl : [] = ps := by simpa [picks] using h
    exact ⟨by simp, List.Pairwise.nil⟩
  | cons a as ih =>
    simp only [picks, Option.bind_eq_some_iff, Option.map_eq_some_iff] at h
    obtain ⟨i, hi, qs, hqs, rfl⟩ := h
    obtain ⟨hge, hlt, -⟩ := first_spec hi
    obtain ⟨hrange, hsorted⟩ := ih hqs
    refine ⟨fun j hj => ?_, List.pairwise_cons.mpr ⟨fun j hj => (hrange j hj).1, hsorted⟩⟩
    rcases List.mem_cons.mp hj with rfl | hj
    · exact ⟨hge, hlt⟩
    · obtain ⟨hj, hjm⟩ := hrange j hj
      exact ⟨by omega, hjm⟩

/-- The index behind the last of a list that starts from `n` on. -/
def behind : (n : Nat) → List Nat → Nat
  | n, [] => n
  | _, i :: ps => behind (i + 1) ps

@[simp] theorem behind_nil (n : Nat) : behind n [] = n := rfl
@[simp] theorem behind_cons (n i : Nat) (ps : List Nat) : behind n (i :: ps) = behind (i + 1) ps := rfl

theorem behind_le_iff (hps : ps.Pairwise (· < ·)) :
    behind n ps ≤ m ↔ (ps = [] → n ≤ m) ∧ ∀ i ∈ ps, i < m := by
  induction ps generalizing n with
  | nil => simp
  | cons i ps ih =>
    obtain ⟨hi, hps⟩ := List.pairwise_cons.mp hps
    rw [behind_cons, ih hps]
    constructor
    · intro h
      have him : i < m := by
        cases ps with
        | nil => exact h.1 rfl
        | cons j ps => exact (hi j List.mem_cons_self).trans (h.2 j List.mem_cons_self)
      exact ⟨fun hnil => by simp at hnil, List.forall_mem_cons.mpr ⟨him, h.2⟩⟩
    · intro h
      exact ⟨fun _ => h.2 i List.mem_cons_self, fun j hj => h.2 j (List.mem_cons_of_mem _ hj)⟩

theorem lt_behind (hps : ps.Pairwise (· < ·)) (hi : i ∈ ps) : i < behind n ps :=
  ((behind_le_iff hps).mp (Nat.le_refl _)).2 i hi

/-- Picks from `n` on end between `n` and the last index. -/
theorem behind_picks (h : picks suits m n as = some ps) (hn : n ≤ m) :
    n ≤ behind n ps ∧ behind n ps ≤ m := by
  obtain ⟨hrange, hsorted⟩ := picks_pairwise h
  refine ⟨?_, (behind_le_iff hsorted).mpr ⟨fun _ => hn, fun i hi => (hrange i hi).2⟩⟩
  cases ps with
  | nil => exact Nat.le_refl n
  | cons i ps => exact (hrange i List.mem_cons_self).1.trans (Nat.le_of_lt (lt_behind hsorted List.mem_cons_self))

/-- When the same indices suit every element, they are picked in their order. -/
theorem picks_eq {p : Nat → Bool} (hp : ∀ a ∈ as, suits a = p) (m n : Nat) :
    picks suits m n as =
      if as.length ≤ (all p m n).length then some ((all p m n).take as.length) else none := by
  induction as generalizing n with
  | nil => simp [picks]
  | cons a as ih =>
    have ha : suits a = p := hp a List.mem_cons_self
    rw [picks, ha, all_eq p m n]
    cases hi : first p m n with
    | none => simp
    | some i =>
      rw [Option.bind_some, ih (fun b hb => hp b (List.mem_cons_of_mem _ hb))]
      by_cases hlen : as.length ≤ (all p m (i + 1)).length
      · simp [hlen]
      · simp [hlen]

/-- An increasing list holds no more than another one of its length, unless they agree. -/
theorem eq_of_subset {xs ys : List Nat} (hxs : xs.Pairwise (· < ·)) (hys : ys.Pairwise (· < ·))
    (hlen : xs.length = ys.length) (h : ys ⊆ xs) : xs = ys := by
  have hnodup : ys.Nodup := hys.imp Nat.ne_of_lt
  have hperm : ys.Perm xs := (List.subperm_of_subset hnodup h).perm_of_length_le (Nat.le_of_eq hlen)
  exact hperm.symm.eq_of_pairwise (fun _ _ _ _ hab hba => absurd hab (Nat.lt_asymm hba)) hxs hys

end

end Picks
