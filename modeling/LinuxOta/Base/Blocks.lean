-- SUMMARY: Cutting a list into blocks of one length: complete blocks, what is left behind them, and padding it.
import Mathlib.Data.List.Basic
import Mathlib.Data.List.TakeDrop

/-! # Blocks of a list

A stream that comes in pieces is handed on in blocks of `n` elements. `whole n xs`
are the blocks of `xs` that are complete, and `rest n xs` is kept for the next
piece. -/

namespace Blocks

variable {α : Type*} {n : Nat}

/-- Block number `i`. -/
def blockAt (n : Nat) (xs : List α) (i : Nat) : List α := (xs.drop (i * n)).take n

/-- The complete blocks, in their order. -/
def whole (n : Nat) (xs : List α) : List (List α) := (List.range (xs.length / n)).map (blockAt n xs)

/-- What is left behind the complete blocks. -/
def rest (n : Nat) (xs : List α) : List α := xs.drop (xs.length / n * n)

theorem whole_of_lt {xs : List α} (h : xs.length < n) : whole n xs = [] := by
  simp [whole, Nat.div_eq_of_lt h]

theorem rest_of_lt {xs : List α} (h : xs.length < n) : rest n xs = xs := by
  simp [rest, Nat.div_eq_of_lt h]

theorem blockAt_zero (xs : List α) : blockAt n xs 0 = xs.take n := by
  simp [blockAt]

theorem blockAt_succ (xs : List α) (i : Nat) : blockAt n xs (i + 1) = blockAt n (xs.drop n) i := by
  rw [blockAt, blockAt, List.drop_drop, Nat.add_mul, Nat.one_mul, Nat.add_comm]

theorem whole_of_le (hn : 0 < n) {xs : List α} (h : n ≤ xs.length) :
    whole n xs = xs.take n :: whole n (xs.drop n) := by
  have hdiv : xs.length / n = (xs.length - n) / n + 1 := by rw [Nat.div_eq_sub_div hn h]
  simp only [whole, hdiv, List.length_drop, List.range_succ_eq_map, List.map_cons, List.map_map,
    blockAt_zero]
  congr 1
  exact List.map_congr_left fun i _ => blockAt_succ xs i

theorem rest_of_le (hn : 0 < n) {xs : List α} (h : n ≤ xs.length) :
    rest n xs = rest n (xs.drop n) := by
  have hdiv : xs.length / n = (xs.length - n) / n + 1 := by rw [Nat.div_eq_sub_div hn h]
  rw [rest, rest, List.drop_drop, List.length_drop, hdiv, Nat.add_mul, Nat.one_mul, Nat.add_comm n]

/-- Induction over the complete blocks of a list. -/
theorem induction (hn : 0 < n) {P : List α → Prop} (short : ∀ xs, xs.length < n → P xs)
    (long : ∀ xs, n ≤ xs.length → P (xs.drop n) → P xs) : ∀ xs, P xs := by
  have hle : ∀ k (xs : List α), xs.length ≤ k → P xs := by
    intro k
    induction k with
    | zero =>
      intro xs hk
      exact short xs (by omega)
    | succ k ih =>
      intro xs hk
      rcases Nat.lt_or_ge xs.length n with hlt | hge
      · exact short xs hlt
      · exact long xs hge (ih _ (by rw [List.length_drop]; omega))
  exact fun xs => hle _ xs (Nat.le_refl _)

theorem rest_length (xs : List α) : (rest n xs).length = xs.length % n := by
  have hdiv := Nat.div_add_mod xs.length n
  rw [Nat.mul_comm] at hdiv
  rw [rest, List.length_drop]
  omega

theorem rest_length_lt (hn : 0 < n) (xs : List α) : (rest n xs).length < n := by
  rw [rest_length]
  exact Nat.mod_lt _ hn

@[simp] theorem whole_length (xs : List α) : (whole n xs).length = xs.length / n := by
  simp [whole]

theorem length_of_mem_whole (hn : 0 < n) {xs b : List α} (h : b ∈ whole n xs) : b.length = n := by
  induction xs using induction hn with
  | short xs hlt => simp [whole_of_lt hlt] at h
  | long xs hle ih =>
    rw [whole_of_le hn hle] at h
    rcases List.mem_cons.mp h with rfl | h
    · simp [hle]
    · exact ih h

theorem flatten_whole_append_rest (hn : 0 < n) (xs : List α) :
    (whole n xs).flatten ++ rest n xs = xs := by
  induction xs using induction hn with
  | short xs hlt => simp [whole_of_lt hlt, rest_of_lt hlt]
  | long xs hle ih =>
    rw [whole_of_le hn hle, rest_of_le hn hle, List.flatten_cons, List.append_assoc, ih,
      List.take_append_drop]

/-- Pieces may be cut one after the other, when what is left is put before the next one. -/
theorem whole_append (hn : 0 < n) (xs ys : List α) :
    whole n (xs ++ ys) = whole n xs ++ whole n (rest n xs ++ ys) := by
  induction xs using induction hn with
  | short xs hlt => simp [whole_of_lt hlt, rest_of_lt hlt]
  | long xs hle ih =>
    have hle' : n ≤ (xs ++ ys).length := by rw [List.length_append]; omega
    rw [whole_of_le hn hle', whole_of_le hn hle, rest_of_le hn hle,
      List.take_append_of_le_length hle, List.drop_append_of_le_length hle, ih, List.cons_append]

theorem rest_append (hn : 0 < n) (xs ys : List α) :
    rest n (xs ++ ys) = rest n (rest n xs ++ ys) := by
  induction xs using induction hn with
  | short xs hlt => rw [rest_of_lt hlt]
  | long xs hle ih =>
    have hle' : n ≤ (xs ++ ys).length := by rw [List.length_append]; omega
    rw [rest_of_le hn hle', rest_of_le hn hle, List.drop_append_of_le_length hle, ih]

theorem whole_block (hn : 0 < n) {b : List α} (hb : b.length = n) : whole n b = [b] := by
  rw [whole_of_le hn (Nat.le_of_eq hb.symm), List.take_of_length_le (Nat.le_of_eq hb),
    List.drop_of_length_le (Nat.le_of_eq hb), whole_of_lt (by simpa using hn)]

theorem rest_block (hn : 0 < n) {b : List α} (hb : b.length = n) : rest n b = [] := by
  rw [rest_of_le hn (Nat.le_of_eq hb.symm), List.drop_of_length_le (Nat.le_of_eq hb),
    rest_of_lt (by simpa using hn)]

/-! ## How many blocks -/

/-- The number of blocks that `len` elements need. -/
def count (n len : Nat) : Nat := (len + n - 1) / n

@[simp] theorem count_zero (hn : 0 < n) : count n 0 = 0 :=
  Nat.div_eq_of_lt (by omega)

theorem count_le_iff (hn : 0 < n) {len k : Nat} : count n len ≤ k ↔ len ≤ k * n := by
  rw [count, ← Nat.lt_succ_iff, Nat.div_lt_iff_lt_mul hn, Nat.succ_mul]
  omega

/-- The complete blocks, and one more for what is left behind them. -/
theorem count_eq (hn : 0 < n) (len : Nat) :
    count n len = len / n + if len % n = 0 then 0 else 1 := by
  have hsplit : len + n - 1 = len % n + n - 1 + len / n * n := by
    have hdiv := Nat.mod_add_div len n
    rw [Nat.mul_comm] at hdiv
    omega
  rw [count, hsplit, Nat.add_mul_div_right _ _ hn, Nat.add_comm]
  congr 1
  have hmod := Nat.mod_lt len hn
  split
  · exact Nat.div_eq_of_lt (by omega)
  · exact Nat.div_eq_of_lt_le (by omega) (by omega)

theorem lt_of_lt_count (hn : 0 < n) {len k : Nat} (h : k < count n len) : k * n < len :=
  Nat.lt_of_not_le fun hle => Nat.not_lt.mpr ((count_le_iff hn).mpr hle) h

/-- Taking `a` elements and then `b`, when `p` are there already. -/
theorem count_add (hn : 0 < n) (a b p : Nat) :
    count n (a + b - p) = count n (a - p) + count n (b - (p + count n (a - p) * n - a)) := by
  have henough := (count_le_iff hn).mp (Nat.le_refl (count n (a - p)))
  refine Nat.le_antisymm ?_ ?_
  · rw [count_le_iff hn, Nat.add_mul]
    have hrest := (count_le_iff hn).mp (Nat.le_refl (count n (b - (p + count n (a - p) * n - a))))
    omega
  · have hall := (count_le_iff hn).mp (Nat.le_refl (count n (a + b - p)))
    have hfirst : count n (a - p) ≤ count n (a + b - p) := (count_le_iff hn).mpr (by omega)
    obtain ⟨k, hk⟩ := Nat.exists_eq_add_of_le hfirst
    rw [hk, Nat.add_mul] at hall
    have hrest : count n (b - (p + count n (a - p) * n - a)) ≤ k := (count_le_iff hn).mpr (by omega)
    omega

/-- An element of blocks that are put together. -/
theorem getElem?_flatten {bs : List (List α)} (hbs : ∀ b ∈ bs, b.length = n) {i j : Nat}
    (hi : i < n) :
    bs.flatten[j * n + i]? = bs[j]?.bind (·[i]?) := by
  induction bs generalizing j with
  | nil => simp
  | cons b bs ih =>
    have hb := hbs b List.mem_cons_self
    cases j with
    | zero =>
      rw [Nat.zero_mul, Nat.zero_add, List.flatten_cons, List.getElem?_append_left (by omega)]
      rfl
    | succ j =>
      have hindex : (j + 1) * n + i - b.length = j * n + i := by
        rw [hb, Nat.succ_mul]
        omega
      rw [List.flatten_cons, List.getElem?_append_right (by rw [hb, Nat.succ_mul]; omega), hindex,
        ih fun b' hb' => hbs b' (List.mem_cons_of_mem _ hb')]
      rfl

/-! ## Padding -/

/-- The blocks of a list, the last one padded with `x`. -/
def padded (n : Nat) (x : α) (xs : List α) : List (List α) :=
  whole n xs ++ if rest n xs = [] then [] else [rest n xs ++ List.replicate (n - (rest n xs).length) x]

/-- What is left behind the complete blocks is padded. -/
theorem padded_eq_append (hn : 0 < n) (x : α) (xs : List α) :
    padded n x xs = whole n xs ++ padded n x (rest n xs) := by
  have hlt := rest_length_lt hn xs
  rw [padded, padded, whole_of_lt hlt, rest_of_lt hlt, List.nil_append]

theorem length_of_mem_padded (hn : 0 < n) {x : α} {xs b : List α} (h : b ∈ padded n x xs) :
    b.length = n := by
  have hlt := rest_length_lt hn xs
  rcases List.mem_append.mp h with h | h
  · exact length_of_mem_whole hn h
  · split at h
    · simp at h
    · obtain rfl := List.mem_singleton.mp h
      simp only [List.length_append, List.length_replicate]
      omega

theorem flatten_padded (hn : 0 < n) (x : α) (xs : List α) :
    ∃ k < n, (padded n x xs).flatten = xs ++ List.replicate k x := by
  have hlt := rest_length_lt hn xs
  have hxs := flatten_whole_append_rest hn xs
  by_cases hnil : rest n xs = []
  · refine ⟨0, hn, ?_⟩
    rw [hnil, List.append_nil] at hxs
    simp [padded, hnil, hxs]
  · have hpos := List.length_pos_iff.mpr hnil
    refine ⟨n - (rest n xs).length, by omega, ?_⟩
    rw [padded, if_neg hnil, List.flatten_append, List.flatten_singleton, ← List.append_assoc, hxs]

/-- There are just as many blocks as the list needs. -/
theorem padded_length_le_iff (hn : 0 < n) (x : α) (xs : List α) (k : Nat) :
    (padded n x xs).length ≤ k ↔ xs.length ≤ k * n := by
  have hlen := rest_length (n := n) xs
  have hdiv := Nat.div_add_mod xs.length n
  rw [Nat.mul_comm] at hdiv
  by_cases hzero : xs.length % n = 0
  · have hnil : rest n xs = [] := List.length_eq_zero_iff.mp (hlen.trans hzero)
    have heq : xs.length = xs.length / n * n := by omega
    have hcount : (padded n x xs).length = xs.length / n := by simp [padded, hnil]
    rw [hcount]
    conv => rhs; rw [heq]
    exact (Nat.mul_le_mul_right_iff hn).symm
  · have hnil : rest n xs ≠ [] := by
      intro hnil
      rw [hnil] at hlen
      exact hzero hlen.symm
    have hcount : (padded n x xs).length = xs.length / n + 1 := by simp [padded, hnil]
    have hne : xs.length ≠ k * n := by
      intro heq
      rw [heq, Nat.mul_mod_left] at hzero
      exact hzero rfl
    rw [hcount, Nat.succ_le_iff, Nat.div_lt_iff_lt_mul hn]
    omega

theorem padded_length (hn : 0 < n) (x : α) (xs : List α) :
    (padded n x xs).length = count n xs.length :=
  Nat.le_antisymm ((padded_length_le_iff hn x xs _).mpr ((count_le_iff hn).mp (Nat.le_refl _)))
    ((count_le_iff hn).mpr ((padded_length_le_iff hn x xs _).mp (Nat.le_refl _)))

theorem padded_of_le (hn : 0 < n) (x : α) {xs : List α} (h : n ≤ xs.length) :
    padded n x xs = xs.take n :: padded n x (xs.drop n) := by
  simp only [padded, whole_of_le hn h, rest_of_le hn h, List.cons_append]

theorem padded_two (hn : 0 < n) (x : α) {b c : List α} (hb : b.length = n) (hc : c.length = n) :
    padded n x (b ++ c) = [b, c] := by
  have hlen : n ≤ (b ++ c).length := by
    rw [List.length_append]
    omega
  rw [padded_of_le hn x hlen, ← hb, List.take_left, List.drop_left, hb, padded, whole_block hn hc, rest_block hn hc,
    if_pos rfl, List.append_nil]

/-- What a block holds at each index. -/
theorem getD_padded (hn : 0 < n) (x : α) (xs : List α) {i j : Nat} (hj : j < (padded n x xs).length)
    (hi : i < n) : ((padded n x xs)[j]).getD i x = xs.getD (j * n + i) x := by
  induction xs using induction hn generalizing j with
  | short xs hlt =>
    by_cases hnil : xs = []
    · simp [padded, whole_of_lt, rest_of_lt, hnil, hn] at hj
    · have hpadded : padded n x xs = [xs ++ List.replicate (n - xs.length) x] := by
        simp [padded, whole_of_lt hlt, rest_of_lt hlt, hnil]
      obtain rfl : j = 0 := by
        rw [hpadded] at hj
        simpa using hj
      simp only [hpadded, List.getElem_cons_zero, Nat.zero_mul, Nat.zero_add]
      rcases Nat.lt_or_ge i xs.length with hin | hout
      · simp [List.getD, List.getElem?_append_left hin]
      · have hrepl : i - xs.length < n - xs.length := by omega
        simp [List.getD, List.getElem?_append_right hout, List.getElem?_eq_none hout,
          List.getElem?_replicate_of_lt hrepl]
  | long xs hle ih =>
    have hpadded := padded_of_le hn x hle
    cases j with
    | zero =>
      have hget : (padded n x xs)[0] = xs.take n := by simp [hpadded]
      rw [hget, Nat.zero_mul, Nat.zero_add]
      simp [List.getD, List.getElem?_take_of_lt hi]
    | succ j =>
      have hj' : j < (padded n x (xs.drop n)).length := by
        rw [hpadded, List.length_cons] at hj
        omega
      have hget : (padded n x xs)[j + 1] = (padded n x (xs.drop n))[j] := by simp [hpadded]
      have hindex : n + (j * n + i) = (j + 1) * n + i := by
        rw [Nat.add_mul]
        omega
      rw [hget, ih hj']
      simp [List.getD, List.getElem?_drop, hindex]

end Blocks
