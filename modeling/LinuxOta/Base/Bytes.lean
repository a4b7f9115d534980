-- SUMMARY: Byte strings and byte-addressed device contents: reading a range and overwriting one.
import Mathlib.Data.List.Range
import Mathlib.Data.List.Basic

/-! # Byte-addressed contents

A device is its bytes by offset. Sizes are not part of the content: whether a
transfer fits is answered by whoever performs it. -/

abbrev Bytes := List UInt8

/-- The content of a device, by byte offset. -/
abbrev Content := Nat → UInt8

namespace Content

/-- The `n` bytes from offset `off` on. -/
def read (c : Content) (off n : Nat) : Bytes :=
  (List.range n).map fun i => c (off + i)

/-- The content after `b` was stored at offset `off`. -/
def overwrite (c : Content) (off : Nat) (b : Bytes) : Content :=
  fun j => if off ≤ j then b.getD (j - off) (c j) else c j

@[simp] theorem read_length (c : Content) (off n : Nat) : (c.read off n).length = n := by
  simp [read]

theorem getD_read {c : Content} {off n i : Nat} (h : i < n) (d : UInt8) :
    (c.read off n).getD i d = c (off + i) := by
  simp [read, List.getD, h]

theorem read_add (c : Content) (off m n : Nat) :
    c.read off (m + n) = c.read off m ++ c.read (off + m) n := by
  simp [read, List.range_add, Nat.add_assoc]

/-- Pieces of one size that follow each other. -/
theorem flatten_read (c : Content) (size n : Nat) :
    ((List.range n).map fun i => c.read (i * size) size).flatten = c.read 0 (n * size) := by
  induction n with
  | zero => simp [read]
  | succ n ih =>
    rw [List.range_succ, List.map_append, List.flatten_append, ih, List.map_singleton,
      List.flatten_singleton, Nat.succ_mul, read_add, Nat.zero_add]

theorem read_congr {c d : Content} {off n : Nat} (h : ∀ j, off ≤ j → j < off + n → c j = d j) :
    c.read off n = d.read off n :=
  List.map_congr_left fun _ hi => h _ (Nat.le_add_right _ _) (Nat.add_lt_add_left (List.mem_range.mp hi) _)

theorem read_eq_iff {c d : Content} {off n : Nat} :
    c.read off n = d.read off n ↔ ∀ j, off ≤ j → j < off + n → c j = d j := by
  refine ⟨fun h j hge hlt => ?_, read_congr⟩
  obtain ⟨i, rfl⟩ := Nat.exists_eq_add_of_le hge
  have hi : i < n := by omega
  have hbyte := congrArg (fun b => b.getD i 0) h
  simpa only [getD_read hi] using hbyte

/-- A range within a range. -/
theorem take_drop_read {c : Content} {n off len : Nat} (h : off + len ≤ n) :
    ((c.read 0 n).drop off).take len = c.read off len := by
  obtain ⟨rest, rfl⟩ := Nat.exists_eq_add_of_le h
  rw [Nat.add_assoc, read_add, List.drop_left' (read_length c 0 off), read_add,
    List.take_left' (read_length c (0 + off) len), Nat.zero_add]

@[simp] theorem overwrite_nil (c : Content) (off : Nat) : c.overwrite off [] = c := by
  funext j
  simp [overwrite]

theorem overwrite_before {c : Content} {off j : Nat} {b : Bytes} (h : j < off) :
    c.overwrite off b j = c j := by
  simp [overwrite, Nat.not_le.mpr h]

theorem overwrite_after {c : Content} {off j : Nat} {b : Bytes} (h : off + b.length ≤ j) :
    c.overwrite off b j = c j := by
  have hlen : b.length ≤ j - off := by omega
  simp [overwrite, List.getD, List.getElem?_eq_none hlen]

theorem overwrite_inside {c : Content} {off i : Nat} {b : Bytes} (h : i < b.length) :
    c.overwrite off b (off + i) = b[i] := by
  simp [overwrite, List.getD, h]

/-- Storing a string piece by piece is storing it as a whole. -/
theorem overwrite_append (c : Content) (off : Nat) (a b : Bytes) :
    (c.overwrite off a).overwrite (off + a.length) b = c.overwrite off (a ++ b) := by
  funext j
  rcases Nat.lt_or_ge j (off + a.length) with hlt | hge
  · rw [overwrite_before hlt]
    rcases Nat.lt_or_ge j off with hbefore | hafter
    · rw [overwrite_before hbefore, overwrite_before hbefore]
    · have hin : j - off < a.length := by omega
      simp [overwrite, hafter, List.getD, List.getElem?_append_left hin]
  · have hsub : j - off - a.length = j - (off + a.length) := by omega
    have hlen : a.length ≤ j - off := by omega
    have hoff : off ≤ j := by omega
    simp [overwrite, hge, hoff, List.getD, List.getElem?_append_right hlen, hsub,
      List.getElem?_eq_none hlen]

/-- Strings that do not overlap are stored in either order. -/
theorem overwrite_comm {c : Content} {off off' : Nat} {a b : Bytes} (h : off + a.length ≤ off') :
    (c.overwrite off a).overwrite off' b = (c.overwrite off' b).overwrite off a := by
  funext j
  rcases Nat.lt_or_ge j off' with hlt | hge
  · rw [overwrite_before hlt]
    simp only [overwrite, Nat.not_le.mpr hlt, ↓reduceIte]
  · rw [overwrite_after (c := c.overwrite off' b) (by omega)]
    simp only [overwrite, hge, ↓reduceIte]
    rw [show (if off ≤ j then a.getD (j - off) (c j) else c j) = c j from overwrite_after (by omega)]

/-- What was stored is read back. -/
theorem read_overwrite (c : Content) (off : Nat) (b : Bytes) :
    (c.overwrite off b).read off b.length = b := by
  apply List.ext_getElem
  · simp
  · intro i _ hi
    simp [read, overwrite_inside hi]

/-- The content is determined by what is read back and what is unchanged. -/
theorem eq_overwrite {c d : Content} {off : Nat} {b : Bytes} (hin : d.read off b.length = b)
    (hout : ∀ j, j < off ∨ off + b.length ≤ j → d j = c j) : d = c.overwrite off b := by
  funext j
  rcases Nat.lt_or_ge j off with hbefore | hafter
  · rw [overwrite_before hbefore, hout j (.inl hbefore)]
  rcases Nat.lt_or_ge j (off + b.length) with hinside | hbehind
  · obtain ⟨i, rfl⟩ := Nat.exists_eq_add_of_le hafter
    have hi : i < b.length := by omega
    have hget : (d.read off b.length).getD i 0 = d (off + i) := getD_read hi 0
    rw [hin] at hget
    rw [overwrite_inside hi, ← hget]
    simp [List.getD, hi]
  · rw [overwrite_after hbehind, hout j (.inr hbehind)]

/-- A string hides what was stored at its place before. -/
theorem overwrite_overwrite {c : Content} {off : Nat} {a b : Bytes} (h : a.length = b.length) :
    (c.overwrite off a).overwrite off b = c.overwrite off b := by
  refine eq_overwrite (read_overwrite _ off b) fun j hj => ?_
  rcases hj with hbefore | hafter
  · rw [overwrite_before hbefore, overwrite_before hbefore]
  · rw [overwrite_after hafter, overwrite_after (by rw [h]; exact hafter)]

/-- Storing what another content has at the same place. -/
theorem overwrite_read (c d : Content) (off n j : Nat) :
    c.overwrite off (d.read off n) j = if off ≤ j ∧ j < off + n then d j else c j := by
  split
  · rename_i hin
    obtain ⟨i, rfl⟩ := Nat.exists_eq_add_of_le hin.1
    rw [overwrite_inside (by rw [read_length]; omega)]
    simp [read]
  · rcases Nat.lt_or_ge j off with hbefore | hafter
    · exact overwrite_before hbefore
    · exact overwrite_after (by rw [read_length]; omega)

/-- Replacing a range of what was read is reading after it was replaced. -/
theorem read_zero_overwrite {c : Content} {n off : Nat} {b : Bytes} (h : off + b.length ≤ n) :
    (c.overwrite off b).read 0 n = (c.read 0 n).take off ++ b ++ (c.read 0 n).drop (off + b.length) := by
  obtain ⟨rest, rfl⟩ := Nat.exists_eq_add_of_le h
  have hbefore : (c.overwrite off b).read 0 off = c.read 0 off :=
    read_congr fun j _ hj => overwrite_before (by omega)
  have hbehind : (c.overwrite off b).read (off + b.length) rest = c.read (off + b.length) rest :=
    read_congr fun j hj _ => overwrite_after hj
  have htake : (c.read 0 (off + b.length + rest)).take off = c.read 0 off := by
    rw [Nat.add_assoc, read_add, List.take_left' (read_length c 0 off)]
  rw [htake, read_add, read_add, Nat.zero_add, Nat.zero_add, hbefore, hbehind, read_overwrite,
    read_add, List.drop_left' (read_length c 0 _), Nat.zero_add]

/-- A content starts with `b` when it has its bytes. -/
theorem read_zero_eq_iff {c : Content} {b : Bytes} :
    c.read 0 b.length = b ↔ ∀ j (hj : j < b.length), c j = b[j] := by
  constructor
  · intro h j hj
    have hget : (c.read 0 b.length).getD j 0 = c (0 + j) := getD_read hj 0
    rw [h] at hget
    simpa [List.getD, hj] using hget.symm
  · intro h
    apply List.ext_getElem
    · simp
    · intro i _ hi
      simp [read, h i hi]

end Content
