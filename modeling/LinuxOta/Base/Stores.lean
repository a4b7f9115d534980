-- SUMMARY: Buffers written byte by byte: the stores in their order, and stores at consecutive indices as one overwrite.
import Mathlib.Logic.Function.Basic
import LinuxOta.Base.Bytes

/-! # Stores into a buffer -/

/-- One byte is stored. -/
structure Store where
  index : Nat
  value : UInt8
  deriving DecidableEq, Repr

namespace Stores

/-- The buffer after the stores. -/
def run (stores : List Store) (c : Content) : Content :=
  stores.foldl (fun c st => Function.update c st.index st.value) c

/-- The bytes `bs`, stored one after the other from index `i` on. -/
def consecutive : (i : Nat) → (bs : Bytes) → List Store
  | _, [] => []
  | i, b :: bs => ⟨i, b⟩ :: consecutive (i + 1) bs

@[simp] theorem consecutive_nil (i : Nat) : consecutive i [] = [] := rfl
@[simp] theorem consecutive_cons (i : Nat) (b : UInt8) (bs : Bytes) :
    consecutive i (b :: bs) = ⟨i, b⟩ :: consecutive (i + 1) bs := rfl

/-- Every index is stored to once, in order. -/
theorem map_index_consecutive (i : Nat) (bs : Bytes) :
    (consecutive i bs).map Store.index = List.range' i bs.length := by
  induction bs generalizing i with
  | nil => rfl
  | cons b bs ih => rw [consecutive_cons, List.map_cons, ih, List.length_cons, List.range'_succ]

theorem exists_mem_consecutive_iff {i j : Nat} {bs : Bytes} :
    (∃ st ∈ consecutive i bs, st.index = j) ↔ i ≤ j ∧ j < i + bs.length := by
  rw [← List.mem_map, map_index_consecutive, List.mem_range'_1]

theorem update_eq_overwrite (c : Content) (i : Nat) (b : UInt8) :
    Function.update c i b = c.overwrite i [b] := by
  funext j
  rcases Nat.lt_trichotomy j i with hlt | rfl | hgt
  · rw [Function.update_of_ne (Nat.ne_of_lt hlt), Content.overwrite_before hlt]
  · simp [Content.overwrite]
  · rw [Function.update_of_ne (Nat.ne_of_gt hgt), Content.overwrite_after hgt]

/-- They are one overwrite. -/
theorem run_consecutive (i : Nat) (bs : Bytes) (c : Content) :
    run (consecutive i bs) c = c.overwrite i bs := by
  induction bs generalizing i c with
  | nil => exact (Content.overwrite_nil c i).symm
  | cons b bs ih =>
    calc run (consecutive i (b :: bs)) c
        = run (consecutive (i + 1) bs) (Function.update c i b) := rfl
      _ = (c.overwrite i [b]).overwrite (i + 1) bs := by rw [ih, update_eq_overwrite]
      _ = c.overwrite i (b :: bs) := Content.overwrite_append c i [b] bs

/-- What was stored is read back. -/
theorem read_run_consecutive (i : Nat) (bs : Bytes) (c : Content) :
    (run (consecutive i bs) c).read i bs.length = bs := by
  rw [run_consecutive, Content.read_overwrite]

end Stores
