-- SUMMARY: `block_write` of ota: a sequential copy of an image to a block device.
import LinuxOta.Base.Bytes
import Mathlib.Data.List.TakeDrop

namespace LinuxOta.Bootloader

/-! # block_write -/

/-- `BLOCK_WRITE_LEN`. -/
def blockWriteLen : Nat := 16 * 1024

/-- What the calls made by `block_write` answer. -/
structure BlockWriteAnswers where
  openSrc : Bool
  seekSrc : Bool
  openDest : Bool
  seekDest : Bool
  /-- The length `read` returns in each turn, as far as the file allows. -/
  read : Nat → Nat
  /-- The length `write` returns in each turn, as far as the device allows. -/
  write : Nat → Nat

/-- The variables of the loop of `block_write`, with the two file positions and the content of
the device. -/
structure CopyState where
  turn : Nat
  srcPos : Nat
  destPos : Nat
  srcRemain : Nat
  destRemain : Nat
  dest : Content

/-- The state before the first turn. -/
def CopyState.start (size : Nat) (dest : Content) : CopyState := ⟨0, 0, 0, size, size, dest⟩

section
variable (a : BlockWriteAnswers) (img : Bytes) (partSize : Nat)

/-- One turn of the loop of `block_write`. -/
def blockWriteTurn (s : CopyState) : CopyState ⊕ (Int × Content) :=
  if s.srcRemain > 0 ∧ s.destRemain > 0 then
    let readCount := if s.srcRemain > blockWriteLen then blockWriteLen else s.srcRemain
    let got := min (a.read s.turn) (min readCount (img.length - s.srcPos))
    let dataBuf := (img.drop s.srcPos).take got ++ List.replicate (blockWriteLen - got) 0
    if got ≠ readCount then .inr (-1, s.dest)
    else
      let srcRemain := s.srcRemain - readCount
      let writeCount := if s.destRemain > blockWriteLen then blockWriteLen else s.destRemain
      let put := min (a.write s.turn) (min writeCount (partSize - s.destPos))
      let dest := s.dest.overwrite s.destPos (dataBuf.take put)
      if put ≠ writeCount then .inr (-1, dest)
      else .inl ⟨s.turn + 1, s.srcPos + got, s.destPos + put, srcRemain, s.destRemain - writeCount, dest⟩
  else .inr (0, s.dest)

/-- The loop of `block_write`. `src_remain` gets smaller in every turn, so that `size` turns are
enough fuel. -/
def blockWriteLoop : (fuel : Nat) → CopyState → Int × Content
  | 0, s => (0, s.dest)
  | fuel + 1, s =>
    match blockWriteTurn a img partSize s with
    | .inl s' => blockWriteLoop fuel s'
    | .inr r => r

/-- `block_write`, to a block device of `partSize` bytes: there `O_TRUNC` has no effect. -/
def blockWrite (size : Nat) (dest : Content) : Int × Content :=
  if !a.openSrc then (-1, dest)
  else if !a.seekSrc then (-1, dest)
  else if !a.openDest then (-1, dest)
  else if !a.seekDest then (-1, dest)
  else blockWriteLoop a img partSize size (.start size dest)

end

/-- Every call goes through, and every transfer is complete. -/
structure BlockWriteAnswers.FaultFree (a : BlockWriteAnswers) : Prop where
  openSrc : a.openSrc = true
  seekSrc : a.seekSrc = true
  openDest : a.openDest = true
  seekDest : a.seekDest = true
  read : ∀ turn, blockWriteLen ≤ a.read turn
  write : ∀ turn, blockWriteLen ≤ a.write turn

variable {a : BlockWriteAnswers} {img : Bytes} {partSize : Nat}

/-- Without faults a turn copies the next step of the image, and what is left of it in the
last turn. -/
theorem blockWriteTurn_faultFree (hfree : a.FaultFree) (hfits : img.length ≤ partSize)
    {turn pos : Nat} {dest : Content} (hpos : pos < img.length) :
    blockWriteTurn a img partSize ⟨turn, pos, pos, img.length - pos, img.length - pos, dest⟩ =
      let n := min blockWriteLen (img.length - pos)
      .inl ⟨turn + 1, pos + n, pos + n, img.length - (pos + n), img.length - (pos + n),
        dest.overwrite pos ((img.drop pos).take n)⟩ := by
  have hread := hfree.read turn
  have hwrite := hfree.write turn
  have hcount : (if img.length - pos > blockWriteLen then blockWriteLen else img.length - pos) =
      min blockWriteLen (img.length - pos) := by
    split <;> omega
  have hgot : min (a.read turn) (min (min blockWriteLen (img.length - pos)) (img.length - pos)) =
      min blockWriteLen (img.length - pos) := by omega
  have hput : min (a.write turn) (min (min blockWriteLen (img.length - pos)) (partSize - pos)) =
      min blockWriteLen (img.length - pos) := by omega
  have hlen : ((img.drop pos).take (min blockWriteLen (img.length - pos))).length =
      min blockWriteLen (img.length - pos) := by
    simp only [List.length_take, List.length_drop]
    omega
  have hbuf : ((img.drop pos).take (min blockWriteLen (img.length - pos)) ++
      List.replicate (blockWriteLen - min blockWriteLen (img.length - pos)) 0).take
        (min blockWriteLen (img.length - pos)) =
      (img.drop pos).take (min blockWriteLen (img.length - pos)) := List.take_left' hlen
  have hremain : 0 < img.length - pos := by omega
  rw [blockWriteTurn, if_pos ⟨hremain, hremain⟩]
  simp only [hcount, hgot, hput, hbuf, ne_eq, not_true_eq_false, ↓reduceIte, Nat.sub_sub]

/-- Without faults the loop copies the rest of the image. -/
theorem blockWriteLoop_faultFree (hfree : a.FaultFree) (hfits : img.length ≤ partSize) :
    ∀ (fuel turn pos : Nat) (dest : Content), pos ≤ img.length → img.length - pos ≤ fuel →
      blockWriteLoop a img partSize fuel ⟨turn, pos, pos, img.length - pos, img.length - pos, dest⟩ =
        (0, dest.overwrite pos (img.drop pos)) := by
  have hdone : ∀ {pos : Nat} {dest : Content}, img.length ≤ pos →
      dest.overwrite pos (img.drop pos) = dest := by
    intro pos dest hpos
    rw [List.drop_eq_nil_of_le hpos, Content.overwrite_nil]
  intro fuel
  induction fuel with
  | zero =>
    intro turn pos dest _ hfuel
    rw [blockWriteLoop, hdone (by omega)]
  | succ fuel ih =>
    intro turn pos dest hpos hfuel
    rcases Nat.eq_or_lt_of_le hpos with heq | hlt
    · have hstop : blockWriteTurn a img partSize ⟨turn, pos, pos, img.length - pos, img.length - pos, dest⟩ =
          .inr (0, dest) := if_neg fun h : img.length - pos > 0 ∧ _ => by omega
      rw [blockWriteLoop, hstop, hdone (by omega)]
    · have hstep : 0 < blockWriteLen := by decide
      rw [blockWriteLoop, blockWriteTurn_faultFree hfree hfits hlt]
      dsimp only
      rw [ih _ _ _ (by omega) (by omega), ← List.drop_drop]
      have hlen : ((img.drop pos).take (min blockWriteLen (img.length - pos))).length =
          min blockWriteLen (img.length - pos) := by
        simp only [List.length_take, List.length_drop]
        omega
      have happend := Content.overwrite_append dest pos
        ((img.drop pos).take (min blockWriteLen (img.length - pos)))
        ((img.drop pos).drop (min blockWriteLen (img.length - pos)))
      rw [hlen, List.take_append_drop] at happend
      rw [happend]

/-- Without faults the image is copied to the start of the device. -/
theorem blockWrite_faultFree (hfree : a.FaultFree) (hfits : img.length ≤ partSize)
    (dest : Content) :
    blockWrite a img partSize img.length dest = (0, dest.overwrite 0 img) := by
  have hloop :=
    blockWriteLoop_faultFree hfree hfits img.length 0 0 dest (Nat.zero_le _) (Nat.sub_le _ _)
  simp only [blockWrite, hfree.openSrc, hfree.seekSrc, hfree.openDest, hfree.seekDest,
    Bool.not_true, Bool.false_eq_true, ↓reduceIte]
  simpa [CopyState.start] using hloop

end LinuxOta.Bootloader
