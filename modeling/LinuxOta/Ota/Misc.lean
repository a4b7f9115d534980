-- SUMMARY: `readMisc` and `writeMisc` of ota: a range of a block device, or the whole of an MTD partition.
import LinuxOta.Base.CString
import LinuxOta.Flash.MtdFlash

namespace LinuxOta.Misc

/-! # Access to misc -/

/-- `isMtdDevice`, by what its buffer holds after the kernel command line was read into it. -/
def isMtdDevice (param : List Char) : Bool :=
  (CString.strstr (CString.ofBuffer param) "nand".toList).isSome

/-! ## MTD -/

/-- What `readMisc_mtd` and `writeMisc_mtd` find. -/
structure MtdAccess (ρ ω : Type) where
  /-- `mtd_find_partition_by_name`. -/
  part : Option MtdPartition
  /-- The size `mtd_partition_info` reports, unless it fails. -/
  totalSize : Option Nat
  /-- The driver behind the descriptor of `mtd_read_partition` and its state, unless that
  fails. -/
  read : Option (Mtd.Driver ρ × ρ)
  /-- The same for `mtd_write_partition`. -/
  write : Option (Mtd.Driver ω × ω)

section
variable {ρ ω : Type}

/-- The beginning of `readMisc_mtd` and `writeMisc_mtd`, which reads all of the partition. -/
def readTotal (a : MtdAccess ρ ω) : Option (MtdPartition × Bytes) :=
  match a.part, a.totalSize, a.read with
  | some part, some totalSize, some (dev, state) =>
    match (Mtd.readData dev part totalSize (Mtd.readPartition part state)).1 with
    | some data => if data.length ≠ totalSize then none else some (part, data)
    | none => none
  | _, _, _ => none

/-- `readMisc_mtd`: what it returns, and what it leaves in `buf`. -/
def readMiscMtd (a : MtdAccess ρ ω) (offset size : Nat) : Int × Bytes :=
  match readTotal a with
  | none => (-1, List.replicate size 0)
  | some (_, data) => (0, (data.drop offset).take size)

/-- The part of `writeMisc_mtd` behind the read of the partition, which has given `total`: what
it returns, and the state of the driver it has written to, if it got so far. -/
def writeBack (a : MtdAccess ρ ω) (buf : Bytes) (offset : Nat) (total : Option (MtdPartition × Bytes)) :
    Int × Option ω :=
  match total with
  | none => (-1, none)
  | some (part, data) =>
    let data := data.take offset ++ buf ++ data.drop (offset + buf.length)
    match a.write with
    | none => (-1, none)
    | some (dev, state) =>
      let (wrote, ctx) := Mtd.writeData dev part data (Mtd.writePartition state)
      let (ret, ctx) := Mtd.writeClose dev part ctx
      (if wrote ≠ data.length then -1 else if ret ≠ 0 then -1 else 0, some ctx.writer.fd.state)

/-- `writeMisc_mtd`. -/
def writeMiscMtd (a : MtdAccess ρ ω) (buf : Bytes) (offset : Nat) : Int × Option ω :=
  writeBack a buf offset (readTotal a)

end

/-! ## Block devices -/

/-- What `readMisc_block` and `writeMisc_block` find. -/
structure BlockAccess where
  content : Content
  size : Nat
  fopen : Bool
  fseek : Bool
  /-- The length `fread` or `fwrite` returns, as far as the device allows. -/
  transfer : Nat
  fclose : Bool

/-- The position after `fseek`, whose result is not looked at. -/
def BlockAccess.pos (a : BlockAccess) (offset : Nat) : Nat := if a.fseek then offset else 0

/-- What `fread` or `fwrite` returns. -/
def BlockAccess.count (a : BlockAccess) (offset size : Nat) : Nat :=
  min a.transfer (min size (a.size - a.pos offset))

/-- `readMisc_block`, into a buffer that holds `buf`. -/
def readMiscBlock (a : BlockAccess) (buf : Bytes) (offset size : Nat) : Int × Bytes :=
  if !a.fopen then (-1, buf)
  else
    let count := a.count offset size
    let buf := a.content.read (a.pos offset) count ++ buf.drop count
    if count ≠ size then (-1, buf) else if !a.fclose then (-1, buf) else (0, buf)

/-- `writeMisc_block`, and the content it leaves. Opening a block device for writing leaves
what is on it. -/
def writeMiscBlock (a : BlockAccess) (buf : Bytes) (offset : Nat) : Int × Content :=
  if !a.fopen then (-1, a.content)
  else
    let count := a.count offset buf.length
    let content := a.content.overwrite (a.pos offset) (buf.take count)
    if count ≠ buf.length then (-1, content) else if !a.fclose then (-1, content) else (0, content)

/-! ## Either -/

section
variable {ρ ω : Type} (param : List Char) (mtd : MtdAccess ρ ω) (block : BlockAccess)

/-- `readMisc`. -/
def readMisc (buf : Bytes) (offset size : Nat) : Int × Bytes :=
  if isMtdDevice param then readMiscMtd mtd offset size else readMiscBlock block buf offset size

/-- `writeMisc`: what it returns, the state of the MTD driver it has written to, and the
content of the block device. -/
def writeMisc (buf : Bytes) (offset : Nat) : Int × Option ω × Content :=
  if isMtdDevice param then
    let (ret, state) := writeMiscMtd mtd buf offset
    (ret, state, block.content)
  else
    let (ret, content) := writeMiscBlock block buf offset
    (ret, none, content)

end
end LinuxOta.Misc
