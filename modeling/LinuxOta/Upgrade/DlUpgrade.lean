-- SUMMARY: `dl_upgrade`: unpacking a packet, copying its images to the other slot, and the order to boot that slot.
import LinuxOta.AbMeta.Meta

namespace LinuxOta

/-! # dl_upgrade -/

/-- `UPGRADE_BLOCK_PREFIX`. -/
def upgradeBlockPrefix : String := "/dev/block/by-name"

/-- The partition of image `p` in slot `s`. -/
def destPath (p : Part) (s : Slot) : String :=
  upgradeBlockPrefix ++ "/" ++ p.name ++ "_" ++ s.suffix.toString

/-- The file image `p` is unpacked to. -/
def srcPath (dir : String) (p : Part) : String :=
  dir ++ "/" ++ p.name ++ ".img"

namespace Upgrade

/-- What the calls in one turn of the copy loop answer. -/
structure BlockAnswer where
  /-- The length `fread` returns, as far as block and file allow. -/
  fread : Nat
  erase : Int
  write : WriteAnswer
  deriving DecidableEq, Repr

/-- What the calls made for one image answer. -/
structure ImageAnswers where
  access : Bool
  fopen : Bool
  fseek : Bool
  flashOpen : Int
  /-- `fseek` and `ftell` in `upgrade_do_write`. -/
  fseekCopy : Bool
  ftell : Bool
  calloc : Bool
  /-- The turn of the copy loop at each offset. -/
  block : Nat → BlockAnswer
  remove : Bool

/-- `ftell` at the end of a file, stored in a `size_t`. Both `long` and `size_t` have
32 bits on the target, where `ftell` fails from 2 GiB on. -/
def ftellSize (ok : Bool) (size : Nat) : Nat :=
  if ok && size < 2 ^ 31 then size else 2 ^ 32 - 1

section
variable (g : FlashCtrl) (a : ImageAnswers)

/-- The loop of `upgrade_do_write`. The offset grows by at least one in every turn, so
`srcSize` turns are enough fuel. -/
def copyLoop (img : Bytes) (fd : Int) (url path : String) (blockSize srcSize : Nat) :
    (fuel offset pos : Nat) → (ret : Int) → Machine → Int × Machine
  | 0, _, _, ret, m => (ret, m)
  | fuel + 1, offset, pos, ret, m =>
    if offset < srcSize then
      let readLen := min (a.block offset).fread (min blockSize (img.length - pos))
      let m := m.log (.streamUse url)
      if readLen = 0 then
        (if offset ≠ blockSize then -1 else ret, m)
      else
        let (ret, m) := dlFlashErase g (a.block offset).erase fd path offset blockSize m
        if ret < 0 then (ret, m)
        else
          let buf := (img.drop pos).take (min readLen blockSize)
          let (ret, m) := dlFlashWrite g (a.block offset).write fd path offset buf m
          if ret < 0 then (ret, m)
          else copyLoop img fd url path blockSize srcSize fuel (offset + blockSize) (pos + readLen) ret m
    else (ret, m)

/-- `upgrade_do_write`. -/
def doWrite (img : Bytes) (fd : Int) (url path : String) (m : Machine) : Int × Machine :=
  let m := m.log (.streamUse url)
  if !a.fseekCopy then (-1, m)
  else
    let srcSize := ftellSize a.ftell img.length
    let m := m.log (.streamUse url)
    if srcSize = 0 then (-1, m)
    else match dlFlashGetInfo g fd path m with
      | (none, m) => (-1, dlFlashClose g fd path m)
      | (some blockSize, m) =>
        if blockSize = 0 then (-1, dlFlashClose g fd path m)
        else if !a.calloc then (-1, m)
        else
          let (ret, m) := copyLoop g a img fd url path blockSize srcSize srcSize 0 0 0 m
          (ret, m.log (.flashUse path))

/-- `upgrade_write_partition`. -/
def writePartition (url path : String) (m : Machine) : Int × Machine :=
  match if a.fopen then m.files url else none with
  -- `return ret`, and `ret` is still 0
  | none => (0, m)
  | some img =>
    let m := (m.log (.streamOpen url)).log (.streamUse url)
    if !a.fseek then (-1, m)
    else
      let m := m.log (.streamUse url)
      let (ret, m) := dlFlashOpenByName g a.flashOpen path m
      if ret < 0 then (-1, m.log (.streamClose url))
      else
        let fd := ret
        let (ret, m) := doWrite g a img fd url path m
        let m := dlFlashClose g fd path m
        let m := m.log (.streamClose url)
        (ret, if a.remove then (m.unlink url).log (.removed url) else m)

/-- `upgrade_partition`. -/
def partition (dir : String) (p : Part) (dest : String) (m : Machine) : Int × Machine :=
  let url := srcPath dir p
  if !(a.access && (m.files url).isSome) then (0, m)
  else
    let (ret, m) := writePartition g a url dest m
    if ret < 0 then (-1, m) else (0, m)

end

/-- `g_upgrade_ctrl`, as far as `rk_upgrade_packet` reads it. -/
structure UpgradeCtrl where
  isInit : Bool
  tempDir : String
  deriving DecidableEq, Repr

/-- What the calls made by `rk_upgrade_packet` answer. -/
structure PacketAnswers where
  realpath : Bool
  cmdline : CmdlineAnswer
  accessTemp : Bool
  /-- The status of a shell command and the files it leaves. -/
  system : String → (String → Option Bytes) → Int × (String → Option Bytes)
  image : Part → ImageAnswers
  activate : AbMeta.MetaAnswers

section
variable (g : FlashCtrl)

/-- The loop over the images, which stops at the first failure. -/
def partitions (image : Part → ImageAnswers) (dir : String) (slot : Slot) :
    List Part → (ret : Int) → Machine → Int × Machine
  | [], ret, m => (ret, m)
  | p :: ps, _, m =>
    let (ret, m) := partition g (image p) dir p (destPath p slot.other) m
    if ret < 0 then (ret, m) else partitions image dir slot ps ret m

/-- `part_name`. -/
def partNames : List Part := [.uboot, .boot, .system]

variable (host : Endian) (ctrl : UpgradeCtrl)

/-- `unpack_cmd`. -/
def unpackCmd (packet : String) : String :=
  "tar -xf " ++ packet ++ " -C " ++ ctrl.tempDir

/-- `rk_upgrade_packet`. A null pointer is `none`. -/
def packet (a : PacketAnswers) (packet : Option String) (m : Machine) : Int × Machine :=
  match packet with
  | none => (-1, m)
  | some packet =>
    if !ctrl.isInit then (-1, m)
    else if !a.realpath then (-1, m)
    else match AbMeta.getRunningSlot a.cmdline m with
      | none => (-1, m)
      | some slot =>
        if !a.accessTemp then (-1, m)
        else
          let cmd := unpackCmd ctrl packet
          let (status, files) := a.system cmd m.files
          let m := { m with files := files }.log (.system cmd)
          if status < 0 then (-1, m.log (.publish .resultFailure (-1)))
          else
            let (ret, m) := partitions g a.image ctrl.tempDir slot partNames status m
            if ret ≥ 0 then
              let (_, m) := AbMeta.activeAnotherSlot g host a.activate (m.log .activateAnotherSlot)
              (ret, m.log (.publish .resultSuccess 0))
            else
              (ret, m.log (.publish .resultFailure 0))

end
end Upgrade
end LinuxOta
