-- SUMMARY: `comparefile` of ota: what it compares when a side could not be read, when its result is sound, and the update of an MTD partition that relies on it.
import LinuxOta.Ota.Md5sum
import LinuxOta.Ota.Bootloader

namespace LinuxOta

/-! # comparefile

The two digests are arrays on the stack that are not initialised, and nobody looks at
what `checkdata` and `checkdata_mtd` return. -/

/-- What the calls made by `comparefile` answer. -/
structure CompareAnswers where
  /-- `isMtdDevice`. -/
  isMtd : Bool
  mtd : MtdCheckAnswers
  dest : CheckAnswers
  source : CheckAnswers

/-- The bytes that lie on the stack where the digests are to be. -/
structure StaleArrays where
  md5sumSource : Digest
  md5sumDest : Digest
  /-- `md5sum_tmp` of `checkdata_mtd`. -/
  md5sumTmp : Vector UInt8 32

/-- No call of `checkdata_mtd` succeeds. -/
def MtdCheckAnswers.broken : MtdCheckAnswers := ⟨fun _ => ⟨[], none⟩, -1, none⟩

/-- The arguments of `comparefile`, and the files that they name. An MTD device is the bytes
that a complete dump of it gives. -/
structure Comparison where
  destPath : String
  dest : Option Bytes
  source : Option Bytes
  destOffset : Int
  sourceOffset : Int
  checkSize : Int

/-- `comparefile`. -/
def comparefile (md5 : Md5) (a : CompareAnswers) (stale : StaleArrays) (c : Comparison) : Int :=
  let md5sumDest :=
    if a.isMtd then
      (checkdataMtd a.mtd c.destPath stale.md5sumTmp stale.md5sumDest c.destOffset c.checkSize).2
    else (checkdata md5 a.dest c.dest stale.md5sumDest c.destOffset c.checkSize).2
  let md5sumSource :=
    (checkdata md5 a.source c.source stale.md5sumSource c.sourceOffset c.checkSize).2
  if (List.finRange 16).any fun i => md5sumDest[i] ≠ md5sumSource[i] then -1 else 0

namespace Comparison

/-- The range of the destination; a file that does not exist has no bytes. -/
def destRange (c : Comparison) : Bytes := fileRange (c.dest.getD []) c.destOffset c.checkSize

/-- The range of the source. -/
def sourceRange (c : Comparison) : Bytes := fileRange (c.source.getD []) c.sourceOffset c.checkSize

end Comparison

/-! ## What is read -/

/-- The pipeline dumps the whole range, and its digest is read back. -/
structure MtdCheckAnswers.Reads (a : MtdCheckAnswers) (digest : Bytes → Digest) (c : Comparison) :
    Prop where
  inDevice : ∃ img, c.dest = some img ∧ 0 ≤ c.destOffset ∧
    (0 < c.checkSize → c.destOffset.toNat + c.checkSize.toNat ≤ img.length)
  dumped : (a.system (nanddumpCmd c.destPath c.destOffset c.checkSize)).dumped = c.destRange
  summed : ∃ rest, (a.system (nanddumpCmd c.destPath c.destOffset c.checkSize)).file =
    some (Hex.encode (digest c.destRange).toList ++ rest)
  openFd : 0 < a.openFd
  read : ∃ len, a.read = some len ∧ 32 ≤ len

/-- What `checkdata` leaves in its array: the digest of the range, or what was there. -/
def CheckAnswers.Leaves (a : CheckAnswers) (digest : Bytes → Digest) (stale : Digest)
    (file : Option Bytes) (offset checkSize : Int) (d : Digest) : Prop :=
  a.Reads file offset checkSize ∧ d = digest (fileRange (file.getD []) offset checkSize) ∨
    ¬ a.Reads file offset checkSize ∧ d = stale

/-- The bytes of the temporary file that are read. -/
def MtdCheckAnswers.Got (a : MtdCheckAnswers) (c : Comparison) (got : Bytes) : Prop :=
  ∃ file len, (a.system (nanddumpCmd c.destPath c.destOffset c.checkSize)).file = some file ∧
    0 < a.openFd ∧ a.read = some len ∧ got = file.take (min len 32)

/-- Two digits among the bytes that are read are not those of the digest `d`. -/
def MtdCheckAnswers.Contradicts (a : MtdCheckAnswers) (c : Comparison) (d : Digest) : Prop :=
  ∃ got, a.Got c got ∧ ∃ j : Fin 16, ∃ b,
    Hex.scanByte (CString.ofBuffer (Hex.chars ((got ++ List.replicate (33 - got.length) 0).drop (2 * j)))) =
      some b ∧ b ≠ d[j]

/-- What `checkdata_mtd` leaves in its array: what it makes of the bytes that are read, or what
was there. -/
def MtdCheckAnswers.Leaves (a : MtdCheckAnswers) (stale : StaleArrays) (c : Comparison) (d : Digest) :
    Prop :=
  (∃ got, a.Got c got ∧ d = scanDigest (got ++ List.replicate (33 - got.length) 0) stale.md5sumTmp) ∨
    (¬ ∃ got, a.Got c got) ∧ d = stale.md5sumDest

namespace CompareAnswers

variable (a : CompareAnswers) (digest : Bytes → Digest) (stale : StaleArrays) (c : Comparison)

/-- The range of the destination is read completely. -/
def DestReads : Prop :=
  if a.isMtd then a.mtd.Reads digest c else a.dest.Reads c.dest c.destOffset c.checkSize

/-- The range of the source is read completely. -/
def SourceReads : Prop := a.source.Reads c.source c.sourceOffset c.checkSize

/-- What is left in the array of the destination. -/
def LeavesDest (d : Digest) : Prop :=
  if a.isMtd then a.mtd.Leaves stale c d
  else a.dest.Leaves digest stale.md5sumDest c.dest c.destOffset c.checkSize d

/-- What is left in the array of the source. -/
def LeavesSource (d : Digest) : Prop :=
  a.source.Leaves digest stale.md5sumSource c.source c.sourceOffset c.checkSize d

end CompareAnswers

section
variable {md5 : Md5} {digest : Bytes → Digest} {a : CompareAnswers} {stale : StaleArrays}
  {c : Comparison} {d : Digest}

theorem checkdata_leaves_iff (hmd5 : md5.Computes digest) {a : CheckAnswers} {file : Option Bytes}
    {out : Digest} {offset checkSize : Int} :
    a.Leaves digest out file offset checkSize d ↔ d = (checkdata md5 a file out offset checkSize).2 := by
  unfold CheckAnswers.Leaves
  by_cases hreads : a.Reads file offset checkSize
  · obtain ⟨img, rfl, -⟩ := hreads.through
    rw [checkdata_reads hmd5 hreads]
    simp [hreads]
  · rw [checkdata_gives_up hreads]
    simp [hreads]

theorem MtdCheckAnswers.leaves_of_not_got {a : MtdCheckAnswers} (hnot : ∀ got, ¬ a.Got c got) :
    a.Leaves stale c d ↔ d = stale.md5sumDest := by
  constructor
  · rintro (⟨got, hgot, -⟩ | ⟨-, hd⟩)
    · exact absurd hgot (hnot got)
    · exact hd
  · intro hd
    exact .inr ⟨fun ⟨got, hgot⟩ => hnot got hgot, hd⟩

theorem checkdataMtd_leaves_iff {a : MtdCheckAnswers} :
    a.Leaves stale c d ↔
      d = (checkdataMtd a c.destPath stale.md5sumTmp stale.md5sumDest c.destOffset c.checkSize).2 := by
  unfold checkdataMtd
  cases hfile : (a.system (nanddumpCmd c.destPath c.destOffset c.checkSize)).file with
  | none =>
    rw [MtdCheckAnswers.leaves_of_not_got]
    · simp
    · rintro got ⟨file, _, hsome, -⟩
      exact absurd (hfile.symm.trans hsome) (by simp)
  | some file =>
    by_cases hopen : 0 < a.openFd
    · have hfd : ¬ a.openFd = 0 ∧ ¬ a.openFd < 0 := by omega
      cases hread : a.read with
      | none =>
        rw [MtdCheckAnswers.leaves_of_not_got]
        · simp [hfd]
        · rintro got ⟨_, len, -, -, hsome, -⟩
          exact absurd (hread.symm.trans hsome) (by simp)
      | some len =>
        have hgot : ∀ got, a.Got c got ↔ got = file.take (min len 32) := by
          intro got
          simp [MtdCheckAnswers.Got, hfile, hopen, hread]
        simp [MtdCheckAnswers.Leaves, hgot, hfd]
    · rw [MtdCheckAnswers.leaves_of_not_got]
      · by_cases hzero : a.openFd = 0
        · simp [hzero]
        · have hneg : a.openFd < 0 := by omega
          simp [hzero, hneg]
      · rintro got ⟨_, _, -, hpos, -⟩
        exact hopen hpos

/-- A digest in hexadecimal is scanned to the digest. -/
theorem scanDigest_encode (d : Digest) (rest : Bytes) (md5sumTmp : Vector UInt8 32) :
    scanDigest (Hex.encode d.toList ++ rest) md5sumTmp = d := by
  apply Vector.ext
  intro j hj
  have hlen : d.toList.length = 16 := by simp
  have hget : d.toList.getD j 0 = d[j] := by simp [List.getD, hj]
  have hdrop : (Hex.encode d.toList ++ rest).drop (2 * j) =
      Hex.pair d[j] ++ ((Hex.encode d.toList).drop (2 * (j + 1)) ++ rest) := by
    rw [List.drop_append_of_le_length (by rw [Hex.encode_length, hlen]; omega),
      Hex.drop_encode (by rw [hlen]; exact hj), hget, List.append_assoc]
  simp only [scanDigest, Vector.getElem_ofFn]
  rw [hdrop, Hex.chars_append, CString.ofBuffer_append (Hex.not_mem_chars_pair _), Hex.scanByte_pair,
    Option.getD_some]

/-- A complete dump leaves the digest of the range. -/
theorem MtdCheckAnswers.Reads.leaves {a : MtdCheckAnswers} (h : a.Reads digest c)
    (hleaves : a.Leaves stale c d) : d = digest c.destRange := by
  obtain ⟨rest, hfile⟩ := h.summed
  obtain ⟨len, hread, hlen⟩ := h.read
  have htake : (Hex.encode (digest c.destRange).toList ++ rest).take (min len 32) =
      Hex.encode (digest c.destRange).toList := by
    rw [Nat.min_eq_right hlen]
    exact List.take_left' (by simp)
  have hgot : a.Got c (Hex.encode (digest c.destRange).toList) :=
    ⟨_, len, hfile, h.openFd, hread, htake.symm⟩
  rcases hleaves with ⟨got, ⟨file', len', hfile', -, hread', rfl⟩, rfl⟩ | ⟨hnot, -⟩
  · rw [hfile, Option.some.injEq] at hfile'
    rw [hread, Option.some.injEq] at hread'
    rw [← hfile', ← hread', htake, scanDigest_encode]
  · exact absurd ⟨_, hgot⟩ hnot

theorem CompareAnswers.DestReads.leaves (h : a.DestReads digest c)
    (hleaves : a.LeavesDest digest stale c d) : d = digest c.destRange := by
  unfold DestReads at h
  unfold LeavesDest at hleaves
  split at h
  · next hmtd =>
    rw [if_pos hmtd] at hleaves
    exact h.leaves hleaves
  · next hmtd =>
    rw [if_neg hmtd] at hleaves
    exact hleaves.elim And.right fun hnot => absurd h hnot.1

theorem CompareAnswers.SourceReads.leaves (h : a.SourceReads c)
    (hleaves : a.LeavesSource digest stale c d) : d = digest c.sourceRange :=
  hleaves.elim And.right fun hnot => absurd h hnot.1

/-! ## What is compared -/

theorem leavesDest_iff (hmd5 : md5.Computes digest) :
    a.LeavesDest digest stale c d ↔ d =
      (if a.isMtd then
        (checkdataMtd a.mtd c.destPath stale.md5sumTmp stale.md5sumDest c.destOffset c.checkSize).2
      else (checkdata md5 a.dest c.dest stale.md5sumDest c.destOffset c.checkSize).2) := by
  unfold CompareAnswers.LeavesDest
  split
  · exact checkdataMtd_leaves_iff
  · exact checkdata_leaves_iff hmd5

/-- The comparison succeeds when both arrays are left with the same bytes. -/
theorem comparefile_eq_zero_iff (hmd5 : md5.Computes digest) :
    comparefile md5 a stale c = 0 ↔ ∃ d, a.LeavesDest digest stale c d ∧ a.LeavesSource digest stale c d := by
  have hloop : ∀ v w : Digest,
      (if (List.finRange 16).any fun i => v[i] ≠ w[i] then -1 else 0 : Int) = 0 ↔ v = w := by
    intro v w
    constructor
    · intro h
      apply Vector.ext
      intro i hi
      by_contra hne
      rw [if_pos (List.any_eq_true.mpr ⟨⟨i, hi⟩, List.mem_finRange _, by simpa using hne⟩)] at h
      exact absurd h (by decide)
    · rintro rfl
      simp
  rw [comparefile, hloop]
  constructor
  · intro heq
    exact ⟨_, (leavesDest_iff hmd5).mpr rfl, (checkdata_leaves_iff hmd5).mpr heq⟩
  · rintro ⟨d, hd, hs⟩
    rw [← (leavesDest_iff hmd5).mp hd]
    exact (checkdata_leaves_iff hmd5).mp hs

/-- The ranges were read completely, and have the same digest. -/
structure Verified (a : CompareAnswers) (digest : Bytes → Digest) (c : Comparison) : Prop where
  dest : a.DestReads digest c
  source : a.SourceReads c
  digest_eq : digest c.destRange = digest c.sourceRange

/-- Both sides are read completely; or the source is, and the bytes that are read from the
temporary file contradict its digest. -/
def CompareAnswers.Distinguishes (a : CompareAnswers) (digest : Bytes → Digest) (c : Comparison) : Prop :=
  a.SourceReads c ∧ (a.DestReads digest c ∨ a.isMtd = true ∧ a.mtd.Contradicts c (digest c.sourceRange))

theorem leavesSource_of_reads (h : a.SourceReads c) :
    a.LeavesSource digest stale c (digest c.sourceRange) :=
  .inl ⟨h, rfl⟩

/-- A contradiction shows in the digest that is scanned. -/
theorem MtdCheckAnswers.Contradicts.leaves_ne {a : MtdCheckAnswers} (h : a.Contradicts c d) :
    ¬ a.Leaves stale c d := by
  obtain ⟨got, hgot, j, b, hscan, hne⟩ := h
  rintro (⟨got', hgot', rfl⟩ | ⟨hnot, -⟩)
  · obtain ⟨file, len, hfile, -, hread, rfl⟩ := hgot
    obtain ⟨file', len', hfile', -, hread', rfl⟩ := hgot'
    obtain rfl := Option.some.inj (hfile.symm.trans hfile')
    obtain rfl := Option.some.inj (hread.symm.trans hread')
    refine hne ?_
    rw [Fin.getElem_fin, scanDigest, Vector.getElem_ofFn]
    dsimp only
    rw [hscan, Option.getD_some]
  · exact hnot ⟨got, hgot⟩

/-- Without one there are bytes on the stack with which `d` is scanned. -/
theorem MtdCheckAnswers.exists_leaves {a : MtdCheckAnswers} (h : ¬ a.Contradicts c d) (md5sumSource : Digest) :
    ∃ md5sumDest md5sumTmp, a.Leaves ⟨md5sumSource, md5sumDest, md5sumTmp⟩ c d := by
  by_cases hgot : ∃ got, a.Got c got
  swap
  · exact ⟨d, .replicate 32 0, .inr ⟨hgot, rfl⟩⟩
  obtain ⟨got, hgot⟩ := hgot
  refine ⟨d, .ofFn fun i => d.toList.getD (i / 2) 0, .inl ⟨got, hgot, ?_⟩⟩
  apply Vector.ext
  intro j hj
  have hstale : (Vector.ofFn fun i : Fin 32 => d.toList.getD (i / 2) 0).toList.getD (2 * j) 0 = d[j] := by
    simp [List.getD, show 2 * j < 32 by omega, hj]
  simp only [scanDigest, Vector.getElem_ofFn]
  rw [hstale]
  cases hscan : Hex.scanByte (CString.ofBuffer (Hex.chars
      ((got ++ List.replicate (33 - got.length) 0).drop (2 * j)))) with
  | none => rfl
  | some b =>
    by_contra hne
    exact h ⟨got, hgot, ⟨j, hj⟩, b, hscan, fun heq => hne (by simpa using heq.symm)⟩

/-- Whatever lies in the arrays, a comparison that succeeds was made of two complete reads:
exactly when the outcomes distinguish the sides. -/
theorem comparefile_verified_iff (hmd5 : md5.Computes digest) :
    (∀ stale, comparefile md5 a stale c = 0 → Verified a digest c) ↔ a.Distinguishes digest c := by
  constructor
  · intro h
    have hsource : a.SourceReads c := by
      by_contra hnot
      -- the array of the source may hold what is left in the other one
      obtain ⟨d, hd⟩ : ∃ d, a.LeavesDest digest ⟨.replicate 16 0, .replicate 16 0, .replicate 32 0⟩ c d :=
        ⟨_, (leavesDest_iff hmd5).mpr rfl⟩
      have hzero : comparefile md5 a ⟨d, .replicate 16 0, .replicate 32 0⟩ c = 0 :=
        (comparefile_eq_zero_iff hmd5).mpr ⟨d, hd, .inr ⟨hnot, rfl⟩⟩
      exact hnot (h _ hzero).source
    refine ⟨hsource, ?_⟩
    by_contra hnot
    obtain ⟨hdest, hmtd⟩ := not_or.mp hnot
    obtain ⟨stale, hleaves⟩ : ∃ stale, a.LeavesDest digest stale c (digest c.sourceRange) := by
      unfold CompareAnswers.LeavesDest
      cases hisMtd : a.isMtd with
      | true =>
        obtain ⟨md5sumDest, md5sumTmp, hleaves⟩ :=
          MtdCheckAnswers.exists_leaves (fun hc => hmtd ⟨hisMtd, hc⟩) (.replicate 16 0)
        exact ⟨_, by simpa using hleaves⟩
      | false =>
        have hgivesUp : ¬ a.dest.Reads c.dest c.destOffset c.checkSize := fun hreads =>
          hdest (by simpa [CompareAnswers.DestReads, hisMtd] using hreads)
        exact ⟨⟨.replicate 16 0, digest c.sourceRange, .replicate 32 0⟩, by simpa using .inr ⟨hgivesUp, rfl⟩⟩
    have hzero := (comparefile_eq_zero_iff hmd5).mpr ⟨_, hleaves, leavesSource_of_reads hsource⟩
    exact hdest (h stale hzero).dest
  · rintro ⟨hsource, hdest⟩ stale hzero
    obtain ⟨d, hd, hs⟩ := (comparefile_eq_zero_iff hmd5).mp hzero
    obtain rfl := hsource.leaves hs
    rcases hdest with hdest | ⟨hmtd, hcontra⟩
    · exact ⟨hdest, hsource, (hdest.leaves hd).symm⟩
    · rw [CompareAnswers.LeavesDest, if_pos hmtd] at hd
      exact absurd hd hcontra.leaves_ne

end

/-! ## The update of an MTD partition -/

namespace Bootloader

/-- `mtd_write`: what it returns, and what it leaves of the partition. What the commands
return is not looked at. -/
def mtdWrite (isChar : Bool) (system : String → Content → Content) (srcPath destPath : String)
    (dest : Content) : Int × Content :=
  if isChar then
    let dest := system ("flash_erase " ++ destPath ++ " 0 0") dest
    (0, system ("nandwrite -p " ++ destPath ++ " " ++ srcPath) dest)
  else (-1, dest)

/-- What the calls made by `flash_write_partition` answer on MTD. -/
structure MtdImageAnswers where
  stat : Bool
  /-- What `st_mode` says, which is not set when `stat` fails. -/
  isChar : Bool
  /-- What a command makes of the content of the partition. -/
  system : String → Content → Content
  /-- The bytes of a complete dump. -/
  dump : Content → Bytes
  compare : CompareAnswers
  stale : StaleArrays
  remove : Bool

variable (w : MtdImageAnswers) (md5 : Md5) (srcPath destPath : String) (img : Bytes) (dest : Content)

/-- The comparison after `mtd_write`. -/
def MtdImageAnswers.comparison : Comparison :=
  ⟨destPath, some (w.dump (mtdWrite w.isChar w.system srcPath destPath dest).2), some img, 0, 0, img.length⟩

/-- The calls of `flash_write_partition` for image `img`, with `dest` on the device. -/
def MtdImageAnswers.image : ImageWriteAnswers where
  stat := w.stat
  write := (mtdWrite w.isChar w.system srcPath destPath dest).1
  left := fun dest => (mtdWrite w.isChar w.system srcPath destPath dest).2
  compare := comparefile md5 w.compare w.stale (w.comparison srcPath destPath img dest)
  remove := w.remove

variable {w md5 srcPath destPath img} {digest : Bytes → Digest} {m : Machine}

/-- An update succeeds when `mtd_write` finds a device and the comparison succeeds. -/
theorem flashWritePartition_mtd_eq_zero_iff (hfile : m.files srcPath = some img) :
    (flashWritePartition (w.image md5 srcPath destPath img (m.devs destPath)) srcPath destPath m).1 = 0 ↔
      w.stat = true ∧ w.isChar = true ∧
        comparefile md5 w.compare w.stale (w.comparison srcPath destPath img (m.devs destPath)) = 0 := by
  cases hstat : w.stat with
  | false => simp [flashWritePartition, MtdImageAnswers.image, hstat]
  | true =>
    cases hchar : w.isChar with
    | false => simp [flashWritePartition, MtdImageAnswers.image, hstat, hchar, hfile, mtdWrite]
    | true =>
      by_cases hcompare :
          comparefile md5 w.compare w.stale (w.comparison srcPath destPath img (m.devs destPath)) = 0
      · simp [flashWritePartition, MtdImageAnswers.image, hstat, hchar, hfile, mtdWrite, hcompare]
      · simp [flashWritePartition, MtdImageAnswers.image, hstat, hchar, hfile, mtdWrite, hcompare]

/-- Whatever lies in the uninitialised arrays, a comparison that succeeds was made of two
complete reads: if and only if the outcomes distinguish the sides. And an MTD update that
succeeds is verified if and only if it does not get to the comparison or this holds of it. -/
theorem comparison_sound_iff (hmd5 : md5.Computes digest) :
    (∀ (a : CompareAnswers) (c : Comparison),
      (∀ stale, comparefile md5 a stale c = 0 → Verified a digest c) ↔ a.Distinguishes digest c) ∧
    ∀ (w : MtdImageAnswers) (srcPath destPath : String) (img : Bytes) (m : Machine),
      m.files srcPath = some img →
      let c := w.comparison srcPath destPath img (m.devs destPath)
      ((∀ stale, (flashWritePartition (({ w with stale := stale } : MtdImageAnswers).image md5 srcPath destPath img
            (m.devs destPath)) srcPath destPath m).1 = 0 → Verified w.compare digest c) ↔
        (w.stat = true → w.isChar = true → w.compare.Distinguishes digest c)) := by
  refine ⟨fun a c => comparefile_verified_iff hmd5, fun w srcPath destPath img m hfile => ?_⟩
  intro c
  rw [← comparefile_verified_iff hmd5]
  simp only [flashWritePartition_mtd_eq_zero_iff hfile]
  exact ⟨fun h hstat hchar stale hzero => h stale ⟨hstat, hchar, hzero⟩,
    fun h stale hall => h hall.1 hall.2.1 stale hall.2.2⟩

def zeroArrays : StaleArrays := ⟨.replicate 16 0, .replicate 16 0, .replicate 32 0⟩

theorem comparison_sound_abc :
    (∀ stale, comparefile sampleMd5 ⟨false, .broken, .healthy, .healthy⟩ stale
        ⟨"/dev/mmcblk0p3", some [0x61, 0x62, 0x63], some [0x61, 0x62, 0x63], 0, 0, 3⟩ = 0 →
      Verified ⟨false, .broken, .healthy, .healthy⟩ sampleDigest
        ⟨"/dev/mmcblk0p3", some [0x61, 0x62, 0x63], some [0x61, 0x62, 0x63], 0, 0, 3⟩) ↔
      CompareAnswers.Distinguishes ⟨false, .broken, .healthy, .healthy⟩ sampleDigest
        ⟨"/dev/mmcblk0p3", some [0x61, 0x62, 0x63], some [0x61, 0x62, 0x63], 0, 0, 3⟩ :=
  (comparison_sound_iff sampleMd5_computes).1 _ _

/-- Two files that cannot be opened compare equal when the same bytes lie in both arrays. -/
theorem comparison_unsound :
    ¬ ∀ stale, (comparefile sampleMd5 ⟨false, .broken, ⟨false, true, fun _ => 512⟩, ⟨false, true, fun _ => 512⟩⟩
        stale ⟨"/dev/mmcblk0p3", some [1], some [2], 0, 0, 1⟩ = 0 →
      Verified ⟨false, .broken, ⟨false, true, fun _ => 512⟩, ⟨false, true, fun _ => 512⟩⟩ sampleDigest
        ⟨"/dev/mmcblk0p3", some [1], some [2], 0, 0, 1⟩) := by
  intro h
  have hverified := h zeroArrays (by decide)
  exact absurd hverified.source.fopen (by decide)

end Bootloader
end LinuxOta
