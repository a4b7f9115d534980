-- SUMMARY: `md5sum.c` of ota: the digest of a range of a file, the digest behind a `nanddump` pipeline, and the comparison with a hexadecimal digest.
import LinuxOta.Base.Hex
import LinuxOta.Base.CString

namespace LinuxOta

/-! # md5sum.c -/

/-- An array of 16 bytes. -/
abbrev Digest := Vector UInt8 16

/-- The functions `MD5_Init`, `MD5_Update` and `MD5_Final` of OpenSSL. -/
structure Md5 where
  Ctx : Type
  init : Ctx
  update : Ctx → Bytes → Ctx
  final : Ctx → Digest

/-- The digest after the given updates. -/
def Md5.sum (md5 : Md5) (updates : List Bytes) : Digest :=
  md5.final (updates.foldl md5.update md5.init)

/-- Only the concatenation of the updates matters, and `digest` is the digest of it. -/
def Md5.Computes (md5 : Md5) (digest : Bytes → Digest) : Prop :=
  ∀ updates, md5.sum updates = digest updates.flatten

/-! ## checkdata -/

/-- What the calls made by `checkdata` answer. -/
structure CheckAnswers where
  fopen : Bool
  fseeko : Bool
  /-- The length `fread` returns in each turn, as far as the file allows. -/
  fread : Nat → Nat

/-- The bytes that are asked for. -/
def fileRange (img : Bytes) (offset checkSize : Int) : Bytes :=
  (img.drop offset.toNat).take checkSize.toNat

/-- `step`. -/
def checkStep : Nat := 512

/-- The loop of `checkdata`, in turn `turn`: the inputs of `MD5_Update`, or `none` for
"fread error". The size gets smaller in every turn, so that as many turns are enough fuel. -/
def checkLoop (fread : Nat → Nat) (img : Bytes) :
    (fuel turn pos checkSize : Nat) → Option (List Bytes)
  | 0, _, _, _ => some []
  | fuel + 1, turn, pos, checkSize =>
    if checkSize > 0 then
      let readSize := if checkSize > checkStep then checkStep else checkSize
      let got := min (fread turn) (min readSize (img.length - pos))
      if got ≠ readSize then none
      else
        (checkLoop fread img fuel (turn + 1) (pos + got) (checkSize - readSize)).map
          ((img.drop pos).take got :: ·)
    else some []

/-- The inputs of the successive calls of `MD5_Update`. -/
def checkUpdates (a : CheckAnswers) (img : Bytes) (offset checkSize : Int) : Option (List Bytes) :=
  checkLoop a.fread img checkSize.toNat 0 offset.toNat checkSize.toNat

/-- `checkdata`: what it returns, and `out_md5sum` afterwards. As a `bool`, -1 is `true`. -/
def checkdata (md5 : Md5) (a : CheckAnswers) (file : Option Bytes) (outMd5sum : Digest)
    (offset checkSize : Int) : Bool × Digest :=
  match if a.fopen then file else none with
  | none => (true, outMd5sum)
  | some img =>
    if !a.fseeko || offset < 0 then (false, outMd5sum)
    else match checkUpdates a img offset checkSize with
      | none => (false, outMd5sum)
      | some updates => (false, md5.sum updates)

/-! ## checkdata_mtd -/

/-- What the pipeline does that `checkdata_mtd` starts. -/
structure PipelineAnswer where
  /-- The bytes `nanddump` writes into the pipe. -/
  dumped : Bytes
  /-- `/tmp/.tmp_md5sum` afterwards. -/
  file : Option Bytes

/-- What the calls made by `checkdata_mtd` answer. -/
structure MtdCheckAnswers where
  system : String → PipelineAnswer
  /-- The descriptor `open` returns for a file that exists. -/
  openFd : Int
  /-- The length `read` returns, as far as buffer and file allow, or `none` for -1. -/
  read : Option Nat

/-- `nanddump_cmd`. -/
def nanddumpCmd (destPath : String) (offset checkSize : Int) : String :=
  s!"nanddump --bb=skipbad -l {checkSize} -s {offset} {destPath} | md5sum > /tmp/.tmp_md5sum"

/-- The conversions of `sscanf` at every second position of `buf`. What is not converted
stays in `md5sum_tmp`. -/
def scanDigest (buf : Bytes) (md5sumTmp : Vector UInt8 32) : Digest :=
  .ofFn fun j : Fin 16 =>
    (Hex.scanByte (CString.ofBuffer (Hex.chars (buf.drop (2 * j))))).getD (md5sumTmp.toList.getD (2 * j) 0)

/-- `checkdata_mtd`: what it returns, and `out_md5sum` afterwards. As a `bool`, -1 and -2
are `true`. -/
def checkdataMtd (a : MtdCheckAnswers) (destPath : String) (md5sumTmp : Vector UInt8 32)
    (outMd5sum : Digest) (offset checkSize : Int) : Bool × Digest :=
  let file := (a.system (nanddumpCmd destPath offset checkSize)).file
  let destFd := if file.isSome then a.openFd else -1
  if destFd = 0 then (true, outMd5sum)
  else if destFd < 0 then (true, outMd5sum)
  else match a.read with
    | none => (true, outMd5sum)
    | some len =>
      let got := (file.getD []).take (min len 32)
      let buf := got ++ List.replicate (33 - got.length) 0
      (false, scanDigest buf md5sumTmp)

/-! ## compareMd5sum -/

/-- `tmp`. -/
def nibbleTable : List (UInt8 × UInt8) :=
  [(0x30, 0x00), (0x31, 0x01), (0x32, 0x02), (0x33, 0x03), (0x34, 0x04), (0x35, 0x05), (0x36, 0x06),
    (0x37, 0x07), (0x38, 0x08), (0x39, 0x09), (0x61, 0x0a), (0x62, 0x0b), (0x63, 0x0c), (0x64, 0x0d),
    (0x65, 0x0e), (0x66, 0x0f)]

/-- The inner loop of `compareMd5sum`, for one byte of the digest and its two characters. -/
def compareByte (b hi lo : UInt8) : List (UInt8 × UInt8) → Bool
  | [] => true
  | entry :: tmp =>
    if entry.2 = b >>> 4 ∧ hi ≠ entry.1 then false
    else if entry.2 = b &&& 0x0f ∧ lo ≠ entry.1 then false
    else compareByte b hi lo tmp

/-- `compareMd5sum`. `md5sum` is not initialised. -/
def compareMd5sum (md5 : Md5) (a : CheckAnswers) (file : Option Bytes) (md5sum : Digest)
    (sourceMd5sum : Bytes) (offset checkSize : Int) : Bool :=
  let md5sum := (checkdata md5 a file md5sum offset checkSize).2
  (List.range 16).all fun k =>
    compareByte (md5sum.toList.getD k 0) (sourceMd5sum.getD (2 * k) 0) (sourceMd5sum.getD (2 * k + 1) 0)
      nibbleTable

/-! ## What is read -/

/-- The loop goes through from turn `turn` on: the rest of the range is in the file, and no
read is short. -/
structure ReadsThrough (fread : Nat → Nat) (img : Bytes) (turn pos checkSize : Nat) : Prop where
  inFile : 0 < checkSize → pos + checkSize ≤ img.length
  reads : ∀ k, k * checkStep < checkSize → min checkStep (checkSize - k * checkStep) ≤ fread (turn + k)

section
variable {fread : Nat → Nat} {img : Bytes} {fuel turn pos checkSize : Nat}

/-- The first turn, and the rest of them. -/
theorem readsThrough_succ (hpos : 0 < checkSize) :
    ReadsThrough fread img turn pos checkSize ↔
      min checkStep checkSize ≤ fread turn ∧ pos + min checkStep checkSize ≤ img.length ∧
        ReadsThrough fread img (turn + 1) (pos + min checkStep checkSize)
          (checkSize - min checkStep checkSize) := by
  have hstep : checkStep = 512 := rfl
  constructor
  · intro h
    have hin := h.inFile hpos
    have hfirst := h.reads 0 (by omega)
    simp only [Nat.zero_mul, Nat.sub_zero, Nat.add_zero] at hfirst
    refine ⟨hfirst, by omega, fun _ => by omega, fun k hk => ?_⟩
    have hsucc : (k + 1) * checkStep = k * checkStep + checkStep := Nat.succ_mul k checkStep
    have hnext := h.reads (k + 1) (by omega)
    rw [show turn + (k + 1) = turn + 1 + k by omega] at hnext
    omega
  · rintro ⟨hfirst, hin, h⟩
    refine ⟨fun _ => ?_, fun k hk => ?_⟩
    · by_cases hrest : 0 < checkSize - min checkStep checkSize
      · have hin' := h.inFile hrest
        omega
      · omega
    · cases k with
      | zero => simpa using hfirst
      | succ k =>
        have hsucc : (k + 1) * checkStep = k * checkStep + checkStep := Nat.succ_mul k checkStep
        have hnext := h.reads k (by omega)
        rw [show turn + 1 + k = turn + (k + 1) by omega] at hnext
        omega

/-- The loop ends with the inputs of `MD5_Update` exactly if it goes through, and they are
the range piece by piece. -/
theorem checkLoop_spec (hfuel : checkSize ≤ fuel) :
    (ReadsThrough fread img turn pos checkSize →
      ∃ updates, checkLoop fread img fuel turn pos checkSize = some updates ∧
        updates.flatten = (img.drop pos).take checkSize) ∧
    (¬ ReadsThrough fread img turn pos checkSize →
      checkLoop fread img fuel turn pos checkSize = none) := by
  induction fuel generalizing turn pos checkSize with
  | zero =>
    obtain rfl : checkSize = 0 := by omega
    refine ⟨fun _ => ⟨[], rfl, by simp⟩, fun h => absurd ⟨fun h => by omega, fun k hk => by omega⟩ h⟩
  | succ fuel ih =>
    by_cases hpos : 0 < checkSize
    · have hstep : checkStep = 512 := rfl
      have hsize : (if checkSize > checkStep then checkStep else checkSize) = min checkStep checkSize := by
        split <;> omega
      rw [readsThrough_succ hpos]
      simp only [checkLoop, hpos, ↓reduceIte, hsize, gt_iff_lt]
      by_cases hgot : min (fread turn) (min (min checkStep checkSize) (img.length - pos)) =
          min checkStep checkSize
      · have hfuel' : checkSize - min checkStep checkSize ≤ fuel := by omega
        obtain ⟨hthrough, hfails⟩ := @ih (turn + 1) (pos + min checkStep checkSize) _ hfuel'
        rw [if_neg (by simpa using hgot), hgot]
        constructor
        · rintro ⟨-, -, hrest⟩
          obtain ⟨updates, hloop, hflat⟩ := hthrough hrest
          refine ⟨(img.drop pos).take (min checkStep checkSize) :: updates, by rw [hloop]; rfl, ?_⟩
          have hsplit : checkSize = min checkStep checkSize + (checkSize - min checkStep checkSize) := by
            omega
          rw [List.flatten_cons, hflat, ← List.drop_drop]
          conv => rhs; rw [hsplit, List.take_add]
        · intro hnot
          have hrest : ¬ ReadsThrough fread img (turn + 1) (pos + min checkStep checkSize)
              (checkSize - min checkStep checkSize) := by
            intro hrest
            exact hnot ⟨by omega, by omega, hrest⟩
          rw [hfails hrest]
          rfl
      · rw [if_pos hgot]
        refine ⟨?_, fun _ => rfl⟩
        rintro ⟨hfirst, hin, -⟩
        exact absurd (by omega) hgot
    · obtain rfl : checkSize = 0 := by omega
      refine ⟨fun _ => ⟨[], by simp [checkLoop], by simp⟩,
        fun h => absurd ⟨fun h => by omega, fun k hk => by omega⟩ h⟩

end

/-- Everything that `checkdata` asks for is read. -/
structure CheckAnswers.Reads (a : CheckAnswers) (file : Option Bytes) (offset checkSize : Int) :
    Prop where
  fopen : a.fopen = true
  fseeko : a.fseeko = true
  inRange : 0 ≤ offset
  through : ∃ img, file = some img ∧ ReadsThrough a.fread img 0 offset.toNat checkSize.toNat

section
variable {md5 : Md5} {digest : Bytes → Digest} {a : CheckAnswers} {img : Bytes} {file : Option Bytes}
  {offset checkSize : Int}

theorem CheckAnswers.Reads.updates (h : a.Reads (some img) offset checkSize) :
    ∃ updates, checkUpdates a img offset checkSize = some updates ∧
      updates.flatten = fileRange img offset checkSize := by
  obtain ⟨img', heq, hthrough⟩ := h.through
  obtain rfl := Option.some.inj heq
  exact (checkLoop_spec (Nat.le_refl _)).1 hthrough

/-- After a complete read the array holds the digest of the range. -/
theorem checkdata_reads (hmd5 : md5.Computes digest) (h : a.Reads (some img) offset checkSize)
    (outMd5sum : Digest) :
    checkdata md5 a (some img) outMd5sum offset checkSize = (false, digest (fileRange img offset checkSize)) := by
  obtain ⟨updates, hupdates, hflat⟩ := h.updates
  have hoffset : ¬ offset < 0 := Int.not_lt.mpr h.inRange
  simp [checkdata, h.fopen, h.fseeko, hoffset, hupdates, hmd5 updates, hflat]

/-- After any other one the array is as it was before. -/
theorem checkdata_gives_up (h : ¬ a.Reads file offset checkSize) (outMd5sum : Digest) :
    (checkdata md5 a file outMd5sum offset checkSize).2 = outMd5sum := by
  unfold checkdata
  split
  · rfl
  · next img hopen =>
    split
    · rfl
    · next hseek =>
      rw [Bool.or_eq_true, not_or, decide_eq_true_eq, Bool.not_eq_true', Bool.not_eq_false] at hseek
      obtain ⟨hfopen, rfl⟩ : a.fopen = true ∧ file = some img := by
        cases hfopen : a.fopen <;> simp_all
      have hnot : ¬ ReadsThrough a.fread img 0 offset.toNat checkSize.toNat :=
        fun hthrough => h ⟨hfopen, hseek.1, Int.not_lt.mp hseek.2, img, rfl, hthrough⟩
      rw [checkUpdates, (checkLoop_spec (Nat.le_refl _)).2 hnot]

end

/-! ## What is compared -/

theorem compareByte_iff (b hi lo : UInt8) (tmp : List (UInt8 × UInt8)) :
    compareByte b hi lo tmp = true ↔
      ∀ entry ∈ tmp, (entry.2 = b >>> 4 → hi = entry.1) ∧ (entry.2 = b &&& 0x0f → lo = entry.1) := by
  induction tmp with
  | nil => simp [compareByte]
  | cons entry tmp ih =>
    rw [compareByte, List.forall_mem_cons, ← ih]
    by_cases hhi : entry.2 = b >>> 4 ∧ hi ≠ entry.1
    · rw [if_pos hhi]
      exact ⟨fun h => absurd h (by simp), fun h => absurd (h.1.1 hhi.1) hhi.2⟩
    · rw [if_neg hhi]
      by_cases hlo : entry.2 = b &&& 0x0f ∧ lo ≠ entry.1
      · rw [if_pos hlo]
        exact ⟨fun h => absurd h (by simp), fun h => absurd (h.1.2 hlo.1) hlo.2⟩
      · rw [if_neg hlo]
        refine ⟨fun h => ⟨⟨fun h₁ => ?_, fun h₂ => ?_⟩, h⟩, fun h => h.2⟩
        · exact not_not.mp fun hne => hhi ⟨h₁, hne⟩
        · exact not_not.mp fun hne => hlo ⟨h₂, hne⟩

/-- Every nibble has one entry, its digit. -/
private theorem nibbleTable_digit : ∀ n < 16, nibbleTable.all fun entry =>
    entry.2 = UInt8.ofNat n → entry.1 = Hex.digit (UInt8.ofNat n) := by
  decide

private theorem nibbleTable_mem : ∀ n < 16,
    (Hex.digit (UInt8.ofNat n), UInt8.ofNat n) ∈ nibbleTable := by
  decide

private theorem nibble_iff {n c : UInt8} (hn : n.toNat < 16) :
    (∀ entry ∈ nibbleTable, entry.2 = n → c = entry.1) ↔ c = Hex.digit n := by
  have hdigit := nibbleTable_digit n.toNat hn
  have hmem := nibbleTable_mem n.toNat hn
  rw [UInt8.ofNat_toNat] at hdigit hmem
  constructor
  · intro h
    exact h _ hmem rfl
  · rintro rfl entry hentry heq
    exact (of_decide_eq_true (List.all_eq_true.mp hdigit entry hentry) heq).symm

theorem compareByte_nibbleTable (b hi lo : UInt8) :
    compareByte b hi lo nibbleTable = true ↔ hi = Hex.digit (b >>> 4) ∧ lo = Hex.digit (b &&& 0x0f) := by
  have hhigh : (b >>> 4).toNat < 16 := by
    have hlt := b.toNat_lt
    rw [UInt8.toNat_shiftRight, Nat.shiftRight_eq_div_pow]
    exact Nat.div_lt_of_lt_mul (by simpa using hlt)
  have hlow : (b &&& 0x0f).toNat < 16 := by
    rw [UInt8.toNat_and]
    exact Nat.lt_of_le_of_lt Nat.and_le_right (by decide)
  rw [compareByte_iff, ← nibble_iff hhigh, ← nibble_iff hlow]
  exact ⟨fun h => ⟨fun e he => (h e he).1, fun e he => (h e he).2⟩,
    fun h e he => ⟨h.1 e he, h.2 e he⟩⟩

section
variable {md5 : Md5} {digest : Bytes → Digest} {a : CheckAnswers} {img : Bytes}

/-- No call fails, and no read is shorter than it is asked for. -/
structure CheckAnswers.FaultFree (a : CheckAnswers) : Prop where
  fopen : a.fopen = true
  fseeko : a.fseeko = true
  fread : ∀ turn, checkStep ≤ a.fread turn

theorem CheckAnswers.FaultFree.reads (h : a.FaultFree) {offset checkSize : Nat}
    (hin : offset + checkSize ≤ img.length) : a.Reads (some img) offset checkSize := by
  refine ⟨h.fopen, h.fseeko, Int.natCast_nonneg _, img, rfl, ?_⟩
  rw [Int.toNat_natCast, Int.toNat_natCast]
  exact ⟨fun _ => hin, fun k _ => Nat.le_trans (Nat.min_le_left _ _) (h.fread _)⟩

/-- A range of a file that is read without faults is fed to MD5 as a whole and nothing else,
and the comparison accepts the lower-case hexadecimal digest of it and nothing else. -/
theorem compareMd5sum_exact (hmd5 : md5.Computes digest) (hfree : a.FaultFree) {offset checkSize : Nat}
    (hin : offset + checkSize ≤ img.length) :
    (∃ updates, checkUpdates a img offset checkSize = some updates ∧
      updates.flatten = (img.drop offset).take checkSize) ∧
    ∀ (md5sum : Digest) (sourceMd5sum : Bytes), sourceMd5sum.length = 32 →
      (compareMd5sum md5 a (some img) md5sum sourceMd5sum offset checkSize = true ↔
        sourceMd5sum = Hex.encode (digest ((img.drop offset).take checkSize)).toList) := by
  have hreads := hfree.reads hin
  have hrange : fileRange img offset checkSize = (img.drop offset).take checkSize := by
    rw [fileRange, Int.toNat_natCast, Int.toNat_natCast]
  refine ⟨?_, fun md5sum sourceMd5sum hlen => ?_⟩
  · rw [← hrange]
    exact hreads.updates
  · have hdigest : (digest ((img.drop offset).take checkSize)).toList.length = 16 := by simp
    rw [compareMd5sum, checkdata_reads hmd5 hreads, hrange, List.all_eq_true,
      Hex.eq_encode_iff (by rw [hdigest, hlen]), hdigest]
    simp only [List.mem_range, compareByte_nibbleTable]

end

/-! ## A digest at work -/

/-- MD5 of "abc" and of the empty string. -/
def sampleDigest (b : Bytes) : Digest :=
  if b = [0x61, 0x62, 0x63] then
    #v[0x90, 0x01, 0x50, 0x98, 0x3c, 0xd2, 0x4f, 0xb0, 0xd6, 0x96, 0x3f, 0x7d, 0x28, 0xe1, 0x7f, 0x72]
  else if b = [] then
    #v[0xd4, 0x1d, 0x8c, 0xd9, 0x8f, 0x00, 0xb2, 0x04, 0xe9, 0x80, 0x09, 0x98, 0xec, 0xf8, 0x42, 0x7e]
  else .replicate 16 0

def sampleMd5 : Md5 := ⟨Bytes, [], (· ++ ·), sampleDigest⟩

theorem sampleMd5_computes : sampleMd5.Computes sampleDigest := by
  intro updates
  have hfold : ∀ (b : Bytes), updates.foldl (· ++ ·) b = b ++ updates.flatten := by
    induction updates with
    | nil => simp
    | cons u updates ih => simp [ih]
  exact congrArg sampleDigest (hfold [])

/-- No call of `checkdata` fails. -/
def CheckAnswers.healthy : CheckAnswers := ⟨true, true, fun _ => checkStep⟩

theorem CheckAnswers.healthy_faultFree : healthy.FaultFree := ⟨rfl, rfl, fun _ => Nat.le_refl _⟩

/-- The string "900150983cd24fb0d6963f7d28e17f72" is accepted. -/
theorem compareMd5sum_exact_abc :
    compareMd5sum sampleMd5 .healthy (some [0x61, 0x62, 0x63]) (.replicate 16 0)
      ("900150983cd24fb0d6963f7d28e17f72".toList.map fun c => UInt8.ofNat c.toNat)
      (0 : Nat) (3 : Nat) = true :=
  ((compareMd5sum_exact sampleMd5_computes CheckAnswers.healthy_faultFree (by decide)).2 _ _ rfl).mpr
    (by decide)

end LinuxOta
