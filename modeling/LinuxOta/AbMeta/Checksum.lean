-- SUMMARY: CRC-32 of the A/B record: both lookup tables, both checksum functions, and the byte order of the stored word.
import LinuxOta.Base.ReflectedCrc
import LinuxOta.AbMeta.Record

namespace LinuxOta

/-! # Checksum of the A/B record -/

/-! ## Byte order of the host -/

inductive Endian where
  | little
  | big
  deriving DecidableEq, Repr

namespace Endian

/-- The four bytes of an `unsigned int` in memory order. -/
def store : Endian → BitVec 32 → Vector UInt8 4
  | .little, w => #v[⟨w.extractLsb' 0 8⟩, ⟨w.extractLsb' 8 8⟩, ⟨w.extractLsb' 16 8⟩, ⟨w.extractLsb' 24 8⟩]
  | .big, w => #v[⟨w.extractLsb' 24 8⟩, ⟨w.extractLsb' 16 8⟩, ⟨w.extractLsb' 8 8⟩, ⟨w.extractLsb' 0 8⟩]

/-- The `unsigned int` that lies in four bytes of memory. -/
def load : Endian → Vector UInt8 4 → BitVec 32
  | .little, v => v[3].toBitVec ++ v[2].toBitVec ++ v[1].toBitVec ++ v[0].toBitVec
  | .big, v => v[0].toBitVec ++ v[1].toBitVec ++ v[2].toBitVec ++ v[3].toBitVec

private theorem extractLsb'_append_bytes (p q r s : BitVec 8) :
    (p ++ q ++ r ++ s).extractLsb' 0 8 = s ∧ (p ++ q ++ r ++ s).extractLsb' 8 8 = r ∧
      (p ++ q ++ r ++ s).extractLsb' 16 8 = q ∧ (p ++ q ++ r ++ s).extractLsb' 24 8 = p := by
  refine ⟨?_, ?_, ?_, ?_⟩
  · rw [BitVec.extractLsb'_append_eq_right]
  · rw [BitVec.extractLsb'_append_eq_of_le (by decide), BitVec.extractLsb'_append_eq_right]
  · rw [BitVec.extractLsb'_append_eq_of_le (by decide),
      BitVec.extractLsb'_append_eq_of_le (by decide), BitVec.extractLsb'_append_eq_right]
  · rw [BitVec.extractLsb'_append_eq_of_le (by decide),
      BitVec.extractLsb'_append_eq_of_le (by decide),
      BitVec.extractLsb'_append_eq_of_le (by decide)]
    simp

/-- Storing a loaded word puts the same bytes back, whatever the host. -/
theorem store_load (host : Endian) (v : Vector UInt8 4) : host.store (host.load v) = v := by
  obtain ⟨⟨l⟩, hl⟩ := v
  match l, hl with
  | [x, y, z, t], _ =>
    cases host with
    | little =>
      obtain ⟨h₀, h₁, h₂, h₃⟩ :=
        extractLsb'_append_bytes t.toBitVec z.toBitVec y.toBitVec x.toBitVec
      simp [store, load, h₀, h₁, h₂, h₃]
    | big =>
      obtain ⟨h₀, h₁, h₂, h₃⟩ :=
        extractLsb'_append_bytes x.toBitVec y.toBitVec z.toBitVec t.toBitVec
      simp [store, load, h₀, h₁, h₂, h₃]

end Endian

/-! ## The tables -/

def gAbMiscCrc32Tab : List (BitVec 32) := [
  0x00000000, 0x77073096, 0xee0e612c, 0x990951ba, 0x076dc419, 0x706af48f, 0xe963a535, 0x9e6495a3,
  0x0edb8832, 0x79dcb8a4, 0xe0d5e91e, 0x97d2d988, 0x09b64c2b, 0x7eb17cbd, 0xe7b82d07, 0x90bf1d91,
  0x1db71064, 0x6ab020f2, 0xf3b97148, 0x84be41de, 0x1adad47d, 0x6ddde4eb, 0xf4d4b551, 0x83d385c7,
  0x136c9856, 0x646ba8c0, 0xfd62f97a, 0x8a65c9ec, 0x14015c4f, 0x63066cd9, 0xfa0f3d63, 0x8d080df5,
  0x3b6e20c8, 0x4c69105e, 0xd56041e4, 0xa2677172, 0x3c03e4d1, 0x4b04d447, 0xd20d85fd, 0xa50ab56b,
  0x35b5a8fa, 0x42b2986c, 0xdbbbc9d6, 0xacbcf940, 0x32d86ce3, 0x45df5c75, 0xdcd60dcf, 0xabd13d59,
  0x26d930ac, 0x51de003a, 0xc8d75180, 0xbfd06116, 0x21b4f4b5, 0x56b3c423, 0xcfba9599, 0xb8bda50f,
  0x2802b89e, 0x5f058808, 0xc60cd9b2, 0xb10be924, 0x2f6f7c87, 0x58684c11, 0xc1611dab, 0xb6662d3d,
  0x76dc4190, 0x01db7106, 0x98d220bc, 0xefd5102a, 0x71b18589, 0x06b6b51f, 0x9fbfe4a5, 0xe8b8d433,
  0x7807c9a2, 0x0f00f934, 0x9609a88e, 0xe10e9818, 0x7f6a0dbb, 0x086d3d2d, 0x91646c97, 0xe6635c01,
  0x6b6b51f4, 0x1c6c6162, 0x856530d8, 0xf262004e, 0x6c0695ed, 0x1b01a57b, 0x8208f4c1, 0xf50fc457,
  0x65b0d9c6, 0x12b7e950, 0x8bbeb8ea, 0xfcb9887c, 0x62dd1ddf, 0x15da2d49, 0x8cd37cf3, 0xfbd44c65,
  0x4db26158, 0x3ab551ce, 0xa3bc0074, 0xd4bb30e2, 0x4adfa541, 0x3dd895d7, 0xa4d1c46d, 0xd3d6f4fb,
  0x4369e96a, 0x346ed9fc, 0xad678846, 0xda60b8d0, 0x44042d73, 0x33031de5, 0xaa0a4c5f, 0xdd0d7cc9,
  0x5005713c, 0x270241aa, 0xbe0b1010, 0xc90c2086, 0x5768b525, 0x206f85b3, 0xb966d409, 0xce61e49f,
  0x5edef90e, 0x29d9c998, 0xb0d09822, 0xc7d7a8b4, 0x59b33d17, 0x2eb40d81, 0xb7bd5c3b, 0xc0ba6cad,
  0xedb88320, 0x9abfb3b6, 0x03b6e20c, 0x74b1d29a, 0xead54739, 0x9dd277af, 0x04db2615, 0x73dc1683,
  0xe3630b12, 0x94643b84, 0x0d6d6a3e, 0x7a6a5aa8, 0xe40ecf0b, 0x9309ff9d, 0x0a00ae27, 0x7d079eb1,
  0xf00f9344, 0x8708a3d2, 0x1e01f268, 0x6906c2fe, 0xf762575d, 0x806567cb, 0x196c3671, 0x6e6b06e7,
  0xfed41b76, 0x89d32be0, 0x10da7a5a, 0x67dd4acc, 0xf9b9df6f, 0x8ebeeff9, 0x17b7be43, 0x60b08ed5,
  0xd6d6a3e8, 0xa1d1937e, 0x38d8c2c4, 0x4fdff252, 0xd1bb67f1, 0xa6bc5767, 0x3fb506dd, 0x48b2364b,
  0xd80d2bda, 0xaf0a1b4c, 0x36034af6, 0x41047a60, 0xdf60efc3, 0xa867df55, 0x316e8eef, 0x4669be79,
  0xcb61b38c, 0xbc66831a, 0x256fd2a0, 0x5268e236, 0xcc0c7795, 0xbb0b4703, 0x220216b9, 0x5505262f,
  0xc5ba3bbe, 0xb2bd0b28, 0x2bb45a92, 0x5cb36a04, 0xc2d7ffa7, 0xb5d0cf31, 0x2cd99e8b, 0x5bdeae1d,
  0x9b64c2b0, 0xec63f226, 0x756aa39c, 0x026d930a, 0x9c0906a9, 0xeb0e363f, 0x72076785, 0x05005713,
  0x95bf4a82, 0xe2b87a14, 0x7bb12bae, 0x0cb61b38, 0x92d28e9b, 0xe5d5be0d, 0x7cdcefb7, 0x0bdbdf21,
  0x86d3d2d4, 0xf1d4e242, 0x68ddb3f8, 0x1fda836e, 0x81be16cd, 0xf6b9265b, 0x6fb077e1, 0x18b74777,
  0x88085ae6, 0xff0f6a70, 0x66063bca, 0x11010b5c, 0x8f659eff, 0xf862ae69, 0x616bffd3, 0x166ccf45,
  0xa00ae278, 0xd70dd2ee, 0x4e048354, 0x3903b3c2, 0xa7672661, 0xd06016f7, 0x4969474d, 0x3e6e77db,
  0xaed16a4a, 0xd9d65adc, 0x40df0b66, 0x37d83bf0, 0xa9bcae53, 0xdebb9ec5, 0x47b2cf7f, 0x30b5ffe9,
  0xbdbdf21c, 0xcabac28a, 0x53b39330, 0x24b4a3a6, 0xbad03605, 0xcdd70693, 0x54de5729, 0x23d967bf,
  0xb3667a2e, 0xc4614ab8, 0x5d681b02, 0x2a6f2b94, 0xb40bbe37, 0xc30c8ea1, 0x5a05df1b, 0x2d02ef8d]

def iavbCrc32Tab : List (BitVec 32) := [
  0x00000000, 0x77073096, 0xee0e612c, 0x990951ba, 0x076dc419, 0x706af48f, 0xe963a535, 0x9e6495a3,
  0x0edb8832, 0x79dcb8a4, 0xe0d5e91e, 0x97d2d988, 0x09b64c2b, 0x7eb17cbd, 0xe7b82d07, 0x90bf1d91,
  0x1db71064, 0x6ab020f2, 0xf3b97148, 0x84be41de, 0x1adad47d, 0x6ddde4eb, 0xf4d4b551, 0x83d385c7,
  0x136c9856, 0x646ba8c0, 0xfd62f97a, 0x8a65c9ec, 0x14015c4f, 0x63066cd9, 0xfa0f3d63, 0x8d080df5,
  0x3b6e20c8, 0x4c69105e, 0xd56041e4, 0xa2677172, 0x3c03e4d1, 0x4b04d447, 0xd20d85fd, 0xa50ab56b,
  0x35b5a8fa, 0x42b2986c, 0xdbbbc9d6, 0xacbcf940, 0x32d86ce3, 0x45df5c75, 0xdcd60dcf, 0xabd13d59,
  0x26d930ac, 0x51de003a, 0xc8d75180, 0xbfd06116, 0x21b4f4b5, 0x56b3c423, 0xcfba9599, 0xb8bda50f,
  0x2802b89e, 0x5f058808, 0xc60cd9b2, 0xb10be924, 0x2f6f7c87, 0x58684c11, 0xc1611dab, 0xb6662d3d,
  0x76dc4190, 0x01db7106, 0x98d220bc, 0xefd5102a, 0x71b18589, 0x06b6b51f, 0x9fbfe4a5, 0xe8b8d433,
  0x7807c9a2, 0x0f00f934, 0x9609a88e, 0xe10e9818, 0x7f6a0dbb, 0x086d3d2d, 0x91646c97, 0xe6635c01,
  0x6b6b51f4, 0x1c6c6162, 0x856530d8, 0xf262004e, 0x6c0695ed, 0x1b01a57b, 0x8208f4c1, 0xf50fc457,
  0x65b0d9c6, 0x12b7e950, 0x8bbeb8ea, 0xfcb9887c, 0x62dd1ddf, 0x15da2d49, 0x8cd37cf3, 0xfbd44c65,
  0x4db26158, 0x3ab551ce, 0xa3bc0074, 0xd4bb30e2, 0x4adfa541, 0x3dd895d7, 0xa4d1c46d, 0xd3d6f4fb,
  0x4369e96a, 0x346ed9fc, 0xad678846, 0xda60b8d0, 0x44042d73, 0x33031de5, 0xaa0a4c5f, 0xdd0d7cc9,
  0x5005713c, 0x270241aa, 0xbe0b1010, 0xc90c2086, 0x5768b525, 0x206f85b3, 0xb966d409, 0xce61e49f,
  0x5edef90e, 0x29d9c998, 0xb0d09822, 0xc7d7a8b4, 0x59b33d17, 0x2eb40d81, 0xb7bd5c3b, 0xc0ba6cad,
  0xedb88320, 0x9abfb3b6, 0x03b6e20c, 0x74b1d29a, 0xead54739, 0x9dd277af, 0x04db2615, 0x73dc1683,
  0xe3630b12, 0x94643b84, 0x0d6d6a3e, 0x7a6a5aa8, 0xe40ecf0b, 0x9309ff9d, 0x0a00ae27, 0x7d079eb1,
  0xf00f9344, 0x8708a3d2, 0x1e01f268, 0x6906c2fe, 0xf762575d, 0x806567cb, 0x196c3671, 0x6e6b06e7,
  0xfed41b76, 0x89d32be0, 0x10da7a5a, 0x67dd4acc, 0xf9b9df6f, 0x8ebeeff9, 0x17b7be43, 0x60b08ed5,
  0xd6d6a3e8, 0xa1d1937e, 0x38d8c2c4, 0x4fdff252, 0xd1bb67f1, 0xa6bc5767, 0x3fb506dd, 0x48b2364b,
  0xd80d2bda, 0xaf0a1b4c, 0x36034af6, 0x41047a60, 0xdf60efc3, 0xa867df55, 0x316e8eef, 0x4669be79,
  0xcb61b38c, 0xbc66831a, 0x256fd2a0, 0x5268e236, 0xcc0c7795, 0xbb0b4703, 0x220216b9, 0x5505262f,
  0xc5ba3bbe, 0xb2bd0b28, 0x2bb45a92, 0x5cb36a04, 0xc2d7ffa7, 0xb5d0cf31, 0x2cd99e8b, 0x5bdeae1d,
  0x9b64c2b0, 0xec63f226, 0x756aa39c, 0x026d930a, 0x9c0906a9, 0xeb0e363f, 0x72076785, 0x05005713,
  0x95bf4a82, 0xe2b87a14, 0x7bb12bae, 0x0cb61b38, 0x92d28e9b, 0xe5d5be0d, 0x7cdcefb7, 0x0bdbdf21,
  0x86d3d2d4, 0xf1d4e242, 0x68ddb3f8, 0x1fda836e, 0x81be16cd, 0xf6b9265b, 0x6fb077e1, 0x18b74777,
  0x88085ae6, 0xff0f6a70, 0x66063bca, 0x11010b5c, 0x8f659eff, 0xf862ae69, 0x616bffd3, 0x166ccf45,
  0xa00ae278, 0xd70dd2ee, 0x4e048354, 0x3903b3c2, 0xa7672661, 0xd06016f7, 0x4969474d, 0x3e6e77db,
  0xaed16a4a, 0xd9d65adc, 0x40df0b66, 0x37d83bf0, 0xa9bcae53, 0xdebb9ec5, 0x47b2cf7f, 0x30b5ffe9,
  0xbdbdf21c, 0xcabac28a, 0x53b39330, 0x24b4a3a6, 0xbad03605, 0xcdd70693, 0x54de5729, 0x23d967bf,
  0xb3667a2e, 0xc4614ab8, 0x5d681b02, 0x2a6f2b94, 0xb40bbe37, 0xc30c8ea1, 0x5a05df1b, 0x2d02ef8d]

/-- The assignments `ret.bytes[0]` to `ret.bytes[3]` in the two byte order
functions. -/
def msbFirst (word : BitVec 32) : Vector UInt8 4 :=
  #v[⟨((word >>> 24) &&& 0xFF#32).setWidth 8⟩, ⟨((word >>> 16) &&& 0xFF#32).setWidth 8⟩,
    ⟨((word >>> 8) &&& 0xFF#32).setWidth 8⟩, ⟨((word >>> 0) &&& 0xFF#32).setWidth 8⟩]

/-! ## ab_meta -/

/-- `ab_meta_htonl`: the word of a union whose bytes were filled. -/
def abMetaHtonl (host : Endian) (word : BitVec 32) : BitVec 32 :=
  host.load (msbFirst word)

/-- `ab_meta_crc32`. -/
def abMetaCrc32 (crcIn : BitVec 32) (buf : Bytes) : BitVec 32 :=
  buf.foldl (ReflectedCrc.tableFeed gAbMiscCrc32Tab) (crcIn ^^^ ~~~ 0#32) ^^^ ~~~ 0#32

/-- `ab_meta_calc_crc`: over the record less its last four bytes. -/
def abMetaCalcCrc (host : Endian) (d : AbData) : BitVec 32 :=
  abMetaHtonl host (abMetaCrc32 0 d.body)

/-- The assignment `ab_meta_data.crc32 = ab_meta_calc_crc(&ab_meta_data)`. -/
def abMetaUpdateCrc (host : Endian) (d : AbData) : AbData :=
  { d with crc32 := host.store (abMetaCalcCrc host d) }

/-! ## ota -/

/-- `avb_htobe32`. -/
def avbHtobe32 (host : Endian) (word : BitVec 32) : BitVec 32 :=
  host.load (msbFirst word)

/-- `iavb_crc32`. -/
def iavbCrc32 (crcIn : BitVec 32) (buf : Bytes) : BitVec 32 :=
  buf.foldl (ReflectedCrc.tableFeed iavbCrc32Tab) (crcIn ^^^ ~~~ 0#32) ^^^ ~~~ 0#32

/-- `AvbABData_update_crc`. -/
def avbUpdateCrc (host : Endian) (d : AbData) : AbData :=
  { d with crc32 := host.store (avbHtobe32 host (iavbCrc32 0 d.body)) }

/-! ## What the stored word is -/

/-- The reflected generator polynomial of CRC-32. -/
def crc32Poly : BitVec 32 := 0xEDB88320

theorem gAbMiscCrc32Tab_entry :
    ∀ i < 256, gAbMiscCrc32Tab.getD i 0 = ReflectedCrc.shiftBits crc32Poly 8 (BitVec.ofNat 32 i) := by
  decide +kernel

theorem iavbCrc32Tab_entry :
    ∀ i < 256, iavbCrc32Tab.getD i 0 = ReflectedCrc.shiftBits crc32Poly 8 (BitVec.ofNat 32 i) := by
  decide +kernel

/-- CRC-32, bit by bit. -/
abbrev crc32 (crcIn : BitVec 32) (buf : Bytes) : BitVec 32 :=
  ReflectedCrc.checksum crc32Poly crcIn buf

theorem foldl_tableFeed_eq_crc32 {tab : List (BitVec 32)}
    (htab : ∀ i < 256, tab.getD i 0 = ReflectedCrc.shiftBits crc32Poly 8 (BitVec.ofNat 32 i))
    (crcIn : BitVec 32) (buf : Bytes) :
    buf.foldl (ReflectedCrc.tableFeed tab) (crcIn ^^^ ~~~ 0#32) ^^^ ~~~ 0#32 = crc32 crcIn buf := by
  have hones : ~~~ 0#32 = BitVec.allOnes 32 := rfl
  rw [ReflectedCrc.foldl_tableFeed crc32Poly htab, hones, BitVec.xor_allOnes, BitVec.xor_allOnes,
    crc32, ReflectedCrc.checksum]

theorem abMetaCrc32_eq (crcIn : BitVec 32) (buf : Bytes) :
    abMetaCrc32 crcIn buf = crc32 crcIn buf :=
  foldl_tableFeed_eq_crc32 gAbMiscCrc32Tab_entry crcIn buf

theorem iavbCrc32_eq (crcIn : BitVec 32) (buf : Bytes) : iavbCrc32 crcIn buf = crc32 crcIn buf :=
  foldl_tableFeed_eq_crc32 iavbCrc32Tab_entry crcIn buf

-- the check value of CRC-32, over "123456789"
example : iavbCrc32 0 [0x31, 0x32, 0x33, 0x34, 0x35, 0x36, 0x37, 0x38, 0x39] = 0xCBF43926 := by
  decide +kernel

namespace AbData

/-- The record with the four bytes of `crc32` set to the big-endian CRC-32 of the
rest. -/
def refreshCrc (d : AbData) : AbData :=
  { d with crc32 := Endian.big.store (ReflectedCrc.checksum crc32Poly 0 d.body) }

@[simp] theorem slots_refreshCrc (d : AbData) : d.refreshCrc.slots = d.slots := slots_crc32 d _
@[simp] theorem lastBoot_refreshCrc (d : AbData) : d.refreshCrc.lastBoot = d.lastBoot := rfl
@[simp] theorem magic_refreshCrc (d : AbData) : d.refreshCrc.magic = d.magic := rfl
@[simp] theorem body_refreshCrc (d : AbData) : d.refreshCrc.body = d.body := rfl

end AbData

theorem setWidth_shift_lowByte (word : BitVec 32) (k : Nat) :
    ((word >>> k) &&& 0xFF#32).setWidth 8 = word.extractLsb' k 8 := by
  ext i hi
  have hmask : (0xFF#32).getLsbD i = true := by
    rw [BitVec.getLsbD_ofNat, show (0xFF : Nat) = 2 ^ 8 - 1 from rfl, Nat.testBit_two_pow_sub_one]
    simp
    omega
  simp only [BitVec.getElem_setWidth, BitVec.getLsbD_and, BitVec.getLsbD_ushiftRight, hmask,
    Bool.and_true, BitVec.getElem_extractLsb']

/-- The filled bytes are the word in network byte order. -/
theorem msbFirst_eq_store (word : BitVec 32) : msbFirst word = Endian.big.store word := by
  simp only [msbFirst, Endian.store, setWidth_shift_lowByte]

theorem abMetaUpdateCrc_eq (host : Endian) (d : AbData) :
    abMetaUpdateCrc host d = d.refreshCrc := by
  rw [abMetaUpdateCrc, abMetaCalcCrc, abMetaHtonl, Endian.store_load, msbFirst_eq_store,
    abMetaCrc32_eq, AbData.refreshCrc]

theorem avbUpdateCrc_eq (host : Endian) (d : AbData) : avbUpdateCrc host d = d.refreshCrc := by
  rw [avbUpdateCrc, avbHtobe32, Endian.store_load, msbFirst_eq_store, iavbCrc32_eq,
    AbData.refreshCrc]

/-- The four bytes of a word, most significant first. -/
def bigEndianBytes (word : BitVec 32) : Bytes :=
  [3, 2, 1, 0].map fun k => UInt8.ofNat (word.toNat / 256 ^ k)

theorem store_big_toList (word : BitVec 32) :
    (Endian.big.store word).toList = bigEndianBytes word := by
  have hbyte : ∀ k, (⟨word.extractLsb' (8 * k) 8⟩ : UInt8) =
      UInt8.ofNat (word.toNat / 256 ^ k) := by
    intro k
    have hpow : 256 ^ k = 2 ^ (8 * k) := by rw [Nat.pow_mul]
    apply UInt8.toNat_inj.mp
    rw [UInt8.toNat_ofNat', hpow, ← Nat.shiftRight_eq_div_pow]
    exact BitVec.extractLsb'_toNat (8 * k) 8 word
  have hstore : (Endian.big.store word).toList =
      [3, 2, 1, 0].map fun k => (⟨word.extractLsb' (8 * k) 8⟩ : UInt8) := rfl
  rw [hstore, funext hbyte]
  rfl

/-- Refreshing the checksum leaves bytes 0..27 and puts their CRC-32 after them. -/
theorem AbData.toBytes_refreshCrc (d : AbData) :
    d.refreshCrc.toBytes = d.toBytes.take 28 ++ bigEndianBytes (LinuxOta.crc32 0 (d.toBytes.take 28)) := by
  have hbody : d.toBytes.take 28 = d.body := by
    rw [toBytes, ← d.body_length, List.take_left]
  rw [hbody, ← store_big_toList]
  rfl

/-- Both checksum functions compute CRC-32, and both modules store it in network byte
order behind the bytes it covers, on every host. -/
theorem stored_checksum_correct :
    (∀ (crcIn : BitVec 32) (buf : Bytes),
      abMetaCrc32 crcIn buf = iavbCrc32 crcIn buf ∧
      iavbCrc32 crcIn buf = ReflectedCrc.checksum crc32Poly crcIn buf) ∧
    ∀ (host : Endian) (d : AbData),
      (abMetaUpdateCrc host d).toBytes =
        d.toBytes.take 28 ++ bigEndianBytes (ReflectedCrc.checksum crc32Poly 0 (d.toBytes.take 28)) ∧
      (avbUpdateCrc host d).toBytes =
        d.toBytes.take 28 ++ bigEndianBytes (ReflectedCrc.checksum crc32Poly 0 (d.toBytes.take 28)) := by
  constructor
  · intro crcIn buf
    rw [abMetaCrc32_eq, iavbCrc32_eq]
    exact ⟨rfl, rfl⟩
  · intro host d
    rw [abMetaUpdateCrc_eq, avbUpdateCrc_eq]
    exact ⟨d.toBytes_refreshCrc, d.toBytes_refreshCrc⟩

end LinuxOta
