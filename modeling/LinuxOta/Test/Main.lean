-- SUMMARY: The test program: what its options do, and which bytes of which devices a run can change.
import LinuxOta.AbMeta.Durability
import LinuxOta.Upgrade.Init
import LinuxOta.Upgrade.Packet

namespace LinuxOta

/-! # The test program -/

namespace Test

/-- `UPGRADE_BACKUP_DIR`. -/
def upgradeBackupDir : String := "/userdata/upgrade/backup"

/-- `UPGRADE_TEMP_DIR`. -/
def upgradeTempDir : String := "/userdata/upgrade/temp"

/-- What the calls made by `main` answer. -/
structure MainAnswers where
  /-- `open` and `read` in `get_flash_type`. -/
  cmdlineOpen : Int
  cmdlineRead : Int
  init : Upgrade.InitAnswers
  /-- For a packet, less the switch at its end. -/
  packet : Upgrade.PacketAnswers
  /-- The system calls behind an operation on the record. -/
  os : AbMeta.OsAnswers

/-- `g_flash_ctrl` after `dl_flash_init` in a new process. -/
def MainAnswers.flash (a : MainAnswers) (m : Machine) : FlashState :=
  (dlFlashInit a.cmdlineOpen a.cmdlineRead m.cmdline ⟨⟨false, 0⟩, none⟩).2

/-- `g_upgrade_ctrl` after `rk_upgrade_init` in a new process. -/
def MainAnswers.dirs (a : MainAnswers) : Upgrade.UpgradeCtrl :=
  (Upgrade.rkUpgradeInit a.init ⟨⟨false, ""⟩, ""⟩ (some upgradeBackupDir) (some upgradeTempDir)).2.toUpgradeCtrl

/-- The answers for a packet, with those of the installed driver for the switch. -/
def MainAnswers.onPacket (a : MainAnswers) (m : Machine) : Upgrade.PacketAnswers :=
  { a.packet with activate := (a.flash m).answers a.os }

/-- `opt`. -/
def opt (argv : List String) : Char :=
  match argv[1]?.map String.toList with
  | some ('-' :: c :: _) => c
  | _ => Char.ofNat 0

/-- `main`. -/
def main (host : Endian) (a : MainAnswers) (argv : List String) (m : Machine) : Int × Machine :=
  let st := a.flash m
  let m :=
    match opt argv with
    | 'g' => (AbMeta.currentSlotOn st a.os m).2
    -- `test_read_misc` reads nothing
    | 'r' => m
    | 'u' =>
      match argv with
      | [_, _, packet] => (Upgrade.packet st.ctrl host a.dirs (a.onPacket m) (some packet) m).2
      | _ => m
    | 's' => (AbMeta.switchOn st a.os m host).2
    -- `rk_ab_meta_get_running_slot` reads the command line only
    | _ => m
  (0, m)

end Test

/-! ## What an operation changes -/

section
variable {m m' : Machine} {path : String} {j : Nat}

/-- Byte `j` of the device at `path` belongs to the record. -/
def InRecord (path : String) (j : Nat) : Prop :=
  path = miscPath ∧ metaDataOffset ≤ j ∧ j < metaDataOffset + 32

theorem handedMisc_ne {write : WriteAnswer} {misc : Content} {d : Option AbData}
    (h : handedMisc write.onRecord misc d j ≠ misc j) :
    d ≠ none ∧ write ≠ .ignored ∧ metaDataOffset ≤ j ∧ j < metaDataOffset + 32 := by
  cases d with
  | none => exact absurd rfl h
  | some d =>
    have hle : (d.toBytes.take (write.reached d.toBytes.length)).length ≤ 32 := by
      rw [List.length_take, AbData.toBytes_length]
      exact Nat.min_le_right _ _
    refine ⟨by simp, ?_, ?_, ?_⟩
    · rintro rfl
      exact h (congrFun (Content.overwrite_nil misc metaDataOffset) j)
    · by_contra hbefore
      exact h (Content.overwrite_before (Nat.not_le.mp hbefore))
    · by_contra hbehind
      exact h (Content.overwrite_after (by omega))

/-- An operation on the record changes no other byte. -/
theorem RecordChange.changes {write : WriteAnswer} {d : Option AbData} (h : RecordChange write.onRecord d m m')
    (hne : m'.devs path j ≠ m.devs path j) : d ≠ none ∧ write ≠ .ignored ∧ InRecord path j := by
  rw [h.devs] at hne
  by_cases hpath : path = miscPath
  · subst hpath
    rw [Function.update_self] at hne
    obtain ⟨hd, hwrite, hrange⟩ := handedMisc_ne hne
    exact ⟨hd, hwrite, rfl, hrange⟩
  · rw [Function.update_of_ne hpath] at hne
    exact absurd rfl hne

end

namespace Upgrade

variable {g : FlashCtrl} {host : Endian} {ctrl : UpgradeCtrl} {a : PacketAnswers} {m : Machine} {q : String}
  {path : String} {j : Nat}

/-- With a block size of 0 no image is copied. -/
theorem ImageRun.store_of_blockSize {image : ImageAnswers} {url dest : String} {file : Option Bytes}
    {o : ImageOutcome} (h : ImageRun g image url dest file o) (hzero : g.blockSize = 0) : o.store = id := by
  rcases h.copies_or_not with ⟨-, -, hstore, -⟩ | ⟨img, t, halt, hcopies, -⟩
  · exact hstore
  · exact absurd hzero hcopies.ready.blockSize

theorem ImagesRun.devs_of_blockSize {image : Part → ImageAnswers} {dir : String} {slot : Slot}
    {files : String → Option Bytes} {ps : List Part} {ret ret' : Int} {devs devs' : String → Content}
    {acts : List Event} (h : ImagesRun g image dir slot files ps ret devs acts ret' devs')
    (hzero : g.blockSize = 0) : devs' = devs := by
  induction h with
  | done => rfl
  | stopped hrun hneg => rw [hrun.store_of_blockSize hzero, id, Function.update_eq_self]
  | next hrun hnonneg rest ih => rw [ih, hrun.store_of_blockSize hzero, id, Function.update_eq_self]

/-- A byte that a call changes belongs to a partition of the slot that does not run, and the
block size is positive; or it belongs to the record, and the call reports success. -/
theorem packet_changes
    (hne : (packet g host ctrl a (some q) m).2.devs path j ≠ m.devs path j) :
    ∃ slot, a.Starts ctrl m slot ∧
      (g.blockSize ≠ 0 ∧ (∃ part, path = destPath part slot.other) ∨
        a.Reports g ctrl m q slot ∧ a.activate.switched g m ≠ none ∧ a.activate.write ≠ .ignored ∧
          InRecord path j) := by
  obtain ⟨ret, acts, devs, hrun, -, -, hdevs⟩ := packet_run g host ctrl a m (some q)
  rw [hdevs] at hne
  by_cases hmisc : path = miscPath
  · subst hmisc
    rcases hrun.reports_or_not with
      ⟨q', slot, images, imageDevs, hq, hreports, -, himages, -, rfl⟩ | ⟨-, -, hsame, -⟩
    · obtain rfl := Option.some.inj hq
      rw [Function.update_self] at hne
      obtain ⟨hd, hwrite, hrange⟩ := handedMisc_ne hne
      exact ⟨slot, hreports.starts, .inr ⟨hreports, hd, hwrite, rfl, hrange⟩⟩
    · exact absurd (congrFun hsame j) hne
  · obtain ⟨slot, part, hstarts, hpath⟩ : ∃ slot part, a.Starts ctrl m slot ∧ path = destPath part slot.other := by
      by_contra hnot
      refine hne (congrFun (hrun.devs_of_ne hmisc fun slot part hstarts hpath => ?_) j)
      exact hnot ⟨slot, part, hstarts, hpath⟩
    refine ⟨slot, hstarts, .inl ⟨fun hzero => hne ?_, part, hpath⟩⟩
    cases hrun with
    | refused => rfl
    | notUnpacked => rfl
    | imageFailed _ _ himages _ => rw [himages.devs_of_blockSize hzero]
    | finished _ _ himages _ => rw [Function.update_of_ne hmisc, himages.devs_of_blockSize hzero]

end Upgrade

/-! ## What a run changes -/

namespace Test

variable {host : Endian} {a : MainAnswers} {argv : List String} {m : Machine} {path : String} {j : Nat}

/-- The flash layer in a new process: eMMC, or a block size of 0 and no write that stores. -/
theorem MainAnswers.flash_cases (a : MainAnswers) (m : Machine) :
    getFlashType a.cmdlineOpen a.cmdlineRead m.cmdline = some .emmc ∨
      (a.flash m).ctrl.blockSize = 0 ∧
        ((a.flash m).ctrl.isInit = false ∨ ((a.flash m).answers a.os).write = .ignored) := by
  rw [MainAnswers.flash, dlFlashInit]
  cases htype : getFlashType a.cmdlineOpen a.cmdlineRead m.cmdline with
  | none => exact .inr ⟨rfl, .inl rfl⟩
  | some t =>
    cases t with
    | emmc => exact .inl rfl
    | spiNand => exact .inr ⟨rfl, .inr rfl⟩
    | spiNor => exact .inr ⟨rfl, .inr rfl⟩
    | butt => exact .inr ⟨rfl, .inl rfl⟩

/-- A record is handed over and stored on eMMC only. -/
theorem emmc_of_switched (hd : ((a.flash m).answers a.os).switched (a.flash m).ctrl m ≠ none)
    (hwrite : ((a.flash m).answers a.os).write ≠ .ignored) :
    getFlashType a.cmdlineOpen a.cmdlineRead m.cmdline = some .emmc := by
  rcases a.flash_cases m with hemmc | ⟨-, hinit | hignored⟩
  · exact hemmc
  · obtain ⟨d, hd⟩ := Option.ne_none_iff_exists'.mp hd
    obtain ⟨⟨hopens, -⟩, -⟩ := AbMeta.MetaAnswers.switched_eq_some_iff.mp hd
    rw [hopens.1] at hinit
    cases hinit
  · exact absurd hignored hwrite

/-- `rk_ab_meta_get_current_slot` only reads. -/
theorem currentSlotOn_devs (st : FlashState) (os : AbMeta.OsAnswers) (m : Machine) :
    (AbMeta.currentSlotOn st os m).2.devs = m.devs := by
  have hread : (AbMeta.readData st.ctrl (st.answers os).openRead (st.answers os).read m).2.2.devs = m.devs := by
    by_cases h : st.ctrl.Opens (st.answers os).openRead ∧ (st.answers os).read ≠ .failed
    · rw [AbMeta.readData_ok h.1 h.2]
    · obtain ⟨d, evs, -, heq⟩ := AbMeta.readData_fails (m := m) h
      rw [heq]
  rw [AbMeta.currentSlotOn, AbMeta.rkGetCurrentSlot]
  dsimp only
  split
  · exact hread
  · exact hread

/-- A byte that a run of the program changes lies on eMMC, and either belongs to the record, and
the run is a switch or an update that reports success; or it belongs to a partition of the slot
that the command line does not name, and the run is an update. -/
theorem main_changes (host : Endian) (a : MainAnswers) (argv : List String) (m : Machine) (path : String)
    (j : Nat) (hne : (main host a argv m).2.devs path j ≠ m.devs path j) :
    getFlashType a.cmdlineOpen a.cmdlineRead m.cmdline = some .emmc ∧
      (opt argv = 's' ∧ InRecord path j ∨
        opt argv = 'u' ∧ ∃ slot, AbMeta.getRunningSlot a.packet.cmdline m = some slot ∧
          ((∃ part, path = destPath part slot.other) ∨
            InRecord path j ∧ ∃ program option packet, argv = [program, option, packet] ∧
              (a.onPacket m).Reports (a.flash m).ctrl a.dirs m packet slot)) := by
  unfold main at hne
  dsimp only at hne
  split at hne
  · rw [currentSlotOn_devs] at hne
    exact absurd rfl hne
  · exact absurd rfl hne
  · rename_i hopt
    split at hne
    · rename_i program option packet
      obtain ⟨slot, hstarts, hcases⟩ := Upgrade.packet_changes hne
      rcases hcases with ⟨hblock, hpart⟩ | ⟨hreports, hd, hwrite, hrange⟩
      · have hemmc := (a.flash_cases m).resolve_right fun h => hblock h.1
        exact ⟨hemmc, .inr ⟨hopt, slot, hstarts.cmdline, .inl hpart⟩⟩
      · exact ⟨emmc_of_switched hd hwrite, .inr ⟨hopt, slot, hstarts.cmdline,
          .inr ⟨hrange, program, option, packet, rfl, hreports⟩⟩⟩
    · exact absurd rfl hne
  · rename_i hopt
    obtain ⟨hd, hwrite, hrange⟩ := (AbMeta.activeAnotherSlot_effect host).toRecordChange.changes hne
    exact ⟨emmc_of_switched hd hwrite, .inl ⟨hopt, hrange⟩⟩
  · exact absurd rfl hne

/-- All calls succeed, on a machine whose command line is read as far as 100 bytes. -/
def MainAnswers.healthy : MainAnswers where
  cmdlineOpen := 3
  cmdlineRead := 100
  init := .plain
  packet := .faultless upgradeTempDir fun _ => none
  os := .healthy

/-- A switch from slot `a` lowers its priority, at offset 2056. -/
theorem main_changes_switch :
    getFlashType 3 100 (AbMeta.deviceWith "emmc" .a).cmdline = some .emmc ∧ InRecord miscPath 2056 := by
  have hchanges := main_changes .little .healthy ["test", "-s"] (AbMeta.deviceWith "emmc" .a) miscPath 2056
    (by decide +kernel)
  refine ⟨hchanges.1, ?_⟩
  rcases hchanges.2 with ⟨-, hrange⟩ | ⟨hopt, -⟩
  · exact hrange
  · exact absurd hopt (by decide)

end Test
end LinuxOta
