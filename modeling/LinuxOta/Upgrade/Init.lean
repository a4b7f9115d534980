-- SUMMARY: `rk_upgrade_init`, and which directories and devices the path checks of the updater let through.
import LinuxOta.Upgrade.DlUpgrade

namespace LinuxOta

/-! # Confinement of paths

Both checks compare a path with a fixed string in lexicographic order. A `Char` of a path stands
for one byte, also where it is not ASCII. -/

/-- The path is `root` or lies below it. -/
def Confined (root path : String) : Prop :=
  path = root ∨ (root ++ "/").toList <+: path.toList

instance (root path : String) : Decidable (Confined root path) :=
  inferInstanceAs (Decidable (_ ∨ _))

namespace Upgrade

/-- `g_upgrade_ctrl`, as far as `rk_upgrade_init` writes it. -/
structure UpgradeDirs extends UpgradeCtrl where
  backupDir : String
  deriving DecidableEq, Repr

/-- `UPGRADE_VALID_DIR_PREFIX`. -/
def upgradeValidDirPrefix : String := "/userdata"

/-- What the calls made by `rk_upgrade_init` answer for a path. -/
structure InitAnswers where
  realpath : String → Option String
  access : String → Bool
  mkdir : String → Bool

/-- A path as `snprintf` stores it, with a size one below the 128 bytes of the array. -/
def storedDir (path : String) : String := String.ofList (path.toList.take 126)

/-- `rk_upgrade_init`. Null pointers are `none`, and `realpath` fails for them. -/
def rkUpgradeInit (a : InitAnswers) (ctrl : UpgradeDirs) (backupDir tempDir : Option String) :
    Int × UpgradeDirs :=
  match tempDir with
  | none => (-1, ctrl)
  | some tempDir =>
    if ctrl.isInit then (0, ctrl)
    else match backupDir.bind a.realpath with
      | none => (-1, ctrl)
      | some fullBackupPath => match a.realpath tempDir with
        | none => (-1, ctrl)
        | some fullTempPath =>
          if fullBackupPath < upgradeValidDirPrefix then (-1, ctrl)
          else if fullTempPath < upgradeValidDirPrefix then (-1, ctrl)
          else if !a.access fullBackupPath && !a.mkdir fullBackupPath then (-1, ctrl)
          else if !a.access fullTempPath && !a.mkdir fullTempPath then (-1, ctrl)
          else
            (0, { isInit := true, tempDir := storedDir fullTempPath, backupDir := storedDir fullBackupPath })

/-- The directory exists or can be made. -/
def InitAnswers.Provides (a : InitAnswers) (path : String) : Prop :=
  a.access path = true ∨ a.mkdir path = true

/-- The directories pass every check of a first call. -/
structure InitAnswers.LetsThrough (a : InitAnswers) (fullBackup fullTemp : String) : Prop where
  backup : ¬ fullBackup < upgradeValidDirPrefix
  temp : ¬ fullTemp < upgradeValidDirPrefix
  backupProvided : a.Provides fullBackup
  tempProvided : a.Provides fullTemp

/-- If the call succeeds, both resolved paths are confined, and they are what is stored. -/
def InitConfines (a : InitAnswers) (ctrl : UpgradeDirs) (backupDir tempDir fullBackup fullTemp : String) :
    Prop :=
  (rkUpgradeInit a ctrl (some backupDir) (some tempDir)).1 = 0 →
    Confined upgradeValidDirPrefix fullBackup ∧ Confined upgradeValidDirPrefix fullTemp ∧
      (rkUpgradeInit a ctrl (some backupDir) (some tempDir)).2.backupDir = fullBackup ∧
      (rkUpgradeInit a ctrl (some backupDir) (some tempDir)).2.tempDir = fullTemp

section
variable {a : InitAnswers} {ctrl : UpgradeDirs} {backupDir tempDir fullBackup fullTemp : String}

theorem storedDir_eq_iff (path : String) : storedDir path = path ↔ path.toList.length ≤ 126 := by
  constructor
  · intro h
    rw [← h, storedDir, String.toList_ofList, List.length_take]
    exact Nat.min_le_left _ _
  · intro h
    rw [storedDir, List.take_of_length_le h, String.ofList_toList]

/-- A first call stores the directories when they pass the checks, and fails otherwise. -/
theorem rkUpgradeInit_first (hinit : ctrl.isInit = false) (hbackup : a.realpath backupDir = some fullBackup)
    (htemp : a.realpath tempDir = some fullTemp) :
    (a.LetsThrough fullBackup fullTemp →
      rkUpgradeInit a ctrl (some backupDir) (some tempDir) =
        (0, { isInit := true, tempDir := storedDir fullTemp, backupDir := storedDir fullBackup })) ∧
    (¬ a.LetsThrough fullBackup fullTemp →
      rkUpgradeInit a ctrl (some backupDir) (some tempDir) = (-1, ctrl)) := by
  have hprovides : ∀ path, (!a.access path && !a.mkdir path) = true ↔ ¬ a.Provides path := by
    intro path
    simp [InitAnswers.Provides]
  simp only [rkUpgradeInit, hinit, hbackup, htemp, Option.bind_some, Bool.false_eq_true, ↓reduceIte]
  by_cases hb : fullBackup < upgradeValidDirPrefix
  · rw [if_pos hb]
    exact ⟨fun h => absurd hb h.backup, fun _ => rfl⟩
  rw [if_neg hb]
  by_cases ht : fullTemp < upgradeValidDirPrefix
  · rw [if_pos ht]
    exact ⟨fun h => absurd ht h.temp, fun _ => rfl⟩
  rw [if_neg ht]
  by_cases hpb : a.Provides fullBackup
  swap
  · rw [if_pos ((hprovides _).mpr hpb)]
    exact ⟨fun h => absurd h.backupProvided hpb, fun _ => rfl⟩
  rw [if_neg fun h => (hprovides _).mp h hpb]
  by_cases hpt : a.Provides fullTemp
  swap
  · rw [if_pos ((hprovides _).mpr hpt)]
    exact ⟨fun h => absurd h.tempProvided hpt, fun _ => rfl⟩
  rw [if_neg fun h => (hprovides _).mp h hpt]
  exact ⟨fun _ => rfl, fun h => absurd ⟨hb, ht, hpb, hpt⟩ h⟩

theorem initConfines_first_iff (hinit : ctrl.isInit = false)
    (hbackup : a.realpath backupDir = some fullBackup) (htemp : a.realpath tempDir = some fullTemp) :
    InitConfines a ctrl backupDir tempDir fullBackup fullTemp ↔
      (a.LetsThrough fullBackup fullTemp →
        Confined upgradeValidDirPrefix fullBackup ∧ Confined upgradeValidDirPrefix fullTemp ∧
          fullBackup.toList.length ≤ 126 ∧ fullTemp.toList.length ≤ 126) := by
  obtain ⟨hpass, hfail⟩ := rkUpgradeInit_first hinit hbackup htemp
  unfold InitConfines
  by_cases hlets : a.LetsThrough fullBackup fullTemp
  · rw [hpass hlets]
    simp only [storedDir_eq_iff, hlets, forall_const]
  · rw [hfail hlets]
    simp [hlets]

/-- A further call succeeds without a look at its arguments. -/
theorem initConfines_again_iff (hinit : ctrl.isInit = true) :
    InitConfines a ctrl backupDir tempDir fullBackup fullTemp ↔
      Confined upgradeValidDirPrefix fullBackup ∧ Confined upgradeValidDirPrefix fullTemp ∧
        ctrl.backupDir = fullBackup ∧ ctrl.tempDir = fullTemp := by
  simp [InitConfines, rkUpgradeInit, hinit]

end

/-! ## Devices -/

/-- The driver's `open` is called: what it answers makes a difference. -/
def AsksDriver (g : FlashCtrl) (path : String) (m : Machine) : Prop :=
  ∃ opened opened', dlFlashOpenByName g opened path m ≠ dlFlashOpenByName g opened' path m

theorem asksDriver_iff (g : FlashCtrl) (path : String) (m : Machine) :
    AsksDriver g path m ↔ g.isInit = true ∧ ¬ path < flashDevPrefix := by
  constructor
  · rintro ⟨opened, opened', hne⟩
    by_contra hnot
    rw [not_and, not_not] at hnot
    apply hne
    cases hinit : g.isInit with
    | false => simp [dlFlashOpenByName, hinit]
    | true => simp [dlFlashOpenByName, hnot hinit]
  · rintro ⟨hinit, hpath⟩
    refine ⟨0, -1, ?_⟩
    simp [dlFlashOpenByName, hinit, hpath]

/-- The first call of `rk_upgrade_init` confines the directories if and only if those that pass
its checks lie in `/userdata` and have at most 126 characters, a further call if and only if
this is what was stored before; and the flash layer confines a path if and only if it is not
initialised, or the path sorts before `/dev`, or it lies in `/dev`. -/
theorem confinement_iff (a : InitAnswers) (ctrl : UpgradeDirs)
    (backupDir tempDir fullBackup fullTemp : String) (hbackup : a.realpath backupDir = some fullBackup)
    (htemp : a.realpath tempDir = some fullTemp) (g : FlashCtrl) (path : String) (m : Machine) :
    (InitConfines a ctrl backupDir tempDir fullBackup fullTemp ↔
      (ctrl.isInit = false → a.LetsThrough fullBackup fullTemp →
        Confined upgradeValidDirPrefix fullBackup ∧ Confined upgradeValidDirPrefix fullTemp ∧
          fullBackup.toList.length ≤ 126 ∧ fullTemp.toList.length ≤ 126) ∧
      (ctrl.isInit = true →
        Confined upgradeValidDirPrefix fullBackup ∧ Confined upgradeValidDirPrefix fullTemp ∧
          ctrl.backupDir = fullBackup ∧ ctrl.tempDir = fullTemp)) ∧
    ((AsksDriver g path m → Confined flashDevPrefix path) ↔
      g.isInit = false ∨ path < flashDevPrefix ∨ Confined flashDevPrefix path) := by
  constructor
  · cases hinit : ctrl.isInit with
    | false =>
      rw [initConfines_first_iff hinit hbackup htemp]
      simp
    | true =>
      rw [initConfines_again_iff hinit]
      simp
  · rw [asksDriver_iff]
    cases hinit : g.isInit with
    | false => simp
    | true =>
      by_cases hpath : path < flashDevPrefix
      · simp [hpath]
      · simp [hpath]

/-- Every path is resolved to itself, and every directory exists. -/
def InitAnswers.plain : InitAnswers := ⟨some, fun _ => true, fun _ => false⟩

theorem confinement_userdata :
    InitConfines .plain ⟨⟨false, ""⟩, ""⟩ "/userdata/b" "/userdata/t" "/userdata/b" "/userdata/t" ∧
      (AsksDriver ⟨true, 512⟩ "/dev/block/by-name/misc" ⟨fun _ => none, fun _ _ => 0, [], []⟩ →
        Confined flashDevPrefix "/dev/block/by-name/misc") := by
  obtain ⟨hinit, hdriver⟩ := confinement_iff .plain ⟨⟨false, ""⟩, ""⟩ "/userdata/b" "/userdata/t"
    "/userdata/b" "/userdata/t" rfl rfl ⟨true, 512⟩ "/dev/block/by-name/misc" ⟨fun _ => none, fun _ _ => 0, [], []⟩
  exact ⟨hinit.mpr ⟨fun _ _ => by decide, fun h => absurd h (by decide)⟩, hdriver.mpr (by decide)⟩

/-- `/var` sorts behind `/userdata`, and `/etc/passwd` behind `/dev`. -/
theorem confinement_fails :
    ¬ InitConfines .plain ⟨⟨false, ""⟩, ""⟩ "/var" "/var" "/var" "/var" ∧
      ¬ (AsksDriver ⟨true, 512⟩ "/etc/passwd" ⟨fun _ => none, fun _ _ => 0, [], []⟩ →
        Confined flashDevPrefix "/etc/passwd") := by
  constructor
  · intro h
    exact absurd (h (by decide)).1 (by decide)
  · intro h
    refine absurd (h ⟨0, -1, fun heq => ?_⟩) (by decide)
    exact absurd (congrArg Prod.fst heq) (by decide)

end Upgrade
end LinuxOta
