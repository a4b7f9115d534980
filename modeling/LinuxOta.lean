import LinuxOta.Base.Bytes
import LinuxOta.Base.CString
import LinuxOta.Base.Numerals
import LinuxOta.Base.Scanf
import LinuxOta.Base.Hex
import LinuxOta.Base.Stores
import LinuxOta.Base.Bcd
import LinuxOta.Base.ReflectedCrc
import LinuxOta.Base.BurstErrors
import LinuxOta.Base.Int32
import LinuxOta.Base.Run
import LinuxOta.Base.Loop
import LinuxOta.Base.Journal
import LinuxOta.Base.Crash
import LinuxOta.Base.Lease
import LinuxOta.Base.Blocks
import LinuxOta.Base.Picks
import LinuxOta.Base.Census
import LinuxOta.Base.Ring
import LinuxOta.Base.Race
import LinuxOta.Base.Trial
import LinuxOta.System.LongWidth
import LinuxOta.System.Machine
import LinuxOta.Flash.DlFlash
import LinuxOta.Flash.FlashType
import LinuxOta.Flash.EmmcFlash
import LinuxOta.Flash.EmmcAccess
import LinuxOta.Flash.MtdScan
import LinuxOta.Flash.MtdTable
import LinuxOta.Flash.MtdChunks
import LinuxOta.Flash.MtdFlash
import LinuxOta.Flash.MtdSafety
import LinuxOta.Flash.MtdStream
import LinuxOta.Flash.MtdBadList
import LinuxOta.Flash.MtdWidths
import LinuxOta.Flash.MtdOffsets
import LinuxOta.Flash.MtdMedium
import LinuxOta.Flash.MtdReading
import LinuxOta.Flash.MtdLaw
import LinuxOta.Flash.MtdErase
import LinuxOta.Flash.MtdCrash
import LinuxOta.Flash.MtdSkip
import LinuxOta.Flash.MtdFaults
import LinuxOta.Flash.MtdLarge
import LinuxOta.AbMeta.Record
import LinuxOta.AbMeta.Checksum
import LinuxOta.AbMeta.BurstErrors
import LinuxOta.AbMeta.Selection
import LinuxOta.AbMeta.SlotCalls
import LinuxOta.AbMeta.RunningSlot
import LinuxOta.AbMeta.CommandLine
import LinuxOta.AbMeta.Meta
import LinuxOta.AbMeta.LastBoot
import LinuxOta.AbMeta.Durability
import LinuxOta.Upgrade.DlUpgrade
import LinuxOta.Upgrade.Init
import LinuxOta.Upgrade.CopyLoop
import LinuxOta.Upgrade.Partition
import LinuxOta.Upgrade.PartialCopy
import LinuxOta.Upgrade.Descriptors
import LinuxOta.Upgrade.Buffers
import LinuxOta.Test.PtSemaphore
import LinuxOta.Test.TimedWait
import LinuxOta.Test.TimedSemaphore
import LinuxOta.Test.SemCtrl
import LinuxOta.Test.List
import LinuxOta.Test.Main
import LinuxOta.Test.ListWalk
import LinuxOta.Test.Utils
import LinuxOta.Upgrade.Images
import LinuxOta.Upgrade.Packet
import LinuxOta.Upgrade.ActivationSafety
import LinuxOta.Upgrade.BootDecision
import LinuxOta.Upgrade.Leftovers
import LinuxOta.Upgrade.RunningSystem
import LinuxOta.Ota.Bootloader
import LinuxOta.Ota.MiscUpdate
import LinuxOta.Ota.MiscImages
import LinuxOta.Ota.BlockWrite
import LinuxOta.Ota.Misc
import LinuxOta.Ota.MiscAnswers
import LinuxOta.Ota.MiscBadBlocks
import LinuxOta.Ota.MiscUsers
import LinuxOta.Ota.MiscRace
import LinuxOta.Ota.MiscCrash
import LinuxOta.Ota.Md5sum
import LinuxOta.Ota.CompareFile
import LinuxOta.Ota.ImageCopy
import LinuxOta.Ota.BlockUpdate
import LinuxOta.Upgrade.Writers
import LinuxOta.Upgrade.HealthyUpdate
import LinuxOta.Boot.FlashedSlot
import LinuxOta.Boot.BootLoader
import LinuxOta.Boot.Rollback
import LinuxOta.Boot.Confirm
import LinuxOta.Boot.RecordRuns
import LinuxOta.Boot.Validation
import LinuxOta.Boot.Switching
import LinuxOta.Boot.Success
import LinuxOta.Boot.Settled
import LinuxOta.Boot.RecordRace
import LinuxOta.Boot.DeviceLife
