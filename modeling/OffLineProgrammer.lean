import OffLineProgrammer.Lib.Loop
import OffLineProgrammer.Lib.Run
import OffLineProgrammer.Lib.BlockStore
import OffLineProgrammer.Lib.Counter
import OffLineProgrammer.Board.Delay
import OffLineProgrammer.Board.Completion
import OffLineProgrammer.Storage.WriteData
import OffLineProgrammer.Storage.CallerBuffer
import OffLineProgrammer.Storage.BusSharing
import OffLineProgrammer.Storage.PageWrites
import OffLineProgrammer.UsbDisk.WriteGuard
import OffLineProgrammer.UsbDisk.BusReset
import OffLineProgrammer.UsbDisk.Stall
import OffLineProgrammer.UsbDisk.BlockStore
import OffLineProgrammer.UsbDisk.Status
import OffLineProgrammer.UsbDisk.Rejection
import OffLineProgrammer.UsbDisk.OwnBytes
import OffLineProgrammer.UsbDisk.Handoff
import OffLineProgrammer.UsbDisk.Capacity
import OffLineProgrammer.UsbDisk.Staging
import OffLineProgrammer.Target.Faithful
import OffLineProgrammer.Target.Tail
import OffLineProgrammer.Target.Exact
import OffLineProgrammer.Target.ReadErrors
import OffLineProgrammer.Target.Release
import OffLineProgrammer.Target.MemoryExact
import OffLineProgrammer.Target.Connecting
import OffLineProgrammer.Target.Jtag2Swd
import OffLineProgrammer.Flm.Complete
import OffLineProgrammer.Flm.Symbols
import OffLineProgrammer.Flm.Layout
import OffLineProgrammer.Flm.Entries
import OffLineProgrammer.Flm.PageLoop
import OffLineProgrammer.Flm.ProgramHeaders
import OffLineProgrammer.Flm.StringScan
import OffLineProgrammer.UsbCore.Descriptors
import OffLineProgrammer.UsbCore.LineCoding
import OffLineProgrammer.Kernel.QueueWaits
import OffLineProgrammer.Kernel.AppQueue
import OffLineProgrammer.Fatfs.Chains
import OffLineProgrammer.Fatfs.Confined
import OffLineProgrammer.Fatfs.Directory
import OffLineProgrammer.Fatfs.Programs
