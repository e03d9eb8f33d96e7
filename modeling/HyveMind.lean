import HyveMind.Types
import HyveMind.PhysMm
import HyveMind.Lib.Streak
import HyveMind.Lib.Run
import HyveMind.Lib.BlockLoop
import HyveMind.Lib.PageTable
import HyveMind.Lib.PageMap
import HyveMind.PfAlloc
import HyveMind.PfAllocScan
import HyveMind.PfAllocRun
import HyveMind.Vpic
import HyveMind.VpicDelivery
import HyveMind.Ept
import HyveMind.EptMapping
import HyveMind.VmMemory
import HyveMind.Halloc
import HyveMind.HallocOwner
import HyveMind.HallocRun
import HyveMind.HallocReturn
import HyveMind.VmAlloc
import HyveMind.MemFileRender
import HyveMind.MemFileTokens
import HyveMind.Lib.Ring
import HyveMind.ListHead
import HyveMind.Sched
import HyveMind.SchedQueues
import HyveMind.SchedWakeup
import HyveMind.CString
import HyveMind.MemFile
import HyveMind.RadixTree
import HyveMind.VmConfigLexing
import HyveMind.VmConfigGrammar
import HyveMind.Lib.PageFill
import HyveMind.DirectMapping
import HyveMind.DirectMappingExact
import HyveMind.DirectMappingWindow
import HyveMind.Lib.PageLeaf
import HyveMind.PageAttributes
import HyveMind.EptTeardown
import HyveMind.Lib.ArrayHeap
import HyveMind.Timer
import HyveMind.TimerHeap
import HyveMind.TimerRun
import HyveMind.VpicHistory
import HyveMind.Lib.Blocks
import HyveMind.Lib.Prog
import HyveMind.LinuxLoader
import HyveMind.LinuxLayout
import HyveMind.LinuxAccept
import HyveMind.Vmx
import HyveMind.MsrBitmap
import HyveMind.VpicInit
import HyveMind.Lib.BitSet
import HyveMind.VmxPolicy
import HyveMind.VmxDefaultPolicy
import HyveMind.RadixCanonical
import HyveMind.RadixShape
import HyveMind.RadixAtomic
import HyveMind.EptFrame
import HyveMind.VmConfigConvert
import HyveMind.VmConfigNumbers
import HyveMind.VmConfigRun
import HyveMind.VmConfigSections
import HyveMind.VpicNesting
import HyveMind.Printf
import HyveMind.TimerExpiry
import HyveMind.TimerInit
import HyveMind.TscFrequency
import HyveMind.TimerTermination
import HyveMind.Lib.FirstSeen
import HyveMind.CpuIds
import HyveMind.Lib.Ascending
import HyveMind.CpuMask
import HyveMind.CpuTopology
import HyveMind.Lib.RoundRobin
import HyveMind.SchedPlacement
import HyveMind.MemMove
import HyveMind.ListDeque
import HyveMind.Strtoul
import HyveMind.StrtoulBuffer
import HyveMind.NumberStrings
import HyveMind.TimerDelete
import HyveMind.TimerAccess
import HyveMind.PfAllocSearch
import HyveMind.Lib.Fifo
import HyveMind.SchedFifo
import HyveMind.Lib.Serial
import HyveMind.Lib.PortIo
import HyveMind.SpinLock
import HyveMind.SpinLockIrq
import HyveMind.Uart16550
import HyveMind.Console
import HyveMind.Lib.X86
import HyveMind.VmxEntry
import HyveMind.IrqEntry
import HyveMind.Lib.Locks
import HyveMind.Irq
import HyveMind.VmxEvents
import HyveMind.PfAllocSmp
import HyveMind.GdtIdt
import HyveMind.Apic
