import Hjortron.Misc.BlockList
import Hjortron.Misc.BlockTiling
import Hjortron.Misc.BlockRegions
import Hjortron.Misc.BlockCommute
import Hjortron.Misc.BlockRooms
import Hjortron.Misc.FlatMemory
import Hjortron.Misc.Run
import Hjortron.Misc.Logged
import Hjortron.Misc.CyclicOrder
import Hjortron.Misc.DoublyLinked
import Hjortron.Misc.Numeral
import Hjortron.Misc.AtaDevice
import Hjortron.Misc.ArrayStore
import Hjortron.Misc.FileStore
import Hjortron.Misc.X86
import Hjortron.Misc.PortDevices
import Hjortron.Assert
import Hjortron.Strings
import Hjortron.LinkedList
import Hjortron.ListAccess
import Hjortron.Proofs.LinkedListSpec
import Hjortron.Proofs.ListLedger
import Hjortron.Proofs.ListRun
import Hjortron.Proofs.NewList
import Hjortron.Proofs.ListFootprint
import Hjortron.Memory.Malloc
import Hjortron.Memory.Hlt
import Hjortron.Memory.Proofs.ChunkHeader
import Hjortron.Memory.Proofs.ChunkList
import Hjortron.Memory.Proofs.MallocSpec
import Hjortron.Memory.Proofs.FreeSpec
import Hjortron.Memory.Proofs.ReallocSpec
import Hjortron.Memory.Proofs.InitSpec
import Hjortron.Memory.Proofs.InitAnyMap
import Hjortron.Memory.Proofs.HeapRun
import Hjortron.Memory.Proofs.HeapSafety
import Hjortron.Memory.Proofs.HeapRegions
import Hjortron.Memory.Proofs.FreeOrder
import Hjortron.Memory.Proofs.Ledger
import Hjortron.Memory.Proofs.BootStack
import Hjortron.Memory.Proofs.HltSpec
import Hjortron.Memory.Proofs.HeapClient
import Hjortron.Memory.Proofs.HeapPart
import Hjortron.Cpu.Isr
import Hjortron.Cpu.Irq
import Hjortron.Cpu.Proofs.IsrSpec
import Hjortron.Cpu.Proofs.IrqSpec
import Hjortron.Filesystem.Fat12
import Hjortron.Filesystem.ClusterChain
import Hjortron.Filesystem.Driver
import Hjortron.Filesystem.Fs
import Hjortron.Filesystem.Mount
import Hjortron.Filesystem.Proofs.ReadSpec
import Hjortron.Filesystem.Proofs.Cursor
import Hjortron.Filesystem.Proofs.PathSpec
import Hjortron.Filesystem.Proofs.ResolveSpec
import Hjortron.Filesystem.Proofs.Components
import Hjortron.Filesystem.Proofs.ExtensionSpec
import Hjortron.Filesystem.Proofs.OpenName
import Hjortron.Filesystem.Proofs.Leaks
import Hjortron.Filesystem.Proofs.ReaddirSpec
import Hjortron.Filesystem.Proofs.FsSpec
import Hjortron.Filesystem.Proofs.FatSpec
import Hjortron.Filesystem.Proofs.ClusterChainSpec
import Hjortron.Filesystem.Proofs.DriverHeap
import Hjortron.Filesystem.Proofs.DriverOpens
import Hjortron.Filesystem.Proofs.DriverReads
import Hjortron.Filesystem.Proofs.DriverReturns
import Hjortron.Filesystem.Proofs.VolumeSpec
import Hjortron.Filesystem.Proofs.FsSteps
import Hjortron.Filesystem.Proofs.FsClient
import Hjortron.Execution.Scheduler
import Hjortron.Execution.Machine
import Hjortron.Execution.Process
import Hjortron.Execution.Interrupt
import Hjortron.Execution.Proofs.SchedulerSpec
import Hjortron.Execution.Proofs.ContextSwitch
import Hjortron.Execution.Proofs.RoundRobin
import Hjortron.Execution.Proofs.Sleep
import Hjortron.Execution.Proofs.NextScan
import Hjortron.Execution.Proofs.ProcessLedger
import Hjortron.Execution.Proofs.ProcessLife
import Hjortron.Execution.Proofs.ProcessRun
import Hjortron.Execution.Proofs.ProcessRefines
import Hjortron.Execution.Proofs.ProcessFrame
import Hjortron.Execution.Proofs.Frames
import Hjortron.Execution.Proofs.Stacks
import Hjortron.Execution.Proofs.HandlerFrames
import Hjortron.Execution.Proofs.InterruptRun
import Hjortron.Execution.Elf
import Hjortron.Execution.ElfLog
import Hjortron.Execution.Proofs.ElfFile
import Hjortron.Execution.Proofs.ElfLoad
import Hjortron.Execution.Proofs.ElfReloc
import Hjortron.Execution.Proofs.ElfBuffers
import Hjortron.Execution.Proofs.ElfSpec
import Hjortron.Execution.Proofs.ElfBounds
import Hjortron.Execution.Proofs.ElfLeak
import Hjortron.Execution.Proofs.ElfNull
import Hjortron.Execution.Proofs.ElfStray
import Hjortron.Display.Display
import Hjortron.Display.Proofs.DisplaySpec
import Hjortron.Format
import Hjortron.Proofs.ItoaSpec
import Hjortron.Proofs.SprintfSpec
import Hjortron.Proofs.LongFormat
import Hjortron.Drivers.Pci
import Hjortron.Drivers.Proofs.PciSpec
import Hjortron.Drivers.Ata
import Hjortron.Drivers.Proofs.AtaSpec
import Hjortron.Drivers.Serial
import Hjortron.Drivers.Cmos
import Hjortron.Drivers.Proofs.CmosSpec
import Hjortron.Debug
import Hjortron.Proofs.DebugSpec
import Hjortron.Boot.ReadFile
import Hjortron.Boot.FindFile
import Hjortron.Boot.LoadFile
import Hjortron.Boot.Read16
import Hjortron.Boot.Start
import Hjortron.Boot.ReadE820
import Hjortron.Boot.Proofs.ReadFileSpec
import Hjortron.Boot.Proofs.FindFileSpec
import Hjortron.Boot.Proofs.LoadFileSpec
import Hjortron.Boot.Proofs.Read16Spec
import Hjortron.Boot.Proofs.StartSpec
import Hjortron.Boot.Proofs.ReadE820Spec
