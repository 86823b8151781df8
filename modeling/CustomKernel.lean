import CustomKernel.Foundation.LabelledRun
import CustomKernel.Foundation.Word64
import CustomKernel.Foundation.ByteStore
import CustomKernel.Foundation.WordStack
import CustomKernel.Foundation.Bitmap
import CustomKernel.Foundation.PathTree
import CustomKernel.Foundation.Tiling
import CustomKernel.Foundation.CyclicScan
import CustomKernel.Foundation.RingWindow
import CustomKernel.Foundation.ScanLines
import CustomKernel.Foundation.TextGrid
import CustomKernel.Foundation.KeptState
import CustomKernel.Foundation.Numeral
import CustomKernel.Foundation.Words
import CustomKernel.Panic
import CustomKernel.Memory.Pmm
import CustomKernel.Memory.PmmBoot
import CustomKernel.Memory.PmmInvariant
import CustomKernel.Memory.PmmSteps
import CustomKernel.Memory.PmmOwnership
import CustomKernel.Memory.PmmOutstanding
import CustomKernel.Memory.Vmm
import CustomKernel.Memory.TableEntry
import CustomKernel.Memory.PageTree
import CustomKernel.Memory.PageMapping
import CustomKernel.Memory.LargePages
import CustomKernel.Memory.PageRights
import CustomKernel.Memory.Heap
import CustomKernel.Memory.FreshPages
import CustomKernel.Memory.HeapBlocks
import CustomKernel.Memory.HeapInvariant
import CustomKernel.Memory.BlockHeap
import CustomKernel.Memory.FirstFit
import CustomKernel.Memory.HeapIsolation
import CustomKernel.Memory.HeapBacking
import CustomKernel.Interrupt.Pic
import CustomKernel.Interrupt.Stubs
import CustomKernel.Memory.DirectMap
import CustomKernel.Multitask.Task
import CustomKernel.Multitask.Scheduler
import CustomKernel.Multitask.Selection
import CustomKernel.Multitask.Operations
import CustomKernel.Multitask.SchedulerSafety
import CustomKernel.Multitask.WakeUps
import CustomKernel.Multitask.RoundRobin
import CustomKernel.Multitask.Lives
import CustomKernel.Multitask.ExitCodes
import CustomKernel.Multitask.StackPages
import CustomKernel.Multitask.TaskPages
import CustomKernel.Multitask.StackRanges
import CustomKernel.Multitask.Machine
import CustomKernel.Multitask.ContextSwitch
import CustomKernel.Multitask.Launch
import CustomKernel.Multitask.Spinlock
import CustomKernel.Multitask.Creation
import CustomKernel.Multitask.Preemption
import CustomKernel.Multitask.InterruptFlag
import CustomKernel.Multitask.PreemptedCreation
import CustomKernel.Device.Keyboard
import CustomKernel.Device.KeyQueue
import CustomKernel.Device.ShiftTracking
import CustomKernel.Device.Serial
import CustomKernel.Memory.Coalescing
import CustomKernel.Memory.SizeWrapping
import CustomKernel.Memory.AnySize
import CustomKernel.Memory.PayloadAlignment
import CustomKernel.Memory.StalePointers
import CustomKernel.Ui.Terminal
import CustomKernel.Ui.Bounds
import CustomKernel.Ui.Rendering
import CustomKernel.Ui.NumberPrinting
import CustomKernel.Shell.SimpleShell
import CustomKernel.Shell.LineEditor
import CustomKernel.Shell.NumberParsing
import CustomKernel.Shell.CommandLine
import CustomKernel.Interrupt.Pit
import CustomKernel.Shell.SleepCommand
import CustomKernel.Memory.TakenPages
import CustomKernel.Memory.UsedBlocks
import CustomKernel.Multitask.PageUses
import CustomKernel.Shell.Memtest
import CustomKernel.Shell.Session
import CustomKernel.Multitask.ResponseTime
import CustomKernel.Memory.TranslationCache
import CustomKernel.Interrupt.Syscall
import CustomKernel.Foundation.Readback
import CustomKernel.Ui.PrintedText
import CustomKernel.Interrupt.Idt
import CustomKernel.Interrupt.Handlers
import CustomKernel.Interrupt.Controllers
import CustomKernel.Interrupt.Delivery
import CustomKernel.Memory.HeapDump
import CustomKernel.Memory.EnoughPages
import CustomKernel.Boot
import CustomKernel.Device.Uart
import CustomKernel.Multitask.WaitCycles
import CustomKernel.Multitask.TaskDump
import CustomKernel.Device.KeyboardSetup
