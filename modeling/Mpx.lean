import Mpx.Base.Memory
import Mpx.Base.BlockList
import Mpx.Base.BlockRoom
import Mpx.Base.Run
import Mpx.Base.PointerList
import Mpx.Base.StableSort
import Mpx.Base.TurnTaking
import Mpx.Base.X86
import Mpx.Base.Pic
import Mpx.Base.Buffer
import Mpx.Base.CString
import Mpx.Base.Loop
import Mpx.Base.Words
import Mpx.Base.LineEditor
import Mpx.Base.Tokens
import Mpx.Base.Offset
import Mpx.Base.Strtok
import Mpx.Base.Numeral
import Mpx.Base.Atoi
import Mpx.Base.Itoa
import Mpx.Base.AtoiValue
import Mpx.Base.ItoaNumeral
import Mpx.Heap.Model
import Mpx.Heap.Chain
import Mpx.Heap.Allocate
import Mpx.Heap.Release
import Mpx.Heap.Refinement
import Mpx.Heap.Runs
import Mpx.Heap.FreeOrder
import Mpx.Heap.FirstFit
import Mpx.Heap.Functions
import Mpx.Heap.Calls
import Mpx.Heap.Room
import Mpx.Process.Model
import Mpx.Process.Queue
import Mpx.Process.Order
import Mpx.Process.Removal
import Mpx.Process.Free
import Mpx.Process.Links
import Mpx.Process.Find
import Mpx.Serial.Model
import Mpx.Serial.Read
import Mpx.Serial.Requests
import Mpx.Serial.History
import Mpx.Serial.Transfer
import Mpx.Serial.Wire
import Mpx.Serial.Starters
import Mpx.Serial.ReadRequest
import Mpx.Serial.Owned
import Mpx.Serial.Interrupt
import Mpx.Serial.Unanswered
import Mpx.Serial.Completion
import Mpx.Serial.Poll
import Mpx.Serial.Screen
import Mpx.Serial.RingAccess
import Mpx.Serial.TypeAhead
import Mpx.Kernel.SysCall
import Mpx.Kernel.Isr
import Mpx.Kernel.Yield
import Mpx.Kernel.Switch
import Mpx.Kernel.RoundRobin
import Mpx.Kernel.Fairness
import Mpx.Kernel.Exit
import Mpx.Kernel.Block
import Mpx.Kernel.Population
import Mpx.Kernel.Lifetime
import Mpx.Kernel.Setup
import Mpx.Kernel.Creation
import Mpx.Kernel.Names
import Mpx.Kernel.ExitRuns
import Mpx.Kernel.Cleanup
import Mpx.Kernel.Kept
import Mpx.Kernel.Frames
import Mpx.Kernel.LiveLinks
import Mpx.Kernel.SecondWrite
import Mpx.Kernel.Housing
import Mpx.Kernel.NameField
import Mpx.Kernel.NewProcess
import Mpx.Serial.Open
import Mpx.Serial.BaudRate
import Mpx.Kernel.Vectors
import Mpx.Kernel.SerialLine
import Mpx.Serial.Leftover
import Mpx.Serial.Exhausted
import Mpx.User.Commands
import Mpx.User.Moves
import Mpx.User.Leaks
import Mpx.User.Boot
import Mpx.User.Menu
import Mpx.User.Records
import Mpx.User.Listing
import Mpx.User.Priority
import Mpx.User.UnknownName
import Mpx.User.LoadR3
import Mpx.User.Suspended
import Mpx.User.FirstContexts
import Mpx.User.NameCopy
import Mpx.User.Clock
import Mpx.User.Date
import Mpx.User.Alarm
import Mpx.User.Shell
import Mpx.User.Shutdown
import Mpx.User.R3
import Mpx.Vm.Model
import Mpx.Vm.Frames
import Mpx.Vm.Tables
import Mpx.Vm.Mapping
import Mpx.Vm.Identity
import Mpx.Vm.FrameRuns
import Mpx.Vm.KernelHeap
import Mpx.Vm.Translation
import Mpx.Vm.HeapFrames
