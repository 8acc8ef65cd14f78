import XMachine.Lib.ByteStore
import XMachine.Lib.BitMask
import XMachine.Lib.WordArith
import XMachine.Lib.Rotation
import XMachine.Lib.Simulation
import XMachine.Cpu.Machine
import XMachine.Cpu.Addressing
import XMachine.Cpu.Specifier
import XMachine.Cpu.Operands
import XMachine.Cpu.Instructions
import XMachine.Cpu.Execute
import XMachine.Cpu.OperandModes
import XMachine.Cpu.WordCount
import XMachine.Cpu.Latches
import XMachine.Cpu.Linkage
import XMachine.Cpu.Reference
import XMachine.Cpu.Refinement
import XMachine.Mem.Memory
import XMachine.Unibus.AddressMap
import XMachine.Lib.Mailboxes
import XMachine.Unibus.PriorityBus
import XMachine.Unibus.Arbiter
import XMachine.Unibus.Chain
import XMachine.Unibus.Mastership
import XMachine.Unibus.Lanes
import XMachine.Unibus.Handover
import XMachine.Lib.CString
import XMachine.Unibus.Sockets
import XMachine.Disk.Controller
import XMachine.Unibus.GrantAddress
import XMachine.Unibus.Travel
import XMachine.Disk.Transfer
import XMachine.Unibus.DataBus
import XMachine.Unibus.DataChain
import XMachine.Cpu.Decoding
import XMachine.Cpu.Renaming
import XMachine.Unibus.CpuMaster
import XMachine.Unibus.DataThread
import XMachine.Unibus.WakeUp
import XMachine.Mem.Requests
import XMachine.Lib.Fairness
import XMachine.Unibus.BusMemory
import XMachine.Unibus.Requests
import XMachine.Cpu.Handlers
import XMachine.Cpu.LatchRange
import XMachine.Cpu.Flags
import XMachine.Cpu.Arithmetic
import XMachine.Cpu.Shifts
import XMachine.Cpu.ByteWrites
import XMachine.Unibus.Completion
import XMachine.Unibus.Posting
import XMachine.Cpu.Jumps
import XMachine.Unibus.DaisyChain
import XMachine.Unibus.Outstanding
import XMachine.Unibus.Descriptors
import XMachine.Unibus.Failures
import XMachine.Disk.Commands
import XMachine.Disk.Geometry
import XMachine.Disk.Requests
import XMachine.Lib.WordReader
import XMachine.Load.Aout
import XMachine.Mem.Loading
import XMachine.Lib.Loop
import XMachine.Lib.Stdio
import XMachine.Obj.Reader
import XMachine.Lib.Client
import XMachine.Unibus.Program
import XMachine.Unibus.Processor
import XMachine.Unibus.Transactions
import XMachine.Lib.Reaches
import XMachine.Guest.Rules
import XMachine.Guest.Runs
import XMachine.Guest.Fill
import XMachine.Guest.MovrInc
import XMachine.Lib.Potential
import XMachine.Unibus.Deliveries
import XMachine.Unibus.Liveness
import XMachine.Cpu.StatusWord
import XMachine.Unibus.OneByOne
import XMachine.Unibus.MasterCalls
import XMachine.Disk.Standstill
