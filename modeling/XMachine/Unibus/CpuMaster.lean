import XMachine.Unibus.Chain
import XMachine.Unibus.DataBus

namespace XMachine.Unibus

open XMachine.Lib

/-!
# CPU master — the CPU node's own data bus

The chain of `Chain` together with the data-bus thread of the CPU node, which
sends requests only while the `is_master` of the CPU's own `bus_state` is set.
`connect_cpu_bus` sets that flag, and neither the arbiter nor a device writes
it, so the gate stands open whoever is bus master: `cpu_keeps_bus`.
-/

/-- The chain, and what the CPU's data-bus thread works on. -/
structure CpuSystem where
  sys : System
  /-- The master mailbox of the CPU's `bus_state`. -/
  master : Xfer
  data : DataState
  /-- The requests the CPU has put on the data bus, the oldest first. -/
  requests : List DataBusReq

def initCpuSystem : CpuSystem where
  sys := initSystem
  master := initXfer
  data := initDataState
  requests := []

inductive CpuAct
  /-- A step of the arbiter and the devices. -/
  | bus (a : Act)
  /-- The CPU's main thread posts the request of a call in its mailbox. -/
  | post (call : Call)
  /-- One turn of the CPU's `data_bus_mgr`; `uninit` is what its stack holds. -/
  | turn (uninit : DataBusReq)

/-- The sending half of a turn: the mailbox is taken, and `process_op` is
    called where `is_master` is set. -/
def dataTurn (uninit : DataBusReq) (c : CpuSystem) : CpuSystem :=
  let taken := takeOp c.master c.data
  let c := { c with master := taken.1, data := taken.2 }
  if c.sys.cpuMaster then
    let r := processOp uninit c.data
    { c with data := r.1, requests := c.requests ++ r.2.toList }
  else c

def cpuStep (n : ℕ) (a : CpuAct) (c : CpuSystem) : CpuSystem :=
  match a with
  | .bus a => { c with sys := step n a c.sys }
  | .post call => { c with master := call.post c.master }
  | .turn uninit => dataTurn uninit c

/-- The states reached by the actions `as`. -/
def cpuReach (n : ℕ) (as : List CpuAct) : CpuSystem := runActs (cpuStep n) as initCpuSystem

/-! ### The flag and the gate -/

section

variable {n : ℕ}

theorem step_cpuMaster (n : ℕ) (a : Act) (s : System) : (step n a s).cpuMaster = s.cpuMaster := by
  obtain h | ⟨i, d, h, -⟩ | ⟨i, -, -, h⟩ | ⟨i, k, req, -, -, -, -, h⟩ | ⟨k, req, -, -, h⟩ :=
    step_cases n a s <;> rw [h] <;> rfl

theorem dataTurn_sys (uninit : DataBusReq) (c : CpuSystem) : (dataTurn uninit c).sys = c.sys := by
  unfold dataTurn
  dsimp only
  split <;> rfl

theorem cpuStep_cpuMaster (n : ℕ) (a : CpuAct) (c : CpuSystem) :
    (cpuStep n a c).sys.cpuMaster = c.sys.cpuMaster := by
  cases a with
  | bus a => exact step_cpuMaster n a c.sys
  | post call => rfl
  | turn uninit => exact congrArg System.cpuMaster (dataTurn_sys uninit c)

/-- With the flag set, a turn puts the posted request on the bus. -/
theorem dataTurn_sends (uninit : DataBusReq) {c : CpuSystem} (hm : c.sys.cpuMaster = true)
    (call : Call) : ∃ m, (dataTurn uninit { c with master := call.post c.master }).requests
      = c.requests ++ [m] ∧ m.msgType = .req ∧ m.addr = call.addr := by
  unfold dataTurn takeOp processOp
  cases call <;> simp [Call.post, Call.addr, hm, inWord, outWord, outByte, outData]

/-- The CPU's `is_master` is set in every reachable state, whoever is bus
    master, and the next turn of its data bus sends what is posted. -/
theorem cpu_keeps_bus (n : ℕ) (as : List CpuAct) :
    (cpuReach n as).sys.cpuMaster = true ∧
    ∀ call uninit, ∃ m,
      (cpuReach n (as ++ [.post call, .turn uninit])).requests
        = (cpuReach n as).requests ++ [m] ∧ m.msgType = .req ∧ m.addr = call.addr := by
  have hflag : (cpuReach n as).sys.cpuMaster = true := by
    refine runActs_invariant (I := fun c => c.sys.cpuMaster = true) ?_ as initCpuSystem rfl
    intro c a hc
    rw [cpuStep_cpuMaster, hc]
  refine ⟨hflag, fun call uninit => ?_⟩
  have hrun : cpuReach n (as ++ [.post call, .turn uninit])
      = dataTurn uninit
          { cpuReach n as with master := call.post (cpuReach n as).master } := by
    rw [cpuReach, runActs_append]
    rfl
  rw [hrun]
  exact dataTurn_sends uninit hflag call

end

/-- One device asks for the bus and gets it, and the CPU sends a request. -/
def sharedBus : List CpuAct :=
  [.bus (.setReq 1 true), .bus (.poll 1), .bus (.arb 0), .bus (.event 1 0), .bus (.arb 0),
   .bus (.event 1 0), .post (.readDataIn 0o1000), .turn ⟨.resp, .empty, 0, 0⟩]

/-- Device 1 is master, the CPU's flag is set, and the CPU's request is on the data bus. -/
theorem sharedBus_two_masters :
    ((cpuReach 1 sharedBus).sys.dev 1).isMaster = true ∧
      (cpuReach 1 sharedBus).sys.cpuMaster = true ∧
      (cpuReach 1 sharedBus).requests = [⟨.req, .dati, 0o1000, 0⟩] := by
  refine ⟨?_, ?_, ?_⟩ <;> decide

end XMachine.Unibus
