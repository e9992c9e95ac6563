import DemandPaging.Machine.Event
import DemandPaging.Scheduler
import DemandPaging.Timeline
/-!
The state of the whole machine. CPUs act one at a time: those in `turns` may run, the first of
them does, until it parks. A parked CPU is idle or waits for a tick. When all are parked, the
clock moves to the next tick that somebody waits for.
-/

namespace DemandPaging

inductive Waiter where
  | cpu (cpu : Nat)
  | process (pid : ProcessId)
deriving DecidableEq, Repr

inductive RunStatus where
  | running
  | finished
  | aborted (e : RunError)
deriving DecidableEq

structure InstructionFrames where
  instruction : FrameNumber
  data : Option (VirtualAddress × FrameNumber)
deriving DecidableEq

structure Burst where
  pid : ProcessId
  ticks : Nat := 0
deriving DecidableEq, Repr

/-- An instruction whose tick is being spent. -/
structure InFlight where
  text : String
  instruction : Instruction
  frames : InstructionFrames
deriving DecidableEq

inductive Phase where
  | asking
  | bursting (b : Burst)
  | spending (b : Burst) (i : InFlight)
deriving DecidableEq

structure Cpu where
  regs : Registers := {}
  phase : Phase := .asking
deriving DecidableEq

def Cpu.current? (c : Cpu) : Option ProcessId :=
  match c.phase with
  | .asking => none
  | .bursting b => some b.pid
  | .spending b _ => some b.pid

theorem Cpu.current?_of_asking {c : Cpu} (h : c.phase = .asking) : c.current? = none := by
  rw [current?, h]

theorem Cpu.current?_of_bursting {c : Cpu} {b : Burst} (h : c.phase = .bursting b) :
    c.current? = some b.pid := by
  rw [current?, h]

theorem Cpu.current?_of_spending {c : Cpu} {b : Burst} {i : InFlight}
    (h : c.phase = .spending b i) : c.current? = some b.pid := by
  rw [current?, h]

structure Machine (g : Geometry) (S : Type) where
  clock : VirtualClock := {}
  queue : EventQueue Waiter
  parked : Nat := 0
  /-- CPUs parked without a tick to wait for. -/
  idle : List Nat := []
  turns : List Nat
  live : Nat
  status : RunStatus := .running
  pager : Pager g
  cpus : Array Cpu
  scheduler : S
  processes : Array Process
  output : Array String := #[]
  useTlb : Bool

abbrev Running (g : Geometry) (S : Type) := Action Machine.Event (Failure RunError) (Machine g S)

namespace Machine

open DemandPaging.Action

variable {g : Geometry} {S : Type}

/-- A machine at time zero. Every process waits for its arrival, and every CPU has a turn. -/
def new (g : Geometry) (cpus : Nat) (useTlb : Bool) (scheduler : S) (specs : List ProcessSpec) :
    Machine g S :=
  { queue := specs.zipIdx.foldl (fun q (s, pid) => q.schedule s.start (.process pid)) {}
    turns := List.range cpus
    live := specs.length
    pager := Pager.new g (List.replicate cpus useTlb)
    cpus := Array.replicate cpus {}
    scheduler
    processes := (specs.zipIdx.map fun (s, pid) => s.toProcess pid).toArray
    useTlb }

/-- A machine has places for this many CPUs, eight bytes each. -/
def maxCpus : Nat := Number.tableLimit 8

def isRunning (m : Machine g S) : Bool := m.status = .running

def outOfBounds : Failure RunError := .crash .outOfBounds

def time : Running g S Nat := do return (← get).clock.now

def process (pid : ProcessId) : Running g S Process := do
  ofOption outOfBounds (← get).processes[pid]?

def changeProcess (pid : ProcessId) (f : Process → Process) : Running g S Unit :=
  modify fun m => { m with processes := m.processes.modify pid f }

def changeAccount (pid : ProcessId) (f : Account → Account) : Running g S Unit :=
  changeProcess pid fun p => p.changeAccount f

def setStatus (pid : ProcessId) (s : ProcessStatus) : Running g S Unit :=
  changeProcess pid fun p => { p with status := s }

def cpu (c : Nat) : Running g S Cpu := do
  ofOption outOfBounds (← get).cpus[c]?

def changeCpu (c : Nat) (f : Cpu → Cpu) : Running g S Unit :=
  modify fun m => { m with cpus := m.cpus.modify c f }

def setPhase (c : Nat) (p : Phase) : Running g S Unit :=
  changeCpu c fun x => { x with phase := p }

def onPager {α : Type} (x : Paged g α) : Running g S α := do
  let now ← time
  within Machine.pager (fun p m => { m with pager := p }) .paging (Failure.map (.memory now)) x

def onPolicy {α : Type} (x : Policy S α) : Running g S α :=
  within Machine.scheduler (fun s m => { m with scheduler := s }) Empty.elim .crash x

def onExecution {α : Type} (c : Nat) (x : Execution.Executing g α) : Running g S α := do
  let now ← time
  let regs := (← cpu c).regs
  within (fun m => { regs, pager := m.pager })
    (fun e m =>
      { m with
        pager := e.pager
        output := m.output ++ e.output
        cpus := m.cpus.modify c fun x => { x with regs := e.regs } })
    .execution (Failure.map (.memory now)) x

/-- A tick some time from now, undefined where time ends. -/
def tickAfter (ticks : Nat) : Running g S Nat := do
  ofOption (.crash .overflow) (Number.add? (← time) ticks)

def scheduleWaiter (tick : Nat) (w : Waiter) : Running g S Unit :=
  modify fun m => { m with queue := m.queue.schedule tick w }

def park (m : Machine g S) (c : Nat) (wake : Option Nat) : Machine g S :=
  { m with
    queue := wake.elim m.queue fun t => m.queue.schedule t (.cpu c)
    idle := wake.elim (m.idle ++ [c]) fun _ => m.idle
    parked := m.parked + 1
    turns := if m.turns.head? = some c then m.turns.tail else m.turns }

def abort (m : Machine g S) (e : RunError) : Machine g S := { m with status := .aborted e }

end Machine

end DemandPaging
