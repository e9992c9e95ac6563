import DemandPaging.Instruction.Decode
import DemandPaging.Machine
/-!
What a CPU does on its turn. It asks the policy for a process and runs it instruction by
instruction. Each instruction is translated, faults being resolved and the instruction started
over, then takes one tick, during which other CPUs may steal its frames, and then executes on
frames that still hold its pages.
-/

namespace DemandPaging.Machine

open DemandPaging.Action

variable {g : Geometry} {S : Type} [Scheduler S]

def dispatch (c : Nat) (p : Process) : Running g S Unit := do
  let now ← time
  changeProcess p.pid fun p =>
    { p with
      status := .running c
      account := { p.account with dispatches := p.account.dispatches + 1 } }
  changeCpu c fun x => { x with regs := p.saved, phase := .bursting { pid := p.pid } }
  onPager (Pager.dispatch c p.pid)
  report (.dispatched p.id now p.quantum)

/-- Takes a process off its CPU: its registers are saved, its burst is entered in its account,
and the references of the CPU's buffer reach the frames. -/
def undispatch (c : Nat) (b : Burst) : Running g S Unit := do
  let x ← cpu c
  changeProcess b.pid fun p =>
    { p with
      saved := x.regs
      account := { p.account with bursts := p.account.bursts.push b.ticks } }
  setPhase c .asking
  onPager (Pager.flush c)

def expireQuantum (c : Nat) (b : Burst) : Running g S Unit := do
  report (.quantumExpired (← process b.pid).id (← time) b.ticks)
  undispatch c b
  setStatus b.pid .ready
  onPolicy (Scheduler.quantumExpired b.pid c b.ticks)

def blockProcess (c : Nat) (b : Burst) (ticks : Nat) : Running g S Unit := do
  report (.burstCompleted (← process b.pid).id (← time) b.ticks)
  undispatch c b
  setStatus b.pid .blocked
  onPolicy (Scheduler.blocked b.pid c b.ticks)
  scheduleWaiter (← tickAfter ticks) (.process b.pid)

def exitProcess (c : Nat) (b : Burst) : Running g S Unit := do
  let now ← time
  let _ ← onPager (Pager.checkTable b.pid)
  undispatch c b
  onPager (Pager.release b.pid)
  onPolicy (Scheduler.exited b.pid)
  modify fun m => { m with live := m.live - 1 }
  setStatus b.pid .exited
  changeAccount b.pid fun a => { a with completedAt := some now }
  let p ← process b.pid
  report (.completed p.id now)
  report (.usage p.id (p.account.startedAt.getD 0) now p.account.executedTicks
    p.account.dispatches)

inductive Fetch where
  | ready (frame : FrameNumber)
  | restart
  | terminated
deriving DecidableEq

def countFault (a : Account) : Access → Account
  | .fetch _ => { a with instructionFaults := a.instructionFaults + 1 }
  | .data => { a with dataFaults := a.dataFaults + 1 }

def fetch (c : Nat) (b : Burst) (addr : VirtualAddress) (access : Access) :
    Running g S Fetch := do
  match ← onPager (Pager.translate c b.pid addr) with
  | some f => return .ready f
  | none =>
    changeAccount b.pid fun a => countFault a access
    let name := (← process b.pid).id
    report (.pageFault access.purpose addr name (g.pageOf addr))
    match ← onPager (Pager.handleFault b.pid addr access) with
    | .resolved _ =>
      match ← onPager (Pager.translate c b.pid addr) with
      | none => fail (.error (.stillFaulting access.purpose b.pid addr))
      | some f =>
        report (.faultResolved access.purpose name addr (g.physicalAddress f addr))
        return .restart
    | .violation v =>
      report (.invalidAccess access.purpose name addr v)
      exitProcess c b
      return .terminated

inductive Attempt where
  | ready (frames : InstructionFrames)
  | restart
  | terminated
deriving DecidableEq

def fetchData (c : Nat) (b : Burst) (frame : FrameNumber) (addr : Option VirtualAddress) :
    Running g S Attempt := do
  match addr with
  | none => return .ready ⟨frame, none⟩
  | some a =>
    report (.translatingData c a b.pid)
    match ← fetch c b a .data with
    | .ready f => return .ready ⟨frame, some (a, f)⟩
    | .restart => return .restart
    | .terminated => return .terminated

/-- Translates the instruction pointer and the data address, each with its fault if it has
one. -/
def attempt (c : Nat) (b : Burst) (i : Instruction) : Running g S Attempt := do
  let p ← process b.pid
  let regs := (← cpu c).regs
  report (.translatingInstruction c regs.ip b.pid)
  match ← fetch c b regs.ip (.fetch p.textPages) with
  | .restart => return .restart
  | .terminated => return .terminated
  | .ready f =>
    report (.fetching c (g.physicalAddress f regs.ip))
    fetchData c b f (i.dataAddress? regs p.dataBase)

/-- How often an instruction may start over before its pages are taken not to fit together. -/
def maxRestarts : Nat := 8

/-- Starts an instruction over until its pages are resident together; none if the process was
terminated. -/
def resolveWithin (c : Nat) (b : Burst) (i : Instruction) :
    (attempts : Nat) → Running g S (Option InstructionFrames)
  | 0 => do
    fail (.error (.thrashing (← time) b.pid (← cpu c).regs.ip g.frameCount))
  | attempts + 1 => do
    match ← attempt c b i with
    | .ready frames => return some frames
    | .terminated => return none
    | .restart => resolveWithin c b i attempts

def resolve (c : Nat) (b : Burst) (i : Instruction) : Running g S (Option InstructionFrames) :=
  resolveWithin c b i (maxRestarts + 1)

def stillHolds? (m : Machine g S) (pid : ProcessId) (ip : VirtualAddress)
    (frames : InstructionFrames) : Option Bool := do
  let instruction ← m.pager.holds? pid ip frames.instruction
  match instruction, frames.data with
  | true, some (a, f) => m.pager.holds? pid a f
  | held, _ => some held

def ask (c : Nat) : Running g S Unit := do
  match ← onPolicy (Scheduler.schedule c) with
  | none =>
    report (.idle c (← time))
    modify fun m => m.park c none
  | some pid =>
    let p ← process pid
    if p.status ≠ .ready then fail (.error (.notReady (← time) c pid p.status))
    dispatch c p

/-- Starts the next instruction of a burst, or ends a burst that has used up its quantum. -/
def startInstruction (c : Nat) (b : Burst) : Running g S Unit := do
  let p ← process b.pid
  if p.quantum ≤ b.ticks then expireQuantum c b
  else
    let text := p.trace.textAt (← cpu c).regs.ip
    let instruction := Instruction.decode text
    match ← resolve c b instruction with
    | none => return ()
    | some frames =>
      let wake ← tickAfter 1
      setPhase c (.spending b ⟨text, instruction, frames⟩)
      modify fun m => m.park c (some wake)

def complete (c : Nat) (b : Burst) (text : String) (ip : VirtualAddress) :
    Completion → Running g S Unit
  | .next next => changeCpu c fun x => { regs := { x.regs with ip := next }, phase := .bursting b }
  | .block next ticks => do
    changeCpu c fun x => { x with regs := { x.regs with ip := next } }
    blockProcess c b ticks
  | .signal .exit => exitProcess c b
  | .signal .invalidInstruction => do
    report (.invalidInstruction text b.pid ip)
    exitProcess c b
  | .signal .allocationFailure => do
    report (.allocationFailure (← process b.pid).id ip)
    exitProcess c b

def executeOn (c : Nat) (b : Burst) (i : InFlight) (frames : InstructionFrames) :
    Running g S Unit := do
  let ip := (← cpu c).regs.ip
  let data := frames.data.map fun (a, f) => g.physicalAddress f a
  report (.executing c i.text b.pid ip (g.physicalAddress frames.instruction ip))
  let p ← process b.pid
  let done ← onExecution c (Execution.execute b.pid p.dataBase data i.instruction)
  complete c b i.text ip done

/-- Goes on after the tick of an instruction. If its frames were stolen meanwhile, its pages are
brought in again, and no further tick is spent. -/
def finishInstruction (c : Nat) (b : Burst) (i : InFlight) : Running g S Unit := do
  changeAccount b.pid fun a => { a with executedTicks := a.executedTicks + 1 }
  let b := { b with ticks := b.ticks + 1 }
  let ip := (← cpu c).regs.ip
  if ← ofOption outOfBounds ((← get).stillHolds? b.pid ip i.frames) then executeOn c b i i.frames
  else
    report (.framesStolen (← process b.pid).id c (← time))
    match ← resolve c b i.instruction with
    | none => return ()
    | some frames => executeOn c b i frames

def cpuStep (c : Nat) : Running g S Unit := do
  match (← cpu c).phase with
  | .asking => ask c
  | .bursting b => startInstruction c b
  | .spending b i => finishInstruction c b i

end DemandPaging.Machine
