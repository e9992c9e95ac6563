import DemandPaging.Instruction.Execute
import DemandPaging.Process
/-!
What a machine reports, the errors that stop it, and how both read.
-/

namespace DemandPaging

inductive Purpose where
  | instruction | data
deriving DecidableEq, Repr

def Purpose.text : Purpose → String
  | .instruction => "instruction"
  | .data => "data"

def Access.purpose : Access → Purpose
  | .fetch _ => .instruction
  | .data => .data

inductive RunError where
  | memory (time : Nat) (e : MemoryError)
  | stalled (time cpus live : Nat)
  | timeWarp (now tick : Nat)
  | stillFaulting (purpose : Purpose) (pid : ProcessId) (addr : VirtualAddress)
  /-- The pages of one instruction keep evicting each other. -/
  | thrashing (time : Nat) (pid : ProcessId) (addr : VirtualAddress) (frames : Nat)
  | notReady (time cpu : Nat) (pid : ProcessId) (status : ProcessStatus)
  | cpuCrashed (cpu : Nat)
  | advanceCrashed
deriving DecidableEq

def RunError.message : RunError → String
  | .memory t e => s!"memory manager failure at time {t}: {e.message}"
  | .stalled t c n =>
    s!"all {c} CPUs are blocked in idle at time {t} with {n} live processes and no pending events"
  | .timeWarp n t => s!"time warp: current time is {n} but an event is pending at {t}"
  | .stillFaulting k p a =>
    s!"recursive {k.text} translation failure for process {p} at {a.text}"
  | .thrashing t p a f =>
    s!"process {p} cannot keep the pages of the instruction at {a.text} " ++
      s!"resident in {f} frames at time {t}"
  | .notReady t c p s =>
    s!"scheduler gave CPU {c} process {p} at time {t}, which is {s.text} rather than ready"
  | .cpuCrashed c => s!"CPU {c} worker panicked"
  | .advanceCrashed => "director panicked"

def Violation.text : Violation → String
  | .illegalFetch p => s!"page {p} is outside the text segment"
  | .outOfRange p => s!"page {p} is beyond the address space"
  | .unallocated p => s!"page {p} was never allocated"

namespace Machine

inductive Event where
  | execution (e : Execution.Event)
  | geometry (g : Geometry)
  | loaded (process : ProcessName) (trace : Trace)
  | started (process : ProcessName) (time : Nat)
  | notStarted (process : ProcessName) (textPages : Nat)
  | unblocked (process : ProcessName) (time : Nat)
  | idle (cpu time : Nat)
  | dispatched (process : ProcessName) (time quantum : Nat)
  | quantumExpired (process : ProcessName) (time ticks : Nat)
  | burstCompleted (process : ProcessName) (time ticks : Nat)
  | translatingInstruction (cpu : Nat) (addr : VirtualAddress) (pid : ProcessId)
  | fetching (cpu : Nat) (addr : PhysicalAddress)
  | translatingData (cpu : Nat) (addr : VirtualAddress) (pid : ProcessId)
  | pageFault (purpose : Purpose) (addr : VirtualAddress) (process : ProcessName)
      (page : PageNumber)
  | faultResolved (purpose : Purpose) (process : ProcessName) (addr : VirtualAddress)
      (paddr : PhysicalAddress)
  | invalidAccess (purpose : Purpose) (process : ProcessName) (addr : VirtualAddress)
      (v : Violation)
  | framesStolen (process : ProcessName) (cpu time : Nat)
  | executing (cpu : Nat) (text : String) (pid : ProcessId) (ip : VirtualAddress)
      (paddr : PhysicalAddress)
  | invalidInstruction (text : String) (pid : ProcessId) (ip : VirtualAddress)
  | allocationFailure (process : ProcessName) (ip : VirtualAddress)
  | completed (process : ProcessName) (time : Nat)
  | usage (process : ProcessName) (started time ticks dispatches : Nat)
  | aborted (time : Nat) (e : RunError)
deriving DecidableEq

namespace Event

def paging (e : Paging.Event) : Event := .execution (.paging e)

def records : Event → List Log.Record
  | .execution e => e.records
  | .geometry g => [⟨.debug, s!"Geometry: {g.text}"⟩]
  | .loaded p t => [⟨.debug, s!"Trace for {p.text}: {t.listing}"⟩]
  | .started p t => [⟨.info, s!"{p.text} started at time {t}"⟩]
  | .notStarted p n =>
    [⟨.info, s!"Unable to start {p.text}: {n} text pages exceed the address space"⟩]
  | .unblocked p t => [⟨.debug, s!"Unblocking {p.text} at time {t}"⟩]
  | .idle c t => [⟨.debug, s!"CPU {c} idle at time {t}"⟩]
  | .dispatched p t q => [⟨.debug, s!"Dispatching {p.text} at time {t} with quantum {q}."⟩]
  | .quantumExpired p t n =>
    [⟨.debug, s!"Quantum expired for {p.text} at time {t} after {n} ticks."⟩]
  | .burstCompleted p t n =>
    [⟨.debug, s!"Burst completed for {p.text} at time {t} after {n} ticks."⟩]
  | .translatingInstruction c a p =>
    [⟨.debug, s!"CPU {c} translating instruction address {a.text} for process {p}"⟩]
  | .fetching c a => [⟨.debug, s!"CPU {c} fetching instruction from physical address {a.text}"⟩]
  | .translatingData c a p =>
    [⟨.debug, s!"CPU {c} translating data address {a.text} for process {p}"⟩]
  | .pageFault k a p n =>
    [⟨.debug, s!"{k.text} page fault at {a.text} in {p.text} (page number {n})"⟩]
  | .faultResolved .instruction p a f =>
    [⟨.info, s!"Instruction fault for {p.text} at ip {a.text} " ++
      s!"resolved to physical address {f.text}"⟩]
  | .faultResolved .data p a f =>
    [⟨.info, s!"Data fault for {p.text} at address {a.text} " ++
      s!"resolved to physical address {f.text}. Refetching instruction."⟩]
  | .invalidAccess k p a v =>
    [⟨.info, s!"Invalid {k.text} address for {p.text} at {a.text}: {v.text}. Segmentation fault."⟩]
  | .framesStolen p c t =>
    [⟨.debug, s!"Frames of {p.text} were stolen while CPU {c} waited for time {t}"⟩]
  | .executing c s p a f =>
    [⟨.debug, s!"CPU {c} executing '{s}' for process {p} at ip va/pa {a.text}/{f.text}"⟩]
  | .invalidInstruction s p a =>
    [⟨.info, s!"Invalid instruction: '{s}' in process {p} at vaddr {a.text}"⟩]
  | .allocationFailure p a => [⟨.info, s!"Allocation failure in {p.text} at vaddr {a.text}"⟩]
  | .completed p t => [⟨.info, s!"{p.text} completed at time {t}"⟩]
  | .usage p s t n d =>
    [⟨.debug, s!"{p.text} started at time {s}, completed at time {t}, used {n} ticks, " ++
      s!"and required {d} dispatches."⟩]
  | .aborted t e => [⟨.error, s!"Simulation aborted at time {t}: {e.message}"⟩]

end Event

end Machine

end DemandPaging
