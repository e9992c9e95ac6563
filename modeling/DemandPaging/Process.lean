import DemandPaging.Instruction
import DemandPaging.Trace
/-!
Processes: what the configuration says of one, where it stands, and the account of what it did.
-/

namespace DemandPaging

def defaultQuantum : Nat := 4

structure ProcessSpec where
  name : String
  trace : Trace
  start : Nat := 0
  quantum : Nat := defaultQuantum
deriving DecidableEq, Repr

inductive ProcessStatus where
  | pending
  | ready
  | running (cpu : Nat)
  | blocked
  | exited
deriving DecidableEq, Repr

def ProcessStatus.text : ProcessStatus → String
  | .pending => "Pending"
  | .ready => "Ready"
  | .running cpu => "Running \x7b cpu: " ++ Text.decimal cpu ++ " \x7d"
  | .blocked => "Blocked"
  | .exited => "Exited"

structure Account where
  startedAt : Option Nat := none
  completedAt : Option Nat := none
  executedTicks : Nat := 0
  dispatches : Nat := 0
  instructionFaults : Nat := 0
  dataFaults : Nat := 0
  bursts : Array Nat := #[]
deriving DecidableEq, Repr

structure ProcessName where
  name : String
  pid : ProcessId
deriving DecidableEq, Repr

def ProcessName.text (n : ProcessName) : String := s!"Process {n.name}({n.pid})"

structure Process where
  id : ProcessName
  trace : Trace
  quantum : Nat
  status : ProcessStatus := .pending
  saved : Registers := {}
  dataBase : VirtualAddress := .zero
  textPages : Nat := 0
  account : Account := {}
deriving DecidableEq

def ProcessSpec.toProcess (s : ProcessSpec) (pid : ProcessId) : Process :=
  { id := ⟨s.name, pid⟩, trace := s.trace, quantum := s.quantum }

namespace Process

def pid (p : Process) : ProcessId := p.id.pid

def isStarted (p : Process) : Bool := p.account.startedAt.isSome

def changeAccount (p : Process) (f : Account → Account) : Process :=
  { p with account := f p.account }

end Process

end DemandPaging
