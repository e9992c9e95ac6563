import DemandPaging.Instruction.Decode
import DemandPaging.Instruction.Execute
/-!
A bench for single instructions: one process whose text pages are allocated, and a CPU without a
buffer. The data address of an instruction is brought in first; if that is not allowed, the
instruction does not execute.
-/

namespace DemandPaging

structure Bench (g : Geometry) where
  pid : ProcessId
  dataBase : VirtualAddress
  execution : Execution g

inductive Trial where
  | violation (v : Violation)
  | completed (data : Option PhysicalAddress) (c : Completion)
deriving DecidableEq

def Completion.ip? : Completion → Option VirtualAddress
  | .next ip => some ip
  | .block ip _ => some ip
  | .signal _ => none

namespace Bench

open DemandPaging.Action

variable {g : Geometry}

abbrev OnBench (g : Geometry) := Action Execution.Event (Failure MemoryError) (Bench g)

def new (g : Geometry) (pid : ProcessId) (textPages : Nat) : Bench g :=
  { pid, dataBase := g.pageStart textPages
    execution := { regs := {}, pager := .new g [false] } }

def onExecution {α : Type} (x : Execution.Executing g α) : OnBench g α :=
  within Bench.execution (fun e b => { b with execution := e }) id id x

def load (textPages : Nat) : OnBench g Bool := do
  let pid := (← get).pid
  onExecution (Execution.onPager (Pager.create pid))
  onExecution (Execution.onPager (Pager.allocate pid 0 textPages))

def setRegisters (b : Bench g) (regs : Registers) : Bench g :=
  { b with execution := { b.execution with regs } }

def execute (i : Instruction) (data : Option PhysicalAddress) : OnBench g Trial := do
  let b ← get
  let c ← onExecution (Execution.execute b.pid b.dataBase data i)
  modify fun b =>
    b.setRegisters { b.execution.regs with ip := c.ip?.getD b.execution.regs.ip }
  return .completed data c

def run (i : Instruction) : OnBench g Trial := do
  let b ← get
  match i.dataAddress? b.execution.regs b.dataBase with
  | none => execute i none
  | some a =>
    match ← onExecution (Execution.onPager (Pager.handleFault b.pid a .data)) with
    | .violation v => return .violation v
    | .resolved f => execute i (some (g.physicalAddress f a))

end Bench

end DemandPaging
