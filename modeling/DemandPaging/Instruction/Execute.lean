import DemandPaging.Instruction
import DemandPaging.Pager.Fault
/-!
Executing an instruction: what it does to the registers, to memory and to the printed output, and
where the program goes on. Addresses have been translated before.
-/

namespace DemandPaging

inductive Effect where
  | nothing
  | branched (offset : Int32) (ip target : VirtualAddress)
  | compared (r0 r1 offset : Int32) (target : VirtualAddress)
  | incremented (reg : Register) (amount old new : Int32)
  | assigned (reg : Register) (value : Int32)
  | loaded (dst : Register) (addr : PhysicalAddress) (old value : Int32)
  | stored (src : Register) (addr : PhysicalAddress) (old value : Int32)
  | allocating (start count : Int32)
  | blocking (ticks : Nat)
deriving DecidableEq

open Text in
def Effect.text : Effect → String
  | .nothing => ""
  | .branched o ip t =>
    s!"Branch to instruction offset {signedDecimal o.toInt}. IP was {ip.text}, now {t.text}"
  | .compared a b o t =>
    s!"BranchEq Reg0={registerHex a} Reg1={registerHex b} " ++
      s!"instruction offset {signedDecimal o.toInt}. New ip {t.text}"
  | .incremented r v old new =>
    s!"'Reg{r.text} += {registerHex v}' " ++
      s!"Reg{r.text} was {registerHex old}, now {registerHex new}"
  | .assigned r v => s!"'Reg{r.text} = {registerHex v}'"
  | .loaded d a old v =>
    s!"'Reg{d.text} = *(pa){a.text}' Reg{d.text} was {registerHex old}, now {registerHex v}"
  | .stored s a old v =>
    s!"'*(pa){a.text} = Reg{s.text}' *(pa){a.text} was {registerHex old}, now {registerHex v}"
  | .allocating s c => s!"SyscallAlloc start page {registerHex s} for {registerHex c} pages"
  | .blocking t => s!"Blocking for {t} ticks"

inductive Completion where
  | next (ip : VirtualAddress)
  | block (next : VirtualAddress) (ticks : Nat)
  | signal (s : Signal)
deriving DecidableEq

namespace Execution

inductive Event where
  | paging (e : Paging.Event)
  | executed (i : Instruction) (effect : Effect)
  | printed (line : String)
  | badRequest (pid : ProcessId) (start stop : Int32)
deriving DecidableEq

def Event.records : Event → List Log.Record
  | .paging e => e.records
  | .executed i e => [⟨.debug, s!"*** ({i.text}) {e.text}"⟩]
  | .printed l => [⟨.info, l⟩]
  | .badRequest p a b =>
    [⟨.info, s!"Invalid allocation request from process {p}: pages {Text.signedDecimal a.toInt} " ++
      s!"to {Text.signedDecimal b.toInt}"⟩]

end Execution

structure Execution (g : Geometry) where
  regs : Registers
  pager : Pager g
  output : Array String := #[]

namespace Execution

open DemandPaging.Action

variable {g : Geometry}

abbrev Executing (g : Geometry) := Action Event (Failure MemoryError) (Execution g)

def onPager {α : Type} (x : Paged g α) : Executing g α :=
  within Execution.pager (fun m c => { c with pager := m }) .paging id x

def setRegister (x : Register) (v : Int32) : Executing g Unit :=
  modify fun c => { c with regs := c.regs.set x v }

def print (line : String) : Executing g Unit := do
  report (.printed line)
  modify fun c => { c with output := c.output.push line }

/-- The first page and the number of pages of a request, both relative to the data. -/
def requested? (start stop : Int32) : Option (Nat × Nat) :=
  if 0 ≤ start.toInt ∧ start.toInt ≤ stop.toInt then
    some (start.toInt.toNat, (stop.toInt - start.toInt).toNat)
  else none

def allocate (pid : ProcessId) (dataBase : VirtualAddress) (start stop : Int32) :
    Executing g Bool :=
  match requested? start stop with
  | none => do
    report (.badRequest pid start stop)
    return false
  | some (first, count) => onPager (Pager.allocate pid (g.pageOf dataBase + first) count)

/-- Executes an instruction of a process whose data starts at `dataBase`; `data` is the physical
address of the data operand. An instruction that lacks its operand is invalid. -/
def execute (pid : ProcessId) (dataBase : VirtualAddress) (data : Option PhysicalAddress)
    (i : Instruction) : Executing g Completion := do
  let regs := (← get).regs
  let next := regs.ip.add wordBytes
  match i with
  | .exit =>
    report (.executed i .nothing)
    return .signal .exit
  | .invalid _ => return .signal .invalidInstruction
  | .noOp =>
    report (.executed i .nothing)
    return .next next
  | .branch o =>
    let target := Instruction.branchTarget regs.ip o
    report (.executed i (.branched o regs.ip target))
    return .next target
  | .branchEq o =>
    let target := if regs.r0 = regs.r1 then Instruction.branchTarget regs.ip o else next
    report (.executed i (.compared regs.r0 regs.r1 o target))
    return .next target
  | .printReg r =>
    report (.executed i .nothing)
    print ("[PrintReg " ++ r.text ++ "]  " ++ Text.registerHexFull (regs.get r))
    return .next next
  | .printStr s =>
    report (.executed i .nothing)
    print ("[PrintString] " ++ s)
    return .next next
  | .incr r v =>
    let old := regs.get r
    setRegister r (old + v)
    report (.executed i (.incremented r v old (old + v)))
    return .next next
  | .loadImmediate r v =>
    setRegister r v
    report (.executed i (.assigned r v))
    return .next next
  | .loadPageAddr r p =>
    let v := Instruction.pageAddress g p
    setRegister r v
    report (.executed i (.assigned r v))
    return .next next
  | .loadIndirect d _ =>
    match data with
    | none => return .signal .invalidInstruction
    | some a =>
      let v ← onPager (Pager.loadWord a)
      setRegister d v
      report (.executed i (.loaded d a (regs.get d) v))
      return .next next
  | .storeIndirect s _ =>
    match data with
    | none => return .signal .invalidInstruction
    | some a =>
      let old ← onPager (Pager.loadWord a)
      onPager (Pager.storeWord a (regs.get s))
      report (.executed i (.stored s a old (regs.get s)))
      return .next next
  | .alloc =>
    report (.executed i (.allocating regs.r0 (regs.r1 - regs.r0)))
    if ← allocate pid dataBase regs.r0 regs.r1 then return .next next
    else return .signal .allocationFailure
  | .block t =>
    report (.executed i (.blocking t))
    return .block next t

end Execution

end DemandPaging
