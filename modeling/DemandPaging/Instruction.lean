import DemandPaging.Geometry
/-!
The instructions a traced program consists of, and their text. Every instruction takes one word.
Branch offsets and block durations are written in decimal, the operands of register instructions
in signed hexadecimal. Loads and stores reach data relative to the first data page.
-/

namespace DemandPaging

inductive Register where
  | r0 | r1
deriving DecidableEq, Repr

def Register.index : Register → Nat
  | .r0 => 0
  | .r1 => 1

def Register.text (r : Register) : String := Text.decimal r.index

def Register.ofIndex? (n : Int) : Option Register :=
  if n = 0 then some .r0 else if n = 1 then some .r1 else none

structure Registers where
  ip : VirtualAddress := .zero
  r0 : Int32 := 0
  r1 : Int32 := 0
deriving DecidableEq

namespace Registers

def get (r : Registers) : Register → Int32
  | .r0 => r.r0
  | .r1 => r.r1

def set (r : Registers) (x : Register) (v : Int32) : Registers :=
  match x with
  | .r0 => { r with r0 := v }
  | .r1 => { r with r1 := v }

theorem get_set (r : Registers) (x y : Register) (v : Int32) :
    (r.set x v).get y = if y = x then v else r.get y := by
  cases x <;> cases y <;> rfl

end Registers

inductive Instruction where
  | exit
  | noOp
  | branch (offset : Int32)
  | branchEq (offset : Int32)
  | printReg (reg : Register)
  | printStr (text : String)
  | incr (reg : Register) (amount : Int32)
  | loadImmediate (reg : Register) (value : Int32)
  | loadPageAddr (reg : Register) (page : Int32)
  | loadIndirect (dst addr : Register)
  | storeIndirect (src addr : Register)
  /-- Allocates the data pages from the first register up to the second. -/
  | alloc
  | block (ticks : Nat)
  | invalid (text : String)
deriving DecidableEq

namespace Instruction

def text : Instruction → String
  | .exit => "Syscall_Exit"
  | .noOp => "NoOp"
  | .branch o => "branch_uc " ++ Text.signedDecimal o.toInt
  | .branchEq o => "branch_eq " ++ Text.signedDecimal o.toInt
  | .printReg r => "printReg" ++ r.text
  | .printStr s => "printStr " ++ s
  | .incr r v => "incrReg" ++ r.text ++ " " ++ Text.signedHex v.toInt
  | .loadImmediate r v => "loadReg" ++ r.text ++ "Immediate " ++ Text.signedHex v.toInt
  | .loadPageAddr r p => "loadReg" ++ r.text ++ "PageAddr " ++ Text.signedHex p.toInt
  | .loadIndirect d a => "loadReg" ++ d.text ++ "Indirect " ++ a.text
  | .storeIndirect s a => "storeReg" ++ s.text ++ "Indirect " ++ a.text
  | .alloc => "Syscall_Alloc"
  | .block t => "Syscall_Block " ++ Text.decimal t
  | .invalid s => s

def addressRegister? : Instruction → Option Register
  | .loadIndirect _ a => some a
  | .storeIndirect _ a => some a
  | _ => none

def maxSigned : Int := (UInt64.size / 2 - 1 : Nat)

/-- A register's signed distance from the first data byte, as an address. -/
def relativeAddress (r : Int32) (dataBase : VirtualAddress) : VirtualAddress :=
  .ofSigned (min (r.toInt + min (dataBase.toNat : Int) maxSigned) maxSigned)

def dataAddress? (i : Instruction) (regs : Registers) (dataBase : VirtualAddress) :
    Option VirtualAddress :=
  i.addressRegister?.map fun a => relativeAddress (regs.get a) dataBase

def branchTarget (ip : VirtualAddress) (offset : Int32) : VirtualAddress :=
  ip.offset (offset.toInt * wordBytes)

/-- The number of a data page's first byte, cut to 32 bits. -/
def pageAddress (g : Geometry) (page : Int32) : Int32 :=
  Int32.ofInt (page.toInt * g.pageSize)

end Instruction

inductive Signal where
  | exit | invalidInstruction | allocationFailure
deriving DecidableEq, Repr

def Signal.text : Signal → String
  | .exit => "Exit System Call"
  | .invalidInstruction => "Invalid Instruction"
  | .allocationFailure => "Allocation Failure"

end DemandPaging
