import DemandPaging.Instruction
import DemandPaging.Text.Integer
/-!
Reading an instruction from its text. Blanks around the text are ignored, and the first blank
inside it parts the mnemonic from the operand. Mnemonics that take no operand may be written in
any case. Whatever does not read as an instruction is an invalid one.
-/

namespace DemandPaging.Instruction

/-- Instructions without an operand, by their mnemonic in lower case. -/
def bare? (mnemonic : String) : Option Instruction :=
  match mnemonic with
  | "syscall_exit" => some .exit
  | "noop" => some .noOp
  | "syscall_alloc" => some .alloc
  | "printreg0" => some (.printReg .r0)
  | "printreg1" => some (.printReg .r1)
  | _ => none

def hexOperand? (cs : List Char) : Option Int32 := (Text.signed? 16 cs).bind Text.int32?

def decimalOperand? (cs : List Char) : Option Int32 := (Text.signed? 10 cs).bind Text.int32?

def registerOperand? (cs : List Char) : Option Register :=
  (hexOperand? cs).bind fun v => Register.ofIndex? v.toInt

/-- A duration: positive, and at most 32 bits long. -/
def ticksOperand? (cs : List Char) : Option Nat :=
  (Text.unsigned? 10 cs).filter fun n => 0 < n && n < UInt32.size

/-- Instructions with an operand, by their exact mnemonic. -/
def withOperand? (mnemonic : String) (cs : List Char) : Option Instruction :=
  match mnemonic with
  | "printStr" => some (.printStr (String.ofList cs))
  | "branch_uc" => (decimalOperand? cs).map .branch
  | "branch_eq" => (decimalOperand? cs).map .branchEq
  | "Syscall_Block" => (ticksOperand? cs).map .block
  | "incrReg0" => (hexOperand? cs).map (.incr .r0)
  | "incrReg1" => (hexOperand? cs).map (.incr .r1)
  | "loadReg0Immediate" => (hexOperand? cs).map (.loadImmediate .r0)
  | "loadReg1Immediate" => (hexOperand? cs).map (.loadImmediate .r1)
  | "loadReg0PageAddr" => (hexOperand? cs).map (.loadPageAddr .r0)
  | "loadReg1PageAddr" => (hexOperand? cs).map (.loadPageAddr .r1)
  | "loadReg0Indirect" => (registerOperand? cs).map (.loadIndirect .r0)
  | "loadReg1Indirect" => (registerOperand? cs).map (.loadIndirect .r1)
  | "storeReg0Indirect" => (registerOperand? cs).map (.storeIndirect .r0)
  | "storeReg1Indirect" => (registerOperand? cs).map (.storeIndirect .r1)
  | _ => none

def ofParts? (mnemonic : List Char) : Option (List Char) → Option Instruction
  | none =>
    match bare? (String.ofList (mnemonic.map Char.toLower)) with
    | some i => some i
    | none => if String.ofList mnemonic = "printStr" then some (.printStr "") else none
  | some operand => withOperand? (String.ofList mnemonic) (Text.trimChars operand)

def decodeChars (cs : List Char) : Instruction :=
  match Text.cutAtBlank cs with
  | (mnemonic, operand) => (ofParts? mnemonic operand).getD (.invalid (String.ofList cs))

def decode (s : String) : Instruction := decodeChars (Text.trimChars s.toList)

end DemandPaging.Instruction
