import DemandPaging.Geometry
/-!
Traces: the instruction texts of a program, one word each. A trace can be read past its end and
then gives a text that is no instruction.
-/

namespace DemandPaging

structure Trace where
  instructions : Array String := #[]
deriving DecidableEq, Repr

namespace Trace

def size (t : Trace) : Nat := t.instructions.size

def isEmpty (t : Trace) : Bool := t.instructions.isEmpty

def textBytes (t : Trace) : Nat := wordBytes * t.size

def missing (index : Nat) : String := "Invalid Instruction at index " ++ Text.decimal index

def get (t : Trace) (index : Nat) : String := t.instructions.getD index (missing index)

def textAt (t : Trace) (ip : VirtualAddress) : String := t.get (ip.toNat / wordBytes)

def listing (t : Trace) : String :=
  "[" ++ String.intercalate ", " t.instructions.toList ++ "]"

end Trace

end DemandPaging
