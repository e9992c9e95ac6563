import DemandPaging.Text.Blank
import DemandPaging.Text.Radix
/-!
Written integers: the form used for configuration values, and the plain signed forms used for
operands.
-/

namespace DemandPaging.Text

/-- Takes at most one sign off the front; the flag tells whether it was a minus. -/
def cutSign : List Char → Bool × List Char
  | '-' :: cs => (true, cs)
  | '+' :: cs => (false, cs)
  | cs => (false, cs)

def applySign (negative : Bool) (n : Nat) : Int := if negative then -(n : Int) else n

def signed? (radix : Nat) (cs : List Char) : Option Int :=
  match cutSign cs with
  | (negative, digits) => (natural? radix digits).map (applySign negative)

def unsigned? (radix : Nat) : List Char → Option Nat
  | '+' :: cs => natural? radix cs
  | cs => natural? radix cs

def int32? (n : Int) : Option Int32 :=
  if Int32.minValue.toInt ≤ n ∧ n ≤ Int32.maxValue.toInt then some (Int32.ofInt n) else none

/-- The radix that a written number announces, and its digits: hexadecimal after `0x`, `0X` or
`#`, octal after a zero that is not alone, else decimal. -/
def cutRadix : List Char → Nat × List Char
  | '0' :: 'x' :: cs => (16, cs)
  | '0' :: 'X' :: cs => (16, cs)
  | '#' :: cs => (16, cs)
  | '0' :: c :: cs => (8, c :: cs)
  | cs => (10, cs)

def maxMagnitude : Nat := UInt64.size / 2 - 1

/-- A configuration integer: blanks around it are ignored, a sign may precede the radix. -/
def integer? (s : String) : Option Int :=
  match cutSign (trimChars s.toList) with
  | (negative, rest) =>
    match cutRadix rest with
    | (radix, digits) =>
      ((natural? radix digits).filter (· ≤ maxMagnitude)).map (applySign negative)

def naturalBelow? (bound : Nat) (s : String) : Option Nat :=
  match integer? s with
  | some (.ofNat n) => if n < bound then some n else none
  | _ => none

end DemandPaging.Text
