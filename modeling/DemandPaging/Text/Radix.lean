/-!
Numbers written in a radix: the digits of a number, and the number that a run of digits denotes.
-/

namespace DemandPaging.Text

def decimal (n : Nat) : String := String.ofList (Nat.toDigits 10 n)

def hex (n : Nat) : String := String.ofList (Nat.toDigits 16 n)

def hexUpper (n : Nat) : String := String.ofList ((Nat.toDigits 16 n).map Char.toUpper)

def padLeft (width : Nat) (fill : Char) (s : String) : String :=
  String.ofList (List.replicate (width - s.length) fill) ++ s

/-- A 32-bit register as its two's complement bits, in upper case after `0x`. -/
def registerHex (r : Int32) : String := "0x" ++ hexUpper r.toUInt32.toNat

def registerHexFull (r : Int32) : String := "0x" ++ padLeft 8 '0' (hexUpper r.toUInt32.toNat)

/-- A signed number in lower-case hexadecimal without a mark for the radix. -/
def signedHex (n : Int) : String := if n < 0 then "-" ++ hex n.natAbs else hex n.natAbs

def signedDecimal (n : Int) : String := if n < 0 then "-" ++ decimal n.natAbs else decimal n.natAbs

def hexBytes (bytes : List UInt8) : String :=
  String.ofList (bytes.flatMap fun b =>
    [Nat.digitChar (b.toNat / 16), Nat.digitChar (b.toNat % 16)])

def digitValue? (c : Char) : Option Nat :=
  if '0' ≤ c ∧ c ≤ '9' then some (c.toNat - '0'.toNat)
  else if 'a' ≤ c ∧ c ≤ 'z' then some (c.toNat - 'a'.toNat + 10)
  else if 'A' ≤ c ∧ c ≤ 'Z' then some (c.toNat - 'A'.toNat + 10)
  else none

def digit? (radix : Nat) (c : Char) : Option Nat := (digitValue? c).filter (· < radix)

def digitsFrom? (radix : Nat) (value : Nat) : List Char → Option Nat
  | [] => some value
  | c :: cs =>
    match digit? radix c with
    | some d => digitsFrom? radix (value * radix + d) cs
    | none => none

def natural? (radix : Nat) : List Char → Option Nat
  | [] => none
  | cs => digitsFrom? radix 0 cs

theorem digitsFrom?_append (radix value : Nat) (cs ds : List Char) :
    digitsFrom? radix value (cs ++ ds) =
      (digitsFrom? radix value cs).bind fun v => digitsFrom? radix v ds := by
  induction cs generalizing value with
  | nil => rfl
  | cons c cs ih =>
    simp only [List.cons_append, digitsFrom?]
    cases digit? radix c with
    | none => rfl
    | some d => exact ih _

end DemandPaging.Text
