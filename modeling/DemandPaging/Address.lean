import DemandPaging.Number
import DemandPaging.Text.Radix
/-!
Byte addresses of 64 bits, in a process's virtual memory or in physical memory. Sums wrap around;
how an address splits into page and offset is the geometry's matter.
-/

namespace DemandPaging

inductive AddressKind where
  | virtual | physical
deriving DecidableEq, Repr

structure Address (k : AddressKind) where
  bits : UInt64
deriving DecidableEq

abbrev VirtualAddress := Address .virtual
abbrev PhysicalAddress := Address .physical

def AddressKind.label : AddressKind → String
  | .virtual => "VirtualAddress"
  | .physical => "PhysicalAddress"

namespace Address

variable {k : AddressKind}

def toNat (a : Address k) : Nat := a.bits.toNat

/-- The address with this number, less any bits above the sixty-fourth. -/
def ofNat (n : Nat) : Address k := ⟨UInt64.ofNat n⟩

def zero : Address k := ofNat 0

def top : Address k := ofNat (wordBound - 1)

def text (a : Address k) : String := "0x" ++ Text.hex a.toNat

def debug (a : Address k) : String := k.label ++ "(" ++ a.text ++ ")"

def add (a : Address k) (n : Nat) : Address k := ofNat (a.toNat + n)

def sub? (a b : Address k) : Option Nat := Number.sub? a.toNat b.toNat

/-- Whether the address is a multiple of a power of two. Any other positive number is tested by
the bits of its predecessor. -/
def aligned? (a : Address k) (align : Nat) : Option Bool :=
  if align = 0 then none else some (a.toNat &&& (align - 1) == 0)

def offset (a : Address k) (delta : Int) : Address k :=
  ofNat ((a.toNat + delta) % (wordBound : Int)).toNat

/-- A computed signed address. A negative one names no page; it becomes the highest address. -/
def ofSigned (n : Int) : Address k := if n < 0 then top else ofNat n.toNat

@[simp] theorem toNat_ofNat (n : Nat) : (ofNat n : Address k).toNat = n % wordBound := by
  simp [ofNat, toNat, wordBound]

theorem toNat_ofNat_of_lt {n : Nat} (h : n < wordBound) : (ofNat n : Address k).toNat = n := by
  rw [toNat_ofNat, Nat.mod_eq_of_lt h]

theorem ofNat_toNat (a : Address k) : ofNat a.toNat = a := by
  simp [ofNat, toNat]

theorem toNat_inj {a b : Address k} : a.toNat = b.toNat ↔ a = b := by
  constructor
  · intro h; rw [← ofNat_toNat a, ← ofNat_toNat b, h]
  · rintro rfl; rfl

theorem ofSigned_natCast {n : Nat} : (ofSigned (n : Int) : Address k) = ofNat n := by
  rw [ofSigned, if_neg (by omega)]
  rfl

theorem ofSigned_of_neg {n : Int} (h : n < 0) : (ofSigned n : Address k) = top := if_pos h

end Address

end DemandPaging
