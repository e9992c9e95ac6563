import DemandPaging.Text.Radix
/-!
Machine words of 32 bits as four bytes, least significant first, and memory listed word by word.
-/

namespace DemandPaging.Word

def byte (w : Int32) (i : Nat) : UInt8 := UInt8.ofNat (w.toUInt32.toNat >>> (8 * i))

def ofBytes (b₀ b₁ b₂ b₃ : UInt8) : UInt32 :=
  UInt32.ofNat (b₀.toNat + 256 * (b₁.toNat + 256 * (b₂.toNat + 256 * b₃.toNat)))

/-- A word of a listing: its number in three columns and its eight digits. -/
def listingLine (i : Nat) (w : UInt32) : String :=
  Text.padLeft 3 ' ' (Text.decimal i) ++ ": " ++ Text.padLeft 8 '0' (Text.hexUpper w.toNat)

/-- The listing of some bytes, whole words only, numbered from `i`. -/
def listing (i : Nat) : List UInt8 → List String
  | b₀ :: b₁ :: b₂ :: b₃ :: rest => listingLine i (ofBytes b₀ b₁ b₂ b₃) :: listing (i + 1) rest
  | _ => []

theorem ofBytes_byte (w : Int32) :
    (ofBytes (byte w 0) (byte w 1) (byte w 2) (byte w 3)).toInt32 = w := by
  have h : ofBytes (byte w 0) (byte w 1) (byte w 2) (byte w 3) = w.toUInt32 := by
    apply UInt32.toNat_inj.mp
    have := w.toUInt32.toNat_lt
    simp only [ofBytes, byte, UInt32.toNat_ofNat', UInt8.toNat_ofNat', Nat.shiftRight_eq_div_pow]
    omega
  rw [h]
  rfl

end DemandPaging.Word
