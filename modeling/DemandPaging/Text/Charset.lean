/-!
Bytes to characters. A byte order mark chooses UTF-8 or UTF-16 and is dropped; bytes without one
are windows-1252. What is malformed reads as U+FFFD, once for each maximal piece. A text that ends
inside a character or inside a byte order mark is broken.
-/

namespace DemandPaging.Text

def replacement : Char := '\uFFFD'

/-- The characters of windows-1252 from 0x80 to 0x9F; the five bytes it leaves open stand for the
control characters of the same number. -/
def windows1252High : List Nat :=
  [0x20AC, 0x81, 0x201A, 0x192, 0x201E, 0x2026, 0x2020, 0x2021,
    0x2C6, 0x2030, 0x160, 0x2039, 0x152, 0x8D, 0x17D, 0x8F,
    0x90, 0x2018, 0x2019, 0x201C, 0x201D, 0x2022, 0x2013, 0x2014,
    0x2DC, 0x2122, 0x161, 0x203A, 0x153, 0x9D, 0x17E, 0x178]

def windows1252 (b : UInt8) : Char :=
  let n := b.toNat
  if 0x80 ≤ n ∧ n < 0xA0 then Char.ofNat (windows1252High.getD (n - 0x80) 0) else Char.ofNat n

/-- A character of several bytes read in part: the bits so far, the bytes still owed, and the
bounds on the next. -/
structure PartialUtf8 where
  bits : Nat
  owed : Nat
  low : Nat
  high : Nat

def PartialUtf8.ofFirst? (n : Nat) : Option PartialUtf8 :=
  if 0xC2 ≤ n ∧ n ≤ 0xDF then some ⟨n - 0xC0, 1, 0x80, 0xBF⟩
  else if n = 0xE0 then some ⟨0, 2, 0xA0, 0xBF⟩
  else if n = 0xED then some ⟨0xD, 2, 0x80, 0x9F⟩
  else if 0xE1 ≤ n ∧ n ≤ 0xEF then some ⟨n - 0xE0, 2, 0x80, 0xBF⟩
  else if n = 0xF0 then some ⟨0, 3, 0x90, 0xBF⟩
  else if n = 0xF4 then some ⟨4, 3, 0x80, 0x8F⟩
  else if 0xF1 ≤ n ∧ n ≤ 0xF3 then some ⟨n - 0xF0, 3, 0x80, 0xBF⟩
  else none

structure Decoded where
  chars : List Char
  broken : Bool := false
deriving DecidableEq, Repr

/-- A decoder between two units: the characters read, last first, and what is read in part. -/
structure Decoding (π : Type) where
  chars : List Char := []
  pending : Option π := none

namespace Decoding

variable {π : Type}

/-- What is still read in part at the end breaks the text. -/
def finish (d : Decoding π) : Decoded := ⟨d.chars.reverse, d.pending.isSome⟩

def utf8First (chars : List Char) (n : Nat) : Decoding PartialUtf8 :=
  if n < 0x80 then ⟨Char.ofNat n :: chars, none⟩
  else
    match PartialUtf8.ofFirst? n with
    | some p => ⟨chars, some p⟩
    | none => ⟨replacement :: chars, none⟩

def utf8Step (d : Decoding PartialUtf8) (b : UInt8) : Decoding PartialUtf8 :=
  let n := b.toNat
  match d.pending with
  | none => utf8First d.chars n
  | some p =>
    if p.low ≤ n ∧ n ≤ p.high then
      let bits := p.bits * 64 + (n - 0x80)
      if p.owed = 1 then ⟨Char.ofNat bits :: d.chars, none⟩
      else ⟨d.chars, some ⟨bits, p.owed - 1, 0x80, 0xBF⟩⟩
    else utf8First (replacement :: d.chars) n

def utf16First (chars : List Char) (u : Nat) : Decoding Nat :=
  if 0xD800 ≤ u ∧ u < 0xDC00 then ⟨chars, some u⟩
  else if 0xDC00 ≤ u ∧ u < 0xE000 then ⟨replacement :: chars, none⟩
  else ⟨Char.ofNat u :: chars, none⟩

def utf16Step (d : Decoding Nat) (u : Nat) : Decoding Nat :=
  match d.pending with
  | none => utf16First d.chars u
  | some lead =>
    if 0xDC00 ≤ u ∧ u < 0xE000 then
      ⟨Char.ofNat (0x10000 + (lead - 0xD800) * 0x400 + (u - 0xDC00)) :: d.chars, none⟩
    else utf16First (replacement :: d.chars) u

end Decoding

def utf8 (bytes : List UInt8) : Decoded :=
  (bytes.foldl Decoding.utf8Step {}).finish

/-- Pairs the bytes into 16-bit units; a last byte alone breaks the text. -/
def utf16From (unit : UInt8 → UInt8 → Nat) (d : Decoding Nat) : List UInt8 → Decoded
  | a :: b :: rest => utf16From unit (d.utf16Step (unit a b)) rest
  | [_] => { d.finish with broken := true }
  | [] => d.finish

def utf16BigEndian (bytes : List UInt8) : Decoded :=
  utf16From (fun a b => a.toNat * 256 + b.toNat) {} bytes

def utf16LittleEndian (bytes : List UInt8) : Decoded :=
  utf16From (fun a b => b.toNat * 256 + a.toNat) {} bytes

/-- Whether bytes begin a byte order mark and end before it does. -/
def isPartialMark : List UInt8 → Bool
  | [a] => a == 0xEF || a == 0xFE || a == 0xFF
  | [a, b] => a == 0xEF && b == 0xBB
  | _ => false

def decodeBytes (bytes : List UInt8) : Decoded :=
  match bytes with
  | 0xEF :: 0xBB :: 0xBF :: rest => utf8 rest
  | 0xFE :: 0xFF :: rest => utf16BigEndian rest
  | 0xFF :: 0xFE :: rest => utf16LittleEndian rest
  | _ => ⟨bytes.map windows1252, isPartialMark bytes⟩

example : (decodeBytes [0x80, 0x41, 0x9F]).chars = ['€', 'A', 'Ÿ'] := by decide

example : (utf8 [0xE2, 0x82, 0x41, 0xC3, 0xA9]).chars = [replacement, 'A', 'é'] := by decide

example : (utf16BigEndian [0xD8, 0x3D, 0xDE, 0x00, 0xD8, 0x3D]).chars = ['😀'] := by decide

example : (utf16BigEndian [0xD8, 0x3D, 0xDE, 0x00, 0xD8, 0x3D]).broken = true := by decide

end DemandPaging.Text
