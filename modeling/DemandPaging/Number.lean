/-!
The numbers that name frames, pages, processes and swapped page images, and arithmetic on numbers
of 64 bits that is undefined outside their range.
-/

namespace DemandPaging

abbrev FrameNumber := Nat
abbrev PageNumber := Nat
/-- Processes are numbered from zero in the order of their configuration. -/
abbrev ProcessId := Nat
abbrev SwapToken := Nat

def wordBound : Nat := UInt64.size

namespace Number

inductive Kind where
  | frame | page | process | token
deriving DecidableEq, Repr

def Kind.label : Kind → String
  | .frame => "FrameNumber"
  | .page => "PageNumber"
  | .process => "ProcessId"
  | .token => "SwapToken"

def debug (k : Kind) (n : Nat) : String := s!"{k.label}({n})"

/-- How many records of a size a table can hold: their bytes are counted in 63 bits. -/
def tableLimit (bytes : Nat) : Nat := (wordBound / 2 - 1) / bytes

def add? (a b : Nat) : Option Nat := if a + b < wordBound then some (a + b) else none

def sub? (a b : Nat) : Option Nat := if b ≤ a then some (a - b) else none

theorem add?_eq_some {a b c : Nat} : add? a b = some c ↔ a + b = c ∧ c < wordBound := by
  unfold add?
  split
  · constructor
    · rintro h; obtain rfl := Option.some.inj h; exact ⟨rfl, by assumption⟩
    · rintro ⟨rfl, -⟩; rfl
  · constructor
    · rintro h; simp at h
    · rintro ⟨rfl, h⟩; contradiction

theorem sub?_eq_some {a b c : Nat} : sub? a b = some c ↔ a = b + c := by
  unfold sub?
  split
  · rw [Option.some.injEq]; omega
  · constructor
    · rintro h; simp at h
    · omega

end Number

end DemandPaging
