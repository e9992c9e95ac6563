import DemandPaging.Address
/-!
The shape of a machine: page size, number of frames, size of an address space, split of the page
table and size of a TLB, each a power of two. The geometry does all slicing of addresses into
page numbers, of page numbers into table indexes, and of frames back into physical addresses.
-/

namespace DemandPaging

/-- Bytes in a machine word, which is also the length of an instruction. -/
def wordBytes : Nat := 4

structure Geometry where
  pageSizeLog2 : Nat
  frameCountLog2 : Nat
  pageCountLog2 : Nat
  level1Log2 : Nat
  tlbLog2 : Nat
  level1_le : level1Log2 ≤ pageCountLog2
  word_le : 2 ≤ pageSizeLog2
  physical_le : pageSizeLog2 + frameCountLog2 ≤ 32
  virtual_le : pageSizeLog2 + pageCountLog2 ≤ 48
  tlb_le : tlbLog2 ≤ 16
deriving DecidableEq

inductive GeometryError where
  | levelOneTooWide (level1Log2 pageCountLog2 : Nat)
  | pageTooSmall (pageSizeLog2 : Nat)
  | physicalTooLarge (bits : Nat)
  | virtualTooLarge (bits : Nat)
  | tlbTooLarge (tlbLog2 : Nat)
deriving DecidableEq, Repr

def GeometryError.message : GeometryError → String
  | .levelOneTooWide l p => s!"level one entry count log2 {l} exceeds page count log2 {p}"
  | .pageTooSmall s => s!"page size log2 {s} is smaller than one 4-byte word"
  | .physicalTooLarge b => s!"physical memory of 2^{b} bytes exceeds the supported 2^32"
  | .virtualTooLarge b => s!"virtual address space of 2^{b} bytes exceeds the supported 2^48"
  | .tlbTooLarge t => s!"TLB entry count log2 {t} exceeds the supported 16"

namespace Geometry

/-- The largest number of bits a parameter can hold, where reported sums of two stop. -/
def maxLog2 : Nat := UInt32.size - 1

/-- Validates five parameters, in a fixed order of complaints. -/
def ofLog2 (pageSize frameCount pageCount level1 tlb : Nat) : Except GeometryError Geometry :=
  if h₁ : pageCount < level1 then .error (.levelOneTooWide level1 pageCount)
  else if h₂ : pageSize < 2 then .error (.pageTooSmall pageSize)
  else if h₃ : 32 < pageSize + frameCount then
    .error (.physicalTooLarge (min (pageSize + frameCount) maxLog2))
  else if h₄ : 48 < pageSize + pageCount then
    .error (.virtualTooLarge (min (pageSize + pageCount) maxLog2))
  else if h₅ : 16 < tlb then .error (.tlbTooLarge tlb)
  else .ok
    { pageSizeLog2 := pageSize, frameCountLog2 := frameCount, pageCountLog2 := pageCount
      level1Log2 := level1, tlbLog2 := tlb
      level1_le := by omega, word_le := by omega, physical_le := by omega
      virtual_le := by omega, tlb_le := by omega }

theorem one_shiftLeft_pos (k : Nat) : 0 < 1 <<< k := by
  rw [Nat.one_shiftLeft]; exact Nat.two_pow_pos k

theorem shiftRight_eq_div (n k : Nat) : n >>> k = n / 1 <<< k := by
  rw [Nat.one_shiftLeft, Nat.shiftRight_eq_div_pow]

theorem and_mask_eq_mod (n k : Nat) : n &&& (1 <<< k - 1) = n % 1 <<< k := by
  rw [Nat.one_shiftLeft, Nat.and_two_pow_sub_one_eq_mod]

variable (g : Geometry)

def pageSize : Nat := 1 <<< g.pageSizeLog2

def frameCount : Nat := 1 <<< g.frameCountLog2

def pageCount : Nat := 1 <<< g.pageCountLog2

def memorySize : Nat := g.pageSize * g.frameCount

def level1Entries : Nat := 1 <<< g.level1Log2

def level2Log2 : Nat := g.pageCountLog2 - g.level1Log2

def level2Entries : Nat := 1 <<< g.level2Log2

def tlbEntries : Nat := 1 <<< g.tlbLog2

/-- The first-level slot of a page. Pages beyond the address space get slots beyond the table. -/
def level1Index (p : PageNumber) : Nat := p >>> g.level2Log2

def level2Index (p : PageNumber) : Nat := p &&& (g.level2Entries - 1)

def pageOf (a : VirtualAddress) : PageNumber := a.toNat >>> g.pageSizeLog2

def frameOf (a : PhysicalAddress) : FrameNumber := a.toNat >>> g.pageSizeLog2

def pageOffset {k : AddressKind} (a : Address k) : Nat := a.toNat &&& (g.pageSize - 1)

def pageStart (p : PageNumber) : VirtualAddress := .ofNat (p <<< g.pageSizeLog2)

def frameStart (f : FrameNumber) : PhysicalAddress := .ofNat (f <<< g.pageSizeLog2)

def physicalAddress (f : FrameNumber) (a : VirtualAddress) : PhysicalAddress :=
  .ofNat ((g.frameStart f).toNat ||| g.pageOffset a)

def pagesForBytes (n : Nat) : Nat := (n + (g.pageSize - 1)) / g.pageSize

def text : String :=
  s!"page size log2 {g.pageSizeLog2}, frame count log2 {g.frameCountLog2}, " ++
  s!"page count log2 {g.pageCountLog2}, level one entries log2 {g.level1Log2}, " ++
  s!"TLB entries log2 {g.tlbLog2}"

theorem pageSize_pos : 0 < g.pageSize := one_shiftLeft_pos _

theorem frameCount_pos : 0 < g.frameCount := one_shiftLeft_pos _

theorem level2Entries_pos : 0 < g.level2Entries := one_shiftLeft_pos _

theorem tlbEntries_pos : 0 < g.tlbEntries := one_shiftLeft_pos _

theorem wordBytes_le_pageSize : wordBytes ≤ g.pageSize := by
  rw [pageSize, Nat.one_shiftLeft]
  exact Nat.pow_le_pow_right (n := 2) (by omega) g.word_le

theorem pageCount_eq_mul : g.pageCount = g.level1Entries * g.level2Entries := by
  rw [pageCount, level1Entries, level2Entries, level2Log2]
  simp only [Nat.one_shiftLeft]
  rw [← Nat.pow_add, Nat.add_sub_cancel' g.level1_le]

theorem pageOf_eq (a : VirtualAddress) : g.pageOf a = a.toNat / g.pageSize :=
  shiftRight_eq_div _ _

theorem frameOf_eq (a : PhysicalAddress) : g.frameOf a = a.toNat / g.pageSize :=
  shiftRight_eq_div _ _

theorem pageOffset_eq {k : AddressKind} (a : Address k) :
    g.pageOffset a = a.toNat % g.pageSize :=
  and_mask_eq_mod _ _

theorem level1Index_eq (p : PageNumber) : g.level1Index p = p / g.level2Entries :=
  shiftRight_eq_div _ _

theorem level2Index_eq (p : PageNumber) : g.level2Index p = p % g.level2Entries :=
  and_mask_eq_mod _ _

theorem pageOffset_lt {k : AddressKind} (a : Address k) : g.pageOffset a < g.pageSize := by
  rw [pageOffset_eq]; exact Nat.mod_lt _ g.pageSize_pos

theorem level2Index_lt (p : PageNumber) : g.level2Index p < g.level2Entries := by
  rw [level2Index_eq]; exact Nat.mod_lt _ g.level2Entries_pos

theorem eq_of_indexes_eq {p q : PageNumber} (h₁ : g.level1Index p = g.level1Index q)
    (h₂ : g.level2Index p = g.level2Index q) : p = q := by
  rw [level1Index_eq, level1Index_eq] at h₁
  rw [level2Index_eq, level2Index_eq] at h₂
  rw [← Nat.div_add_mod p g.level2Entries, ← Nat.div_add_mod q g.level2Entries, h₁, h₂]

end Geometry

end DemandPaging
