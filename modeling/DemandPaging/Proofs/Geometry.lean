import DemandPaging.Geometry
import Mathlib.Algebra.Group.Nat.Defs
import Mathlib.Data.Set.Function
import Mathlib.Order.Bounds.Basic
/-!
Slicing by shifts and masks. An address is a page or a frame with an offset, a page is a slot of the
first level with one of the second, and each is told by its two parts. In every geometry that is
accepted the sizes fit in words of 64 bits, so that nothing is lost on the way.
-/

namespace DemandPaging

namespace Geometry

variable (g : Geometry)

/-! Pages and the table. -/

theorem level1Index_lt_iff (p : PageNumber) :
    g.level1Index p < g.level1Entries ↔ p < g.pageCount := by
  rw [level1Index_eq, Nat.div_lt_iff_lt_mul g.level2Entries_pos, pageCount_eq_mul]

theorem level1Index_mul_add {l₁ l₂ : Nat} (h : l₂ < g.level2Entries) :
    g.level1Index (l₁ * g.level2Entries + l₂) = l₁ := by
  rw [level1Index_eq, Nat.add_comm, Nat.add_mul_div_right _ _ g.level2Entries_pos,
    Nat.div_eq_of_lt h, Nat.zero_add]

theorem level2Index_mul_add {l₁ l₂ : Nat} (h : l₂ < g.level2Entries) :
    g.level2Index (l₁ * g.level2Entries + l₂) = l₂ := by
  rw [level2Index_eq, Nat.add_comm, Nat.add_mul_mod_self_right, Nat.mod_eq_of_lt h]

theorem mul_add_indexes (p : PageNumber) :
    g.level1Index p * g.level2Entries + g.level2Index p = p := by
  rw [level1Index_eq, level2Index_eq, Nat.div_add_mod']

/-! Virtual addresses. -/

theorem pageCount_lt_wordBound : g.pageCount < wordBound := by
  have hle : g.pageCountLog2 ≤ 48 := Nat.le_trans (Nat.le_add_left _ _) g.virtual_le
  rw [pageCount, Nat.one_shiftLeft]
  exact Nat.lt_of_le_of_lt (Nat.pow_le_pow_right (n := 2) (by decide) hle) (by decide)

theorem pageCount_mul_pageSize_le : g.pageCount * g.pageSize ≤ 2 ^ 48 := by
  rw [pageCount, pageSize, Nat.one_shiftLeft, Nat.one_shiftLeft, ← Nat.pow_add, Nat.add_comm]
  exact Nat.pow_le_pow_right (n := 2) (by decide) g.virtual_le

theorem mul_pageSize_le {T : Nat} (hT : T ≤ g.pageCount) : T * g.pageSize ≤ 2 ^ 48 :=
  (Nat.mul_le_mul_right _ hT).trans g.pageCount_mul_pageSize_le

theorem toNat_pageStart {T : Nat} (hT : T ≤ g.pageCount) :
    (g.pageStart T).toNat = T * g.pageSize := by
  have hle := g.mul_pageSize_le hT
  have hshift : T <<< g.pageSizeLog2 = T * g.pageSize := by
    rw [Nat.shiftLeft_eq, pageSize, Nat.one_shiftLeft]
  rw [pageStart, hshift, Address.toNat_ofNat_of_lt (Nat.lt_of_le_of_lt hle (by decide))]

theorem pageOf_pageStart {T : Nat} (hT : T ≤ g.pageCount) : g.pageOf (g.pageStart T) = T := by
  rw [pageOf_eq, g.toNat_pageStart hT, Nat.mul_div_cancel _ g.pageSize_pos]

theorem pageOf_ofNat {p k : Nat} (hk : k < g.pageSize) (hlt : p * g.pageSize + k < wordBound) :
    g.pageOf (.ofNat (p * g.pageSize + k)) = p := by
  rw [pageOf_eq, Address.toNat_ofNat_of_lt hlt, Nat.add_comm,
    Nat.add_mul_div_right _ _ g.pageSize_pos, Nat.div_eq_of_lt hk, Nat.zero_add]

theorem pageOffset_ofNat {p k : Nat} (hk : k < g.pageSize)
    (hlt : p * g.pageSize + k < wordBound) :
    g.pageOffset (.ofNat (p * g.pageSize + k) : VirtualAddress) = k := by
  rw [pageOffset_eq, Address.toNat_ofNat_of_lt hlt, Nat.add_comm, Nat.add_mul_mod_self_right,
    Nat.mod_eq_of_lt hk]

theorem pageCount_le_pageOf_top : g.pageCount ≤ g.pageOf .top := by
  have hle := g.pageCount_mul_pageSize_le
  rw [pageOf_eq, Nat.le_div_iff_mul_le g.pageSize_pos]
  exact hle.trans (by decide)

/-! Physical addresses. -/

theorem memorySize_le : g.memorySize ≤ 2 ^ 32 := by
  rw [memorySize, frameCount, pageSize, Nat.one_shiftLeft, Nat.one_shiftLeft, ← Nat.pow_add]
  exact Nat.pow_le_pow_right (n := 2) (by decide) g.physical_le

theorem frame_end_le {f : Nat} (h : f < g.frameCount) :
    f * g.pageSize + g.pageSize ≤ g.memorySize := by
  rw [← Nat.succ_mul, memorySize, Nat.mul_comm g.pageSize]
  exact Nat.mul_le_mul_right _ h

theorem toNat_frameStart {f : Nat} (h : f < g.frameCount) :
    (g.frameStart f).toNat = f * g.pageSize := by
  have hend := g.frame_end_le h
  have hmem := g.memorySize_le
  have hbound : (2 : Nat) ^ 32 < wordBound := by decide
  have hshift : f <<< g.pageSizeLog2 = f * g.pageSize := by
    rw [Nat.shiftLeft_eq, pageSize, Nat.one_shiftLeft]
  rw [frameStart, hshift, Address.toNat_ofNat_of_lt (by omega)]

theorem toNat_physicalAddress {f : Nat} (h : f < g.frameCount) (a : VirtualAddress) :
    (g.physicalAddress f a).toNat = f * g.pageSize + g.pageOffset a := by
  have hoff := g.pageOffset_lt a
  have hend := g.frame_end_le h
  have hmem := g.memorySize_le
  have hbound : (2 : Nat) ^ 32 < wordBound := by decide
  have hor : f * g.pageSize ||| g.pageOffset a = f * g.pageSize + g.pageOffset a := by
    rw [pageSize, Nat.one_shiftLeft] at hoff ⊢
    rw [← Nat.shiftLeft_eq, Nat.shiftLeft_add_eq_or_of_lt hoff]
  rw [physicalAddress, g.toNat_frameStart h, hor, Address.toNat_ofNat_of_lt (by omega)]

theorem toNat_physicalAddress_lt {f : Nat} (h : f < g.frameCount) (a : VirtualAddress) :
    (g.physicalAddress f a).toNat < g.memorySize := by
  have hoff := g.pageOffset_lt a
  have hend := g.frame_end_le h
  rw [g.toNat_physicalAddress h]
  omega

theorem frameOf_physicalAddress {f : Nat} (h : f < g.frameCount) (a : VirtualAddress) :
    g.frameOf (g.physicalAddress f a) = f := by
  rw [frameOf_eq, g.toNat_physicalAddress h, Nat.mul_comm,
    Nat.mul_add_div g.pageSize_pos, Nat.div_eq_of_lt (g.pageOffset_lt a), Nat.add_zero]

theorem pageOffset_physicalAddress {f : Nat} (h : f < g.frameCount) (a : VirtualAddress) :
    g.pageOffset (g.physicalAddress f a) = g.pageOffset a := by
  rw [pageOffset_eq, g.toNat_physicalAddress h, Nat.mul_comm, Nat.mul_add_mod,
    Nat.mod_eq_of_lt (g.pageOffset_lt a)]

theorem frameOf_lt_iff (a : PhysicalAddress) :
    g.frameOf a < g.frameCount ↔ a.toNat < g.memorySize := by
  rw [frameOf_eq, Nat.div_lt_iff_lt_mul g.pageSize_pos, memorySize, Nat.mul_comm]

/-! Sizes in 64 bits. -/

/-- Shifting 1 in a word of 64 bits by so many bits is defined and gives this power of two. -/
structure ShiftsTo (k n : Nat) : Prop where
  eq : n = 2 ^ k
  lt : k < 64
  word : ((1 : UInt64) <<< UInt64.ofNat k).toNat = n

theorem shiftsTo {k : Nat} (h : k < 64) : ShiftsTo k (1 <<< k) where
  eq := Nat.one_shiftLeft k
  lt := h
  word := by
    have hk : k % 2 ^ 64 = k := Nat.mod_eq_of_lt (h.trans (by decide))
    have hpow : 2 ^ k < 2 ^ 64 := Nat.pow_lt_pow_right (by decide) h
    rw [UInt64.toNat_shiftLeft, UInt64.toNat_ofNat', hk, Nat.mod_eq_of_lt h, UInt64.toNat_one,
      Nat.one_shiftLeft, Nat.mod_eq_of_lt hpow]

/-- The sizes that five parameters stand for, computed in words of 64 bits with nothing lost. -/
structure SizesExact (pageSize frameCount pageCount level1 tlb : Nat) : Prop where
  page : ShiftsTo pageSize g.pageSize
  frames : ShiftsTo frameCount g.frameCount
  pages : ShiftsTo pageCount g.pageCount
  first : ShiftsTo level1 g.level1Entries
  second_log2 : level1 + g.level2Log2 = pageCount
  second : ShiftsTo g.level2Log2 g.level2Entries
  buffer : ShiftsTo tlb g.tlbEntries
  memory : g.memorySize = 2 ^ (pageSize + frameCount)
  memory_word : (UInt64.ofNat g.pageSize * UInt64.ofNat g.frameCount).toNat = g.memorySize

theorem log2_of_ofLog2 {g : Geometry} {s f p l t : Nat} (h : ofLog2 s f p l t = .ok g) :
    g.pageSizeLog2 = s ∧ g.frameCountLog2 = f ∧ g.pageCountLog2 = p ∧ g.level1Log2 = l ∧
      g.tlbLog2 = t := by
  unfold ofLog2 at h
  iterate 5
    split at h
    · exact absurd h nofun
  obtain rfl := Except.ok.inj h
  exact ⟨rfl, rfl, rfl, rfl, rfl⟩

theorem memorySize_eq : g.memorySize = 2 ^ (g.pageSizeLog2 + g.frameCountLog2) := by
  rw [memorySize, pageSize, frameCount, Nat.one_shiftLeft, Nat.one_shiftLeft, Nat.pow_add]

theorem sizesExact : g.SizesExact g.pageSizeLog2 g.frameCountLog2 g.pageCountLog2 g.level1Log2
    g.tlbLog2 := by
  have hlevel1 := g.level1_le
  have hphysical := g.physical_le
  have hvirtual := g.virtual_le
  have htlb := g.tlb_le
  have hpage : ShiftsTo g.pageSizeLog2 g.pageSize := shiftsTo (by omega)
  have hframes : ShiftsTo g.frameCountLog2 g.frameCount := shiftsTo (by omega)
  refine ⟨hpage, hframes, shiftsTo (by omega), shiftsTo (by omega), ?_, shiftsTo ?_,
    shiftsTo (by omega), g.memorySize_eq, ?_⟩
  · exact Nat.add_sub_cancel' hlevel1
  · rw [level2Log2]
    omega
  · have hmem : g.memorySize < 2 ^ 64 := Nat.lt_of_le_of_lt g.memorySize_le (by decide)
    have hle : g.pageSize ≤ g.memorySize := Nat.le_mul_of_pos_right _ g.frameCount_pos
    have hle' : g.frameCount ≤ g.memorySize := Nat.le_mul_of_pos_left _ g.pageSize_pos
    rw [UInt64.toNat_mul, UInt64.toNat_ofNat', UInt64.toNat_ofNat',
      Nat.mod_eq_of_lt (Nat.lt_of_le_of_lt hle hmem),
      Nat.mod_eq_of_lt (Nat.lt_of_le_of_lt hle' hmem)]
    exact Nat.mod_eq_of_lt hmem

/-! Slices and their parts. -/

theorem bijOn_div_mod (n : Nat) {w : Nat} (hw : 0 < w) :
    Set.BijOn (fun k => (k / w, k % w)) (Set.Iio (n * w)) (Set.Iio n ×ˢ Set.Iio w) := by
  refine ⟨fun k hk => ?_, fun j _ k _ hjk => ?_, fun (q, r) hqr => ?_⟩
  · exact ⟨(Nat.div_lt_iff_lt_mul hw).mpr hk, Nat.mod_lt _ hw⟩
  · obtain ⟨hdiv, hmod⟩ := Prod.mk.inj hjk
    rw [← Nat.div_add_mod j w, ← Nat.div_add_mod k w, hdiv, hmod]
  · obtain ⟨hq, hr⟩ := hqr
    have hdiv : (q * w + r) / w = q := by
      rw [Nat.mul_comm, Nat.mul_add_div hw, Nat.div_eq_of_lt hr, Nat.add_zero]
    have hmod : (q * w + r) % w = r := by
      rw [Nat.mul_comm, Nat.mul_add_mod, Nat.mod_eq_of_lt hr]
    exact ⟨q * w + r, (Nat.div_lt_iff_lt_mul hw).mp (hdiv.trans_lt hq), Prod.ext hdiv hmod⟩

theorem bijOn_toNat {k : AddressKind} {n : Nat} (hn : n ≤ wordBound) :
    Set.BijOn (Address.toNat (k := k)) {a | a.toNat < n} (Set.Iio n) :=
  ⟨fun _ ha => ha, fun _ _ _ _ => Address.toNat_inj.mp, fun i hi =>
    have h : (Address.ofNat i : Address k).toNat = i :=
      Address.toNat_ofNat_of_lt (Nat.lt_of_lt_of_le hi hn)
    ⟨.ofNat i, h.trans_lt hi, h⟩⟩

/-- What slicing comes to. -/
structure Slices : Prop where
  address : ∀ a : VirtualAddress, g.pageOf a * g.pageSize + g.pageOffset a = a.toNat ∧
    g.pageOffset a < g.pageSize
  indexes : ∀ p : PageNumber, g.level1Index p * g.level2Entries + g.level2Index p = p ∧
    g.level2Index p < g.level2Entries ∧ (g.level1Index p < g.level1Entries ↔ p < g.pageCount)
  start : ∀ p < g.pageCount, ∀ o < g.pageSize, (g.pageStart p).toNat = p * g.pageSize ∧
    (g.pageStart p).toNat + o < wordBound ∧
    ((g.pageStart p).add o).toNat = (g.pageStart p).toNat + o ∧
    g.pageOf ((g.pageStart p).add o) = p ∧ g.pageOffset ((g.pageStart p).add o) = o
  physical : ∀ f < g.frameCount, ∀ a : VirtualAddress,
    (g.physicalAddress f a).toNat < g.memorySize ∧ g.frameOf (g.physicalAddress f a) = f ∧
    g.pageOffset (g.physicalAddress f a) = g.pageOffset a
  enough : ∀ n, IsLeast {k | n ≤ k * g.pageSize} (g.pagesForBytes n)
  virtual_bijOn : Set.BijOn (fun a : VirtualAddress => (g.pageOf a, g.pageOffset a))
    {a | g.pageOf a < g.pageCount} (Set.Iio g.pageCount ×ˢ Set.Iio g.pageSize)
  physical_bijOn : Set.BijOn (fun a : PhysicalAddress => (g.frameOf a, g.pageOffset a))
    {a | a.toNat < g.memorySize} (Set.Iio g.frameCount ×ˢ Set.Iio g.pageSize)
  indexes_bijOn : Set.BijOn (fun p => (g.level1Index p, g.level2Index p)) (Set.Iio g.pageCount)
    (Set.Iio g.level1Entries ×ˢ Set.Iio g.level2Entries)

theorem pageStart_add {p o : Nat} (hp : p < g.pageCount) (ho : o < g.pageSize) :
    p * g.pageSize + o < wordBound ∧ (g.pageStart p).add o = .ofNat (p * g.pageSize + o) := by
  have hend := g.mul_pageSize_le (Nat.succ_le_of_lt hp)
  have hbound : (2 : Nat) ^ 48 < wordBound := by decide
  rw [Nat.succ_mul] at hend
  exact ⟨by omega, by rw [Address.add, g.toNat_pageStart hp.le]⟩

theorem isLeast_pagesForBytes (n : Nat) :
    IsLeast {k | n ≤ k * g.pageSize} (g.pagesForBytes n) := by
  have hpos := g.pageSize_pos
  constructor
  · have hlast := Nat.lt_mul_div_succ (n + (g.pageSize - 1)) hpos
    rw [Nat.mul_succ, Nat.mul_comm] at hlast
    change n ≤ g.pagesForBytes n * g.pageSize
    rw [pagesForBytes]
    omega
  · intro k hk
    have hk : n ≤ k * g.pageSize := hk
    refine Nat.le_of_lt_succ ((Nat.div_lt_iff_lt_mul hpos).mpr ?_)
    rw [Nat.succ_mul]
    omega

theorem slices : g.Slices where
  address a := ⟨by rw [pageOf_eq, pageOffset_eq, Nat.div_add_mod'], g.pageOffset_lt a⟩
  indexes p := ⟨g.mul_add_indexes p, g.level2Index_lt p, g.level1Index_lt_iff p⟩
  start p hp o ho := by
    obtain ⟨hlt, hadd⟩ := g.pageStart_add hp ho
    rw [hadd, g.toNat_pageStart hp.le]
    exact ⟨rfl, hlt, Address.toNat_ofNat_of_lt hlt, g.pageOf_ofNat ho hlt,
      g.pageOffset_ofNat ho hlt⟩
  physical f hf a := ⟨g.toNat_physicalAddress_lt hf a, g.frameOf_physicalAddress hf a,
    g.pageOffset_physicalAddress hf a⟩
  enough := g.isLeast_pagesForBytes
  virtual_bijOn := by
    have hle : g.pageCount * g.pageSize ≤ wordBound :=
      g.pageCount_mul_pageSize_le.trans (by decide)
    simp only [pageOf_eq, pageOffset_eq, Nat.div_lt_iff_lt_mul g.pageSize_pos]
    exact (bijOn_div_mod g.pageCount g.pageSize_pos).comp (bijOn_toNat hle)
  physical_bijOn := by
    have hle : g.memorySize ≤ wordBound := g.memorySize_le.trans (by decide)
    simp only [frameOf_eq, pageOffset_eq]
    rw [memorySize, Nat.mul_comm] at *
    exact (bijOn_div_mod g.frameCount g.pageSize_pos).comp (bijOn_toNat hle)
  indexes_bijOn := by
    simp only [level1Index_eq, level2Index_eq]
    rw [pageCount_eq_mul]
    exact bijOn_div_mod g.level1Entries g.level2Entries_pos

/-- For every five parameters that make a geometry the sizes are exact in 64 bits, and slicing
takes addresses, pages and frames apart without loss. -/
theorem slices_exactly {pageSize frameCount pageCount level1 tlb : Nat}
    (h : ofLog2 pageSize frameCount pageCount level1 tlb = .ok g) :
    g.SizesExact pageSize frameCount pageCount level1 tlb ∧ g.Slices := by
  obtain ⟨rfl, rfl, rfl, rfl, rfl⟩ := log2_of_ofLog2 h
  exact ⟨g.sizesExact, g.slices⟩

theorem slices_exactly_largest : ∃ g, ofLog2 32 0 16 16 16 = .ok g ∧
    g.SizesExact 32 0 16 16 16 ∧ g.Slices :=
  ⟨_, rfl, slices_exactly _ rfl⟩

end Geometry

end DemandPaging
