import DemandPaging.Proofs.FlatMemory
import DemandPaging.Proofs.Geometry
/-!
Physical memory as one run of bytes. A word at an address, aligned or not, takes four bytes of the
frame that the address lies in. A store puts the bytes of its word there and leaves all others, and
a load reads these four and no others.
-/

namespace DemandPaging

namespace Word

theorem toNat_byte (w : Int32) {i : Nat} (hi : i < wordBytes) :
    ((byte w i).toNat : Int) = w.toInt / 256 ^ i % 256 := by
  have hlt := w.toUInt32.toNat_lt
  have hsigned : w.toInt = if 2 * w.toUInt32.toNat < 2 ^ 32 then (w.toUInt32.toNat : Int)
      else w.toUInt32.toNat - (2 ^ 32 : Nat) := BitVec.toInt_eq_toNat_cond w.toBitVec
  simp only [wordBytes] at hi
  simp only [byte, UInt8.toNat_ofNat', Nat.shiftRight_eq_div_pow]
  interval_cases i <;> omega

theorem ofBytes_inj {b₀ b₁ b₂ b₃ c₀ c₁ c₂ c₃ : UInt8} :
    ofBytes b₀ b₁ b₂ b₃ = ofBytes c₀ c₁ c₂ c₃ ↔ b₀ = c₀ ∧ b₁ = c₁ ∧ b₂ = c₂ ∧ b₃ = c₃ := by
  have hb := And.intro (And.intro b₀.toNat_lt b₁.toNat_lt) (And.intro b₂.toNat_lt b₃.toNat_lt)
  have hc := And.intro (And.intro c₀.toNat_lt c₁.toNat_lt) (And.intro c₂.toNat_lt c₃.toNat_lt)
  simp only [← UInt32.toNat_inj, ← UInt8.toNat_inj, ofBytes, UInt32.toNat_ofNat']
  omega

end Word

theorem Bytes.word_eq_iff {g : Geometry} {b c : Bytes g} {offset : Nat} :
    b.word offset = c.word offset ↔
      ∀ i < wordBytes, b.wordByte offset i = c.wordByte offset i := by
  have hinj {u v : UInt32} : u.toInt32 = v.toInt32 ↔ u = v :=
    ⟨fun h => congrArg Int32.toUInt32 h, congrArg UInt32.toInt32⟩
  rw [word, word, hinj, Word.ofBytes_inj]
  constructor
  · rintro ⟨h₀, h₁, h₂, h₃⟩ i hi
    simp only [wordBytes] at hi
    interval_cases i <;> assumption
  · intro h
    exact ⟨h 0 (by decide), h 1 (by decide), h 2 (by decide), h 3 (by decide)⟩

theorem Bytes.putWord_of_ne {g : Geometry} {b : Bytes g} {offset : Nat} {w : Int32}
    {k : Fin g.pageSize} (hk : ∀ i < wordBytes, (offset + i) % g.pageSize ≠ k) :
    b.putWord offset w k = b k := by
  have hnone : (List.range wordBytes).find? (fun i => (offset + i) % g.pageSize = k) = none := by
    simpa using hk
  rw [putWord, hnone]

theorem toNat_and_not_add_and (n mask : UInt64) :
    (n &&& ~~~mask).toNat + (n &&& mask).toNat = n.toNat := by
  have hapart : (n.toBitVec &&& ~~~mask.toBitVec) &&& (n.toBitVec &&& mask.toBitVec) = 0#64 := by
    ext k
    simp only [BitVec.getElem_and, BitVec.getElem_not, BitVec.getElem_zero]
    cases n.toBitVec[k] <;> cases mask.toBitVec[k] <;> rfl
  have hjoin : (n.toBitVec &&& ~~~mask.toBitVec) ||| (n.toBitVec &&& mask.toBitVec) =
      n.toBitVec := by
    ext k
    simp only [BitVec.getElem_or, BitVec.getElem_and, BitVec.getElem_not]
    cases n.toBitVec[k] <;> cases mask.toBitVec[k] <;> rfl
  have hsum := BitVec.toNat_add_of_and_eq_zero hapart
  rw [BitVec.add_eq_or_of_and_eq_zero _ _ hapart, hjoin] at hsum
  exact hsum.symm

namespace Geometry

variable (g : Geometry) {a : PhysicalAddress} {i j : Nat}

def byteIndex (a : PhysicalAddress) (i : Nat) : Nat :=
  g.frameOf a * g.pageSize + (g.pageOffset a + i) % g.pageSize

theorem byteIndex_div (a : PhysicalAddress) (i : Nat) :
    g.byteIndex a i / g.pageSize = g.frameOf a := by
  rw [byteIndex, Nat.mul_comm, Nat.mul_add_div g.pageSize_pos,
    Nat.div_eq_of_lt (Nat.mod_lt _ g.pageSize_pos), Nat.add_zero]

theorem byteIndex_mod (a : PhysicalAddress) (i : Nat) :
    g.byteIndex a i % g.pageSize = (g.pageOffset a + i) % g.pageSize := by
  rw [byteIndex, Nat.mul_comm, Nat.mul_add_mod, Nat.mod_mod]

theorem byteIndex_lt (ha : a.toNat < g.memorySize) (i : Nat) : g.byteIndex a i < g.memorySize := by
  have hend := g.frame_end_le ((g.frameOf_lt_iff a).mpr ha)
  have hmod := Nat.mod_lt (g.pageOffset a + i) g.pageSize_pos
  rw [byteIndex]
  omega

theorem byteIndex_inj (hi : i < wordBytes) (hj : j < wordBytes)
    (h : g.byteIndex a i = g.byteIndex a j) : i = j :=
  g.wordIndex_inj hi hj (Nat.add_left_cancel h)

/-- The same index found by masks in words of 64 bits, undefined if a difference or a sum on the way
leaves them. -/
def maskedIndex? (a : PhysicalAddress) (i : Nat) : Option Nat := do
  let mask := UInt64.ofNat g.pageSize - 1
  let base := (a.bits &&& ~~~mask).toNat
  let offset ← Number.sub? a.toNat base
  let sum ← Number.add? offset i
  Number.add? base (sum &&& mask.toNat)

theorem toNat_mask : (UInt64.ofNat g.pageSize - 1).toNat = g.pageSize - 1 := by
  have hpos := g.pageSize_pos
  have hle : g.pageSize ≤ g.memorySize := Nat.le_mul_of_pos_right _ g.frameCount_pos
  have hmem := g.memorySize_le
  have hsize : (UInt64.ofNat g.pageSize).toNat = g.pageSize := by
    rw [UInt64.toNat_ofNat', Nat.mod_eq_of_lt (by omega)]
  rw [UInt64.toNat_sub_of_le _ _ (UInt64.le_iff_toNat_le.mpr (by rw [hsize]; exact hpos)), hsize]
  rfl

theorem toNat_and_not_mask (a : PhysicalAddress) :
    (a.bits &&& ~~~(UInt64.ofNat g.pageSize - 1)).toNat = g.frameOf a * g.pageSize := by
  have hparts := toNat_and_not_add_and a.bits (UInt64.ofNat g.pageSize - 1)
  have hslice := Nat.div_add_mod' a.toNat g.pageSize
  have hoffset : (a.bits &&& (UInt64.ofNat g.pageSize - 1)).toNat = a.toNat % g.pageSize := by
    rw [UInt64.toNat_and, toNat_mask]
    exact and_mask_eq_mod _ _
  rw [frameOf_eq]
  simp only [Address.toNat] at hslice hoffset ⊢
  omega

theorem maskedIndex?_eq (ha : a.toNat < g.memorySize) (hi : i < wordBytes) :
    g.maskedIndex? a i = some (g.byteIndex a i) := by
  have hmem := g.memorySize_le
  have hoff := g.pageOffset_lt a
  have hindex := g.byteIndex_lt ha i
  have hbound : (2 : Nat) ^ 32 + wordBytes < wordBound := by decide
  have hsub : Number.sub? a.toNat (g.frameOf a * g.pageSize) = some (g.pageOffset a) := by
    rw [Number.sub?_eq_some, frameOf_eq, pageOffset_eq, Nat.div_add_mod']
  have hadd : Number.add? (g.pageOffset a) i = some (g.pageOffset a + i) := by
    have hle : g.pageSize ≤ g.memorySize := Nat.le_mul_of_pos_right _ g.frameCount_pos
    exact Number.add?_eq_some.mpr ⟨rfl, by omega⟩
  have hmask : (g.pageOffset a + i) &&& (g.pageSize - 1) = (g.pageOffset a + i) % g.pageSize :=
    and_mask_eq_mod _ _
  simp only [maskedIndex?, toNat_and_not_mask, toNat_mask, hsub, hadd, hmask, Option.bind_eq_bind,
    Option.bind_some]
  exact Number.add?_eq_some.mpr ⟨rfl, by omega⟩

end Geometry

namespace Ram

variable {g : Geometry} {m n : Ram g} {a : PhysicalAddress} {w : Int32} {p : Page g}

def put (m : Ram g) (f : FrameNumber) (p : Page g) : Ram g := (m.setFrame? f p).getD m

theorem setFrame?_eq_some (m : Ram g) {f : Nat} (p : Page g) (h : f < g.frameCount) :
    m.setFrame? f p = some (m.put f p) := by
  rw [put, setFrame?, dif_pos h, Option.getD_some]

theorem frame?_put (m : Ram g) {f : Nat} (p : Page g) (h : f < g.frameCount) (i : FrameNumber) :
    (m.put f p).frame? i = if i = f then some p else m.frame? i :=
  frame?_setFrame? (m.setFrame?_eq_some p h) i

theorem exists_frame? (m : Ram g) {f : Nat} (h : f < g.frameCount) : ∃ p, m.frame? f = some p :=
  ⟨m.frames[f], Vector.getElem?_eq_getElem h⟩

def byte? (m : Ram g) (k : Nat) : Option UInt8 :=
  (m.frame? (k / g.pageSize)).map fun p => p.bytes ⟨k % g.pageSize, Nat.mod_lt _ g.pageSize_pos⟩

theorem isSome_byte?_iff (m : Ram g) (k : Nat) : (m.byte? k).isSome ↔ k < g.memorySize := by
  have hlt := Nat.div_lt_iff_lt_mul g.pageSize_pos (x := k) (y := g.frameCount)
  rw [byte?, Option.isSome_map, frame?, Geometry.memorySize, Nat.mul_comm, ← hlt]
  by_cases h : k / g.pageSize < g.frameCount <;> simp [h]

theorem byte?_byteIndex (hp : m.frame? (g.frameOf a) = some p) (i : Nat) :
    m.byte? (g.byteIndex a i) = some (p.bytes.wordByte (g.pageOffset a) i) := by
  simp only [byte?, g.byteIndex_div, g.byteIndex_mod, hp, Option.map_some, Bytes.wordByte]

theorem exists_frameOf? (m : Ram g) (ha : a.toNat < g.memorySize) :
    ∃ p, m.frame? (g.frameOf a) = some p :=
  m.exists_frame? ((g.frameOf_lt_iff a).mpr ha)

theorem load?_of_frame? (hp : m.frame? (g.frameOf a) = some p) :
    m.load? a = some (p.bytes.word (g.pageOffset a)) := by
  rw [load?, hp]
  rfl

theorem load?_eq_iff (ha : a.toNat < g.memorySize) : n.load? a = m.load? a ↔
    ∀ i < wordBytes, n.byte? (g.byteIndex a i) = m.byte? (g.byteIndex a i) := by
  obtain ⟨p, hp⟩ := m.exists_frameOf? ha
  obtain ⟨q, hq⟩ := n.exists_frameOf? ha
  simp only [load?_of_frame? hp, load?_of_frame? hq, byte?_byteIndex hp, byte?_byteIndex hq,
    Option.some.injEq, Bytes.word_eq_iff]

theorem exists_store? (ha : a.toNat < g.memorySize) (w : Int32) : ∃ n, m.store? a w = some n := by
  obtain ⟨p, hp⟩ := m.exists_frameOf? ha
  rw [store?, hp, Option.bind_some, m.setFrame?_eq_some _ ((g.frameOf_lt_iff a).mpr ha)]
  exact ⟨_, rfl⟩

theorem frame?_of_store? (h : m.store? a w = some n) (hp : m.frame? (g.frameOf a) = some p)
    (f : FrameNumber) : n.frame? f =
      if f = g.frameOf a then some (p.store (g.pageOffset a) w) else m.frame? f := by
  rw [store?, hp, Option.bind_some] at h
  exact frame?_setFrame? h f

theorem byte?_of_store? (ha : a.toNat < g.memorySize) (h : m.store? a w = some n) {i : Nat}
    (hi : i < wordBytes) : n.byte? (g.byteIndex a i) = some (Word.byte w i) := by
  obtain ⟨p, hp⟩ := m.exists_frameOf? ha
  have hq := frame?_of_store? h hp (g.frameOf a)
  rw [if_pos rfl] at hq
  rw [byte?_byteIndex hq, Page.bytes_store, Bytes.wordByte_putWord _ _ _ hi]

theorem byte?_of_store?_of_ne (ha : a.toNat < g.memorySize) (h : m.store? a w = some n) {k : Nat}
    (hk : ∀ i < wordBytes, g.byteIndex a i ≠ k) : n.byte? k = m.byte? k := by
  obtain ⟨p, hp⟩ := m.exists_frameOf? ha
  have hq := frame?_of_store? h hp (k / g.pageSize)
  by_cases hf : k / g.pageSize = g.frameOf a
  · have hoff : ∀ i < wordBytes, (g.pageOffset a + i) % g.pageSize ≠ k % g.pageSize := by
      intro i hi heq
      apply hk i hi
      rw [Geometry.byteIndex, heq, ← hf, Nat.div_add_mod']
    rw [if_pos hf] at hq
    rw [byte?, byte?, hq, hf, hp, Option.map_some, Option.map_some, Page.bytes_store,
      Bytes.putWord_of_ne hoff]
  · rw [if_neg hf] at hq
    rw [byte?, byte?, hq]

theorem load?_of_store? (ha : a.toNat < g.memorySize) (h : m.store? a w = some n) :
    n.load? a = some w := by
  obtain ⟨p, hp⟩ := m.exists_frameOf? ha
  have hq := frame?_of_store? h hp (g.frameOf a)
  rw [if_pos rfl] at hq
  rw [load?_of_frame? hq, Page.bytes_store, Bytes.word_putWord]

/-- What access to a word at an address comes to. -/
structure AccessExact (m : Ram g) (a : PhysicalAddress) (w : Int32) : Prop where
  bytes : ∀ k, (m.byte? k).isSome ↔ k < g.memorySize
  inside : ∀ i < wordBytes, g.byteIndex a i < g.memorySize ∧
    g.byteIndex a i / g.pageSize = g.frameOf a
  distinct : ∀ i < wordBytes, ∀ j < wordBytes, g.byteIndex a i = g.byteIndex a j → i = j
  masked : ∀ i < wordBytes, g.maskedIndex? a i = some (g.byteIndex a i)
  stored : ∃ n, m.store? a w = some n ∧
    (∀ i < wordBytes, ∃ b, n.byte? (g.byteIndex a i) = some b ∧
      (b.toNat : Int) = w.toInt / 256 ^ i % 256) ∧
    (∀ k, (∀ i < wordBytes, g.byteIndex a i ≠ k) → n.byte? k = m.byte? k) ∧
    (∀ f ≠ g.frameOf a, n.frame? f = m.frame? f) ∧ n.load? a = some w
  loaded : (m.load? a).isSome ∧ ∀ n : Ram g, n.load? a = m.load? a ↔
    ∀ i < wordBytes, n.byte? (g.byteIndex a i) = m.byte? (g.byteIndex a i)

/-- At every address inside memory a word is stored and loaded within its frame. -/
theorem access_exact (m : Ram g) (ha : a.toNat < g.memorySize) (w : Int32) :
    m.AccessExact a w where
  bytes := m.isSome_byte?_iff
  inside i _ := ⟨g.byteIndex_lt ha i, g.byteIndex_div a i⟩
  distinct _ hi _ hj := g.byteIndex_inj hi hj
  masked _ hi := g.maskedIndex?_eq ha hi
  stored := by
    obtain ⟨n, h⟩ := m.exists_store? ha w
    obtain ⟨p, hp⟩ := m.exists_frameOf? ha
    refine ⟨n, h, fun i hi => ?_, fun k => byte?_of_store?_of_ne ha h, fun f hf => ?_,
      load?_of_store? ha h⟩
    · exact ⟨_, byte?_of_store? ha h hi, Word.toNat_byte w hi⟩
    · rw [frame?_of_store? h hp, if_neg hf]
  loaded := by
    obtain ⟨p, hp⟩ := m.exists_frameOf? ha
    exact ⟨by rw [load?_of_frame? hp]; rfl, fun n => load?_eq_iff ha⟩

theorem access_exact_last : ∃ g, Geometry.ofLog2 2 1 2 1 0 = .ok g ∧
    (.ofNat 7 : PhysicalAddress).toNat < g.memorySize ∧
    (List.range wordBytes).map (g.byteIndex (.ofNat 7)) = [7, 4, 5, 6] ∧
    (zero : Ram g).AccessExact (.ofNat 7) (-2) :=
  ⟨_, rfl, by decide, by decide, access_exact zero (by decide) (-2)⟩

end Ram

end DemandPaging
