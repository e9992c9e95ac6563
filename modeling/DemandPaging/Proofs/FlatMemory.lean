import DemandPaging.Ram
import Mathlib.Data.Nat.ModEq
import Mathlib.Logic.Function.Basic
import Mathlib.Tactic.IntervalCases
/-!
The memory of one process as the process sees it: bytes by page, with no frames and no swap store.
A word takes four bytes of one page; one that starts near the end of its page goes on at the start
of the same page.
-/

namespace DemandPaging

abbrev Bytes (g : Geometry) := Fin g.pageSize → UInt8

abbrev FlatMemory (g : Geometry) := PageNumber → Option (Bytes g)

namespace Bytes

variable {g : Geometry}

def zero : Bytes g := fun _ => 0

def wordByte (b : Bytes g) (offset i : Nat) : UInt8 :=
  b ⟨(offset + i) % g.pageSize, Nat.mod_lt _ g.pageSize_pos⟩

def word (b : Bytes g) (offset : Nat) : Int32 :=
  (Word.ofBytes (b.wordByte offset 0) (b.wordByte offset 1) (b.wordByte offset 2)
    (b.wordByte offset 3)).toInt32

def putWord (b : Bytes g) (offset : Nat) (w : Int32) : Bytes g := fun k =>
  match (List.range wordBytes).find? fun i => (offset + i) % g.pageSize = k with
  | some i => Word.byte w i
  | none => b k

end Bytes

namespace FlatMemory

variable {g : Geometry}

def empty : FlatMemory g := fun _ => none

def grants (mem : FlatMemory g) (start count : Nat) : Bool :=
  start + count ≤ g.pageCount && (List.range' start count).all fun p => (mem p).isNone

def allocate (mem : FlatMemory g) (start count : Nat) : FlatMemory g := fun p =>
  if start ≤ p ∧ p < start + count then some .zero else mem p

def load? (mem : FlatMemory g) (a : VirtualAddress) : Option Int32 :=
  (mem (g.pageOf a)).map fun b => b.word (g.pageOffset a)

def store? (mem : FlatMemory g) (a : VirtualAddress) (w : Int32) : Option (FlatMemory g) :=
  (mem (g.pageOf a)).map fun b =>
    Function.update mem (g.pageOf a) (some (b.putWord (g.pageOffset a) w))

end FlatMemory

theorem Geometry.wordIndex_inj (g : Geometry) {offset i j : Nat} (hi : i < wordBytes)
    (hj : j < wordBytes) (h : (offset + i) % g.pageSize = (offset + j) % g.pageSize) : i = j := by
  have hw := g.wordBytes_le_pageSize
  exact Nat.ModEq.eq_of_lt_of_lt (Nat.ModEq.add_left_cancel' offset h) (by omega) (by omega)

namespace Bytes

variable {g : Geometry}

theorem wordByte_putWord (b : Bytes g) (offset : Nat) (w : Int32) {i : Nat} (hi : i < wordBytes) :
    (b.putWord offset w).wordByte offset i = Word.byte w i := by
  have hfind : (List.range wordBytes).find?
      (fun j => (offset + j) % g.pageSize = (offset + i) % g.pageSize) = some i := by
    rw [List.find?_range_eq_some]
    refine ⟨by simp, List.mem_range.mpr hi, fun j hj => ?_⟩
    have hne : j ≠ i := Nat.ne_of_lt hj
    simpa using fun h => hne (g.wordIndex_inj (Nat.lt_trans hj hi) hi h)
  simp [wordByte, putWord, hfind]

theorem word_putWord (b : Bytes g) (offset : Nat) (w : Int32) :
    (b.putWord offset w).word offset = w := by
  simp only [word, b.wordByte_putWord offset w (show 0 < wordBytes by decide),
    b.wordByte_putWord offset w (show 1 < wordBytes by decide),
    b.wordByte_putWord offset w (show 2 < wordBytes by decide),
    b.wordByte_putWord offset w (show 3 < wordBytes by decide), Word.ofBytes_byte]

end Bytes

/-! The pages of physical memory hold such bytes. -/

namespace Page

variable {g : Geometry}

def bytes (p : Page g) : Bytes g := fun k => p[k]

theorem bytes_zero : (zero : Page g).bytes = Bytes.zero := by
  funext k
  simp [bytes, zero, Bytes.zero]

theorem load_eq (p : Page g) (offset : Nat) : p.load offset = p.bytes.word offset := rfl

theorem bytes_setWordByte (p : Page g) (offset i : Nat) (b : UInt8) (k : Fin g.pageSize) :
    (p.setWordByte offset i b).bytes k =
      if (offset + i) % g.pageSize = k then b else p.bytes k := by
  simp [bytes, setWordByte, Vector.getElem_set, wordIndex]

theorem bytes_store (p : Page g) (offset : Nat) (w : Int32) :
    (p.store offset w).bytes = p.bytes.putWord offset w := by
  funext k
  simp only [store, Bytes.putWord, wordBytes, List.range, List.range.loop, List.foldl_cons,
    List.foldl_nil, bytes_setWordByte, List.find?_cons, List.find?_nil]
  by_cases h : ∃ i < 4, (offset + i) % g.pageSize = k
  · obtain ⟨i, hi, hik⟩ := h
    have only (j : Nat) (hj : j < 4) : (offset + j) % g.pageSize = k ↔ j = i :=
      ⟨fun hjk => g.wordIndex_inj hj hi (hjk.trans hik.symm), fun hji => hji ▸ hik⟩
    simp only [only 0 (by omega), only 1 (by omega), only 2 (by omega), only 3 (by omega)]
    interval_cases i <;> rfl
  · have none_of (j : Nat) (hj : j < 4) : (offset + j) % g.pageSize ≠ k := fun hjk =>
      h ⟨j, hj, hjk⟩
    simp only [none_of 0 (by omega), none_of 1 (by omega), none_of 2 (by omega),
      none_of 3 (by omega)]
    rfl

end Page

end DemandPaging
