import DemandPaging.Geometry
import DemandPaging.Word
/-!
Physical memory: one page of bytes for each frame. A word never straddles a frame; one that
starts near the end of its frame goes on at the start of the same frame.
-/

namespace DemandPaging

abbrev Page (g : Geometry) := Vector UInt8 g.pageSize

namespace Page

variable {g : Geometry}

def zero : Page g := Vector.replicate g.pageSize 0

def wordIndex (g : Geometry) (offset i : Nat) : Nat := (offset + i) % g.pageSize

theorem wordIndex_lt (offset i : Nat) : wordIndex g offset i < g.pageSize :=
  Nat.mod_lt _ g.pageSize_pos

def wordByte (p : Page g) (offset i : Nat) : UInt8 :=
  p.get ⟨wordIndex g offset i, wordIndex_lt offset i⟩

def setWordByte (p : Page g) (offset i : Nat) (b : UInt8) : Page g :=
  p.set (wordIndex g offset i) b (wordIndex_lt offset i)

def loadBits (p : Page g) (offset : Nat) : UInt32 :=
  Word.ofBytes (p.wordByte offset 0) (p.wordByte offset 1) (p.wordByte offset 2)
    (p.wordByte offset 3)

def load (p : Page g) (offset : Nat) : Int32 := (p.loadBits offset).toInt32

def store (p : Page g) (offset : Nat) (w : Int32) : Page g :=
  (List.range wordBytes).foldl (fun q i => setWordByte q offset i (Word.byte w i)) p

def dump (p : Page g) : List String := Word.listing 0 p.toList

/-- The page with the bytes of an image, if the lengths agree. -/
def ofImage? (image : Array UInt8) : Option (Page g) :=
  if h : image.size = g.pageSize then some ⟨image, h⟩ else none

theorem ofImage?_toArray (p : Page g) : ofImage? p.toArray = some p := by
  simp [ofImage?]

end Page

structure Ram (g : Geometry) where
  frames : Vector (Page g) g.frameCount

namespace Ram

variable {g : Geometry}

def zero : Ram g := ⟨Vector.replicate g.frameCount .zero⟩

def size (_ : Ram g) : Nat := g.memorySize

def frame? (m : Ram g) (f : FrameNumber) : Option (Page g) := m.frames[f]?

def setFrame? (m : Ram g) (f : FrameNumber) (p : Page g) : Option (Ram g) :=
  if h : f < g.frameCount then some ⟨m.frames.set f p h⟩ else none

def load? (m : Ram g) (a : PhysicalAddress) : Option Int32 :=
  (m.frame? (g.frameOf a)).map fun p => p.load (g.pageOffset a)

def store? (m : Ram g) (a : PhysicalAddress) (w : Int32) : Option (Ram g) :=
  (m.frame? (g.frameOf a)).bind fun p => m.setFrame? (g.frameOf a) (p.store (g.pageOffset a) w)

theorem frame?_setFrame? {m n : Ram g} {f : FrameNumber} {p : Page g}
    (h : m.setFrame? f p = some n) (i : FrameNumber) :
    n.frame? i = if i = f then some p else m.frame? i := by
  unfold setFrame? at h
  split at h
  · obtain rfl := Option.some.inj h
    by_cases hi : i = f
    · subst hi; simp [frame?, *]
    · simp [frame?, hi, Ne.symm hi]
  · simp at h

end Ram

end DemandPaging
