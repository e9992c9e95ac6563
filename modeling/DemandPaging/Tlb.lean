import DemandPaging.Number
/-!
A flat, fully associative buffer of mappings from pages to frames. A valid slot caches the frame
of a page with the stamp of its last use; an invalid slot keeps what it held but is never found.
-/

namespace DemandPaging

structure TlbSlot where
  valid : Bool := false
  page : PageNumber := 0
  frame : FrameNumber := 0
  referenced : Nat := 0
deriving DecidableEq, Repr

inductive TlbLoad where
  | clean (slot : Nat)
  | steal (slot : Nat) (page : PageNumber) (frame : FrameNumber)
deriving DecidableEq, Repr

structure Tlb (n : Nat) where
  slots : Vector TlbSlot n

namespace Tlb

variable {n : Nat}

/-- A buffer has places for this many slots, 32 bytes each. -/
def maxSlots : Nat := Number.tableLimit 32

def empty (n : Nat) : Tlb n := ⟨Vector.replicate n {}⟩

def valid (t : Tlb n) : List TlbSlot := t.slots.toList.filter TlbSlot.valid

def find? (t : Tlb n) (page : PageNumber) : Option (Fin n) :=
  t.slots.findFinIdx? fun s => s.valid && s.page == page

/-- Looks a page up. A hit renews the slot's stamp. -/
def lookup (t : Tlb n) (page : PageNumber) (stamp : Nat) : Option FrameNumber × Tlb n :=
  match t.find? page with
  | none => (none, t)
  | some i => (some t.slots[i].frame, ⟨t.slots.set i { t.slots[i] with referenced := stamp }⟩)

/-- The slot with the smallest stamp, the lowest slot winning ties. -/
def oldest? (t : Tlb n) : Option (Fin n) :=
  (List.finRange n).foldl (fun best i =>
    match best with
    | none => some i
    | some b => if t.slots[i].referenced < t.slots[b].referenced then some i else some b) none

/-- Installs a mapping in the first invalid slot, or in place of the one used longest ago.
Undefined for a buffer without slots. -/
def install? (t : Tlb n) (page : PageNumber) (frame : FrameNumber) (stamp : Nat) :
    Option (TlbLoad × Tlb n) :=
  let loaded : TlbSlot := ⟨true, page, frame, stamp⟩
  match t.slots.findFinIdx? fun s => !s.valid with
  | some i => some (.clean i, ⟨t.slots.set i loaded⟩)
  | none => t.oldest?.map fun (i : Fin n) =>
      (.steal i t.slots[i].page t.slots[i].frame, ⟨t.slots.set i loaded⟩)

def invalidate (t : Tlb n) : Tlb n := ⟨t.slots.map fun s => { s with valid := false }⟩

def caches (page : PageNumber) (s : TlbSlot) : Bool := s.valid && s.page == page

def purge (t : Tlb n) (page : PageNumber) : Bool × Tlb n :=
  (t.slots.any (caches page),
    ⟨t.slots.map fun s => if caches page s then { s with valid := false } else s⟩)

theorem valid_empty : (empty n).valid = [] := by
  simp [valid, empty]

theorem valid_invalidate (t : Tlb n) : t.invalidate.valid = [] := by
  simp [valid, invalidate]

theorem valid_purge (t : Tlb n) (page : PageNumber) :
    (t.purge page).2.valid = t.valid.filter fun s => s.page ≠ page := by
  simp only [valid, purge, Vector.toList_map]
  induction t.slots.toList with
  | nil => rfl
  | cons s rest ih =>
    rw [List.map_cons, List.filter_cons, ih]
    by_cases h : s.valid = true <;> by_cases hp : s.page = page <;> simp [caches, h, hp]

end Tlb

end DemandPaging
