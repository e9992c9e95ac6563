import DemandPaging.Geometry
/-!
Two-level page tables. A first-level slot holds a second-level block once a page of its range
has been allocated; a page that was never allocated has no entry.
-/

namespace DemandPaging

inductive PageState where
  /-- Nowhere yet: the page reads as zeros. -/
  | unmapped
  | resident (frame : FrameNumber)
  | swapped (token : SwapToken)
deriving DecidableEq, Repr

namespace PageState

def frame? : PageState → Option FrameNumber
  | .resident f => some f
  | _ => none

def token? : PageState → Option SwapToken
  | .swapped t => some t
  | _ => none

def isResident (s : PageState) : Bool := s.frame?.isSome

end PageState

inductive Walk where
  | outOfRange
  | missingTable (l₁ : Nat)
  | missingEntry (l₁ l₂ : Nat)
  | entry (state : PageState)
deriving DecidableEq, Repr

inductive Hole where
  | table (l₁ : Nat)
  | entry (l₁ l₂ : Nat)
deriving DecidableEq, Repr

abbrev PageBlock (g : Geometry) := Vector (Option PageState) g.level2Entries

structure PageTable (g : Geometry) where
  level1 : Vector (Option (PageBlock g)) g.level1Entries

namespace PageTable

variable {g : Geometry}

def empty : PageTable g := ⟨Vector.replicate g.level1Entries none⟩

def emptyBlock : PageBlock g := Vector.replicate g.level2Entries none

def walk (t : PageTable g) (p : PageNumber) : Walk :=
  match t.level1[g.level1Index p]? with
  | none => .outOfRange
  | some none => .missingTable (g.level1Index p)
  | some (some block) =>
    have := g.level2Index_lt p
    match block[g.level2Index p] with
    | none => .missingEntry (g.level1Index p) (g.level2Index p)
    | some s => .entry s

def state? (t : PageTable g) (p : PageNumber) : Option PageState :=
  match t.walk p with
  | .entry s => some s
  | _ => none

/-- Gives a page an entry, and its block if need be; also returns the state it had. Pages beyond
the table are ignored. -/
def insert (t : PageTable g) (p : PageNumber) (s : PageState) : Option PageState × PageTable g :=
  if h : g.level1Index p < g.level1Entries then
    let block := t.level1[g.level1Index p].getD emptyBlock
    (t.state? p, ⟨t.level1.set (g.level1Index p)
      (some (block.set (g.level2Index p) (some s) (g.level2Index_lt p)))⟩)
  else (none, t)

def update (t : PageTable g) (p : PageNumber) (s : PageState) : PageTable g :=
  if (t.state? p).isSome then (t.insert p s).2 else t

def blockEntries (l₁ : Nat) (block : PageBlock g) : List (PageNumber × PageState) :=
  block.toList.zipIdx.filterMap fun (e, l₂) => e.map fun s => (l₁ * g.level2Entries + l₂, s)

def entries (t : PageTable g) : List (PageNumber × PageState) :=
  t.level1.toList.zipIdx.flatMap fun (b, l₁) =>
    match b with
    | none => []
    | some block => blockEntries l₁ block

def tableCount (t : PageTable g) : Nat := t.level1.toList.countP Option.isSome

def blockHoles (l₁ : Nat) (block : PageBlock g) : List Hole :=
  block.toList.zipIdx.filterMap fun (e, l₂) => if e.isNone then some (.entry l₁ l₂) else none

/-- Missing blocks and missing entries, in the order of their indexes. -/
def holes (t : PageTable g) : List Hole :=
  t.level1.toList.zipIdx.flatMap fun (b, l₁) =>
    match b with
    | none => [.table l₁]
    | some block => blockHoles l₁ block

theorem walk_empty (p : PageNumber) :
    (empty : PageTable g).walk p =
      if g.level1Index p < g.level1Entries then .missingTable (g.level1Index p)
      else .outOfRange := by
  by_cases h : g.level1Index p < g.level1Entries <;> simp [walk, empty, h]

theorem state?_empty (p : PageNumber) : (empty : PageTable g).state? p = none := by
  by_cases h : g.level1Index p < g.level1Entries <;> simp [state?, walk_empty, h]

theorem walk_insert_self (t : PageTable g) {p : PageNumber} (s : PageState)
    (h : g.level1Index p < g.level1Entries) : (t.insert p s).2.walk p = .entry s := by
  simp [insert, walk, h]

theorem state?_insert_of_ne (t : PageTable g) {p q : PageNumber} (s : PageState) (h : p ≠ q) :
    (t.insert p s).2.state? q = t.state? q := by
  unfold insert
  split
  · next hp =>
    by_cases h₁ : g.level1Index p = g.level1Index q
    · have h₂ : g.level2Index p ≠ g.level2Index q := fun h₂ => h (g.eq_of_indexes_eq h₁ h₂)
      rw [h₁] at hp
      cases hb : t.level1[g.level1Index q] <;>
        simp [state?, walk, h₁, h₂, hp, hb, emptyBlock]
    · simp [state?, walk, h₁]
  · rfl

end PageTable

end DemandPaging
