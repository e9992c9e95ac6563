import DemandPaging.Outcome
import DemandPaging.PageTable
import DemandPaging.Paging.Error
import DemandPaging.Paging.Event
/-!
The virtual memory of one process. Allocation gives pages entries; it never gives them frames.
A request is granted as a whole or leaves the table as it was.
-/

namespace DemandPaging

structure AddressSpace (g : Geometry) where
  pid : ProcessId
  table : PageTable g := .empty

namespace AddressSpace

variable {g : Geometry}

def pageCount (_ : AddressSpace g) : Nat := g.pageCount

def walk (s : AddressSpace g) (p : PageNumber) : Walk := s.table.walk p

def state? (s : AddressSpace g) (p : PageNumber) : Option PageState := s.table.state? p

def entries (s : AddressSpace g) : List (PageNumber × PageState) := s.table.entries

def setState (s : AddressSpace g) (p : PageNumber) (state : PageState) : AddressSpace g :=
  { s with table := s.table.update p state }

def firstAllocated? (s : AddressSpace g) (start count : Nat) : Option PageNumber :=
  (List.range' start count).find? fun p => (s.state? p).isSome

def insertRange (s : AddressSpace g) (start count : Nat) : AddressSpace g :=
  { s with
    table := (List.range' start count).foldl (fun t p => (t.insert p .unmapped).2) s.table }

inductive Allocation (g : Geometry) where
  | exceeds
  | occupied (page : PageNumber)
  | granted (space : AddressSpace g)

def tryAllocate (s : AddressSpace g) (start count : Nat) : Allocation g :=
  if g.pageCount < start + count then .exceeds
  else
    match s.firstAllocated? start count with
    | some p => .occupied p
    | none => .granted (s.insertRange start count)

open DemandPaging.Action in
/-- Allocates `count` pages from `start`; answers whether they fit. -/
def allocate (start count : Nat) :
    Action Paging.Event (Failure MemoryError) (AddressSpace g) Bool := do
  let s ← get
  match s.tryAllocate start count with
  | .exceeds =>
    report (.requestExceeds s.pid start count)
    return false
  | .occupied p => fail (.error (.alreadyAllocated s.pid p))
  | .granted t =>
    modify fun _ => t
    return true

def holes (s : AddressSpace g) : List Hole := s.table.holes

def holeEvent (pid : ProcessId) : Hole → Paging.Event
  | .table i => .tableHole pid i
  | .entry i j => .entryHole pid i j

def holeEvents (s : AddressSpace g) : List Paging.Event := s.holes.map (holeEvent s.pid)

end AddressSpace

end DemandPaging
