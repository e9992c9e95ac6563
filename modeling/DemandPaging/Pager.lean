import DemandPaging.AddressSpace
import DemandPaging.Ram
import DemandPaging.Swap
import DemandPaging.Translator
/-!
The state of the memory system: physical memory, the pool of frames, the swap store, the address
spaces of all processes and the translators of all CPUs. Frames point back at their owners
by number, and nothing holds a reference to anything else.
-/

namespace DemandPaging

structure Pager (g : Geometry) where
  ram : Ram g := .zero
  frames : FrameTable g.frameCount := .allFree g.frameCount
  swap : SwapStore := {}
  clock : ReferenceClock := {}
  spaces : Std.TreeMap ProcessId (AddressSpace g) := {}
  translators : Array (Translator g.tlbEntries)

abbrev Paged (g : Geometry) := Action Paging.Event (Failure MemoryError) (Pager g)

namespace Pager

open DemandPaging.Action

variable {g : Geometry}

/-- A memory system at rest, with a translator for each element; true gives it a buffer. -/
def new (g : Geometry) (useTlbs : List Bool) : Pager g :=
  { translators := (useTlbs.zipIdx.map fun (useTlb, cpu) => Translator.new cpu useTlb).toArray }

def space? (m : Pager g) (pid : ProcessId) : Option (AddressSpace g) := m.spaces[pid]?

def state? (m : Pager g) (pid : ProcessId) (page : PageNumber) : Option PageState :=
  (m.space? pid).bind fun s => s.state? page

def owner? (m : Pager g) (f : FrameNumber) : Option (Option FrameOwner) :=
  (m.frames.info? f).map FrameInfo.owner

def holds? (m : Pager g) (pid : ProcessId) (a : VirtualAddress) (f : FrameNumber) : Option Bool :=
  (m.owner? f).map fun o => o == some ⟨pid, g.pageOf a⟩

/-- Gives a process an empty address space in place of any it had. -/
def createSpace (m : Pager g) (pid : ProcessId) : Pager g :=
  { m with spaces := m.spaces.insert pid { pid } }

/-- The processes below this number have a place for their address spaces, 56 bytes each. -/
def maxSpaces : Nat := Number.tableLimit 56

def setSpace (m : Pager g) (pid : ProcessId) (s : AddressSpace g) : Pager g :=
  { m with spaces := m.spaces.insert pid s }

def beyond : Failure MemoryError := .crash .outOfBounds

def space (pid : ProcessId) : Paged g (AddressSpace g) := do
  ofOption (.error (.unknownProcess pid)) ((← get).space? pid)

def setState (pid : ProcessId) (page : PageNumber) (state : PageState) : Paged g Unit :=
  modify fun m =>
    match m.space? pid with
    | some s => m.setSpace pid (s.setState page state)
    | none => m

def onSwap {α : Type} (x : SwapStore.Store α) : Paged g α :=
  within Pager.swap (fun s m => { m with swap := s }) id id x

def onSpace {α : Type} (pid : ProcessId)
    (x : Action Paging.Event (Failure MemoryError) (AddressSpace g) α) : Paged g α := do
  let s ← space pid
  within (fun _ => s) (fun t m => m.setSpace pid t) id id x

def translator (cpu : Nat) : Paged g (Translator g.tlbEntries) := do
  ofOption beyond (← get).translators[cpu]?

def setTranslator (cpu : Nat) (u : Translator g.tlbEntries) : Paged g Unit :=
  modify fun m => { m with translators := m.translators.setIfInBounds cpu u }

def stamp : Paged g Nat := do
  modify fun m => { m with clock := m.clock.tick }
  return (← get).clock.current

def page (f : FrameNumber) : Paged g (Page g) := do
  ofOption beyond ((← get).ram.frame? f)

def setPage (f : FrameNumber) (p : Page g) : Paged g Unit :=
  update beyond fun m => (m.ram.setFrame? f p).map fun r => { m with ram := r }

def onFrames (change : FrameTable g.frameCount → Option (FrameTable g.frameCount)) : Paged g Unit :=
  update beyond fun m => (change m.frames).map fun t => { m with frames := t }

def loadWord (a : PhysicalAddress) : Paged g Int32 := do
  ofOption beyond ((← get).ram.load? a)

def storeWord (a : PhysicalAddress) (w : Int32) : Paged g Unit :=
  update beyond fun m => (m.ram.store? a w).map fun r => { m with ram := r }

def create (pid : ProcessId) : Paged g Unit :=
  update (.crash .noRoom) fun m => if pid < maxSpaces then some (m.createSpace pid) else none

def allocate (pid : ProcessId) (start : PageNumber) (count : Nat) : Paged g Bool :=
  onSpace pid (AddressSpace.allocate start count)

def checkTable (pid : ProcessId) : Paged g (List Hole) := do
  match (← get).space? pid with
  | none => return []
  | some s =>
    reportAll s.holeEvents
    return s.holes

def checkSwaps : Paged g Nat := do
  let left := (← get).swap.outstanding
  if !left.isEmpty then
    report .swapsLeft
    reportAll (left.map fun (t, p) => .swapLeft t p.owner p.time)
  return left.length

theorem space?_createSpace (m : Pager g) (pid q : ProcessId) :
    (m.createSpace pid).space? q = if pid = q then some { pid } else m.space? q := by
  simp [createSpace, space?, Std.TreeMap.getElem?_insert]

theorem space?_setSpace (m : Pager g) (pid q : ProcessId) (s : AddressSpace g) :
    (m.setSpace pid s).space? q = if pid = q then some s else m.space? q := by
  simp [setSpace, space?, Std.TreeMap.getElem?_insert]

end Pager

end DemandPaging
