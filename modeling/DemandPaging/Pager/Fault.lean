import DemandPaging.Pager.Translate
/-!
Page faults. Fetches outside the text and pages that do not exist are violations and change
nothing. A resident page is its own answer. Any other page gets a frame: first the stamps of all
buffers are copied to the frames, so that the choice below sees the real order of references;
then the head of the free list is taken or the least recently used frame is stolen, its contents
going to the swap store; then the page's image is read back, or the frame is zeroed.
-/

namespace DemandPaging

inductive Access where
  /-- A fetch by a process whose text takes this many pages. -/
  | fetch (textPages : Nat)
  | data
deriving DecidableEq, Repr

inductive Violation where
  | illegalFetch (page : PageNumber)
  | outOfRange (page : PageNumber)
  | unallocated (page : PageNumber)
deriving DecidableEq, Repr

inductive Resolution where
  | resolved (frame : FrameNumber)
  | violation (v : Violation)
deriving DecidableEq, Repr

def Access.isIllegal (a : Access) (page : PageNumber) : Bool :=
  match a with
  | .fetch textPages => textPages ≤ page
  | .data => false

namespace Pager

open DemandPaging.Action

variable {g : Geometry}

def list (on : Paging.Occasion) (f : FrameNumber) : Paged g Unit := do
  report (.listed on f (← page f).toArray)

def missingOwner (f : FrameNumber) (victim : FrameOwner) : Failure MemoryError :=
  .error (.missingOwnerEntry f victim.pid victim.page)

def noVictim (g : Geometry) : Failure MemoryError := .error (.noEvictableFrame g.frameCount)

def evict (f : FrameNumber) (owner : FrameOwner) : Paged g Unit := do
  let victim ← ofOption (noVictim g) (((← get).owner? f).bind id)
  report (.stealing f victim owner)
  if (← get).state? victim.pid victim.page ≠ some (.resident f) then
    fail (missingOwner f victim)
  let image := (← page f).toArray
  report (.swappingOut image)
  let token ← onSwap (SwapStore.swapOut image victim (← get).clock.current)
  setState victim.pid victim.page (.swapped token)
  modify fun m => m.purgeAll victim.pid victim.page

/-- Takes a free frame, or steals the one used longest ago. -/
def obtainFrame (owner : FrameOwner) : Paged g FrameNumber := do
  match (← get).frames.takeFree? with
  | some (f, t) =>
    modify fun m => { m with frames := t }
    report (.freeFrame f owner)
    return f
  | none =>
    let f ← ofOption (noVictim g) (← get).frames.leastRecentlyUsed
    evict f owner
    return f

def claimFrame (owner : FrameOwner) : Paged g FrameNumber := do
  let f ← obtainFrame owner
  let now ← stamp
  onFrames fun t => t.assign? f owner now
  return f

def fill (f : FrameNumber) (owner : FrameOwner) (state : PageState) : Paged g Unit := do
  match state with
  | .swapped token =>
    list .beforeSwapIn f
    let image ← onSwap (SwapStore.swapIn token owner g.pageSize)
    setPage f (← ofOption (.crash .lengthMismatch) (Page.ofImage? image))
    list .afterSwapIn f
  | _ =>
    list .beforeZero f
    setPage f .zero
    list .afterZero f

def bringIn (owner : FrameOwner) (state : PageState) : Paged g FrameNumber := do
  flushAll
  let f ← claimFrame owner
  fill f owner state
  setState owner.pid owner.page (.resident f)
  return f

def handleFault (pid : ProcessId) (a : VirtualAddress) (access : Access) : Paged g Resolution := do
  let page := g.pageOf a
  if access.isIllegal page then
    report (.illegalFetch pid a page)
    return .violation (.illegalFetch page)
  let s ← space pid
  if g.pageCount ≤ page then
    report (.beyondSpace pid a page g.pageCount)
    return .violation (.outOfRange page)
  match s.state? page with
  | none =>
    report (.neverAllocated pid a page)
    return .violation (.unallocated page)
  | some (.resident f) => return .resolved f
  | some state => return .resolved (← bringIn ⟨pid, page⟩ state)

inductive Touch where
  | hit (frame : FrameNumber)
  /-- The fault was resolved, and this is what translating again gave. -/
  | faulted (frame : Option FrameNumber)
  | violation (v : Violation)
deriving DecidableEq, Repr

/-- A data access: translates, resolves a fault if there is one, and translates again. -/
def touch (cpu : Nat) (pid : ProcessId) (a : VirtualAddress) : Paged g Touch := do
  match ← translate cpu pid a with
  | some f => return .hit f
  | none =>
    match ← handleFault pid a .data with
    | .violation v => return .violation v
    | .resolved _ => return .faulted (← translate cpu pid a)

def releaseEntry (pid : ProcessId) (page : PageNumber) : PageState → Paged g Unit
  | .swapped token => onSwap (SwapStore.delete token ⟨pid, page⟩)
  | .resident f => do
    report (.reclaimed f pid (g.pageStart page))
    onFrames fun t => (t.release? f).map Prod.snd
  | .unmapped => Action.pure ()

/-- Tears a process down: its images are deleted, its frames freed in the order of their pages,
its cached mappings dropped. -/
def release (pid : ProcessId) : Paged g Unit := do
  let s ← space pid
  modify fun m => { m with spaces := m.spaces.erase pid }
  each (fun (page, state) => releaseEntry pid page state) s.entries
  modify fun m => m.forgetAll pid

end Pager

end DemandPaging
