import DemandPaging.Address
import DemandPaging.Frames
import DemandPaging.Log
import DemandPaging.Word
/-!
What the memory system reports, and how each report reads in a log.
-/

namespace DemandPaging.Paging

inductive Occasion where
  | beforeSwapIn | afterSwapIn | beforeZero | afterZero
deriving DecidableEq, Repr

def Occasion.title : Occasion → String
  | .beforeSwapIn => "Frame before swap in:"
  | .afterSwapIn => "Frame after swap in:"
  | .beforeZero => "Zero frame before:"
  | .afterZero => "Zero frame after:"

inductive Event where
  | requestExceeds (pid : ProcessId) (start : PageNumber) (count : Nat)
  | tableHole (pid : ProcessId) (l₁ : Nat)
  | entryHole (pid : ProcessId) (l₁ l₂ : Nat)
  | swappedOut (owner : FrameOwner) (token : SwapToken)
  /-- An image was read back for another page than it was stored for. -/
  | swapMismatch (token : SwapToken) (stored requested : FrameOwner)
  | swapDeleted (token : SwapToken) (owner : FrameOwner)
  | tlbInvalidated (cpu : Nat)
  | hit (cpu : Nat) (page : PageNumber) (frame : FrameNumber)
  | loadClean (cpu : Nat) (page : PageNumber) (frame : FrameNumber)
  | loadSteal (cpu : Nat) (page : PageNumber) (frame : FrameNumber)
      (oldPage : PageNumber) (oldFrame : FrameNumber)
  | missingTable (cpu l₁ : Nat)
  | missingEntry (cpu l₁ l₂ : Nat)
  | miss (cpu : Nat) (page : PageNumber)
  | illegalFetch (pid : ProcessId) (addr : VirtualAddress) (page : PageNumber)
  | beyondSpace (pid : ProcessId) (addr : VirtualAddress) (page : PageNumber) (pageCount : Nat)
  | neverAllocated (pid : ProcessId) (addr : VirtualAddress) (page : PageNumber)
  | freeFrame (frame : FrameNumber) (owner : FrameOwner)
  | stealing (frame : FrameNumber) (victim owner : FrameOwner)
  | swappingOut (image : Array UInt8)
  | listed (on : Occasion) (frame : FrameNumber) (image : Array UInt8)
  | reclaimed (frame : FrameNumber) (pid : ProcessId) (addr : VirtualAddress)
  | swapsLeft
  | swapLeft (token : SwapToken) (owner : FrameOwner) (time : Nat)
deriving DecidableEq

namespace Event

def level : Event → Log.Level
  | .swapMismatch .. | .swapsLeft | .swapLeft .. => .error
  | .requestExceeds .. | .tlbInvalidated .. | .hit .. | .loadClean .. | .loadSteal ..
  | .missingTable .. | .missingEntry .. | .miss .. => .info
  | .tableHole .. | .entryHole .. | .swapDeleted .. => .debug
  | .swappedOut .. | .illegalFetch .. | .beyondSpace .. | .neverAllocated .. | .freeFrame ..
  | .stealing .. | .swappingOut .. | .listed .. | .reclaimed .. => .trace

private def indented (image : Array UInt8) : List String :=
  (Word.listing 0 image.toList).map ("\t" ++ ·)

/-- One message, except for a listing, which has a message for each of its lines. -/
def messages : Event → List String
  | .requestExceeds p s c =>
    [s!"Memory request exceeds allocation for process {p} start page {s} count {c}"]
  | .tableHole p i => [s!"Process {p}: No 2nd Level Page Table at index [{i}][]"]
  | .entryHole p i j => [s!"Process {p}: No PTE at index [{i}][{j}]"]
  | .swappedOut o t => [s!"Swapped out process {o.pid} page {o.page} under token {t}"]
  | .swapMismatch t s r =>
    [s!"Swap in mismatch for token {t}: stored process {s.pid} page {s.page}, " ++
      s!"requested process {r.pid} page {r.page}"]
  | .swapDeleted t o => [s!"Deleting swapped page for token {t} page {o.page} pid {o.pid}"]
  | .tlbInvalidated c => [s!"CPU {c} TLB Invalidate."]
  | .hit c p f => [s!"CPU {c} Xlation Hit: page/frame {p}->{f}"]
  | .loadClean c p f => [s!"CPU {c} TLB Load Clean: page/frame {p}->{f}"]
  | .loadSteal c p f q e =>
    [s!"CPU {c} TLB Load Steal: page/frame {p}->{f} stolen from {q}->{e}"]
  | .missingTable c i => [s!"CPU {c} PTE L1 Index Null at index [{i}]"]
  | .missingEntry c i j => [s!"CPU {c} PTE is Null at index [{i}][{j}]"]
  | .miss c p => [s!"CPU {c} Xlation Fault: page {p}"]
  | .illegalFetch p a n =>
    [s!"Illegal instruction fetch for process {p} at {a.text}, page {n}"]
  | .beyondSpace p a n c =>
    [s!"Segmentation fault for process {p} on virtual address {a.text}. " ++
      s!"Page {n} exceeds address space size {c}"]
  | .neverAllocated p a n =>
    [s!"Segmentation fault for process {p} on virtual address {a.text}. Page {n}"]
  | .freeFrame f o => [s!"Using free frame {f} for process {o.pid} page {o.page}"]
  | .stealing f v o =>
    [s!"Stealing frame {f} from process {v.pid} page {v.page} for process {o.pid} page {o.page}"]
  | .swappingOut image => "Frame before swap out:" :: indented image
  | .listed on f image => on.title :: s!"Dumping frame number {f}:" :: indented image
  | .reclaimed f p a => [s!"Reclaiming free frame {f} from process {p} at vaddr {a.text}"]
  | .swapsLeft => ["Exiting with swapped pages!"]
  | .swapLeft t o time => [s!"Token: {t} page {o.page} pid {o.pid} time {time}"]

def records (e : Event) : List Log.Record := e.messages.map fun m => ⟨e.level, m⟩

end Event

end DemandPaging.Paging
