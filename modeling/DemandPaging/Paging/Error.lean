import DemandPaging.Number
/-!
Errors of the memory system. Each means that its books disagree or that a caller broke a
promise; an access that a program must not make is an ordinary answer and not among them.
-/

namespace DemandPaging

inductive MemoryError where
  | unknownSwapToken (token : SwapToken) (pid : ProcessId) (page : PageNumber)
  | alreadyAllocated (pid : ProcessId) (page : PageNumber)
  | missingOwnerEntry (frame : FrameNumber) (pid : ProcessId) (page : PageNumber)
  | noEvictableFrame (frameCount : Nat)
  | unknownProcess (pid : ProcessId)
deriving DecidableEq, Repr

def MemoryError.message : MemoryError → String
  | .unknownSwapToken t p n => s!"swap token {t} for process {p} page {n} is not outstanding"
  | .alreadyAllocated p n => s!"process {p} page {n} is already allocated"
  | .missingOwnerEntry f p n =>
    s!"frame {f} is owned by process {p} page {n}, which does not map it"
  | .noEvictableFrame n => s!"no evictable frame among {n} frames"
  | .unknownProcess p => s!"process {p} has no address space"

end DemandPaging
