import DemandPaging.Paging.Event
import DemandPaging.Tlb
/-!
The translator of a CPU: the process it serves, its buffer if it has one, its counters.
A buffer holds mappings of one process at a time and is emptied when another one comes.
-/

namespace DemandPaging

structure TranslatorCounts where
  hits : Nat := 0
  faults : Nat := 0
  invalidates : Nat := 0
  loadCleans : Nat := 0
  loadSteals : Nat := 0
deriving DecidableEq, Repr

namespace TranslatorCounts

def add (a b : TranslatorCounts) : TranslatorCounts :=
  { hits := a.hits + b.hits
    faults := a.faults + b.faults
    invalidates := a.invalidates + b.invalidates
    loadCleans := a.loadCleans + b.loadCleans
    loadSteals := a.loadSteals + b.loadSteals }

def fits (a : TranslatorCounts) : Bool :=
  a.hits < wordBound && a.faults < wordBound && a.invalidates < wordBound &&
    a.loadCleans < wordBound && a.loadSteals < wordBound

end TranslatorCounts

structure Translator (n : Nat) where
  cpu : Nat
  tlb : Option (Tlb n)
  owner : Option ProcessId := none
  counts : TranslatorCounts := {}

namespace Translator

variable {n : Nat}

def new (cpu : Nat) (useTlb : Bool) : Translator n :=
  { cpu, tlb := if useTlb then some (.empty n) else none }

/-- Whether serving this process means to drop the mappings of another. -/
def switches (u : Translator n) (pid : ProcessId) : Bool :=
  u.tlb.isSome && u.owner.any (· ≠ pid)

def countHit (u : Translator n) : Translator n :=
  { u with counts := { u.counts with hits := u.counts.hits + 1 } }

def countFault (u : Translator n) : Translator n :=
  { u with counts := { u.counts with faults := u.counts.faults + 1 } }

def countLoad (u : Translator n) : TlbLoad → Translator n
  | .clean _ => { u with counts := { u.counts with loadCleans := u.counts.loadCleans + 1 } }
  | .steal .. => { u with counts := { u.counts with loadSteals := u.counts.loadSteals + 1 } }

def dispatch (u : Translator n) (pid : ProcessId) : Translator n :=
  if u.switches pid then
    { u with
      tlb := u.tlb.map Tlb.invalidate
      owner := some pid
      counts := { u.counts with invalidates := u.counts.invalidates + 1 } }
  else { u with owner := some pid }

/-- Drops the mapping of a page if the translator serves its process; tells whether there was
one. -/
def purge (u : Translator n) (pid : ProcessId) (page : PageNumber) : Bool × Translator n :=
  match u.tlb with
  | some t =>
    if u.owner = some pid then ((t.purge page).1, { u with tlb := some (t.purge page).2 })
    else (false, u)
  | none => (false, u)

/-- Drops all mappings of a process, which counts as no invalidate. -/
def forget (u : Translator n) (pid : ProcessId) : Translator n :=
  if u.owner = some pid then { u with tlb := u.tlb.map Tlb.invalidate } else u

def cached (u : Translator n) : List TlbSlot := (u.tlb.map Tlb.valid).getD []

def loadEvent (u : Translator n) (page : PageNumber) (frame : FrameNumber) :
    TlbLoad → Paging.Event
  | .clean _ => .loadClean u.cpu page frame
  | .steal _ oldPage oldFrame => .loadSteal u.cpu page frame oldPage oldFrame

theorem owner_dispatch (u : Translator n) (pid : ProcessId) :
    (u.dispatch pid).owner = some pid := by
  unfold dispatch
  split <;> rfl

end Translator

end DemandPaging
