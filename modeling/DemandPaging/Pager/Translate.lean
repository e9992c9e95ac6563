import DemandPaging.Pager
/-!
Translating the addresses of the process a translator serves. A translator with a buffer asks the
buffer first, and the page table on a miss; what the table gives is then installed. One without
always asks the table. Nothing here resolves a fault.
-/

namespace DemandPaging.Pager

open DemandPaging.Action

variable {g : Geometry}

def dispatch (cpu : Nat) (pid : ProcessId) : Paged g Unit := do
  let u ← translator cpu
  if u.switches pid then report (.tlbInvalidated u.cpu)
  setTranslator cpu (u.dispatch pid)

def purge (cpu : Nat) (pid : ProcessId) (page : PageNumber) : Paged g Bool := do
  let u ← translator cpu
  let (found, u') := u.purge pid page
  setTranslator cpu u'
  return found

def forget (cpu : Nat) (pid : ProcessId) : Paged g Unit := do
  let u ← translator cpu
  setTranslator cpu (u.forget pid)

/-- Copies the stamps of cached mappings to their frames. -/
def flush (cpu : Nat) : Paged g Unit := do
  let u ← translator cpu
  each (fun s => onFrames fun t => t.refresh? s.frame s.referenced) u.cached

def purgeAll (m : Pager g) (pid : ProcessId) (page : PageNumber) : Pager g :=
  { m with translators := m.translators.map fun u => (u.purge pid page).2 }

def forgetAll (m : Pager g) (pid : ProcessId) : Pager g :=
  { m with translators := m.translators.map fun u => u.forget pid }

def flushAll : Paged g Unit := do
  each flush (List.range (← get).translators.size)

def walkEvents (cpu : Nat) (page : PageNumber) : Walk → List Paging.Event
  | .missingTable i => [.missingTable cpu i, .miss cpu page]
  | .missingEntry i j => [.missingEntry cpu i j, .miss cpu page]
  | _ => [.miss cpu page]

/-- Looks a page up in the page table. Success stamps the frame, failure counts as a fault. -/
def walk (cpu : Nat) (s : AddressSpace g) (page : PageNumber) : Paged g (Option FrameNumber) := do
  match s.walk page with
  | .entry (.resident f) =>
    let now ← stamp
    onFrames fun t => t.touch? f now
    return some f
  | w =>
    let u ← translator cpu
    setTranslator cpu u.countFault
    reportAll (walkEvents u.cpu page w)
    return none

def hit (cpu : Nat) (page : PageNumber) (f : FrameNumber) : Paged g Unit := do
  let u ← translator cpu
  setTranslator cpu u.countHit
  report (.hit u.cpu page f)

def install (cpu : Nat) (page : PageNumber) (f : FrameNumber) : Paged g Unit := do
  let now ← stamp
  let u ← translator cpu
  match u.tlb with
  | none => return ()
  | some t =>
    let (load, t') ← ofOption beyond (t.install? page f now)
    setTranslator cpu (Translator.countLoad { u with tlb := some t' } load)
    report (u.loadEvent page f load)

def lookup (cpu : Nat) (t : Tlb g.tlbEntries) (page : PageNumber) :
    Paged g (Option FrameNumber) := do
  let now ← stamp
  let u ← translator cpu
  let (found, t') := t.lookup page now
  setTranslator cpu { u with tlb := some t' }
  return found

/-- The frame of an address of a process, if the page is resident. A process without an address
space has no mappings, and asking for one leaves no mark. -/
def translate (cpu : Nat) (pid : ProcessId) (a : VirtualAddress) :
    Paged g (Option FrameNumber) := do
  let u ← translator cpu
  match (← get).space? pid with
  | none => return none
  | some s =>
    let page := g.pageOf a
    match u.tlb with
    | none =>
      match ← walk cpu s page with
      | none => return none
      | some f =>
        hit cpu page f
        return some f
    | some t =>
      match ← lookup cpu t page with
      | some f =>
        hit cpu page f
        return some f
      | none =>
        match ← walk cpu s page with
        | none => return none
        | some f =>
          install cpu page f
          return some f

end DemandPaging.Pager
