import DemandPaging.Machine.Run
import DemandPaging.Proofs.Action
import Mathlib.Data.List.Basic
/-!
A machine without its memory system and its output: the clock, who waits, who has a turn, what
CPUs and policy hold, and the processes with their accounts. What an action does to this roster
does not depend on the rest, but for which of its answers it gives.
-/

namespace DemandPaging

structure Roster (S : Type) where
  clock : VirtualClock
  queue : EventQueue Waiter
  parked : Nat
  idle : List Nat
  turns : List Nat
  live : Nat
  status : RunStatus
  cpus : Array Cpu
  scheduler : S
  processes : Array Process

namespace Process

def faulted (p : Process) (fetches loads : Nat) : Process :=
  p.changeAccount fun a => { a with
    instructionFaults := a.instructionFaults + fetches
    dataFaults := a.dataFaults + loads }

def spent (p : Process) : Process :=
  p.changeAccount fun a => { a with executedTicks := a.executedTicks + 1 }

def dispatched (p : Process) (c : Nat) : Process :=
  { p with
    status := .running c
    account := { p.account with dispatches := p.account.dispatches + 1 } }

def undispatched (p : Process) (regs : Registers) (ticks : Nat) : Process :=
  { p with saved := regs, account := { p.account with bursts := p.account.bursts.push ticks } }

def exited (p : Process) (now : Nat) : Process :=
  { p with status := .exited, account := { p.account with completedAt := some now } }

def started (g : Geometry) (p : Process) (now : Nat) : Process :=
  let textPages := g.pagesForBytes p.trace.textBytes
  { p with
    textPages
    dataBase := g.pageStart textPages
    saved := {}
    status := .ready
    account := { p.account with startedAt := some now } }

theorem faulted_zero (p : Process) : p.faulted 0 0 = p := rfl

theorem faulted_faulted (p : Process) (k l k' l' : Nat) :
    (p.faulted k l).faulted k' l' = p.faulted (k + k') (l + l') := by
  simp [faulted, changeAccount, Nat.add_assoc]

end Process

namespace Roster

variable {S α : Type} (r : Roster S)

def setProcess (pid : ProcessId) (p : Process) : Roster S :=
  { r with processes := r.processes.setIfInBounds pid p }

def setCpu (c : Nat) (x : Cpu) : Roster S := { r with cpus := r.cpus.setIfInBounds c x }

def told (y : Policy S α) : Roster S := { r with scheduler := (y.run r.scheduler).state }

def park (c : Nat) (wake : Option Nat) : Roster S :=
  { r with
    queue := wake.elim r.queue fun t => r.queue.schedule t (.cpu c)
    idle := wake.elim (r.idle ++ [c]) fun _ => r.idle
    parked := r.parked + 1
    turns := if r.turns.head? = some c then r.turns.tail else r.turns }

variable {r} {pid : ProcessId} {p q : Process} {c : Nat} {x y : Cpu}

theorem getElem?_setProcess (hp : r.processes[pid]? = some p) (q : Process) (i : ProcessId) :
    (r.setProcess pid q).processes[i]? = if pid = i then some q else r.processes[i]? := by
  obtain ⟨hlt, -⟩ := Array.getElem?_eq_some_iff.mp hp
  rw [setProcess, Array.getElem?_setIfInBounds, if_pos hlt]

theorem getElem?_setProcess_self (hp : r.processes[pid]? = some p) (q : Process) :
    (r.setProcess pid q).processes[pid]? = some q := by
  rw [getElem?_setProcess hp, if_pos rfl]

theorem getElem?_setCpu (hx : r.cpus[c]? = some x) (y : Cpu) (i : Nat) :
    (r.setCpu c y).cpus[i]? = if c = i then some y else r.cpus[i]? := by
  obtain ⟨hlt, -⟩ := Array.getElem?_eq_some_iff.mp hx
  rw [setCpu, Array.getElem?_setIfInBounds, if_pos hlt]

theorem getElem?_setCpu_self (hx : r.cpus[c]? = some x) (y : Cpu) :
    (r.setCpu c y).cpus[c]? = some y := by
  rw [getElem?_setCpu hx, if_pos rfl]

theorem setProcess_setProcess (r : Roster S) (pid : ProcessId) (p q : Process) :
    (r.setProcess pid p).setProcess pid q = r.setProcess pid q := by
  rw [setProcess, setProcess, Array.setIfInBounds_setIfInBounds]
  rfl

theorem setCpu_setCpu (r : Roster S) (c : Nat) (x y : Cpu) :
    (r.setCpu c x).setCpu c y = r.setCpu c y := by
  rw [setCpu, setCpu, Array.setIfInBounds_setIfInBounds]
  rfl

theorem setProcess_self (hp : r.processes[pid]? = some p) : r.setProcess pid p = r := by
  have hset : r.processes.setIfInBounds pid p = r.processes := by grind
  rw [setProcess, hset]

end Roster

namespace Machine

open DemandPaging.Action

variable {g : Geometry} {S α β : Type}

def roster (m : Machine g S) : Roster S where
  clock := m.clock
  queue := m.queue
  parked := m.parked
  idle := m.idle
  turns := m.turns
  live := m.live
  status := m.status
  cpus := m.cpus
  scheduler := m.scheduler
  processes := m.processes

theorem roster_park (m : Machine g S) (c : Nat) (wake : Option Nat) :
    (m.park c wake).roster = m.roster.park c wake := rfl

theorem roster_changeProcess {m : Machine g S} {pid : ProcessId} {p : Process}
    (hp : m.processes[pid]? = some p) (f : Process → Process) :
    ({ m with processes := m.processes.modify pid f } : Machine g S).roster =
      m.roster.setProcess pid (f p) := by
  have hset : m.processes.modify pid f = m.processes.setIfInBounds pid (f p) := by grind
  rw [hset]
  rfl

theorem roster_changeCpu {m : Machine g S} {c : Nat} {x : Cpu} (hx : m.cpus[c]? = some x)
    (f : Cpu → Cpu) :
    ({ m with cpus := m.cpus.modify c f } : Machine g S).roster = m.roster.setCpu c (f x) := by
  have hset : m.cpus.modify c f = m.cpus.setIfInBounds c (f x) := by grind
  rw [hset]
  rfl

/-- A failure that is neither a stall, nor a time warp, nor the pick of a process that is not
ready. -/
def Fair : Failure RunError → Prop
  | .error (.notReady ..) => False
  | .error (.stalled ..) => False
  | .error (.timeWarp ..) => False
  | _ => True

/-- Run on any machine with this roster, the action answers as `Q` says of the roster it leaves,
or fails as `E` says. -/
def Moves (E : Failure RunError → Prop) (x : Running g S α) (r : Roster S)
    (Q : α → Roster S → Prop) : Prop :=
  ∀ m : Machine g S, m.roster = r → x.Meets m E fun a m' _ => Q a m'.roster

section Rules

variable {E E' : Failure RunError → Prop} {r r' : Roster S} {x : Running g S α}
  {f : α → Running g S β} {P Q : α → Roster S → Prop} {R : β → Roster S → Prop}
  {pid : ProcessId} {p : Process} {c : Nat} {y : Cpu}

theorem Moves.mono (h : Moves E x r P) (hq : ∀ a r', P a r' → Q a r') : Moves E x r Q :=
  fun m hm => (h m hm).mono fun a m' _ => hq a m'.roster

theorem Moves.weaken (h : Moves E x r Q) (he : ∀ e, E e → E' e) : Moves E' x r Q :=
  fun m hm => (h m hm).weaken he

theorem Moves.bind (h : Moves E x r P) (hf : ∀ a r', P a r' → Moves E (f a) r' R) :
    Moves E (x >>= f) r R :=
  fun m hm => Meets.bind (h m hm) fun a m' _ ha => hf a m'.roster ha m' rfl

theorem Moves.andThen (h : Moves E x r fun _ s => s = r') (hf : ∀ a, Moves E (f a) r' R) :
    Moves E (x >>= f) r R :=
  h.bind fun a _ hr => hr ▸ hf a

theorem moves_pure {a : α} (h : Q a r) : Moves E (pure a : Running g S α) r Q :=
  fun _ hm => meets_pure (hm ▸ h)

theorem moves_fail {e : Failure RunError} (h : E e) : Moves E (fail e : Running g S α) r Q :=
  fun _ _ => meets_fail h

theorem moves_fail_bind {e : Failure RunError} (h : E e) : Moves E (fail e >>= f) r R :=
  Moves.bind (P := fun _ _ => False) (moves_fail h) fun _ _ hf => hf.elim

theorem moves_get_bind {f : Machine g S → Running g S β}
    (h : ∀ m : Machine g S, m.roster = r → Moves E (f m) r R) : Moves E (get >>= f) r R :=
  fun m hm => Meets.bind (meets_get (Q := fun a m' _ => a = m ∧ m' = m) ⟨rfl, rfl⟩)
    fun _ _ _ ⟨ha, hm'⟩ => ha ▸ hm' ▸ h m hm m hm

theorem moves_modify (r' : Roster S) {c : Machine g S → Machine g S}
    (h : ∀ m, m.roster = r → (c m).roster = r') : Moves E (modify c) r fun _ s => s = r' :=
  fun m hm => meets_modify (h m hm)

theorem moves_report_bind {e : Event} {f : Unit → Running g S β} (h : Moves E (f ()) r R) :
    Moves E (report e >>= f) r R :=
  Moves.andThen (fun _ hm => meets_report hm) fun _ => h

theorem moves_report {e : Event} : Moves E (report e : Running g S Unit) r fun _ s => s = r :=
  fun _ hm => meets_report hm

theorem moves_ofOption {e : Failure RunError} {o : Option α} (he : o = none → E e) :
    Moves E (ofOption e o : Running g S α) r fun a s => o = some a ∧ s = r := by
  intro m hm
  cases o with
  | none => exact meets_fail (he rfl)
  | some a => exact meets_pure ⟨rfl, hm⟩

theorem moves_time_bind {f : Nat → Running g S β} (h : Moves E (f r.clock.now) r R) :
    Moves E (time >>= f) r R :=
  Moves.bind (P := fun a s => a = r.clock.now ∧ s = r)
    (moves_get_bind fun _ hm => moves_pure ⟨hm ▸ rfl, rfl⟩) fun _ _ ⟨ha, hs⟩ => ha ▸ hs ▸ h

theorem moves_process (pid : ProcessId) :
    Moves Fair (process pid : Running g S Process) r
      fun p s => r.processes[pid]? = some p ∧ s = r :=
  moves_get_bind fun m hm => (moves_ofOption fun _ => trivial).mono fun _ _ ⟨hp, hs⟩ =>
    ⟨by rw [← hm]; exact hp, hs⟩

theorem moves_process_bind {f : Process → Running g S β} (hp : r.processes[pid]? = some p)
    (h : Moves E (f p) r R) : Moves E (process pid >>= f) r R := by
  refine Moves.bind (P := fun q s => q = p ∧ s = r) (moves_get_bind fun m hm => ?_)
    fun _ _ ⟨hq, hs⟩ => hq ▸ hs ▸ h
  have hp' : m.processes[pid]? = some p := by rw [← hp, ← hm]; rfl
  rw [hp']
  exact moves_pure ⟨rfl, rfl⟩

theorem moves_cpu (c : Nat) :
    Moves Fair (cpu c : Running g S Cpu) r fun y s => r.cpus[c]? = some y ∧ s = r :=
  moves_get_bind fun m hm => (moves_ofOption fun _ => trivial).mono fun _ _ ⟨hy, hs⟩ =>
    ⟨by rw [← hm]; exact hy, hs⟩

theorem moves_cpu_bind {f : Cpu → Running g S β} (hy : r.cpus[c]? = some y)
    (h : Moves E (f y) r R) : Moves E (cpu c >>= f) r R := by
  refine Moves.bind (P := fun q s => q = y ∧ s = r) (moves_get_bind fun m hm => ?_)
    fun _ _ ⟨hq, hs⟩ => hq ▸ hs ▸ h
  have hy' : m.cpus[c]? = some y := by rw [← hy, ← hm]; rfl
  rw [hy']
  exact moves_pure ⟨rfl, rfl⟩

theorem moves_changeProcess (hp : r.processes[pid]? = some p) (f : Process → Process) :
    Moves E (changeProcess pid f : Running g S Unit) r fun _ s => s = r.setProcess pid (f p) :=
  moves_modify _ fun m hm => by
    subst hm
    exact roster_changeProcess hp f

theorem moves_changeCpu (hy : r.cpus[c]? = some y) (f : Cpu → Cpu) :
    Moves E (changeCpu c f : Running g S Unit) r fun _ s => s = r.setCpu c (f y) :=
  moves_modify _ fun m hm => by
    subst hm
    exact roster_changeCpu hy f

theorem moves_park (c : Nat) (wake : Option Nat) :
    Moves E (modify fun m : Machine g S => m.park c wake) r fun _ s => s = r.park c wake :=
  moves_modify _ fun _ hm => by rw [roster_park, hm]

theorem moves_scheduleWaiter (tick : Nat) (w : Waiter) :
    Moves E (scheduleWaiter tick w : Running g S Unit) r
      fun _ s => s = { r with queue := r.queue.schedule tick w } :=
  moves_modify _ fun m hm => by subst hm; rfl

theorem moves_countDown :
    Moves E (modify fun m : Machine g S => { m with live := m.live - 1 }) r
      fun _ s => s = { r with live := r.live - 1 } :=
  moves_modify _ fun m hm => by subst hm; rfl

theorem moves_tickAfter (ticks : Nat) :
    Moves Fair (tickAfter ticks : Running g S Nat) r
      fun tick s => Number.add? r.clock.now ticks = some tick ∧ s = r :=
  moves_time_bind (moves_ofOption fun _ => trivial)

theorem moves_onExecution (hy : r.cpus[c]? = some y) {z : Execution.Executing g α}
    {P : α → Prop} (hz : ∀ e, z.Meets e (fun _ => True) fun a _ _ => P a) :
    Moves Fair (onExecution c z : Running g S α) r
      fun a s => P a ∧ ∃ regs, s = r.setCpu c { y with regs } := by
  refine moves_time_bind ?_
  refine moves_cpu_bind hy ?_
  intro m hm
  subst hm
  refine meets_within ?_
  have hanswer := hz { regs := y.regs, pager := m.pager }
  unfold Meets at hanswer ⊢
  split
  · next hrun =>
    rw [hrun] at hanswer
    exact ⟨hanswer, _, roster_changeCpu hy _⟩
  · next e _ _ _ => cases e <;> trivial

theorem moves_onPager (z : Paged g α) : Moves Fair (onPager z) r fun _ s => s = r := by
  refine moves_time_bind ?_
  intro m hm
  refine meets_within ?_
  unfold Meets
  split
  · exact hm
  · next e _ _ _ => cases e <;> trivial

theorem moves_onPolicy (z : Policy S α) :
    Moves Fair (onPolicy z : Running g S α) r
      fun a s => (z.run r.scheduler).answer = .ok a ∧ s = r.told z := by
  intro m hm
  subst hm
  refine meets_within ?_
  have hview : m.roster.scheduler = m.scheduler := rfl
  unfold Meets
  rw [Roster.told, hview]
  split
  · next hrun =>
    rw [hrun]
    exact ⟨rfl, rfl⟩
  · trivial

end Rules

end Machine

end DemandPaging
