import DemandPaging.Proofs.Machine.Roster
/-!
What a step does to the roster. A CPU on its turn makes one of eight moves. A moving clock wakes
the waiters of a tick and gives the CPUs their turns.
-/

namespace DemandPaging

namespace Roster

variable {S : Type}

def off (r : Roster S) (c : Nat) (x : Cpu) (b : Burst) (p : Process) : Roster S :=
  (r.setProcess b.pid p).setCpu c { x with phase := .asking }

theorem getElem?_off_self {r : Roster S} {b : Burst} {p : Process}
    (hp : r.processes[b.pid]? = some p) (c : Nat) (x : Cpu) (q : Process) :
    (r.off c x b q).processes[b.pid]? = some q := getElem?_setProcess_self hp q

theorem setProcess_off (r : Roster S) (c : Nat) (x : Cpu) (b : Burst) (p q : Process) :
    (r.off c x b p).setProcess b.pid q = r.off c x b q :=
  congrArg (setCpu · c { x with phase := .asking }) (setProcess_setProcess r b.pid p q)

theorem off_setCpu (r : Roster S) (c : Nat) (x y : Cpu) (b : Burst) (p : Process) :
    (r.setCpu c y).off c x b p = r.off c x b p :=
  setCpu_setCpu (r.setProcess b.pid p) c y _

def release (r : Roster S) (due : List Waiter) : Roster S :=
  let released := (due.filterMap Machine.Waiter.cpu? ++ r.idle).mergeSort (· ≤ ·)
  { r with
    idle := []
    parked := r.parked - released.length
    turns := r.turns ++ released }

variable [Scheduler S]

section Leaving

variable (r : Roster S) (c : Nat) (x : Cpu) (b : Burst) (p : Process)

def expired : Roster S :=
  (r.off c x b { p.undispatched x.regs b.ticks with status := .ready }).told
    (Scheduler.quantumExpired b.pid c b.ticks)

def blocked (tick : Nat) : Roster S :=
  { (r.off c x b { p.undispatched x.regs b.ticks with status := .blocked }).told
      (Scheduler.blocked b.pid c b.ticks) with
    queue := r.queue.schedule tick (.process b.pid) }

def ended : Roster S :=
  { (r.off c x b ((p.undispatched x.regs b.ticks).exited r.clock.now)).told
      (Scheduler.exited b.pid) with
    live := r.live - 1 }

def dispatched (pid : ProcessId) : Roster S :=
  (r.setProcess pid (p.dispatched c)).setCpu c { regs := p.saved, phase := .bursting { pid } }

end Leaving

/-- The roster after faults of a process on its CPU, or after the last of them has ended it. -/
inductive Faulted (r : Roster S) (c : Nat) (x : Cpu) (b : Burst) (p : Process) :
    (gone : Bool) → Roster S → Prop
  | stays (k l : Nat) : Faulted r c x b p false (r.setProcess b.pid (p.faulted k l))
  | ends (k l : Nat) : Faulted r c x b p true (r.ended c x b (p.faulted k l))

inductive Ran (r : Roster S) (c : Nat) (x : Cpu) (b : Burst) (p : Process) (i : Instruction) :
    Roster S → Prop
  | goesOn (regs) : Ran r c x b p i (r.setCpu c { regs, phase := .bursting b })
  | blocks (regs) {n} (hblock : i = .block n) :
      Ran r c x b p i (r.blocked c { x with regs } b p (r.clock.now + n))
  | ends (regs) : Ran r c x b p i (r.ended c { x with regs } b p)

/-- What a CPU does to the roster on its turn, without the ways in which it stops the machine. -/
inductive Move (r : Roster S) (c : Nat) (x : Cpu) : Roster S → Prop
  | idles (hphase : x.phase = .asking)
      (hnone : ((Scheduler.schedule c).run r.scheduler).answer = .ok none) :
      Move r c x ((r.told (Scheduler.schedule c)).park c none)
  | dispatches {pid p} (hphase : x.phase = .asking)
      (hsome : ((Scheduler.schedule c).run r.scheduler).answer = .ok (some pid))
      (hp : r.processes[pid]? = some p) (hready : p.status = .ready) :
      Move r c x ((r.told (Scheduler.schedule c)).dispatched c p pid)
  | expires {b p} (hphase : x.phase = .bursting b) (hp : r.processes[b.pid]? = some p)
      (hquantum : p.quantum ≤ b.ticks) :
      Move r c x (r.expired c x b p)
  | spends {b p i k l} (hphase : x.phase = .bursting b) (hp : r.processes[b.pid]? = some p)
      (hquantum : b.ticks < p.quantum) :
      Move r c x (((r.setProcess b.pid (p.faulted k l)).setCpu c
        { x with phase := .spending b i }).park c (some (r.clock.now + 1)))
  /-- An access of the next instruction was a violation. -/
  | strays {b p k l} (hphase : x.phase = .bursting b) (hp : r.processes[b.pid]? = some p)
      (hquantum : b.ticks < p.quantum) :
      Move r c x (r.ended c x b (p.faulted k l))
  | goesOn {b i p regs k l} (hphase : x.phase = .spending b i)
      (hp : r.processes[b.pid]? = some p) :
      Move r c x ((r.setProcess b.pid (p.spent.faulted k l)).setCpu c
        { regs, phase := .bursting { b with ticks := b.ticks + 1 } })
  | blocks {b i p regs k l n} (hphase : x.phase = .spending b i)
      (hp : r.processes[b.pid]? = some p) (hblock : i.instruction = .block n) :
      Move r c x (r.blocked c { x with regs } { b with ticks := b.ticks + 1 } (p.spent.faulted k l)
        (r.clock.now + n))
  | ends {b i p regs k l} (hphase : x.phase = .spending b i)
      (hp : r.processes[b.pid]? = some p) :
      Move r c x (r.ended c { x with regs } { b with ticks := b.ticks + 1 }
        (p.spent.faulted k l))

inductive Wake (g : Geometry) (r : Roster S) (pid : ProcessId) : Roster S → Prop
  | unblocks {p} (hp : r.processes[pid]? = some p) (hstarted : p.isStarted = true) :
      Wake g r pid ((r.setProcess pid { p with status := .ready }).told (Scheduler.unblocked pid))
  | starts {p} (hp : r.processes[pid]? = some p) (hnot : p.isStarted = false) :
      Wake g r pid ((r.setProcess pid (p.started g r.clock.now)).told (Scheduler.started pid))
  | refuses {p} (hp : r.processes[pid]? = some p) (hnot : p.isStarted = false) :
      Wake g r pid { r.setProcess pid (p.exited r.clock.now) with live := r.live - 1 }

inductive Woken (g : Geometry) : Roster S → List Waiter → Roster S → Prop
  | done (r) : Woken g r [] r
  | cpu {r s due} (c : Nat) (hrest : Woken g r due s) : Woken g r (.cpu c :: due) s
  | process {r s t due pid} (hwake : Wake g r pid s) (hrest : Woken g s due t) :
      Woken g r (.process pid :: due) t

inductive Advance (g : Geometry) (r : Roster S) : Roster S → Prop
  | finishes (hlive : r.live = 0) : Advance g r { r with status := .finished }
  | moves {tick due rest s} (hlive : r.live ≠ 0)
      (hpop : r.queue.pop? = some ((tick, due), rest)) (htick : r.clock.now ≤ tick)
      (hwoken : Woken g { r with queue := rest, clock := ⟨tick⟩ } due s) :
      Advance g r (s.release due)

/-- A failure of a CPU on its turn: it is not ready only if the policy picked such a process. -/
def Misled (r : Roster S) (c : Nat) : Failure RunError → Prop
  | .error (.notReady ..) => ∃ pid p,
      ((Scheduler.schedule c).run r.scheduler).answer = .ok (some pid) ∧
        r.processes[pid]? = some p ∧ p.status ≠ .ready
  | .error (.stalled ..) => False
  | .error (.timeWarp ..) => False
  | _ => True

/-- A failure of the clock: it is stalled only if somebody is alive and nobody waits, and warped
only if somebody waits for a time that has passed. -/
def Stuck (r : Roster S) : Failure RunError → Prop
  | .error (.notReady ..) => False
  | .error (.stalled ..) => r.live ≠ 0 ∧ r.queue.pop? = none
  | .error (.timeWarp ..) => ∃ tick due rest,
      r.queue.pop? = some ((tick, due), rest) ∧ tick < r.clock.now
  | _ => True

inductive Step (g : Geometry) (r : Roster S) : Roster S → Prop
  | rests (hrest : r.status = .running → r.turns = [] ∧ r.parked ≠ r.cpus.size) : Step g r r
  | turns {c x s} (hrun : r.status = .running) (hhead : r.turns.head? = some c)
      (hx : r.cpus[c]? = some x) (hmove : r.Move c x s) : Step g r s
  | advances {s} (hrun : r.status = .running) (hturns : r.turns = [])
      (hparked : r.parked = r.cpus.size) (hadvance : r.Advance g s) : Step g r s
  | stops {c s e} (hrun : r.status = .running) (hhead : r.turns.head? = some c)
      (he : r.Misled c (.error e)) (hs : s.status = .aborted e) : Step g r s
  | sticks {s e} (hrun : r.status = .running) (hturns : r.turns = [])
      (hparked : r.parked = r.cpus.size) (he : r.Stuck (.error e)) (hs : s.status = .aborted e) :
      Step g r s

/-- Processes are where their numbers say, and the process on a CPU is one of them. -/
structure Manned (r : Roster S) : Prop where
  named : ∀ (pid : ProcessId) p, r.processes[pid]? = some p → p.pid = pid
  current : ∀ (c : Nat) x pid, r.cpus[c]? = some x → x.current? = some pid →
    (r.processes[pid]?).isSome

/-! Faults and executed instructions leave the same roster wherever the process and the CPU had been
changed before. -/

variable {r : Roster S} {c : Nat} {x : Cpu} {b : Burst} {p : Process}

theorem blocked_setCpu (r : Roster S) (c : Nat) (x y : Cpu) (b : Burst) (p : Process)
    (tick : Nat) : (r.setCpu c y).blocked c x b p tick = r.blocked c x b p tick := by
  rw [blocked, blocked, off_setCpu]
  rfl

theorem ended_setCpu (r : Roster S) (c : Nat) (x y : Cpu) (b : Burst) (p : Process) :
    (r.setCpu c y).ended c x b p = r.ended c x b p := by
  rw [ended, ended, off_setCpu]
  rfl

theorem blocked_setProcess (r : Roster S) (c : Nat) (x : Cpu) (b : Burst) (p q : Process)
    (tick : Nat) : (r.setProcess b.pid p).blocked c x b q tick = r.blocked c x b q tick := by
  rw [blocked, blocked, off, setProcess_setProcess]
  rfl

theorem ended_setProcess (r : Roster S) (c : Nat) (x : Cpu) (b : Burst) (p q : Process) :
    (r.setProcess b.pid p).ended c x b q = r.ended c x b q := by
  rw [ended, ended, off, setProcess_setProcess]
  rfl

theorem Faulted.none (hp : r.processes[b.pid]? = some p) (c : Nat) (x : Cpu) :
    Faulted r c x b p false r := by
  have hstays := Faulted.stays (r := r) (c := c) (x := x) (b := b) (p := p) 0 0
  rwa [Process.faulted_zero, setProcess_self hp] at hstays

theorem Faulted.after {s : Roster S} {k l : Nat} {gone : Bool}
    (h : Faulted (r.setProcess b.pid (p.faulted k l)) c x b (p.faulted k l) gone s) :
    Faulted r c x b p gone s := by
  cases h with
  | stays k' l' =>
    rw [setProcess_setProcess, Process.faulted_faulted]
    exact .stays _ _
  | ends k' l' =>
    rw [ended_setProcess, Process.faulted_faulted]
    exact .ends _ _

theorem Ran.after {s : Roster S} {i : Instruction} {regs : Registers}
    (h : Ran (r.setCpu c { x with regs }) c { x with regs } b p i s) :
    Ran r c x b p i s := by
  cases h with
  | goesOn regs' =>
    rw [setCpu_setCpu]
    exact .goesOn regs'
  | blocks regs' hblock =>
    rw [blocked_setCpu]
    exact .blocks regs' hblock
  | ends regs' =>
    rw [ended_setCpu]
    exact .ends regs'

theorem Ran.move {s : Roster S} {i : InFlight} {k l : Nat}
    (hphase : x.phase = .spending b i) (hp : r.processes[b.pid]? = some p)
    (h : Ran (r.setProcess b.pid (p.spent.faulted k l)) c x { b with ticks := b.ticks + 1 }
      (p.spent.faulted k l) i.instruction s) : r.Move c x s := by
  cases h with
  | goesOn regs => exact .goesOn hphase hp
  | blocks regs hblock =>
    rw [blocked_setProcess (b := { b with ticks := b.ticks + 1 })]
    exact .blocks hphase hp hblock
  | ends regs =>
    rw [ended_setProcess (b := { b with ticks := b.ticks + 1 })]
    exact .ends hphase hp

/-! No move stops a run. -/

variable {g : Geometry} {s : Roster S} {due : List Waiter}

theorem Move.status (h : r.Move c x s) : s.status = r.status := by
  cases h with
  | idles hphase hnone => rfl
  | dispatches hphase hsome hp hready => rfl
  | expires hphase hp hquantum => rfl
  | spends hphase hp hquantum => rfl
  | strays hphase hp hquantum => rfl
  | goesOn hphase hp => rfl
  | blocks hphase hp hblock => rfl
  | ends hphase hp => rfl

theorem Move.idle (h : r.Move c x s) : s.idle = r.idle ∨
    x.phase = .asking ∧ s.idle = r.idle ++ [c] ∧ s.cpus = r.cpus := by
  cases h with
  | idles hphase hnone => exact .inr ⟨hphase, rfl, rfl⟩
  | dispatches hphase hsome hp hready => exact .inl rfl
  | expires hphase hp hquantum => exact .inl rfl
  | spends hphase hp hquantum => exact .inl rfl
  | strays hphase hp hquantum => exact .inl rfl
  | goesOn hphase hp => exact .inl rfl
  | blocks hphase hp hblock => exact .inl rfl
  | ends hphase hp => exact .inl rfl

theorem Woken.status (h : Woken g r due s) : s.status = r.status := by
  induction h with
  | done => rfl
  | cpu c hrest ih => exact ih
  | process hwake hrest ih => cases hwake <;> exact ih

theorem Advance.status_ne (h : r.Advance g s) (hok : ∀ e, r.status ≠ .aborted e) :
    ∀ e, s.status ≠ .aborted e := by
  cases h with
  | finishes hlive => exact nofun
  | moves hlive hpop htick hwoken => exact fun e he => hok e (hwoken.status.symm.trans he)

end Roster

end DemandPaging
