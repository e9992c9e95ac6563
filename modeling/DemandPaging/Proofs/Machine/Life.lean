import DemandPaging.Proofs.Machine.Moved
import DemandPaging.Proofs.Machine.Transparency
/-!
Where the processes of a machine stand: pending, ready, on a CPU, blocked or gone. The status of a
process, the process that a CPU holds, the waiters in the queue and the number of live processes
are kept in different places and change in different actions. Under every policy they agree.
-/

namespace DemandPaging

open Function (update)

structure Life where
  name : ProcessId → Option ProcessName
  status : ProcessId → Option ProcessStatus
  on : Nat → Option ProcessId
  waiting : ProcessId → Nat
  alive : Nat
  live : Nat

namespace Life

variable {l l' : Life}

structure Sound (l : Life) : Prop where
  named : ∀ pid n, l.name pid = some n → n.pid = pid
  running : ∀ pid c, l.status pid = some (.running c) ↔ l.on c = some pid
  waiting : ∀ pid, l.waiting pid =
    if l.status pid = some .pending ∨ l.status pid = some .blocked then 1 else 0
  live : l.live = l.alive

inductive Shift (l : Life) : Life → Prop
  | stays : Shift l l
  | enters {pid c} (hready : l.status pid = some .ready) (hfree : l.on c = none) :
      Shift l { l with
        status := update l.status pid (some (.running c))
        on := update l.on c (some pid) }
  | leaves {pid c} (st : ProcessStatus) (hon : l.on c = some pid)
      (hst : st = .ready ∨ st = .blocked ∨ st = .exited) :
      Shift l { l with
        status := update l.status pid (some st)
        on := update l.on c none
        waiting := update l.waiting pid (l.waiting pid + if st = .blocked then 1 else 0)
        alive := l.alive - if st = .exited then 1 else 0
        live := l.live - if st = .exited then 1 else 0 }
  | wakes {pid} (st : ProcessStatus) (hwaits : l.waiting pid ≠ 0)
      (hst : st = .ready ∨ st = .exited) :
      Shift l { l with
        status := update l.status pid (some st)
        waiting := update l.waiting pid (l.waiting pid - 1)
        alive := l.alive - if st = .exited then 1 else 0
        live := l.live - if st = .exited then 1 else 0 }

theorem Sound.of_on (hl : l.Sound) {c : Nat} {pid : ProcessId} (h : l.on c = some pid) :
    l.status pid = some (.running c) := (hl.running pid c).mpr h

theorem Sound.of_waiting (hl : l.Sound) {pid : ProcessId} (h : l.waiting pid ≠ 0) :
    l.waiting pid = 1 ∧ (l.status pid = some .pending ∨ l.status pid = some .blocked) := by
  rw [hl.waiting] at h ⊢
  split at h
  · next hst => exact ⟨if_pos hst, hst⟩
  · exact absurd rfl h

theorem Shift.sound (h : l.Shift l') (hl : l.Sound) : l'.Sound := by
  cases h with
  | stays => exact hl
  | @enters pid c hready hfree =>
    refine ⟨hl.named, fun q i => ?_, fun q => ?_, hl.live⟩
    · have hq := hl.running q i
      simp only [Function.update_apply]
      grind
    · have hq := hl.waiting q
      simp only [Function.update_apply]
      grind
  | @leaves pid c st hon hst =>
    have hrun := hl.of_on hon
    refine ⟨hl.named, fun q i => ?_, fun q => ?_, congrArg (· - _) hl.live⟩
    · have hq := hl.running q i
      simp only [Function.update_apply]
      grind
    · have hq := hl.waiting q
      simp only [Function.update_apply]
      grind
  | @wakes pid st hwaits hst =>
    obtain ⟨hone, hwas⟩ := hl.of_waiting hwaits
    refine ⟨hl.named, fun q i => ?_, fun q => ?_, congrArg (· - _) hl.live⟩
    · have hq := hl.running q i
      simp only [Function.update_apply]
      grind
    · have hq := hl.waiting q
      simp only [Function.update_apply]
      grind

end Life

namespace Roster

variable {S : Type} {r s : Roster S} {due : List Waiter} {pid : ProcessId} {p q : Process}
  {c : Nat} {x y : Cpu}

/-- Where processes stand while these waiters have left the queue and are still to be served. -/
def life (r : Roster S) (due : List Waiter) : Life where
  name pid := r.processes[pid]?.map Process.id
  status pid := r.processes[pid]?.map Process.status
  on c := r.cpus[c]?.bind Cpu.current?
  waiting pid := r.queue.count (.process pid) + due.count (.process pid)
  alive := r.processes.countP fun p => p.status ≠ .exited
  live := r.live

theorem countP_setProcess (hp : r.processes[pid]? = some p) (hlive : p.status ≠ .exited)
    (q : Process) : ((r.setProcess pid q).processes.countP fun p => p.status ≠ .exited) =
      (r.processes.countP fun p => p.status ≠ .exited) - if q.status = .exited then 1 else 0 := by
  obtain ⟨hlt, hget⟩ := Array.getElem?_eq_some_iff.mp hp
  have hpos : 0 < r.processes.countP fun p => p.status ≠ .exited :=
    Array.countP_pos_iff.mpr ⟨p, Array.mem_of_getElem? hp, by simpa using hlive⟩
  rw [setProcess, Array.setIfInBounds_def, dif_pos hlt, Array.countP_set, hget]
  by_cases hq : q.status = .exited
  · simp [hlive, hq]
  · simpa [hlive, hq] using Nat.sub_add_cancel hpos

theorem status_setProcess (hp : r.processes[pid]? = some p) (q : Process) :
    ((r.setProcess pid q).life due).status =
      update (r.life due).status pid (some q.status) := by
  funext i
  change (r.setProcess pid q).processes[i]?.map Process.status = _
  rw [getElem?_setProcess hp, Function.update_apply]
  split
  · next h => rw [if_pos h.symm, Option.map_some]
  · next h => rw [if_neg (Ne.symm h)]; rfl

theorem life_setProcess (hp : r.processes[pid]? = some p) (hlive : p.status ≠ .exited)
    (q : Process) (hq : q.id = p.id) :
    (r.setProcess pid q).life due = { r.life due with
      status := update (r.life due).status pid (some q.status)
      alive := (r.life due).alive - if q.status = .exited then 1 else 0 } := by
  have hname : (fun i => (r.setProcess pid q).processes[i]?.map Process.id) =
      fun i : ProcessId => r.processes[i]?.map Process.id := by
    funext i
    rw [getElem?_setProcess hp]
    split
    · next h => rw [← h, hp, Option.map_some, Option.map_some, hq]
    · rfl
  rw [← status_setProcess hp, life, hname, countP_setProcess hp hlive]
  rfl

theorem life_setCpu (hx : r.cpus[c]? = some x) (y : Cpu) :
    (r.setCpu c y).life due = { r.life due with on := update (r.life due).on c y.current? } := by
  have hon : (fun i => (r.setCpu c y).cpus[i]?.bind Cpu.current?) =
      update (fun i : Nat => r.cpus[i]?.bind Cpu.current?) c y.current? := by
    funext i
    rw [getElem?_setCpu hx, Function.update_apply]
    split
    · next h => rw [if_pos h.symm, Option.bind_some]
    · next h => rw [if_neg (Ne.symm h)]
  rw [life, hon]
  rfl

theorem life_park (r : Roster S) (c : Nat) (wake : Option Nat) :
    (r.park c wake).life due = r.life due := by
  cases wake with
  | none => rfl
  | some tick =>
    have hwaiting : (fun pid => (r.park c (some tick)).queue.count (.process pid) +
        due.count (.process pid)) = (r.life due).waiting := by
      funext pid
      change (r.queue.schedule tick (.cpu c)).count (.process pid) + _ = _
      rw [EventQueue.count_schedule]
      rfl
    rw [life, hwaiting]
    rfl

theorem status_life (hp : r.processes[pid]? = some p) :
    (r.life due).status pid = some p.status := congrArg (Option.map Process.status) hp

theorem on_life (hx : r.cpus[c]? = some x) : (r.life due).on c = x.current? :=
  congrArg (Option.bind · Cpu.current?) hx

theorem life_setProcess_of_status_eq (hp : r.processes[pid]? = some p)
    (hlive : p.status ≠ .exited) (q : Process) (hq : q.id = p.id) (hstatus : q.status = p.status) :
    (r.setProcess pid q).life due = r.life due := by
  have hsame : update (r.life due).status pid (some q.status) = (r.life due).status := by
    rw [Function.update_eq_self_iff, hstatus, status_life hp]
  rw [life_setProcess hp hlive q hq, hsame, if_neg (hstatus ▸ hlive), Nat.sub_zero]

theorem life_setCpu_of_current?_eq (hx : r.cpus[c]? = some x) (hy : y.current? = x.current?) :
    (r.setCpu c y).life due = r.life due := by
  have hsame : update (r.life due).on c y.current? = (r.life due).on := by
    rw [Function.update_eq_self_iff, hy, on_life hx]
  rw [life_setCpu hx, hsame]

theorem status_running (hl : (r.life due).Sound) (hx : r.cpus[c]? = some x)
    (hcur : x.current? = some pid) (hp : r.processes[pid]? = some p) : p.status = .running c := by
  have hrun := hl.of_on ((on_life hx).trans hcur)
  rw [status_life hp] at hrun
  exact Option.some.inj hrun

theorem manned (hl : (r.life due).Sound) : r.Manned := by
  refine ⟨fun pid p hp => hl.named pid p.id (congrArg (Option.map Process.id) hp), ?_⟩
  intro c x pid hx hcur
  have hrun := hl.of_on ((on_life hx).trans hcur)
  exact Option.isSome_map.symm.trans (congrArg Option.isSome hrun)

/-! A turn of a CPU. -/

variable {b : Burst}

theorem shift_off (hl : (r.life due).Sound) (hx : r.cpus[c]? = some x)
    (hcur : x.current? = some b.pid) (hp : r.processes[b.pid]? = some p) (q : Process)
    (hq : q.id = p.id) (hst : q.status = .ready ∨ q.status = .blocked ∨ q.status = .exited)
    (hs : s.life due = { (r.off c y b q).life due with
      waiting := update (r.life due).waiting b.pid
        ((r.life due).waiting b.pid + if q.status = .blocked then 1 else 0)
      live := (r.life due).live - if q.status = .exited then 1 else 0 }) :
    (r.life due).Shift (s.life due) := by
  have hlive : p.status ≠ .exited := by
    rw [status_running hl hx hcur hp]
    nofun
  have hx' : (r.setProcess b.pid q).cpus[c]? = some x := hx
  rw [hs, off, life_setCpu hx', life_setProcess hp hlive q hq]
  exact .leaves q.status ((on_life hx).trans hcur) hst

variable [Scheduler S]

theorem shift_ended (hl : (r.life due).Sound) (hx : r.cpus[c]? = some x)
    (hcur : x.current? = some b.pid) (hp : r.processes[b.pid]? = some p) (q : Process)
    (hq : q.id = p.id) : (r.life due).Shift ((r.ended c y b q).life due) := by
  refine shift_off hl hx hcur hp ((q.undispatched y.regs b.ticks).exited r.clock.now) hq
    (.inr (.inr rfl)) (y := y) ?_
  have hsame : update (r.life due).waiting b.pid ((r.life due).waiting b.pid + 0) =
    (r.life due).waiting := Function.update_eq_self _ _
  simp only [Process.exited, reduceCtorEq, if_false, if_true, hsame]
  rfl

theorem shift_expired (hl : (r.life due).Sound) (hx : r.cpus[c]? = some x)
    (hcur : x.current? = some b.pid) (hp : r.processes[b.pid]? = some p) :
    (r.life due).Shift ((r.expired c x b p).life due) := by
  refine shift_off hl hx hcur hp { p.undispatched x.regs b.ticks with status := .ready } rfl
    (.inl rfl) (y := x) ?_
  have hsame : update (r.life due).waiting b.pid ((r.life due).waiting b.pid + 0) =
    (r.life due).waiting := Function.update_eq_self _ _
  simp only [reduceCtorEq, if_false, hsame]
  rfl

theorem shift_blocked (hl : (r.life due).Sound) (hx : r.cpus[c]? = some x)
    (hcur : x.current? = some b.pid) (hp : r.processes[b.pid]? = some p) (q : Process)
    (hq : q.id = p.id) (tick : Nat) :
    (r.life due).Shift ((r.blocked c y b q tick).life due) := by
  refine shift_off hl hx hcur hp { q.undispatched y.regs b.ticks with status := .blocked } hq
    (.inr (.inl rfl)) (y := y) ?_
  have hmore : (fun pid => (r.queue.schedule tick (.process b.pid)).count (.process pid) +
      due.count (.process pid)) =
        update (r.life due).waiting b.pid ((r.life due).waiting b.pid + 1) := by
    funext pid
    change _ = update (fun i : ProcessId => r.queue.count (.process i) + due.count (.process i))
      b.pid _ pid
    rw [EventQueue.count_schedule_process, Function.update_apply]
    split
    · next h =>
      rw [h]
      exact Nat.add_right_comm ..
    · rfl
  simp only [reduceCtorEq, if_false, if_true]
  rw [← hmore]
  rfl

theorem Move.shift (hl : (r.life due).Sound) (hx : r.cpus[c]? = some x) (h : r.Move c x s) :
    (r.life due).Shift (s.life due) := by
  cases h with
  | idles hphase hnone =>
    rw [life_park]
    exact .stays
  | @dispatches pid p hphase hsome hp hready =>
    have hx' : (r.setProcess pid (p.dispatched c)).cpus[c]? = some x := hx
    have hlife : ((r.told (Scheduler.schedule c)).dispatched c p pid).life due =
        (r.dispatched c p pid).life due := rfl
    rw [hlife, dispatched, life_setCpu hx',
      life_setProcess hp (by simp [hready]) (p.dispatched c) rfl]
    exact .enters ((status_life hp).trans (congrArg some hready))
      ((on_life hx).trans (Cpu.current?_of_asking hphase))
  | expires hphase hp hquantum => exact shift_expired hl hx (Cpu.current?_of_bursting hphase) hp
  | @spends b p i k l hphase hp hquantum =>
    have hcur := Cpu.current?_of_bursting hphase
    have hrun := status_running hl hx hcur hp
    have hx' : (r.setProcess b.pid (p.faulted k l)).cpus[c]? = some x := hx
    rw [life_park, life_setCpu_of_current?_eq hx' (by rw [hcur, Cpu.current?]),
      life_setProcess_of_status_eq hp (by simp [hrun]) (p.faulted k l) rfl rfl]
    exact .stays
  | @strays b p k l hphase hp hquantum =>
    exact shift_ended hl hx (Cpu.current?_of_bursting hphase) hp (p.faulted k l) rfl
  | @goesOn b i p regs k l hphase hp =>
    have hcur := Cpu.current?_of_spending hphase
    have hrun := status_running hl hx hcur hp
    have hx' : (r.setProcess b.pid (p.spent.faulted k l)).cpus[c]? = some x := hx
    rw [life_setCpu_of_current?_eq hx' (by rw [hcur, Cpu.current?]),
      life_setProcess_of_status_eq hp (by simp [hrun]) (p.spent.faulted k l) rfl rfl]
    exact .stays
  | @blocks b i p regs k l n hphase hp =>
    have hcur := Cpu.current?_of_spending hphase
    exact shift_blocked (b := { b with ticks := b.ticks + 1 }) hl hx hcur hp
      (p.spent.faulted k l) rfl _
  | @ends b i p regs k l hphase hp =>
    have hcur := Cpu.current?_of_spending hphase
    exact shift_ended (b := { b with ticks := b.ticks + 1 }) hl hx hcur hp
      (p.spent.faulted k l) rfl

theorem Move.on_of_ne (hx : r.cpus[c]? = some x) (h : r.Move c x s) {i : Nat} (hi : i ≠ c) :
    (s.life []).on i = (r.life []).on i := by
  have hset (y : Cpu) : ((r.setCpu c y).life []).on i = (r.life []).on i := by
    rw [life_setCpu hx]
    exact Function.update_of_ne hi _ _
  cases h with
  | idles hphase hnone => rfl
  | @dispatches pid p hphase hsome hp hready =>
    exact hset { regs := p.saved, phase := .bursting { pid } }
  | expires hphase hp hquantum => exact hset { x with phase := .asking }
  | @spends b p f k l hphase hp hquantum => exact hset { x with phase := .spending b f }
  | strays hphase hp hquantum => exact hset { x with phase := .asking }
  | @goesOn b f p regs k l hphase hp =>
    exact hset { regs, phase := .bursting { b with ticks := b.ticks + 1 } }
  | @blocks b f p regs k l n hphase hp => exact hset { regs, phase := .asking }
  | @ends b f p regs k l hphase hp => exact hset { regs, phase := .asking }

/-! The clock. -/

variable {g : Geometry}

omit [Scheduler S] in
theorem life_cons_cpu (r : Roster S) (c : Nat) (due : List Waiter) :
    r.life (.cpu c :: due) = r.life due := by
  simp [life]

omit [Scheduler S] in
theorem waiting_served (r : Roster S) (pid : ProcessId) (due : List Waiter) :
    (r.life due).waiting = update (r.life (.process pid :: due)).waiting pid
      ((r.life (.process pid :: due)).waiting pid - 1) := by
  funext i
  rw [Function.update_apply]
  change r.queue.count (.process i) + due.count (.process i) = _
  split
  · next h =>
    subst h
    change _ = r.queue.count (.process i) + (Waiter.process i :: due).count (.process i) - 1
    rw [List.count_cons_self]
    rfl
  · next h =>
    change _ = r.queue.count (.process i) + (Waiter.process pid :: due).count (.process i)
    rw [List.count_cons_of_ne fun heq => h (Waiter.process.inj heq).symm]

omit [Scheduler S] in
theorem waiting_cons_ne_zero (r : Roster S) (pid : ProcessId) (due : List Waiter) :
    (r.life (.process pid :: due)).waiting pid ≠ 0 := by
  change r.queue.count (.process pid) + (Waiter.process pid :: due).count (.process pid) ≠ 0
  rw [List.count_cons_self]
  omega

omit [Scheduler S] in
theorem shift_woken (hl : (r.life (.process pid :: due)).Sound) (hp : r.processes[pid]? = some p)
    (q : Process) (hq : q.id = p.id) (hst : q.status = .ready ∨ q.status = .exited)
    (hs : s.life due = { (r.setProcess pid q).life due with
      live := (r.life due).live - if q.status = .exited then 1 else 0 }) :
    (r.life (.process pid :: due)).Shift (s.life due) := by
  have hwaits := waiting_cons_ne_zero r pid due
  have hlive : p.status ≠ .exited := by
    have hwas := (hl.of_waiting hwaits).2
    rw [status_life hp] at hwas
    rintro hexited
    simp [hexited] at hwas
  rw [hs, life_setProcess hp hlive q hq]
  have hwakes := Life.Shift.wakes q.status hwaits hst
  rwa [← waiting_served] at hwakes

theorem Wake.shift (hl : (r.life (.process pid :: due)).Sound) (h : r.Wake g pid s) :
    (r.life (.process pid :: due)).Shift (s.life due) := by
  cases h with
  | @unblocks p hp hstarted =>
    exact shift_woken hl hp { p with status := .ready } rfl (.inl rfl) rfl
  | @starts p hp hnot => exact shift_woken hl hp (p.started g r.clock.now) rfl (.inl rfl) rfl
  | @refuses p hp hnot => exact shift_woken hl hp (p.exited r.clock.now) rfl (.inr rfl) rfl

theorem Woken.sound (h : Woken g r due s) (hl : (r.life due).Sound) : (s.life []).Sound := by
  induction h with
  | done => exact hl
  | cpu c hrest ih => exact ih (life_cons_cpu _ c _ ▸ hl)
  | process hwake hrest ih => exact ih ((hwake.shift hl).sound hl)

omit [Scheduler S] in
theorem life_of_pop? {tick : Nat} {rest : EventQueue Waiter}
    (hpop : r.queue.pop? = some ((tick, due), rest)) (clock : VirtualClock) :
    ({ r with queue := rest, clock } : Roster S).life due = r.life [] := by
  have hwaiting : (fun pid => rest.count (.process pid) + due.count (.process pid)) =
      (r.life []).waiting := by
    funext pid
    change _ = r.queue.count (.process pid) + 0
    rw [EventQueue.count_of_pop? hpop, Nat.add_comm]
    rfl
  rw [life, hwaiting]
  rfl

theorem Advance.sound (h : r.Advance g s) (hl : (r.life []).Sound) : (s.life []).Sound := by
  cases h with
  | finishes hlive => exact hl
  | moves hlive hpop htick hwoken => exact hwoken.sound ((life_of_pop? hpop _).symm ▸ hl)

theorem Step.sound (h : r.Step g s) (hl : (r.life []).Sound)
    (hok : ∀ e, s.status ≠ .aborted e) : (s.life []).Sound := by
  cases h with
  | rests hrest => exact hl
  | turns hrun hhead hx hmove => exact (hmove.shift hl hx).sound hl
  | advances hrun hturns hparked hadvance => exact hadvance.sound hl
  | stops hrun hhead he hs => exact absurd hs (hok _)
  | sticks hrun hturns hparked he hs => exact absurd hs (hok _)

end Roster

namespace Machine

variable {g : Geometry} {S : Type}

theorem sound_life_new (cpus : Nat) (useTlb : Bool) (policy : S) (specs : List ProcessSpec) :
    ((new g cpus useTlb policy specs).roster.life []).Sound := by
  have hstatus (pid : ProcessId) : ((new g cpus useTlb policy specs).roster.life []).status pid =
      if pid < specs.length then some .pending else none := by
    change (new g cpus useTlb policy specs).processes[pid]?.map Process.status = _
    rw [getElem?_processes_new, Option.map_map]
    split
    · next hlt => rw [List.getElem?_eq_getElem hlt]; rfl
    · next hge => rw [List.getElem?_eq_none (Nat.le_of_not_lt hge)]; rfl
  have hon (c : Nat) : ((new g cpus useTlb policy specs).roster.life []).on c = none := by
    change (new g cpus useTlb policy specs).cpus[c]?.bind Cpu.current? = none
    cases hx : (new g cpus useTlb policy specs).cpus[c]? with
    | none => rfl
    | some x =>
      obtain rfl := cpus_new hx
      rfl
  refine ⟨fun pid n hn => ?_, fun pid c => ?_, fun pid => ?_, ?_⟩
  · change (new g cpus useTlb policy specs).processes[pid]?.map Process.id = _ at hn
    rw [getElem?_processes_new, Option.map_map] at hn
    obtain ⟨s, -, rfl⟩ := Option.map_eq_some_iff.mp hn
    rfl
  · rw [hstatus, hon]
    split <;> simp
  · rw [hstatus]
    refine (waiting_new (g := g) cpus useTlb policy specs pid).trans ?_
    split <;> simp
  · change specs.length =
      (specs.zipIdx.map fun x => x.1.toProcess x.2).toArray.countP fun p => p.status ≠ .exited
    rw [List.countP_toArray, List.countP_eq_length.mpr, List.length_map, List.length_zipIdx]
    intro p hp
    obtain ⟨x, -, rfl⟩ := List.mem_map.mp hp
    rfl

variable [Scheduler S]

theorem holds_stepN {P : Machine g S → Prop} {m : Machine g S} (hm : P m)
    (hstep : ∀ m : Machine g S, P m → (∀ e, m.step.1.status ≠ .aborted e) → P m.step.1) (n : Nat)
    (hok : ∀ e, (m.stepN n).status ≠ .aborted e) : P (m.stepN n) := by
  induction n with
  | zero => exact hm
  | succ n ih =>
    rw [stepN_succ] at hok ⊢
    refine hstep _ (ih fun e he => hok e ?_) hok
    rw [step_of_not_isRunning (by rw [isRunning, he]; rfl), he]

theorem sound_life_step {m : Machine g S} (hl : (m.roster.life []).Sound)
    (hok : ∀ e, m.step.1.status ≠ .aborted e) : (m.step.1.roster.life []).Sound :=
  (roster_step (Roster.manned hl)).sound hl hok

end Machine

end DemandPaging
