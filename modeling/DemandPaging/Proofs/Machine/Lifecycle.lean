import DemandPaging.Proofs.Machine.Threads
/-!
The life of processes when the first that is ready is served first. The policy lists the ready
processes and no others, and no CPU stays idle while a process is ready: a CPU that makes a process
ready asks for one before it parks. So the policy never picks a process that cannot run, and the
machine never stands still with a process alive.
-/

namespace DemandPaging

open Function (update)

def RunError.IsOther (e : RunError) : Prop :=
  (∀ time cpu pid status, e ≠ .notReady time cpu pid status) ∧
    ∀ time cpus live, e ≠ .stalled time cpus live

structure Listed (ready : List ProcessId) (status : ProcessId → Option ProcessStatus) : Prop where
  nodup : ready.Nodup
  mem_iff : ∀ pid, pid ∈ ready ↔ status pid = some .ready

namespace Listed

variable {ready : List ProcessId} {status : ProcessId → Option ProcessStatus} {pid : ProcessId}
  {st : ProcessStatus}

theorem push (h : Listed ready status) (hwas : status pid ≠ some .ready) :
    Listed (ready ++ [pid]) (update status pid (some .ready)) := by
  have hnot : pid ∉ ready := fun hmem => hwas ((h.mem_iff pid).mp hmem)
  refine ⟨List.nodup_append.mpr ⟨h.nodup, List.nodup_singleton pid, ?_⟩, fun q => ?_⟩
  · rintro q hq _ hq' rfl
    exact hnot (List.mem_singleton.mp hq' ▸ hq)
  · rw [List.mem_append, List.mem_singleton, h.mem_iff, Function.update_apply]
    split
    · next heq => simp [heq]
    · next hne => simp [hne]

theorem pop (h : Listed (pid :: ready) status) (hst : st ≠ .ready) :
    Listed ready (update status pid (some st)) := by
  obtain ⟨hnot, hnodup⟩ := List.nodup_cons.mp h.nodup
  refine ⟨hnodup, fun q => ?_⟩
  have hq := h.mem_iff q
  rw [List.mem_cons] at hq
  rw [Function.update_apply]
  split
  · next heq => simp [heq, hnot, hst]
  · next hne => simpa [hne] using hq

theorem other (h : Listed ready status) (hwas : status pid ≠ some .ready) (hst : st ≠ .ready) :
    Listed ready (update status pid (some st)) := by
  refine ⟨h.nodup, fun q => ?_⟩
  rw [h.mem_iff, Function.update_apply]
  split
  · next heq => simp [heq, hwas, hst]
  · rfl

theorem remove (h : Listed ready status) (hwas : status pid ≠ some .ready) :
    ready.filter (· ≠ pid) = ready := by
  refine List.filter_eq_self.mpr fun q hq => ?_
  have hready := (h.mem_iff q).mp hq
  simp only [decide_eq_true_eq]
  rintro rfl
  exact hwas hready

end Listed

namespace Roster

variable {r s : Roster RoundRobin} {n c : Nat} {x : Cpu} {b : Burst} {p q : Process}
  {pid : ProcessId} {due : List Waiter} {g : Geometry}

def Lists (r : Roster RoundRobin) : Prop := Listed r.scheduler.ready (r.life []).status

theorem lists_of {ready : List ProcessId} {status : ProcessId → Option ProcessStatus}
    (h : Listed ready status) (hready : s.scheduler.ready = ready)
    (hstatus : (s.life []).status = status) : s.Lists := by
  rw [Lists, hready, hstatus]
  exact h

theorem status_off (hp : r.processes[b.pid]? = some p) (c : Nat) (x : Cpu) (q : Process) :
    ((r.off c x b q).life []).status = update (r.life []).status b.pid (some q.status) :=
  status_setProcess hp q

theorem status_setProcess_of_eq (hp : r.processes[pid]? = some p) (q : Process)
    (hq : q.status = p.status) : ((r.setProcess pid q).life []).status = (r.life []).status := by
  rw [status_setProcess hp, Function.update_eq_self_iff, hq, status_life hp]

theorem status_ne_ready (hl : (r.life []).Sound) (hx : r.cpus[c]? = some x)
    (hcur : x.current? = some pid) : (r.life []).status pid ≠ some .ready := by
  rw [hl.of_on ((on_life hx).trans hcur)]
  nofun

theorem lists_ended (hr : r.Lists) (hp : r.processes[b.pid]? = some p)
    (hwas : (r.life []).status b.pid ≠ some .ready) (c : Nat) (x : Cpu) (q : Process) :
    (r.ended c x b q).Lists :=
  lists_of (hr.other hwas (by nofun)) (hr.remove hwas) (status_off hp c x _)

theorem Move.lists (hr : r.Lists) (hl : (r.life []).Sound) (hx : r.cpus[c]? = some x)
    (h : r.Move c x s) : s.Lists := by
  have hcur {b : Burst} (hphase : x.current? = some b.pid) :=
    status_ne_ready hl hx hphase
  cases h with
  | idles hphase hnone =>
    have hready : r.scheduler.ready = [] := List.head?_eq_none_iff.mp (Except.ok.inj hnone)
    refine lists_of hr ?_ rfl
    exact (congrArg List.tail hready).trans hready.symm
  | @dispatches pid p hphase hsome hp hready =>
    obtain ⟨rest, hrest⟩ := List.head?_eq_some_iff.mp (Except.ok.inj hsome)
    have hr' : Listed (pid :: rest) (r.life []).status := hrest ▸ hr
    exact lists_of (hr'.pop (by rintro ⟨⟩)) (congrArg List.tail hrest)
      (status_setProcess hp (p.dispatched c))
  | @expires b p hphase hp hquantum =>
    exact lists_of (hr.push (hcur (Cpu.current?_of_bursting hphase))) rfl (status_off hp c x _)
  | @spends b p i k l hphase hp hquantum =>
    exact lists_of hr rfl (status_setProcess_of_eq hp (p.faulted k l) rfl)
  | @strays b p k l hphase hp hquantum =>
    exact lists_ended hr hp (hcur (Cpu.current?_of_bursting hphase)) c x _
  | @goesOn b i p regs k l hphase hp =>
    exact lists_of hr rfl (status_setProcess_of_eq hp (p.spent.faulted k l) rfl)
  | @blocks b i p regs k l n hphase hp =>
    exact lists_of (hr.other (hcur (Cpu.current?_of_spending hphase)) (by simp)) rfl
      (status_off (b := { b with ticks := b.ticks + 1 }) hp c { x with regs } _)
  | @ends b i p regs k l hphase hp =>
    have hstatus := hcur (Cpu.current?_of_spending hphase)
    exact lists_ended (b := { b with ticks := b.ticks + 1 }) hr hp hstatus c _ _

theorem Wake.lists (hr : r.Lists) (hl : (r.life (.process pid :: due)).Sound)
    (h : r.Wake g pid s) : s.Lists := by
  have hwas : (r.life []).status pid ≠ some .ready := by
    intro hready
    have hwaits := (hl.of_waiting (waiting_cons_ne_zero r pid due)).2
    change (r.life []).status pid = _ ∨ (r.life []).status pid = _ at hwaits
    rw [hready] at hwaits
    simp at hwaits
  cases h with
  | @unblocks p hp hstarted => exact lists_of (hr.push hwas) rfl (status_setProcess hp _)
  | @starts p hp hnot =>
    exact lists_of (hr.push hwas) rfl (status_setProcess hp (p.started g r.clock.now))
  | @refuses p hp hnot =>
    exact lists_of (hr.other hwas (by nofun)) rfl (status_setProcess hp (p.exited r.clock.now))

theorem Woken.lists (h : Woken g r due s) (hr : r.Lists) (hl : (r.life due).Sound) : s.Lists := by
  induction h with
  | done => exact hr
  | cpu c hrest ih => exact ih hr (life_cons_cpu _ c _ ▸ hl)
  | process hwake hrest ih => exact ih (hwake.lists hr hl) ((hwake.shift hl).sound hl)

/-- The CPUs that are idle hold no process, and while there are any nobody is ready, but for a
process that the CPU at the head of the turns is about to take. -/
structure Keen (r : Roster RoundRobin) : Prop where
  resting : ∀ c ∈ r.idle, (r.life []).on c = none
  taken : r.idle ≠ [] → r.scheduler.ready = [] ∨ (∃ pid, r.scheduler.ready = [pid]) ∧
    ∃ c x, r.turns.head? = some c ∧ r.cpus[c]? = some x ∧ x.phase = .asking

theorem Keen.ready_eq_nil (hk : r.Keen) (hhead : r.turns.head? = some c)
    (hx : r.cpus[c]? = some x) (hphase : x.phase ≠ .asking) (hidle : r.idle ≠ []) :
    r.scheduler.ready = [] := by
  rcases hk.taken hidle with hready | ⟨-, d, y, hhead', hy, hasks⟩
  · exact hready
  · rw [hhead] at hhead'
    obtain rfl := Option.some.inj hhead'
    rw [hx] at hy
    obtain rfl := Option.some.inj hy
    exact absurd hasks hphase

theorem Move.resting (hk : r.Keen) (hseated : r.Seated n) (hhead : r.turns.head? = some c)
    (hx : r.cpus[c]? = some x) (h : r.Move c x s) : ∀ i ∈ s.idle, (s.life []).on i = none := by
  have hstays : ∀ i ∈ r.idle, (s.life []).on i = none := by
    intro i hi
    have hne : i ≠ c := fun heq => hseated.not_mem_idle hhead (heq ▸ hi)
    rw [h.on_of_ne hx hne]
    exact hk.resting i hi
  rcases h.idle with hidle | ⟨hphase, hidle, hcpus⟩
  · rw [hidle]
    exact hstays
  · rw [hidle]
    intro i hi
    rcases List.mem_append.mp hi with hi | hi
    · exact hstays i hi
    · obtain rfl := List.mem_singleton.mp hi
      have hx' : s.cpus[i]? = some x := hcpus ▸ hx
      rw [on_life hx', Cpu.current?_of_asking hphase]

theorem Move.keen (hk : r.Keen) (hseated : r.Seated n) (hhead : r.turns.head? = some c)
    (hx : r.cpus[c]? = some x) (h : r.Move c x s) : s.Keen := by
  refine ⟨h.resting hk hseated hhead hx, ?_⟩
  have hnone (hphase : x.phase ≠ .asking) (hidle : r.idle ≠ []) : r.scheduler.ready = [] :=
    hk.ready_eq_nil hhead hx hphase hidle
  cases h with
  | idles hphase hnone =>
    have hready : r.scheduler.ready = [] := List.head?_eq_none_iff.mp (Except.ok.inj hnone)
    exact fun _ => .inl (congrArg List.tail hready)
  | dispatches hphase hsome hp hready =>
    intro hidle
    rcases hk.taken hidle with hready | ⟨⟨pid, hready⟩, -⟩ <;>
      exact .inl (congrArg List.tail hready)
  | @expires b p hphase hp hquantum =>
    intro hidle
    have hready := hnone (by rw [hphase]; nofun) hidle
    have hx' : (r.setProcess b.pid
      { p.undispatched x.regs b.ticks with status := .ready }).cpus[c]? = some x := hx
    exact .inr ⟨⟨b.pid, congrArg (· ++ [b.pid]) hready⟩, c, _, hhead,
      getElem?_setCpu_self hx' _, rfl⟩
  | spends hphase hp hquantum =>
    exact fun hidle => .inl (hnone (by rw [hphase]; nofun) hidle)
  | @strays b p k l hphase hp hquantum =>
    exact fun hidle => .inl
      (congrArg (List.filter (· ≠ b.pid)) (hnone (by rw [hphase]; nofun) hidle))
  | goesOn hphase hp => exact fun hidle => .inl (hnone (by rw [hphase]; nofun) hidle)
  | blocks hphase hp => exact fun hidle => .inl (hnone (by rw [hphase]; nofun) hidle)
  | @ends b i p regs k l hphase hp =>
    exact fun hidle => .inl
      (congrArg (List.filter (· ≠ b.pid)) (hnone (by rw [hphase]; nofun) hidle))

structure Conserved (r : Roster RoundRobin) (n : Nat) : Prop where
  life : (r.life []).Sound
  seated : r.Seated n
  lists : r.Lists
  keen : r.Keen

theorem Advance.conserved (hr : r.Conserved n) (h : r.Advance g s) : s.Conserved n := by
  refine ⟨h.sound hr.life, h.seated hr.seated, ?_, ?_⟩
  · cases h with
    | finishes hlive => exact hr.lists
    | moves hlive hpop htick hwoken =>
      exact hwoken.lists hr.lists ((life_of_pop? hpop _).symm ▸ hr.life)
  · cases h with
    | finishes hlive => exact ⟨hr.keen.resting, hr.keen.taken⟩
    | moves hlive hpop htick hwoken => exact ⟨nofun, fun hidle => absurd rfl hidle⟩

theorem Lists.not_misled (hr : r.Lists) (time cpu : Nat) (pid : ProcessId)
    (status : ProcessStatus) : ¬r.Misled c (.error (.notReady time cpu pid status)) := by
  rintro ⟨pid, p, hpick, hp, hne⟩
  have hmem : pid ∈ r.scheduler.ready := List.mem_of_head? (Except.ok.inj hpick)
  have hready := (hr.mem_iff pid).mp hmem
  rw [status_life hp] at hready
  exact hne (Option.some.inj hready)

theorem Conserved.pop?_ne_none (hr : r.Conserved n) (hn : 0 < n) (hturns : r.turns = [])
    (hlive : r.live ≠ 0) : r.queue.pop? ≠ none := by
  intro hpop
  have hqueue : r.queue.pending = [] := EventQueue.pop?_eq_none.mp hpop
  have hwaiters : r.queue.waiters = [] := by rw [EventQueue.waiters, hqueue, List.flatMap_nil]
  have hidle : r.idle.Perm (List.range n) := by
    have hplaces := hr.seated.places
    rwa [hturns, hwaiters, List.nil_append, Machine.cpusOf, List.filterMap_nil,
      List.append_nil] at hplaces
  have hne : r.idle ≠ [] := by
    intro hnil
    have hlength := hidle.length_eq
    rw [hnil, List.length_range] at hlength
    exact absurd hlength.symm (Nat.pos_iff_ne_zero.mp hn)
  have hpos : 0 < r.processes.countP fun p => p.status ≠ .exited := by
    have hcount : r.live = r.processes.countP fun p => p.status ≠ .exited := hr.life.live
    rw [← hcount]
    exact Nat.pos_of_ne_zero hlive
  obtain ⟨p, hmem, halive⟩ := Array.countP_pos_iff.mp hpos
  obtain ⟨pid, hp⟩ := Array.mem_iff_getElem?.mp hmem
  have hwaiting := hr.life.waiting pid
  have hzero : (r.life []).waiting pid = 0 := by
    change (r.queue.pending.flatMap Prod.snd).count _ + 0 = 0
    rw [hqueue]
    rfl
  have hstatus : (r.life []).status pid = some p.status := status_life hp
  rw [hzero, hstatus] at hwaiting
  cases hst : p.status with
  | pending => simp [hst] at hwaiting
  | blocked => simp [hst] at hwaiting
  | exited => simp [hst] at halive
  | ready =>
    have hready := (hr.lists.mem_iff pid).mpr (hst ▸ hstatus)
    rcases hr.keen.taken hne with hnil | ⟨-, c, x, hhead, -⟩
    · simp [hnil] at hready
    · simp [hturns] at hhead
  | running c =>
    have hon := (hr.life.running pid c).mp (hst ▸ hstatus)
    have hlt : c < n := by
      obtain ⟨x, hx, -⟩ := Option.bind_eq_some_iff.mp hon
      exact hr.seated.size ▸ (Array.getElem?_eq_some_iff.mp hx).1
    have hrest := hr.keen.resting c (hidle.mem_iff.mpr (List.mem_range.mpr hlt))
    rw [hon] at hrest
    simp at hrest

/-- A step keeps all this, and if it stops the run it is not for want of a process to run. -/
theorem Step.conserved (hr : r.Conserved n) (hn : 0 < n) (hok : ∀ e, r.status ≠ .aborted e)
    (h : r.Step g s) : s.Conserved n ∧ (∀ e, s.status ≠ .aborted e) ∨
      ∃ e, s.status = .aborted e ∧ e.IsOther := by
  cases h with
  | rests hrest => exact .inl ⟨hr, hok⟩
  | turns hrun hhead hx hmove =>
    exact .inl ⟨⟨(hmove.shift hr.life hx).sound hr.life, hmove.seated hr.seated hhead,
      hmove.lists hr.lists hr.life hx, hmove.keen hr.keen hr.seated hhead hx⟩,
      fun e => hmove.status ▸ hok e⟩
  | advances hrun hturns hparked hadvance =>
    exact .inl ⟨hadvance.conserved hr, hadvance.status_ne hok⟩
  | stops hrun hhead he hs =>
    refine .inr ⟨_, hs, ?_, ?_⟩
    · rintro time cpu pid status rfl
      exact hr.lists.not_misled time cpu pid status he
    · rintro time cpus live rfl
      exact he
  | sticks hrun hturns hparked he hs =>
    refine .inr ⟨_, hs, ?_, ?_⟩
    · rintro time cpu pid status rfl
      exact he
    · rintro time cpus live rfl
      exact hr.pop?_ne_none hn hturns he.1 he.2

end Roster

namespace Machine

variable {g : Geometry} {m : Machine g RoundRobin}

/-- Status, ready list, queue, CPUs and counter agree on every process, and no CPU stays idle
while a process is ready. -/
structure Conserving (m : Machine g RoundRobin) : Prop where
  ready_nodup : m.scheduler.ready.Nodup
  ready : ∀ pid : ProcessId, pid ∈ m.scheduler.ready ↔
    ∃ p, m.processes[pid]? = some p ∧ p.status = .ready
  running : ∀ (pid : ProcessId) (c : Nat),
    (∃ p, m.processes[pid]? = some p ∧ p.status = .running c) ↔
      ∃ x, m.cpus[c]? = some x ∧ x.current? = some pid
  waiting : ∀ (pid : ProcessId) p, m.processes[pid]? = some p → m.queue.count (.process pid) =
    if p.status = .pending ∨ p.status = .blocked then 1 else 0
  unknown : ∀ pid : ProcessId, m.processes[pid]? = none → m.queue.count (.process pid) = 0
  live : m.live = m.processes.countP fun p => p.status ≠ .exited
  busy : m.parked = m.cpus.size → m.idle ≠ [] → m.scheduler.ready = []

theorem conserving_of_conserved {n : Nat} (hm : m.roster.Conserved n) : m.Conserving := by
  have hstatus (pid : ProcessId) (st : ProcessStatus) : (m.roster.life []).status pid = some st ↔
      ∃ p, m.processes[pid]? = some p ∧ p.status = st := Option.map_eq_some_iff
  refine ⟨hm.lists.nodup, fun pid => (hm.lists.mem_iff pid).trans (hstatus pid .ready),
    fun pid c => ?_, fun pid p hp => ?_, fun pid hp => ?_, hm.life.live, fun hparked hidle => ?_⟩
  · rw [← hstatus]
    exact (hm.life.running pid c).trans Option.bind_eq_some_iff
  · have hwaiting := hm.life.waiting pid
    have hp' : (m.roster.life []).status pid = some p.status := Roster.status_life hp
    rw [hp'] at hwaiting
    simp only [Option.some.injEq] at hwaiting
    exact hwaiting
  · have hwaiting := hm.life.waiting pid
    have hp' : (m.roster.life []).status pid = none := congrArg (Option.map Process.status) hp
    rw [hp'] at hwaiting
    exact hwaiting
  · rcases hm.keen.taken hidle with hready | ⟨-, c, x, hhead, -⟩
    · exact hready
    · have hadd : m.parked + m.turns.length = n := hm.seated.parked_add
      have hsize : m.cpus.size = n := hm.seated.size
      have hturns : m.turns = [] := List.length_eq_zero_iff.mp (by omega)
      change m.turns.head? = some c at hhead
      simp [hturns] at hhead

theorem conserved_new (g : Geometry) {cpus : Nat} (useTlb : Bool) (specs : List ProcessSpec) :
    (new g cpus useTlb ({} : RoundRobin) specs).roster.Conserved cpus := by
  refine ⟨sound_life_new cpus useTlb _ specs, seated_new cpus useTlb _ specs,
    ⟨List.nodup_nil, fun pid => ⟨nofun, fun hready => ?_⟩⟩, ⟨nofun, fun hidle => absurd rfl hidle⟩⟩
  change (new g cpus useTlb ({} : RoundRobin) specs).processes[pid]?.map Process.status = _
    at hready
  rw [getElem?_processes_new, Option.map_map] at hready
  obtain ⟨s, -, hs⟩ := Option.map_eq_some_iff.mp hready
  simp [ProcessSpec.toProcess] at hs

theorem conserved_stepN (g : Geometry) {cpus : Nat} (hcpus : 0 < cpus) (useTlb : Bool)
    (specs : List ProcessSpec) (k : Nat) :
    ((new g cpus useTlb ({} : RoundRobin) specs).stepN k).roster.Conserved cpus ∧
        (∀ e, ((new g cpus useTlb ({} : RoundRobin) specs).stepN k).status ≠ .aborted e) ∨
      ∃ e, ((new g cpus useTlb ({} : RoundRobin) specs).stepN k).status = .aborted e ∧
        e.IsOther := by
  induction k with
  | zero => exact .inl ⟨conserved_new g useTlb specs, nofun⟩
  | succ k ih =>
    rw [stepN_succ]
    rcases ih with ⟨hr, hok⟩ | ⟨e, he, hne⟩
    · exact (roster_step (Roster.manned hr.life)).conserved hr hcpus hok
    · rw [step_of_not_isRunning (by rw [isRunning, he]; rfl)]
      exact .inr ⟨e, he, hne⟩

/-- With at least one CPU and processes served in the order in which they got ready, the places
where the life of a process is recorded agree in every state of a run, and no CPU is idle while a
process is ready. No run ends because the policy picked a process that was not ready or because
all CPUs were parked for ever. -/
theorem work_conserved (c : Config) (hcpus : 0 < c.cpus) :
    (∀ k, (∀ e, ((Simulation.machine c ({} : RoundRobin)).stepN k).status ≠ .aborted e) →
      ((Simulation.machine c ({} : RoundRobin)).stepN k).Conserving) ∧
      ∀ fuel e, Simulation.run fuel c ({} : RoundRobin) = some e →
        (∀ time cpu pid status, e.result ≠ .error (.error (.notReady time cpu pid status))) ∧
          ∀ time cpus live, e.result ≠ .error (.error (.stalled time cpus live)) := by
  have hrun := conserved_stepN c.geometry hcpus c.useTlb c.processes
  refine ⟨fun k hok => ?_, fun fuel e hend => ?_⟩
  · rcases hrun k with ⟨hr, -⟩ | ⟨e, he, -⟩
    · exact conserving_of_conserved hr
    · exact absurd he (hok e)
  · by_cases hroom : Simulation.hasRoom c = true
    · have hresult := Simulation.result_run hroom fuel ({} : RoundRobin)
      rw [hend] at hresult
      obtain ⟨⟨result, closing⟩, hconclude, heq⟩ := Option.map_eq_some_iff.mp hresult.symm
      have hstatus (error : RunError) (he : e.result = .error (.error error)) : error.IsOther := by
        have hst := error_of_conclude hconclude (heq.trans he)
        rcases hrun fuel with ⟨-, hok⟩ | ⟨error', he', hother⟩
        · exact absurd hst (hok error)
        · exact RunStatus.aborted.inj (he'.symm.trans hst) ▸ hother
      exact ⟨fun time cpu pid status he => (hstatus _ he).1 time cpu pid status rfl,
        fun time cpus live he => (hstatus _ he).2 time cpus live rfl⟩
    · rw [Simulation.run, if_neg hroom] at hend
      obtain rfl := Option.some.inj hend
      exact ⟨fun _ _ _ _ => by simp, fun _ _ _ => by simp⟩

theorem work_conserved_pair : 0 < Shared.pair.cpus ∧
    ((Simulation.machine Shared.pair ({} : RoundRobin)).stepN 6).idle = [1] ∧
      ((Simulation.machine Shared.pair ({} : RoundRobin)).stepN 6).Conserving := by
  have hstate : (fun m : Machine Pager.oneFrame RoundRobin => (m.status, m.idle))
      ((Simulation.machine Shared.pair ({} : RoundRobin)).stepN 6) = (.running, [1]) := by
    simp only [stepN_eq_iterate, step, advance, releaseCpus, List.mergeSort_eq_insertionSort]
    decide +kernel
  obtain ⟨hstatus, hidle⟩ := Prod.mk.inj hstate
  exact ⟨by decide, hidle, (work_conserved Shared.pair (by decide)).1 6 fun e he => by
    cases hstatus.symm.trans he⟩

end Machine

end DemandPaging
