import DemandPaging.Proofs.Machine.Moved
import DemandPaging.Proofs.Machine.Surely
import DemandPaging.Proofs.Machine.Transparency
/-!
Fetches from outside the text. Such a process ends, but what is resident decides when: where the
instruction pointer has no frame the fetch is illegal and the process is gone at once; where it has
one the fetch is a hit, the tick is spent, and only then does the process end.
-/

namespace DemandPaging.Machine

open DemandPaging.Action Roster

variable {g : Geometry} {S : Type} {m : Machine g S} {v : View g} {c : Nat} {x : Cpu}
  {b : Burst} {p : Process} {h : History} {t : Task} {mem : FlatMemory g}

/-- A CPU with a process whose instruction pointer lies outside its text has its turn. -/
structure Strays (m : Machine g S) (c : Nat) (x : Cpu) (b : Burst) (p : Process) : Prop where
  running : m.isRunning = true
  head : m.turns.head? = some c
  cpu : m.cpus[c]? = some x
  process : m.processes[b.pid]? = some p
  outside : p.textPages ≤ g.pageOf x.regs.ip

/-- A process has ended with this burst, and no ticks were spent on it but those it had before. -/
def EndsWith (m : Machine g S) (p : Process) (b : Burst) (now : Nat) : Prop :=
  ∃ q, m.processes[b.pid]? = some q ∧ q.status = .exited ∧ q.account.completedAt = some now ∧
    q.account.executedTicks = p.account.executedTicks ∧
    q.account.bursts = p.account.bursts.push b.ticks

theorem Strays.decode (hs : m.Strays c x b p) (hr : v.Runs h c x b.pid p.task mem) :
    ∃ s, Instruction.decode (p.trace.textAt x.regs.ip) = .invalid s := by
  refine Instruction.decode_textAt p.trace (p.trace.size_le_of_outside (g := g) ?_)
  exact hr.textPages ▸ hs.outside

theorem Stands.strays {specs : List ProcessSpec} (hm : m.Stands specs h) (hs : m.Strays c x b p)
    (hcur : x.current? = some b.pid) : ∃ mem, m.view.Runs h c x b.pid p.task mem := by
  have hshows : m.Shows m.view := ⟨hm.sound, rfl⟩
  obtain ⟨t, mem, hr⟩ := hm.inv.runs (hshows.cpu hs.cpu) hcur
  obtain rfl : t = p.task := Option.some.inj (hr.task.symm.trans (hshows.task hs.process))
  exact ⟨mem, hr⟩

/-! The parts of a turn. -/

theorem run_translate (hm : m.Shows v) {pid : ProcessId} (ho : v.owners c = some (some pid))
    (addr : VirtualAddress) :
    ∃ p es, (onPager (Pager.translate c pid addr)).run m =
      ⟨.ok ((m.pager.stateOf ⟨pid, g.pageOf addr⟩).bind PageState.frame?),
        { m with pager := p }, es⟩ := by
  obtain ⟨u, hu, hown⟩ := hm.owner ho
  obtain ⟨p, es, hrun, -⟩ := Pager.run_translate hm.sound hu hown addr
  exact ⟨p, _, run_onPager hrun⟩

theorem run_onExecution_invalid (hx : m.cpus[c]? = some x) (pid : ProcessId) (base : VirtualAddress)
    (data : Option PhysicalAddress) (s : String) :
    (onExecution c (Execution.execute pid base data (.invalid s))).run m =
      ⟨.ok (.signal .invalidInstruction), m, []⟩ := by
  have hcpus : (m.cpus.modify c fun y => { y with regs := x.regs }) = m.cpus := by
    refine Array.ext_getElem? fun j => ?_
    rw [Array.getElem?_modify]
    split
    · next heq => rw [← heq, hx]; rfl
    · rfl
  simp [onExecution, time, run_cpu hx, Execution.execute, hcpus]

theorem Strays.entered (hs : m.Strays c x b p) (hm : m.Shows v) :
    ∃ m' : Machine g S, (changeAccount b.pid fun a =>
        { a with executedTicks := a.executedTicks + 1 }).run m = ⟨.ok (), m', []⟩ ∧
      m'.Shows v ∧ m'.Strays c x { b with ticks := b.ticks + 1 } p.spent ∧ m'.clock = m.clock := by
  have hp : (m.processes.modify b.pid Process.spent)[b.pid]? = some p.spent := by
    rw [Array.getElem?_modify, if_pos rfl, hs.process]
    rfl
  exact ⟨{ m with processes := m.processes.modify b.pid Process.spent }, rfl,
    ((quietly_changeAccount hm b.pid (f := fun a => { a with executedTicks := a.executedTicks + 1 })
      fun _ => rfl).of_ok rfl).2, ⟨hs.running, hs.head, hs.cpu, hp, hs.outside⟩, rfl⟩

variable [Scheduler S] {addr : VirtualAddress} {i : Instruction}

theorem endsWith_of_ended {r : Roster S} {m' : Machine g S} (hp : r.processes[b.pid]? = some p)
    (c : Nat) (x : Cpu) (k l : Nat) (hm' : m'.roster = r.ended c x b (p.faulted k l)) :
    m'.EndsWith p b r.clock.now := by
  refine ⟨((p.faulted k l).undispatched x.regs b.ticks).exited r.clock.now, ?_, rfl, rfl, rfl, rfl⟩
  have hq := getElem?_off_self hp c x
    (((p.faulted k l).undispatched x.regs b.ticks).exited r.clock.now)
  change m'.roster.processes[b.pid]? = _
  rw [hm']
  exact hq

theorem run_fetch_resident (hm : m.Shows v) (hr : v.Runs h c x b.pid t mem) {f : FrameNumber}
    (hst : m.pager.stateOf ⟨b.pid, g.pageOf addr⟩ = some (.resident f)) (access : Access) :
    ∃ q es, (fetch c b addr access).run m = ⟨.ok (.ready f), { m with pager := q }, es⟩ := by
  obtain ⟨q, es, hrun⟩ := run_translate hm hr.owner addr
  rw [PageState.bind_frame?_eq_some_iff.mpr hst] at hrun
  refine ⟨q, es, ?_⟩
  simp [fetch, hrun]

theorem surely_fetch_missing (hexit : HearsExits S) (hm : m.Shows v)
    (hr : v.Runs h c x b.pid t mem) (hp : m.processes[b.pid]? = some p)
    (hmiss : ∀ f, m.pager.stateOf ⟨b.pid, g.pageOf addr⟩ ≠ some (.resident f)) {access : Access}
    (hillegal : access.isIllegal (g.pageOf addr) = true) :
    Surely (fetch c b addr access) m fun f es => f = .terminated ∧
      .invalidAccess access.purpose p.id addr (.illegalFetch (g.pageOf addr)) ∈ es := by
  obtain ⟨q, es, hrun⟩ := run_translate hm hr.owner addr
  have hnone : (m.pager.stateOf ⟨b.pid, g.pageOf addr⟩).bind PageState.frame? = none := by
    refine Option.eq_none_iff_forall_ne_some.mpr fun f hf => ?_
    exact hmiss f (PageState.bind_frame?_eq_some_iff.mp hf)
  have hm₁ := ((quietly_translate hm hr.owner addr).of_ok hrun).2.1
  rw [hnone] at hrun
  refine surely_run_bind hrun ?_
  have hm₂ := ((quietly_changeAccount hm₁ b.pid (f := fun a => countFault a access)
    fun a => by cases access <;> rfl).of_ok rfl).2
  refine surely_run_bind rfl ?_
  have hp₂ : (m.processes.modify b.pid fun p => p.changeAccount fun a => countFault a access)[
      b.pid]? = some (p.changeAccount fun a => countFault a access) := by
    rw [Array.getElem?_modify, if_pos rfl, hp]
    rfl
  refine surely_run_bind (run_process hp₂) ?_
  refine surely_report_bind ?_
  have hfault (q : Pager g) : (Pager.handleFault b.pid addr access).run q =
      ⟨.ok (.violation (.illegalFetch (g.pageOf addr))), q,
        [.illegalFetch b.pid addr (g.pageOf addr)]⟩ := by
    simp [Pager.handleFault, hillegal]
  refine surely_run_bind (run_onPager (hfault _)) ?_
  refine surely_report_bind ?_
  refine (surely_exitProcess hexit hm₂ hr.cpu b hr.owner hr.task hr.memory).bind
    (quietly_exitProcess hm₂ hr.cpu b) ?_
  intro _ m₄ _ _
  exact ⟨rfl, by simp [Process.changeAccount]⟩

theorem run_resolve_resident (hm : m.Shows v) (hr : v.Runs h c x b.pid t mem)
    (hp : m.processes[b.pid]? = some p) (hi : i.dataAddress? x.regs p.dataBase = none)
    {f : FrameNumber} (hst : m.pager.stateOf ⟨b.pid, g.pageOf x.regs.ip⟩ = some (.resident f)) :
    ∃ q es, (resolve c b i).run m = ⟨.ok (some ⟨f, none⟩), { m with pager := q }, es⟩ := by
  obtain ⟨q, es, hrun⟩ := run_fetch_resident hm hr hst (.fetch p.textPages)
  refine ⟨q, .translatingInstruction c x.regs.ip b.pid ::
    (es ++ [.fetching c (g.physicalAddress f x.regs.ip)]), ?_⟩
  simp [resolve, resolveWithin, attempt, run_process hp, run_cpu (hm.cpus hr.cpu), hrun, hi,
    fetchData]

theorem surely_resolve_missing (hexit : HearsExits S) (hm : m.Shows v)
    (hr : v.Runs h c x b.pid t mem) (hp : m.processes[b.pid]? = some p)
    (hmiss : ∀ f, m.pager.stateOf ⟨b.pid, g.pageOf x.regs.ip⟩ ≠ some (.resident f))
    (hout : p.textPages ≤ g.pageOf x.regs.ip) :
    Surely (resolve c b i) m fun o es => o = none ∧
      .invalidAccess .instruction p.id x.regs.ip (.illegalFetch (g.pageOf x.regs.ip)) ∈ es := by
  have hillegal : (Access.fetch p.textPages).isIllegal (g.pageOf x.regs.ip) = true :=
    decide_eq_true hout
  obtain ⟨_, m', es, hrun, rfl, hmem⟩ := (surely_fetch_missing hexit hm hr hp hmiss hillegal).exists
  refine meets_of_run_ok (t := m') (e := .translatingInstruction c x.regs.ip b.pid :: es) ?_
    ⟨rfl, List.mem_cons_of_mem _ hmem⟩
  simp [resolve, resolveWithin, attempt, run_process hp, run_cpu (hm.cpus hr.cpu), hrun]

theorem exits_executeOn (hexit : HearsExits S) (hm : m.Shows v) (hr : v.Runs h c x b.pid t mem)
    (hp : m.processes[b.pid]? = some p) {i : InFlight} {s : String}
    (hi : i.instruction = .invalid s) (frames : InstructionFrames) :
    ∃ m' es, (executeOn c b i frames).run m = ⟨.ok (), m', es⟩ ∧
      m'.roster = m.roster.ended c x b p := by
  have hx := hm.cpus hr.cpu
  obtain ⟨_, m', es, hrun, -⟩ := (surely_exitProcess hexit hm hr.cpu b hr.owner hr.task
    hr.memory).exists
  have hroster := (moves_exitProcess (r := m.roster) hp hx m rfl).of_ok hrun
  refine ⟨m', .executing c i.text b.pid x.regs.ip
    (g.physicalAddress frames.instruction x.regs.ip) ::
      .invalidInstruction i.text b.pid x.regs.ip :: es, ?_, hroster⟩
  simp [executeOn, run_cpu hx, run_process hp, hi, run_onExecution_invalid hx, complete, hrun]

theorem exits_resolve (hexit : HearsExits S) (hs : m.Strays c x b p) (hm : m.Shows v)
    (hr : v.Runs h c x b.pid t mem) {i : InFlight} {s : String} (hi : i.instruction = .invalid s) :
    ∃ m' es k l, Action.run (do
        match ← resolve c b i.instruction with
        | none => return ()
        | some frames => executeOn c b i frames) m = ⟨.ok (), m', es⟩ ∧
      m'.roster = m.roster.ended c x b (p.faulted k l) := by
  rw [hi]
  by_cases hst : ∃ f, m.pager.stateOf ⟨b.pid, g.pageOf x.regs.ip⟩ = some (.resident f)
  · obtain ⟨f, hst⟩ := hst
    obtain ⟨q, es, hrun⟩ := run_resolve_resident (i := .invalid s) hm hr hs.process rfl hst
    have hm₁ : ({ m with pager := q } : Machine g S).Shows v :=
      ((quietly_resolve hm hr.cpu b hr.task hr.owner (.invalid s)).of_ok hrun).2.1
    obtain ⟨m', es', hexec, hroster⟩ := exits_executeOn hexit hm₁ hr hs.process hi ⟨f, none⟩
    exact ⟨m', es ++ es', 0, 0, by simp [hrun, hexec], hroster⟩
  · have hmiss := not_exists.mp hst
    obtain ⟨_, m', es, hrun, rfl, -⟩ := (surely_resolve_missing (i := .invalid s) hexit hm hr
      hs.process hmiss hs.outside).exists
    have hmoves : Faulted m.roster c x b p true m'.roster :=
      (moves_resolve (r := m.roster) hs.process hs.cpu _ m rfl).of_ok hrun
    generalize hroster : m'.roster = r at hmoves
    cases hmoves with
    | ends k l => exact ⟨m', es, k, l, by simp [hrun], hroster⟩

/-! The turns of a CPU whose process strays. -/

theorem Strays.step (hs : m.Strays c x b p) {m' : Machine g S} {es : List Event}
    (hrun : (cpuStep c).run m = ⟨.ok (), m', es⟩) : m.step = (m', es) := by
  obtain ⟨cs, hturns⟩ := List.head?_eq_some_iff.mp hs.head
  rw [Machine.step, if_pos hs.running, hturns]
  simp only [settle, hrun]

theorem Strays.run_bursting (hs : m.Strays c x b p) (hphase : x.phase = .bursting b) :
    (cpuStep c).run m = (startInstruction c b).run m := by
  simp [cpuStep, run_cpu hs.cpu, hphase]

theorem Strays.run_spending (hs : m.Strays c x b p) {i : InFlight}
    (hphase : x.phase = .spending b i) :
    (cpuStep c).run m = (finishInstruction c b i).run m := by
  simp [cpuStep, run_cpu hs.cpu, hphase]

theorem Strays.missing (hexit : HearsExits S) (hs : m.Strays c x b p) (hm : m.Shows v)
    (hr : v.Runs h c x b.pid t mem) (hphase : x.phase = .bursting b)
    (hquantum : b.ticks < p.quantum)
    (hmiss : ∀ f, m.pager.stateOf ⟨b.pid, g.pageOf x.regs.ip⟩ ≠ some (.resident f)) :
    m.step.1.EndsWith p b m.clock.now ∧ Silent m.step.2 ∧
      .invalidAccess .instruction p.id x.regs.ip (.illegalFetch (g.pageOf x.regs.ip)) ∈
        m.step.2 := by
  let i := Instruction.decode (p.trace.textAt x.regs.ip)
  obtain ⟨_, m', es, hrun, rfl, hmem⟩ := (surely_resolve_missing (i := i) hexit hm hr hs.process
    hmiss hs.outside).exists
  have hsilent := ((quietly_resolve hm hr.cpu b hr.task hr.owner i).of_ok hrun).1
  have hmoves : Faulted m.roster c x b p true m'.roster :=
    (moves_resolve (r := m.roster) hs.process hs.cpu i m rfl).of_ok hrun
  have hstart : (startInstruction c b).run m = ⟨.ok (), m', es⟩ := by
    simp [startInstruction, run_process hs.process, run_cpu hs.cpu, Nat.not_le.mpr hquantum, i,
      hrun]
  rw [hs.step ((hs.run_bursting hphase).trans hstart)]
  generalize hroster : m'.roster = r at hmoves
  cases hmoves with
  | ends k l => exact ⟨endsWith_of_ended hs.process c x k l hroster, hsilent, hmem⟩

theorem Strays.resident (hs : m.Strays c x b p) (hm : m.Shows v)
    (hr : v.Runs h c x b.pid p.task mem) (hphase : x.phase = .bursting b)
    (hquantum : b.ticks < p.quantum) {f : FrameNumber}
    (hst : m.pager.stateOf ⟨b.pid, g.pageOf x.regs.ip⟩ = some (.resident f))
    (htick : m.clock.now + 1 < wordBound) :
    m.step.1.processes = m.processes ∧ Silent m.step.2 ∧ ∃ text s,
      m.step.1.cpus[c]? = some { x with phase := .spending b ⟨text, .invalid s, ⟨f, none⟩⟩ } := by
  obtain ⟨s, hdecode⟩ := hs.decode hr
  obtain ⟨q, es, hrun⟩ := run_resolve_resident (i := .invalid s) hm hr hs.process rfl hst
  have hsilent := ((quietly_resolve hm hr.cpu b hr.task hr.owner (.invalid s)).of_ok hrun).1
  have hwake : (tickAfter 1).run { m with pager := q } =
      ⟨.ok (m.clock.now + 1), { m with pager := q }, []⟩ := by
    simp [tickAfter, time, Number.add?, htick]
  let i : InFlight := ⟨p.trace.textAt x.regs.ip, .invalid s, ⟨f, none⟩⟩
  have hstart : (startInstruction c b).run m = ⟨.ok (), ({ m with
      pager := q
      cpus := m.cpus.modify c fun y => { y with phase := .spending b i } } : Machine g S).park
        c (some (m.clock.now + 1)), es⟩ := by
    simp [startInstruction, run_process hs.process, run_cpu hs.cpu, Nat.not_le.mpr hquantum,
      hdecode, hrun, hwake, setPhase, changeCpu, i]
  rw [hs.step ((hs.run_bursting hphase).trans hstart)]
  refine ⟨rfl, hsilent, p.trace.textAt x.regs.ip, s, ?_⟩
  simp [park, Array.getElem?_modify, hs.cpu, i]

theorem Strays.spent (hexit : HearsExits S) (hs : m.Strays c x b p) (hm : m.Shows v)
    (hr : v.Runs h c x b.pid t mem) {i : InFlight} (hphase : x.phase = .spending b i) {s : String}
    (hi : i.instruction = .invalid s) (hdata : i.frames.data = none)
    (hframe : i.frames.instruction < g.frameCount) :
    m.step.1.EndsWith p.spent { b with ticks := b.ticks + 1 } m.clock.now := by
  obtain ⟨m₁, htick, hm₁, hs₁, hclock⟩ := hs.entered hm
  obtain ⟨held, hheld⟩ := m₁.exists_stillHolds? b.pid x.regs.ip hframe fun _ _ hd => by
    simp [hdata] at hd
  have hends : ∃ m' es k l, (finishInstruction c b i).run m = ⟨.ok (), m', es⟩ ∧
      m'.roster = m₁.roster.ended c x { b with ticks := b.ticks + 1 } (p.spent.faulted k l) := by
    cases held with
    | true =>
      obtain ⟨m', es, hrun, hroster⟩ := exits_executeOn (b := { b with ticks := b.ticks + 1 }) hexit
        hm₁ hr hs₁.process hi i.frames
      refine ⟨m', es, 0, 0, ?_, hroster⟩
      simp [finishInstruction, htick, run_cpu hs₁.cpu, hheld, hrun]
    | false =>
      obtain ⟨m', es, k, l, hrun, hroster⟩ := exits_resolve hexit hs₁ hm₁ hr hi
      refine ⟨m', .framesStolen p.id c m₁.clock.now :: es, k, l, ?_, hroster⟩
      have hlate : time.run m₁ = ⟨.ok m₁.clock.now, m₁, []⟩ := rfl
      simp only [finishInstruction, run_bind, htick, Outcome.andThen_ok, run_cpu hs₁.cpu, run_get,
        hheld, run_ofOption_some, run_process hs₁.process, hlate, run_report, if_false,
        Bool.false_eq_true, Outcome.after_nil]
      exact congrArg (Outcome.after [.framesStolen p.id c m₁.clock.now]) hrun
  obtain ⟨m', es, k, l, hrun, hroster⟩ := hends
  rw [hs.step ((hs.run_spending hphase).trans hrun), ← hclock]
  exact endsWith_of_ended (b := { b with ticks := b.ticks + 1 }) hs₁.process c x k l hroster

/-- A process that has left its text ends, at once if no frame holds the page of its instruction
pointer: the fetch is illegal and costs no tick. If a frame holds it the fetch is a hit, and the
process ends only after the tick of an instruction that is none. -/
theorem stray_charged (hexit : HearsExits S) (cpus : Nat) (useTlb : Bool) (policy : S)
    (specs : List ProcessSpec) (n : Nat) (hm : (new g cpus useTlb policy specs).stepN n = m)
    (hs : m.Strays c x b p) :
    (x.phase = .bursting b → b.ticks < p.quantum →
      ((∀ f, m.pager.stateOf ⟨b.pid, g.pageOf x.regs.ip⟩ ≠ some (.resident f)) →
        m.step.1.EndsWith p b m.clock.now ∧ Silent m.step.2 ∧
          .invalidAccess .instruction p.id x.regs.ip (.illegalFetch (g.pageOf x.regs.ip)) ∈
            m.step.2) ∧
      ∀ f, m.pager.stateOf ⟨b.pid, g.pageOf x.regs.ip⟩ = some (.resident f) →
        m.clock.now + 1 < wordBound →
          m.step.1.processes = m.processes ∧ Silent m.step.2 ∧ ∃ text s,
            m.step.1.cpus[c]? =
              some { x with phase := .spending b ⟨text, .invalid s, ⟨f, none⟩⟩ }) ∧
    ∀ i, x.phase = .spending b i →
      m.step.1.EndsWith p.spent { b with ticks := b.ticks + 1 } m.clock.now := by
  have hok : ∀ e, ((new g cpus useTlb policy specs).stepN n).status ≠ .aborted e := by
    intro e he
    have hrun := hs.running
    rw [isRunning, ← hm, he] at hrun
    simp at hrun
  have hstands := (stands_new cpus useTlb policy specs).stepN n hok
  rw [hm] at hstands
  have hshows : m.Shows m.view := ⟨hstands.sound, rfl⟩
  refine ⟨fun hphase hquantum => ⟨fun hmiss => ?_, fun f hst htick => ?_⟩,
    fun i hphase => ?_⟩
  · obtain ⟨mem, hr⟩ := hstands.strays hs (Cpu.current?_of_bursting hphase)
    exact hs.missing hexit hshows hr hphase hquantum hmiss
  · obtain ⟨mem, hr⟩ := hstands.strays hs (Cpu.current?_of_bursting hphase)
    exact hs.resident hshows hr hphase hquantum hst htick
  · have hcur := Cpu.current?_of_spending hphase
    obtain ⟨mem, hr⟩ := hstands.strays hs hcur
    obtain ⟨-, u, hu, -, -, hspent⟩ := hstands.inv.cpu c x hr.cpu b.pid hcur
    obtain rfl : u = p.task := Option.some.inj (hu.symm.trans hr.task)
    obtain ⟨htext, hinstr, hframe, hdata, -⟩ := hspent b i hphase
    obtain ⟨s, hdecode⟩ := hs.decode hr
    have hi : i.instruction = .invalid s := by rw [hinstr, htext]; exact hdecode
    rw [hi] at hdata
    exact hs.spent hexit hshows hr hphase hi (Option.map_eq_none_iff.mp hdata) hframe

def straying (third : String) : Machine Pager.fourFrames RoundRobin :=
  new Pager.fourFrames 1 false {}
    [{ name := "strays", quantum := 10
       trace := ⟨#["loadReg1Immediate 1", "Syscall_Alloc", third, "NoOp"]⟩ }]

/-- What is known of a CPU and a process tells whether it strays. -/
theorem exists_strays {m : Machine Pager.fourFrames RoundRobin} (phase : Phase)
    (ip : VirtualAddress) (quantum textPages ticks : Nat) (hrun : m.isRunning = true)
    (hhead : m.turns.head? = some c)
    (hcpu : m.cpus[c]?.map (fun x => (x.phase, x.regs.ip)) = some (phase, ip))
    (hprocess : m.processes[b.pid]?.map (fun p =>
      (p.quantum, p.textPages, p.account.executedTicks)) = some (quantum, textPages, ticks))
    (hout : textPages ≤ Pager.fourFrames.pageOf ip) :
    ∃ x p, m.Strays c x b p ∧ x.phase = phase ∧ x.regs.ip = ip ∧ p.quantum = quantum ∧
      p.account.executedTicks = ticks := by
  obtain ⟨x, hx, hxs⟩ := Option.map_eq_some_iff.mp hcpu
  obtain ⟨p, hp, hps⟩ := Option.map_eq_some_iff.mp hprocess
  obtain ⟨rfl, rfl⟩ := Prod.mk.inj hxs
  obtain ⟨rfl, hrest⟩ := Prod.mk.inj hps
  obtain ⟨rfl, rfl⟩ := Prod.mk.inj hrest
  exact ⟨x, p, ⟨hrun, hhead, hx, hp, hout⟩, rfl, rfl, rfl, rfl⟩

/-- Whether the program has touched its data decides whether it ends after four ticks or five. -/
theorem stray_charged_either :
    (∃ x p, ((straying "NoOp").stepN 15).Strays 0 x ⟨0, 4⟩ p ∧ p.account.executedTicks = 4 ∧
      ((straying "NoOp").stepN 16).EndsWith p ⟨0, 4⟩ 4) ∧
    ∃ x p, ((straying "storeReg0Indirect 1").stepN 17).Strays 0 x ⟨0, 4⟩ p ∧
      p.account.executedTicks = 4 ∧
      ((straying "storeReg0Indirect 1").stepN 18).EndsWith p.spent ⟨0, 5⟩ 5 := by
  refine ⟨?_, ?_⟩
  · obtain ⟨x, p, hs, hphase, hip, hquantum, hticks⟩ :=
      exists_strays (m := (straying "NoOp").stepN 15) (c := 0) (b := ⟨0, 4⟩) (.bursting ⟨0, 4⟩)
        (.ofNat 16) 10 1 4 (by decide +kernel) (by decide +kernel) (by decide +kernel)
        (by decide +kernel) (by decide)
    have hmiss (f : FrameNumber) : ((straying "NoOp").stepN 15).pager.stateOf ⟨0, 1⟩ ≠
        some (.resident f) := by
      have hunmapped : ((straying "NoOp").stepN 15).pager.stateOf ⟨0, 1⟩ = some .unmapped := by
        decide +kernel
      rw [hunmapped]
      nofun
    have hends := ((stray_charged hearsExits_roundRobin 1 false _ _ 15 rfl hs).1 hphase
      (by rw [hquantum]; decide)).1 (by rw [hip]; exact hmiss)
    have hnow : ((straying "NoOp").stepN 15).clock.now = 4 := by decide +kernel
    exact ⟨x, p, hs, hticks, hnow ▸ hends.1⟩
  · obtain ⟨x, p, hs, hphase, -, -, hticks⟩ :=
      exists_strays (m := (straying "storeReg0Indirect 1").stepN 17) (c := 0) (b := ⟨0, 4⟩)
        (.spending ⟨0, 4⟩ ⟨Trace.missing 4, .invalid (Trace.missing 4), ⟨1, none⟩⟩) (.ofNat 16)
        10 1 4 (by decide +kernel) (by decide +kernel) (by decide +kernel) (by decide +kernel)
        (by decide)
    have hends : ((straying "storeReg0Indirect 1").stepN 18).EndsWith p.spent ⟨0, 5⟩
        ((straying "storeReg0Indirect 1").stepN 17).clock.now :=
      (stray_charged hearsExits_roundRobin 1 false _ _ 17 rfl hs).2 _ hphase
    have hnow : ((straying "storeReg0Indirect 1").stepN 17).clock.now = 5 := by decide +kernel
    rw [hnow] at hends
    exact ⟨x, p, hs, hticks, hends⟩

theorem stray_spends : ∃ x p, ((straying "storeReg0Indirect 1").stepN 15).Strays 0 x ⟨0, 4⟩ p ∧
    x.phase = .bursting ⟨0, 4⟩ ∧ p.quantum = 10 ∧ p.account.executedTicks = 4 ∧
    ¬((straying "storeReg0Indirect 1").stepN 16).EndsWith p ⟨0, 4⟩ 4 ∧
    ((straying "storeReg0Indirect 1").stepN 20).status = .finished ∧
    ((straying "storeReg0Indirect 1").stepN 20).processes[0]?.map
      (fun q => (q.account.completedAt, q.account.executedTicks, q.account.bursts)) =
        some (some 5, 5, #[5]) := by
  obtain ⟨x, p, hs, hphase, -, hquantum, hticks⟩ :=
    exists_strays (m := (straying "storeReg0Indirect 1").stepN 15) (c := 0) (b := ⟨0, 4⟩)
      (.bursting ⟨0, 4⟩) (.ofNat 16) 10 1 4 (by decide +kernel) (by decide +kernel)
      (by decide +kernel) (by decide +kernel) (by decide)
  refine ⟨x, p, hs, hphase, hquantum, hticks, ?_, by decide +kernel, by decide +kernel⟩
  rintro ⟨q, hq, hexited, -⟩
  have hrunning : ((straying "storeReg0Indirect 1").stepN 16).processes[0]?.map Process.status =
      some (.running 0) := by decide +kernel
  rw [hq, Option.map_some, hexited] at hrunning
  simp at hrunning

end DemandPaging.Machine
