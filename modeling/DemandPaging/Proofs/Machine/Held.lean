import DemandPaging.Proofs.Machine.Moved
import DemandPaging.Proofs.Machine.Mute
import DemandPaging.Proofs.Machine.Surely
import DemandPaging.Proofs.Machine.Transparency
import Mathlib.Data.List.Sort
/-!
What instructions are executed against. The frames of an instruction are found before its tick and
used after it, and while the tick passes other CPUs may steal them, read other pages into them and
free them. A CPU that wakes looks whether its frames still hold the pages of the instruction, and
brings these in again if they do not, at no further tick.
-/

namespace DemandPaging

/-- The frame holds the page of the instruction pointer of a process, and the data at an address of
the process, if there is one, is found at this physical address. -/
structure Pager.Holds {g : Geometry} (m : Pager g) (pid : ProcessId) (ip : VirtualAddress)
    (frame : FrameNumber) (addr : Option VirtualAddress) (data : Option PhysicalAddress) :
    Prop where
  owner : m.owner? frame = some (some ⟨pid, g.pageOf ip⟩)
  entry : m.state? pid (g.pageOf ip) = some (.resident frame)
  noData : addr = none → data = none
  data : ∀ a, addr = some a → ∃ d, data = some d ∧
    m.owner? (g.frameOf d) = some (some ⟨pid, g.pageOf a⟩) ∧
    m.state? pid (g.pageOf a) = some (.resident (g.frameOf d)) ∧
    g.pageOffset d = g.pageOffset a ∧ d.toNat < g.memorySize

theorem Pager.holds_of_resident {g : Geometry} {m : Pager g} (h : m.Sound) {pid : ProcessId}
    {ip : VirtualAddress} {frames : InstructionFrames} {addr : Option VirtualAddress}
    (hip : m.stateOf ⟨pid, g.pageOf ip⟩ = some (.resident frames.instruction))
    (haddr : frames.data.map Prod.fst = addr)
    (hdata : ∀ a f, frames.data = some (a, f) →
      m.stateOf ⟨pid, g.pageOf a⟩ = some (.resident f)) :
    m.Holds pid ip frames.instruction addr
      (frames.data.map fun (a, f) => g.physicalAddress f a) := by
  refine ⟨(h.books.owner_iff _ _ nofun).mpr hip, hip, fun hnone => ?_, fun a ha => ?_⟩
  · rw [← haddr, Option.map_eq_none_iff] at hnone
    rw [hnone]
    rfl
  · rw [← haddr] at ha
    obtain ⟨⟨a, f⟩, hframes, rfl⟩ := Option.map_eq_some_iff.mp ha
    have hst := hdata a f hframes
    have hlt := h.resident_lt hst
    refine ⟨g.physicalAddress f a, by rw [hframes]; rfl, ?_, ?_,
      g.pageOffset_physicalAddress hlt a, g.toNat_physicalAddress_lt hlt a⟩
    · rw [g.frameOf_physicalAddress hlt]
      exact (h.books.owner_iff _ _ nofun).mpr hst
    · rw [g.frameOf_physicalAddress hlt]
      exact hst

namespace Machine

open DemandPaging.Action Roster

variable {g : Geometry} {S : Type} {m : Machine g S} {v : View g} {h : History}
  {specs : List ProcessSpec} {c : Nat} {x : Cpu} {b : Burst} {p : Process} {t : Task}
  {mem : FlatMemory g} {i : InFlight}

/-- Why the pages of an instruction cannot be brought in: there is no room in the swap store, or
they keep evicting each other. -/
def Thwarted (g : Geometry) (pid : ProcessId) (ip : VirtualAddress) (r : Failure RunError) : Prop :=
  r = .crash .noRoom ∨ ∃ time, r = .error (.thrashing time pid ip g.frameCount)

/-- A place that an access can go to: no fetch from outside the text, and on a page that the
process has. -/
def Allowed (v : View g) (pid : ProcessId) (addr : VirtualAddress) (access : Access) : Prop :=
  access.isIllegal (g.pageOf addr) = false ∧
    ∃ mem, v.memories pid = some mem ∧ (mem (g.pageOf addr)).isSome = true

theorem Allowed.not_astray {pid : ProcessId} {addr : VirtualAddress} {access : Access}
    (ha : Allowed v pid addr access) : ¬Astray v pid addr access := by
  obtain ⟨hlegal, mem, hmem, hsome⟩ := ha
  rintro (hillegal | hnone)
  · rw [hlegal] at hillegal
    simp at hillegal
  · rw [hnone mem hmem] at hsome
    simp at hsome

/-! Accesses that are allowed end no process. -/

section Allowed

variable {α β : Type} {y : Running g S α} {f : α → Running g S β} {Q : α → List Event → Prop}
  {P : α → Machine g S → Prop} {R : β → Machine g S → Prop} {E : Failure RunError → Prop}
  {pid : ProcessId} {addr : VirtualAddress} {access : Access}

theorem Surely.bind_meets (h : Surely y m Q) (hq : Quietly y m P)
    (hf : ∀ a m', P a m' → (f a).Meets m' E fun b t _ => R b t) :
    (y >>= f).Meets m E fun b t _ => R b t := by
  obtain ⟨a, t, es, hrun, -⟩ := h.exists
  exact Meets.bind (P := fun a' t' _ => a' = a ∧ t' = t) (meets_of_run_ok hrun ⟨rfl, rfl⟩)
    fun _ _ _ ⟨ha, ht⟩ => ha ▸ ht ▸ hf a t (hq.of_ok hrun).2

theorem surely_translate (hm : m.Shows v) (ho : v.owners c = some (some pid))
    (a : VirtualAddress) : Surely (onPager (Pager.translate c pid a)) m fun _ _ => True := by
  obtain ⟨u, hu, hown⟩ := hm.owner ho
  obtain ⟨p, es, hrun, -⟩ := Pager.run_translate hm.sound hu hown a
  exact meets_of_run_ok (run_onPager hrun) trivial

theorem surely_process (hm : m.Shows v) (ht : v.tasks pid = some t) :
    Surely (process pid) m fun _ _ => True := by
  obtain ⟨p, hp⟩ := hm.process ht
  exact meets_of_run_ok (run_process hp) trivial

theorem meets_handleFault_allowed (hm : m.Shows v) (ha : Allowed v pid addr access) :
    (onPager (Pager.handleFault pid addr access)).Meets m (· = .crash .noRoom)
      fun r m' _ => ∃ f, r = .resolved f ∧ m'.Shows v ∧
        m'.pager.stateOf ⟨pid, g.pageOf addr⟩ = some (.resident f) := by
  obtain ⟨r, q, es, hrun, -, -, -, hanswer⟩ := Pager.run_handleFault hm.sound pid addr access
  cases r with
  | ok r =>
    have hquiet := ((quietly_handleFault hm pid addr access).of_ok (run_onPager hrun)).2
    refine meets_of_run_ok (run_onPager hrun) ?_
    cases r with
    | resolved f => exact ⟨f, rfl, hquiet⟩
    | violation _ => exact absurd hquiet.2 ha.not_astray
  | error e =>
    refine meets_of_run_error (e := es.map .paging) (t := { m with pager := q })
      (r := e.map (.memory m.clock.now)) (by simp [onPager, time, hrun]) ?_
    rcases hanswer with ⟨hspace, -⟩ | ⟨-, rfl⟩
    · obtain ⟨-, mem, hmem, -⟩ := ha
      rw [← hm.view] at hmem
      have hflat : m.pager.flat pid = some mem := hmem
      have hlive := (Pager.flat_eq_some_iff.mp hflat).1
      rw [hspace] at hlive
      simp at hlive
    · rfl

end Allowed

variable [Scheduler S]

theorem meets_fetch_allowed (hm : m.Shows v) (hr : v.Runs h c x b.pid t mem)
    {addr : VirtualAddress} {access : Access} (ha : Allowed v b.pid addr access) :
    (fetch c b addr access).Meets m (· = .crash .noRoom) fun r m' _ =>
      r ≠ .terminated ∧ FetchEnd m v m' c x.regs b.pid addr access r := by
  have hend := quietly_fetch hm hr.cpu b hr.owner addr access
  suffices hstays : (fetch c b addr access).Meets m (· = .crash .noRoom)
      fun r _ _ => r ≠ .terminated from (hstays.and hend).mono fun _ _ _ ⟨hr, _, he⟩ => ⟨hr, he⟩
  refine (surely_translate hm hr.owner addr).bind_meets (quietly_translate hm hr.owner addr) ?_
  rintro r m₁ ⟨hm₁, -, -⟩
  cases r with
  | some f => exact meets_pure nofun
  | none =>
    refine (surely_modify _).bind_meets (quietly_changeAccount hm₁ b.pid
      (f := fun a => countFault a access) fun a => by cases access <;> rfl) ?_
    intro _ m₂ hm₂
    refine (surely_process hm₂ hr.task).bind_meets (quietly_process b.pid) ?_
    rintro p _ ⟨-, rfl⟩
    refine Meets.bind (P := fun _ m' _ => m' = _) (meets_report rfl) ?_
    rintro _ _ _ rfl
    refine Meets.bind (meets_handleFault_allowed hm₂ ha) ?_
    rintro _ m₃ _ ⟨f, rfl, hm₃, hst⟩
    refine (surely_translate hm₃ hr.owner addr).bind_meets (quietly_translate hm₃ hr.owner addr) ?_
    rintro _ m₄ ⟨-, rfl, -⟩
    rw [PageState.bind_frame?_eq_some_iff.mpr hst]
    exact Meets.bind (P := fun _ _ _ => True) (meets_report trivial) fun _ _ _ _ => meets_pure nofun

structure Fits (v : View g) (pid : ProcessId) (textPages : Nat) (ip : VirtualAddress)
    (data : Option VirtualAddress) : Prop where
  text : Allowed v pid ip (.fetch textPages)
  data : ∀ a, data = some a → Allowed v pid a .data

theorem meets_attempt_fits (hm : m.Shows v) (hr : v.Runs h c x b.pid t mem) {i : Instruction}
    (hfits : Fits v b.pid t.textPages x.regs.ip (i.dataAddress? x.regs t.dataBase)) :
    (attempt c b i).Meets m (· = .crash .noRoom) fun r m' _ => r ≠ .terminated ∧
      AttemptEnd v m' c x.regs b.pid t.textPages (i.dataAddress? x.regs t.dataBase) r := by
  have hend := quietly_attempt hm hr.cpu b hr.task hr.owner i
  suffices hstays : (attempt c b i).Meets m (· = .crash .noRoom)
      fun r _ _ => r ≠ .terminated from (hstays.and hend).mono fun _ _ _ ⟨hr, _, he⟩ => ⟨hr, he⟩
  refine (surely_process hm hr.task).bind_meets (quietly_task hm hr.task) ?_
  rintro p _ ⟨rfl, rfl⟩
  refine Meets.bind (P := fun y m' _ => y = x ∧ m' = _)
    (meets_of_run_ok (run_cpu (hm.cpus hr.cpu)) ⟨rfl, rfl⟩) ?_
  rintro _ _ _ ⟨rfl, rfl⟩
  refine Meets.bind (P := fun _ m' _ => m' = _) (meets_report rfl) ?_
  rintro _ _ _ rfl
  refine Meets.bind (meets_fetch_allowed hm hr hfits.text) ?_
  rintro (f | _ | _) m₁ _ ⟨hstays, hend⟩
  · refine Meets.bind (P := fun _ m' _ => m' = _) (meets_report rfl) ?_
    rintro _ _ _ rfl
    cases hdata : i.dataAddress? _ p.dataBase with
    | none => exact meets_pure nofun
    | some a =>
      refine Meets.bind (P := fun _ m' _ => m' = _) (meets_report rfl) ?_
      rintro _ _ _ rfl
      refine Meets.bind (meets_fetch_allowed hend.1 hr (hfits.data a hdata)) ?_
      rintro (f | _ | _) m₂ _ ⟨hstays, -⟩
      · exact meets_pure nofun
      · exact meets_pure nofun
      · exact absurd rfl hstays
  · exact meets_pure nofun
  · exact absurd rfl hstays

theorem meets_resolve_fits (hm : m.Shows v) (hr : v.Runs h c x b.pid t mem) {i : Instruction}
    (hfits : Fits v b.pid t.textPages x.regs.ip (i.dataAddress? x.regs t.dataBase)) :
    (resolve c b i).Meets m (Thwarted g b.pid x.regs.ip) fun o _ _ => o ≠ none := by
  have hwithin (attempts : Nat) : ∀ m : Machine g S, m.Shows v →
      (resolveWithin c b i attempts).Meets m (Thwarted g b.pid x.regs.ip)
        fun o _ _ => o ≠ none := by
    induction attempts with
    | zero =>
      intro m hm
      refine meets_of_run_error (r := .error (.thrashing m.clock.now b.pid x.regs.ip g.frameCount))
        (t := m) (e := []) ?_ (.inr ⟨_, rfl⟩)
      simp [resolveWithin, time, run_cpu (hm.cpus hr.cpu)]
    | succ attempts ih =>
      intro m hm
      refine Meets.bind (((meets_attempt_fits hm hr hfits)).weaken fun _ => .inl) ?_
      rintro (frames | _ | _) m₁ _ ⟨hstays, hend⟩
      · exact meets_pure (Option.some_ne_none frames)
      · exact ih m₁ hend
      · exact absurd rfl hstays
  exact hwithin _ m hm

/-! The turn of a CPU whose tick has passed. -/

/-- What becomes of an instruction whose tick a CPU has spent. -/
inductive Resumes (m : Machine g S) (c : Nat) (x : Cpu) (b : Burst) (i : InFlight) (p : Process) :
    Outcome Event (Failure RunError) (Machine g S) Unit → Prop
  /-- It is executed, where its frame and its data are held for it. Until then the CPU has its turn,
  the clock stands and nothing but faults is entered after the one tick. -/
  | executes {m₁ es frame data k l} (hsilent : Silent es)
      (hroster : m₁.roster = m.roster.setProcess b.pid (p.spent.faulted k l))
      (hholds : m₁.pager.Holds b.pid x.regs.ip frame
        (i.instruction.dataAddress? x.regs p.dataBase) data) :
      Resumes m c x b i p (((onExecution c
          (Execution.execute b.pid p.dataBase data i.instruction) >>=
        complete c { b with ticks := b.ticks + 1 } i.text x.regs.ip).run m₁).after
          (es ++ [.executing c i.text b.pid x.regs.ip (g.physicalAddress frame x.regs.ip)]))
  | strays {m₁ es k l} (hsilent : Silent es) (hout : p.textPages ≤ g.pageOf x.regs.ip)
      (hroster : m₁.roster =
        m.roster.ended c x { b with ticks := b.ticks + 1 } (p.spent.faulted k l)) :
      Resumes m c x b i p ⟨.ok (), m₁, es⟩
  | stops {m₁ r es} (hsilent : Silent es)
      (hthwarted : g.pageOf x.regs.ip < p.textPages → Thwarted g b.pid x.regs.ip r) :
      Resumes m c x b i p ⟨.error r, m₁, es⟩

theorem fits_of_flight (hr : v.Runs h c x b.pid t mem)
    (hflight : View.Flight g t (v.memories b.pid) x.regs i)
    (hin : g.pageOf x.regs.ip < t.textPages) :
    Fits v b.pid t.textPages x.regs.ip (i.instruction.dataAddress? x.regs t.dataBase) := by
  refine ⟨⟨decide_eq_false (Nat.not_le.mpr hin), mem, hr.memory,
    hr.reaches.text _ (hr.textPages ▸ hin)⟩, fun a ha => ⟨rfl, mem, hr.memory, ?_⟩⟩
  rw [← hflight.data] at ha
  obtain ⟨⟨a, f⟩, hframes, rfl⟩ := Option.map_eq_some_iff.mp ha
  exact (hflight.allocated a f hframes).2 mem hr.memory

theorem run_executeOn {q : Process} (hx : m.cpus[c]? = some x) (hq : m.processes[b.pid]? = some q)
    (i : InFlight) (frames : InstructionFrames) :
    (executeOn c b i frames).run m = ((onExecution c (Execution.execute b.pid q.dataBase
        (frames.data.map fun (a, f) => g.physicalAddress f a) i.instruction) >>=
      complete c b i.text x.regs.ip).run m).after
        [.executing c i.text b.pid x.regs.ip (g.physicalAddress frames.instruction x.regs.ip)] := by
  simp [executeOn, run_cpu hx, run_process hq]

theorem resumes_of_resident (hx : m.cpus[c]? = some x) (hp : m.processes[b.pid]? = some p)
    {m₁ : Machine g S} {k l : Nat}
    (hroster : m₁.roster = m.roster.setProcess b.pid (p.spent.faulted k l))
    (hm₁ : m₁.pager.Sound) {frames : InstructionFrames}
    (hip : m₁.pager.stateOf ⟨b.pid, g.pageOf x.regs.ip⟩ = some (.resident frames.instruction))
    (haddr : frames.data.map Prod.fst = i.instruction.dataAddress? x.regs p.dataBase)
    (hdata : ∀ a f, frames.data = some (a, f) →
      m₁.pager.stateOf ⟨b.pid, g.pageOf a⟩ = some (.resident f))
    {es : List Event} (hsilent : Silent es) :
    m.Resumes c x b i p
      (((executeOn c { b with ticks := b.ticks + 1 } i frames).run m₁).after es) := by
  have hx₁ : m₁.cpus[c]? = some x := by
    have hcpus := congrArg Roster.cpus hroster
    exact (congrArg (·[c]?) hcpus).trans hx
  have hp₁ : m₁.processes[b.pid]? = some (p.spent.faulted k l) := by
    have hprocesses := congrArg Roster.processes hroster
    exact (congrArg (·[b.pid]?) hprocesses).trans (getElem?_setProcess_self hp _)
  rw [run_executeOn (b := { b with ticks := b.ticks + 1 }) hx₁ hp₁ i frames, Outcome.after_after]
  exact .executes hsilent hroster (Pager.holds_of_resident hm₁ hip haddr hdata)

def entered (m : Machine g S) (pid : ProcessId) : Machine g S :=
  { m with processes := m.processes.modify pid Process.spent }

omit [Scheduler S] in
theorem shows_entered (hm : m.Shows v) (pid : ProcessId) : (m.entered pid).Shows v :=
  ((quietly_changeAccount hm pid (f := fun a => { a with executedTicks := a.executedTicks + 1 })
    fun _ => rfl).of_ok rfl).2

def refetch (c : Nat) (b : Burst) (i : InFlight) : Running g S Unit := do
  report (.framesStolen (← process b.pid).id c (← time))
  match ← resolve c b i.instruction with
  | none => return ()
  | some frames => executeOn c b i frames

theorem run_cpuStep_spending (hx : m.cpus[c]? = some x) (hphase : x.phase = .spending b i)
    {held : Bool} (hheld : (m.entered b.pid).stillHolds? b.pid x.regs.ip i.frames = some held) :
    (cpuStep c).run m =
      if held then (executeOn c { b with ticks := b.ticks + 1 } i i.frames).run (m.entered b.pid)
      else (refetch c { b with ticks := b.ticks + 1 } i).run (m.entered b.pid) := by
  have htick : (changeAccount b.pid fun a =>
      { a with executedTicks := a.executedTicks + 1 }).run m = ⟨.ok (), m.entered b.pid, []⟩ := rfl
  have hx' : (m.entered b.pid).cpus[c]? = some x := hx
  simp only [cpuStep, run_bind, run_cpu hx, Outcome.andThen_ok, Outcome.after_nil, hphase,
    finishInstruction, htick, run_cpu hx', run_get, hheld, run_ofOption_some]
  cases held <;> rfl

theorem run_refetch (hp : m.processes[b.pid]? = some p) (i : InFlight) :
    (refetch c b i).run m = (((resolve c b i.instruction).run m).andThen fun
      | none => pure ()
      | some frames => executeOn c b i frames).after [.framesStolen p.id c m.clock.now] := by
  have hnow : time.run m = ⟨.ok m.clock.now, m, []⟩ := rfl
  simp only [refetch, run_bind, run_process hp, hnow, run_report, Outcome.andThen_ok,
    Outcome.after_nil]

theorem resumes_of_stolen (hx : m.cpus[c]? = some x) (hp : m.processes[b.pid]? = some p)
    (hm : (m.entered b.pid).Shows v) (hr : v.Runs h c x b.pid p.task mem)
    (hflight : View.Flight g p.task (v.memories b.pid) x.regs i) :
    m.Resumes c x b i p
      ((refetch c { b with ticks := b.ticks + 1 } i).run (m.entered b.pid)) := by
  have hroster : (m.entered b.pid).roster = m.roster.setProcess b.pid p.spent :=
    roster_changeProcess hp _
  have hp₀ : (m.entered b.pid).roster.processes[b.pid]? = some p.spent := by
    rw [hroster]
    exact getElem?_setProcess_self hp _
  have hstolen : Silent [.framesStolen p.id c m.clock.now] := by simp [Silent, Event.isDeed]
  have hmute := mute_resolve (S := S) c { b with ticks := b.ticks + 1 } i.instruction
    (m.entered b.pid)
  have hend := quietly_resolve (b := { b with ticks := b.ticks + 1 }) hm hr.cpu hr.task hr.owner
    i.instruction
  have hmoves := moves_resolve (b := { b with ticks := b.ticks + 1 }) hp₀ hx i.instruction
    (m.entered b.pid) rfl
  have hfits (hin : g.pageOf x.regs.ip < p.textPages) :=
    meets_resolve_fits (b := { b with ticks := b.ticks + 1 }) (i := i.instruction) hm hr
      (fits_of_flight hr hflight hin)
  rw [run_refetch (b := { b with ticks := b.ticks + 1 }) hp₀ i]
  rcases hrun : (resolve c { b with ticks := b.ticks + 1 } i.instruction).run (m.entered b.pid)
    with ⟨r | o, m₁, es⟩
  · rw [hrun] at hmute
    exact .stops (hstolen.append hmute) fun hin => (hfits hin).of_error hrun
  · rw [hrun] at hmute
    have hend := (hend.of_ok hrun).2
    have hfaulted := hmoves.of_ok hrun
    cases o with
    | none =>
      generalize hr₁ : m₁.roster = s at hfaulted
      simp only [Outcome.andThen_ok, run_pure, Outcome.after_mk, List.append_nil]
      cases hfaulted with
      | ends k l =>
        refine .strays (k := k) (l := l) (hstolen.append hmute) ?_ ?_
        · exact Nat.not_lt.mp fun hin => (hfits hin).of_ok hrun rfl
        · rw [hr₁, hroster, ended_setProcess (b := { b with ticks := b.ticks + 1 })]
    | some frames =>
      obtain ⟨hm₁, hip, haddr, hdata⟩ := hend
      generalize hr₁ : m₁.roster = s at hfaulted
      cases hfaulted with
      | stays k l =>
        rw [Outcome.andThen_ok, Outcome.after_after]
        refine resumes_of_resident hx hp (k := k) (l := l) ?_ hm₁.sound hip haddr hdata
          (hstolen.append hmute)
        rw [hr₁, hroster, setProcess_setProcess]

/-- A CPU that wakes executes its instruction where its pages are held, unless its process had left
the text or the machine stops. -/
theorem Stands.resumes (hm : m.Stands specs h) (hx : m.cpus[c]? = some x)
    (hphase : x.phase = .spending b i) : ∃ p, m.processes[b.pid]? = some p ∧
      i.text = p.trace.textAt x.regs.ip ∧ i.instruction = .decode i.text ∧
        m.Resumes c x b i p ((cpuStep c).run m) := by
  have hshows : m.Shows m.view := ⟨hm.sound, rfl⟩
  have hcur := Cpu.current?_of_spending hphase
  obtain ⟨t, mem, hr⟩ := hm.inv.runs (hshows.cpu hx) hcur
  obtain ⟨-, u, hu, -, -, hspent⟩ := hm.inv.cpu c x hr.cpu b.pid hcur
  obtain rfl : t = u := Option.some.inj (hr.task.symm.trans hu)
  obtain ⟨p, hp⟩ := hshows.process hr.task
  obtain rfl : t = p.task := Option.some.inj (hr.task.symm.trans (hshows.task hp))
  have hflight := hspent b i hphase
  refine ⟨p, hp, hflight.text, hflight.instruction, ?_⟩
  have hm₀ := shows_entered hshows b.pid
  obtain ⟨held, hheld⟩ := (m.entered b.pid).exists_stillHolds? b.pid x.regs.ip hflight.frame
    fun a f hd => (hflight.allocated a f hd).1
  rw [run_cpuStep_spending hx hphase hheld]
  cases held with
  | true =>
    rw [if_pos rfl, ← Outcome.after_nil (Action.run _ _)]
    exact resumes_of_resident (k := 0) (l := 0) hx hp (roster_changeProcess hp _) hm₀.sound
      (stateOf_of_stillHolds?_ip hm₀.sound hheld) hflight.data
      (fun a f hd => stateOf_of_stillHolds? hm₀.sound hheld hd) silent_nil
  | false =>
    rw [if_neg Bool.false_ne_true]
    exact resumes_of_stolen hx hp hm₀ hr hflight

theorem Silent.filter_isDeed {es : List Event} (hs : Silent es) : es.filter Event.isDeed = [] :=
  List.filter_eq_nil_iff.mpr fun e he => by simp [hs e he]

theorem Resumes.deeds {o : Outcome Event (Failure RunError) (Machine g S) Unit}
    (ho : m.Resumes c x b i p o) : o.events.filter Event.isDeed = [] ∨
      ∃ physical, o.events.filter Event.isDeed =
        [.executing c i.text b.pid x.regs.ip physical] := by
  cases ho with
  | @executes m₁ es frame data k l hsilent hroster hholds =>
    have hmute : Mute (onExecution c (Execution.execute b.pid p.dataBase data i.instruction) >>=
        complete c { b with ticks := b.ticks + 1 } i.text x.regs.ip : Running g S Unit) :=
      (mute_onExecution c _).bind fun done => mute_complete c _ _ _ done
    refine .inr ⟨g.physicalAddress frame x.regs.ip, ?_⟩
    rw [Outcome.after, List.filter_append, List.filter_append, hsilent.filter_isDeed,
      (hmute m₁).filter_isDeed]
    rfl
  | strays hsilent hout hroster => exact .inl hsilent.filter_isDeed
  | stops hsilent hthwarted => exact .inl hsilent.filter_isDeed

theorem Stands.deeds_step (hm : m.Stands specs h) : m.step.2.filter Event.isDeed = [] ∨
    ∃ c x b i physical, m.turns.head? = some c ∧ m.cpus[c]? = some x ∧ x.phase = .spending b i ∧
      m.step.2.filter Event.isDeed = [.executing c i.text b.pid x.regs.ip physical] := by
  unfold Machine.step
  split
  · split
    · next c cs hturns =>
      cases hx : m.cpus[c]? with
      | none =>
        have hmute : Silent ((cpuStep c).run m).events := by
          simp [cpuStep, Machine.cpu, hx, silent_nil]
        obtain ⟨last, hlast, hevents⟩ := m.events_settle (.cpuCrashed c) (cpuStep c)
        rw [hevents]
        exact .inl (hmute.append hlast).filter_isDeed
      | some x =>
        obtain ⟨last, hlast, hevents⟩ := m.events_settle (.cpuCrashed c) (cpuStep c)
        rw [hevents, List.filter_append, hlast.filter_isDeed, List.append_nil]
        cases hphase : x.phase with
        | asking =>
          have hrun : (cpuStep c).run m = (ask c).run m := by simp [cpuStep, run_cpu hx, hphase]
          rw [hrun]
          exact .inl (mute_ask c m).filter_isDeed
        | bursting b =>
          have hrun : (cpuStep c).run m = (startInstruction c b).run m := by
            simp [cpuStep, run_cpu hx, hphase]
          rw [hrun]
          exact .inl (mute_startInstruction c b m).filter_isDeed
        | spending b i =>
          obtain ⟨p, -, -, -, hresumes⟩ := hm.resumes hx hphase
          refine hresumes.deeds.imp_right fun hexec => ?_
          obtain ⟨physical, hdeeds⟩ := hexec
          exact ⟨c, x, b, i, physical, by rw [hturns]; rfl, hx, hphase, hdeeds⟩
    · split
      · exact .inl (mute_advance.settle m _).filter_isDeed
      · exact .inl rfl
  · exact .inl rfl

/-- No instruction is executed against a stolen frame. In every state of a run, a CPU whose turn
comes after its tick executes its instruction where the frame of the instruction pointer belongs to
its page and the data, if there is any, lies in the frame of its page, and it spends no other tick
before that. Only a process that has left its text is gone instead. No other step executes
anything. -/
theorem executes_on_held (cpus : Nat) (useTlb : Bool) (policy : S) (specs : List ProcessSpec)
    (n : Nat) (hm : (new g cpus useTlb policy specs).stepN n = m) (hrun : m.isRunning = true) :
    (∀ c x b i, m.turns.head? = some c → m.cpus[c]? = some x → x.phase = .spending b i →
      m.step = m.settle (.cpuCrashed c) (cpuStep c) ∧ ∃ p, m.processes[b.pid]? = some p ∧
        i.text = p.trace.textAt x.regs.ip ∧ i.instruction = .decode i.text ∧
          m.Resumes c x b i p ((cpuStep c).run m)) ∧
      (m.step.2.filter Event.isDeed = [] ∨
        ∃ c x b i physical, m.turns.head? = some c ∧ m.cpus[c]? = some x ∧
          x.phase = .spending b i ∧
            m.step.2.filter Event.isDeed = [.executing c i.text b.pid x.regs.ip physical]) := by
  have hok : ∀ e, ((new g cpus useTlb policy specs).stepN n).status ≠ .aborted e := by
    intro e he
    rw [isRunning, ← hm, he] at hrun
    simp at hrun
  have hstands := (stands_new cpus useTlb policy specs).stepN n hok
  rw [hm] at hstands
  refine ⟨fun c x b i hhead hx hphase => ⟨?_, hstands.resumes hx hphase⟩, hstands.deeds_step⟩
  obtain ⟨cs, hturns⟩ := List.head?_eq_some_iff.mp hhead
  rw [Machine.step, if_pos hrun, hturns]

def contending : Machine Pager.fourFrames RoundRobin :=
  new Pager.fourFrames 3 false {} (List.replicate 3
    { name := "stores", quantum := 10
      trace := ⟨#["loadReg1Immediate 1", "Syscall_Alloc", "storeReg0Indirect 1", "Syscall_Exit"]⟩ })

theorem executes_on_held_stolen : ∃ x i p, (contending.stepN 25).cpus[0]? = some x ∧
    x.phase = .spending ⟨0, 2⟩ i ∧ i.frames.instruction = 0 ∧
    (contending.stepN 25).stillHolds? 0 x.regs.ip i.frames = some false ∧
    (contending.stepN 25).step.2.filter Event.isDeed =
      [.executing 0 "storeReg0Indirect 1" 0 (.ofNat 8) (.ofNat 24)] ∧
    (contending.stepN 25).Resumes 0 x ⟨0, 2⟩ i p ((cpuStep 0).run (contending.stepN 25)) := by
  let frames : InstructionFrames := ⟨0, some (.ofNat 17, 3)⟩
  have hstate : (fun m : Machine Pager.fourFrames RoundRobin => (m.isRunning, m.turns.head?,
      m.cpus[0]?.map (fun x => (x.phase, m.stillHolds? 0 x.regs.ip frames)),
      m.step.2.filter Event.isDeed)) (contending.stepN 25) =
        (true, some 0,
          some (.spending ⟨0, 2⟩ ⟨"storeReg0Indirect 1", .storeIndirect .r0 .r1, frames⟩,
            some false),
          [.executing 0 "storeReg0Indirect 1" 0 (.ofNat 8) (.ofNat 24)]) := by
    -- The kernel cannot open `mergeSort`, which is by well-founded recursion.
    simp only [stepN_eq_iterate, step, advance, releaseCpus, List.mergeSort_eq_insertionSort]
    decide +kernel
  obtain ⟨hrun, hrest⟩ := Prod.mk.inj hstate
  obtain ⟨hhead, hrest⟩ := Prod.mk.inj hrest
  obtain ⟨hcpu, hdeeds⟩ := Prod.mk.inj hrest
  obtain ⟨x, hx, hpair⟩ := Option.map_eq_some_iff.mp hcpu
  obtain ⟨hphase, hheld⟩ := Prod.mk.inj hpair
  obtain ⟨-, p, -, -, -, hresumes⟩ := (executes_on_held 3 false ({} : RoundRobin) _ 25 rfl hrun).1
    0 x _ _ hhead hx hphase
  exact ⟨x, _, p, hx, hphase, rfl, hheld, hdeeds, hresumes⟩

end Machine

end DemandPaging
