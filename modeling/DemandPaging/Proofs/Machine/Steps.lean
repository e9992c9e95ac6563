import DemandPaging.Proofs.Execute
import DemandPaging.Proofs.Machine.Turns
/-!
A turn of a CPU keeps the invariant with the deed that its events tell of: at most one instruction
is executed, and the registers and lines it leaves are those of the reference interpreter.
-/

namespace DemandPaging.Machine

open DemandPaging.Action

variable {g : Geometry} {S : Type}

/-- What an event of the step from `m` to `m'` tells of an executed instruction: the registers are
those that its CPU has afterwards, and the lines those by which the output has grown. -/
def Event.deed? (m m' : Machine g S) : Event → Option (ProcessId × Deed)
  | .executing c text pid ip _ => m'.cpus[c]?.map fun x =>
    (pid, ⟨ip, text, x.regs, m'.output.toList.drop m.output.size⟩)
  | _ => none

def deeds (m m' : Machine g S) (es : List Event) : History := es.filterMap (Event.deed? m m')

theorem deeds_of_silent (m m' : Machine g S) {es : List Event} (h : Silent es) :
    m.deeds m' es = [] :=
  List.filterMap_eq_nil_iff.mpr fun e he => by
    have hno := h e he
    cases e <;> simp [Event.isDeed] at hno <;> rfl

theorem deeds_append (m m' : Machine g S) (es es' : List Event) :
    m.deeds m' (es ++ es') = m.deeds m' es ++ m.deeds m' es' := List.filterMap_append

/-- The memory system of a machine is sound, and it keeps the invariant. -/
structure Stands (m : Machine g S) (specs : List ProcessSpec) (h : History) : Prop where
  sound : m.pager.Sound
  inv : m.view.Inv specs h

variable {m : Machine g S} {v : View g} {h : History} {specs : List ProcessSpec} {c : Nat}
  {x : Cpu} {pid : ProcessId} {t : Task} {mem : FlatMemory g}

theorem Shows.stands (hm : m.Shows v) (hi : v.Inv specs h) : m.Stands specs h :=
  ⟨hm.sound, hm.view ▸ hi⟩

/-- Run from `m` as a part of a step that began with this output, the action keeps the invariant
with the deeds that its events tell of. -/
def Keeps (specs : List ProcessSpec) (h : History) (output : List String) (y : Running g S Unit)
    (m : Machine g S) : Prop :=
  y.Meets m Regular fun _ m' es =>
    ∀ m₀ : Machine g S, m₀.output.toList = output → m'.Stands specs (h ++ m₀.deeds m' es)

theorem Quietly.keeps {y : Running g S Unit} {output : List String}
    (hy : Quietly y m fun _ m' => m'.Stands specs h) : Keeps specs h output y m :=
  Meets.mono hy fun _ m' es ⟨hs, hm⟩ m₀ _ => by
    rwa [deeds_of_silent m₀ m' hs, List.append_nil]

theorem Quietly.bind_keeps {α : Type} {y : Running g S α} {f : α → Running g S Unit}
    {P : α → Machine g S → Prop} {output : List String} (hy : Quietly y m P)
    (hf : ∀ a m', P a m' → Keeps specs h output (f a) m') : Keeps specs h output (y >>= f) m :=
  Meets.bind hy fun a m' es ⟨hs, hp⟩ =>
    Meets.mono (hf a m' hp) fun _ m'' es' hm m₀ ho => by
      rw [deeds_append, deeds_of_silent m₀ m'' hs, List.nil_append]
      exact hm m₀ ho

/-! Executing an instruction. -/

theorem shows_executed {x : Cpu} {e : Execution g} {done : Completion} {s : Solo g}
    {lines : List String} (c : Nat)
    (h : Execution.Executed pid { regs := x.regs, pager := m.pager } e done s lines) :
    ({ m with
      cpus := m.cpus.modify c fun x => { x with regs := e.regs }
      pager := e.pager, output := m.output ++ e.output } : Machine g S).Shows
        (m.view.executed c pid e.regs s.memory lines) := by
  have hout : (m.output ++ e.output).toList = m.output.toList ++ lines := by
    rw [Array.toList_append, h.output]
    rfl
  have hown : (fun i : Nat => e.pager.translators[i]?.map Translator.owner) = m.view.owners := by
    rw [h.owners]
    rfl
  refine ⟨h.sound, ?_⟩
  calc _ = { ({ m with cpus := m.cpus.modify c fun x => { x with regs := e.regs } } :
          Machine g S).view with
        owners := fun i : Nat => e.pager.translators[i]?.map Translator.owner
        memories := e.pager.flat
        output := (m.output ++ e.output).toList } := rfl
    _ = _ := by
      rw [hown, h.memory, hout, view_changeCpu]
      rfl

theorem quietly_onExecution (hm : m.Shows v) (hx : v.cpus c = some x)
    (hmem : v.memories pid = some mem) (base : VirtualAddress) (i : Instruction)
    {data : Option (VirtualAddress × FrameNumber)}
    (haddr : data.map Prod.fst = i.dataAddress? x.regs base)
    (hst : ∀ a f, data = some (a, f) →
      m.pager.stateOf ⟨pid, g.pageOf a⟩ = some (.resident f)) :
    Quietly (onExecution c
        (Execution.execute pid base (data.map fun (a, f) => g.physicalAddress f a) i)) m
      fun done m' => ∃ s lines regs,
        ({ regs := x.regs, memory := mem } : Solo g).execute? base i = some (s, lines) ∧
          Execution.Completed regs s done ∧ m'.Shows (v.executed c pid regs s.memory lines) := by
  have hflat : m.pager.flat pid = some mem := by rw [← hmem, ← hm.view]; rfl
  have hfollows := Execution.follows (e := { regs := x.regs, pager := m.pager }) hm.sound hflat
    base i haddr hst
  refine quietly_time_bind fun now => ?_
  refine (quietly_cpu_eq hm hx).bind ?_
  rintro x m₁ ⟨rfl, rfl⟩
  refine meets_within ?_
  unfold Execution.Follows Meets at hfollows
  unfold Meets
  split
  · next done e es hrun =>
    rw [hrun] at hfollows
    obtain ⟨s, lines, hsolo, hdone⟩ := hfollows
    refine ⟨fun ev he => ?_, s, lines, e.regs, hsolo, hdone.completed, ?_⟩
    · obtain ⟨_, -, rfl⟩ := List.mem_map.mp he
      rfl
    · rw [← hm.view]
      exact shows_executed c hdone
  · next r _ _ _ => cases r <;> nofun

theorem cpus_executed (hx : v.cpus c = some x) (pid : ProcessId) (regs : Registers)
    (memory : FlatMemory g) (lines : List String) :
    (v.executed c pid regs memory lines).cpus c = some { x with regs } := by
  simp [View.executed, View.changeCpu, hx]

/-- What the view shows after an instruction: the invariant, and what its deed is read from. -/
structure Executed (specs : List ProcessSpec) (h : History) (v : View g) (c : Nat)
    (pid : ProcessId) (d : Deed) (m' : Machine g S) : Prop where
  stands : m'.Stands specs (h ++ [(pid, d)])
  regs : m'.cpus[c]?.map Cpu.regs = some d.regs
  output : m'.output.toList = v.output ++ d.lines

theorem Shows.executed {m' : Machine g S} {v' : View g} {d : Deed} (hm : m'.Shows v')
    (hi : v'.Inv specs (h ++ [(pid, d)])) (hregs : (v'.cpus c).map Cpu.regs = some d.regs)
    (hout : v'.output = v.output ++ d.lines) : Executed specs h v c pid d m' :=
  ⟨hm.stands hi, by rw [← hregs, ← hm.view]; rfl, by rw [← hout, ← hm.view]; rfl⟩

theorem Executed.keeps {m' : Machine g S} {d : Deed} {es : List Event}
    (hd : Executed specs h v c pid d m') (hs : Silent es) (physical : PhysicalAddress)
    {m₀ : Machine g S} (ho : m₀.output.toList = v.output) :
    m'.Stands specs (h ++ m₀.deeds m' (.executing c d.text pid d.ip physical :: es)) := by
  have hlines : m'.output.toList.drop m₀.output.size = d.lines := by
    rw [hd.output, ← ho]
    exact List.drop_left ..
  have hdeed : m₀.deeds m' (.executing c d.text pid d.ip physical :: es) = [(pid, d)] := by
    obtain ⟨y, hy, hregs⟩ := Option.map_eq_some_iff.mp hd.regs
    rw [deeds, List.filterMap_cons_some (b := (pid, d))]
    · exact congrArg _ (deeds_of_silent m₀ m' hs)
    · rw [Event.deed?, hy, Option.map_some, hregs, hlines]
  rw [hdeed]
  exact hd.stands

theorem exists_stillHolds? (m : Machine g S) (pid : ProcessId) (ip : VirtualAddress)
    {frames : InstructionFrames} (hframe : frames.instruction < g.frameCount)
    (hdata : ∀ a f, frames.data = some (a, f) → f < g.frameCount) :
    ∃ held, m.stillHolds? pid ip frames = some held := by
  have hheld (a : VirtualAddress) {f : FrameNumber} (hf : f < g.frameCount) :
      ∃ held, m.pager.holds? pid a f = some held := by
    obtain ⟨o, ho⟩ := m.pager.frames.exists_owner? hf
    exact ⟨o == some ⟨pid, g.pageOf a⟩, congrArg (Option.map _) ho⟩
  obtain ⟨held, hip⟩ := hheld ip hframe
  cases hframes : frames.data with
  | none => exact ⟨held, by cases held <;> simp [stillHolds?, hip, hframes]⟩
  | some d =>
    obtain ⟨a, f⟩ := d
    obtain ⟨held', ha⟩ := hheld a (hdata a f hframes)
    cases held with
    | false => exact ⟨false, by simp [stillHolds?, hip]⟩
    | true => exact ⟨held', by simp [stillHolds?, hip, hframes, ha]⟩

theorem stateOf_of_holds? (hm : m.pager.Sound) {a : VirtualAddress} {f : FrameNumber}
    (hold : m.pager.holds? pid a f = some true) :
    m.pager.stateOf ⟨pid, g.pageOf a⟩ = some (.resident f) := by
  obtain ⟨o, ho, heq⟩ := Option.map_eq_some_iff.mp hold
  rw [beq_iff_eq] at heq
  exact (hm.books.owner_iff f _ nofun).mp (ho.trans (congrArg some heq))

theorem stateOf_of_stillHolds?_ip (hm : m.pager.Sound) {ip : VirtualAddress}
    {frames : InstructionFrames} (hold : m.stillHolds? pid ip frames = some true) :
    m.pager.stateOf ⟨pid, g.pageOf ip⟩ = some (.resident frames.instruction) := by
  obtain ⟨held, hip, hheld⟩ := Option.bind_eq_some_iff.mp hold
  cases held with
  | false => simp at hheld
  | true => exact stateOf_of_holds? hm hip

theorem stateOf_of_stillHolds? (hm : m.pager.Sound) {ip : VirtualAddress}
    {frames : InstructionFrames} (hold : m.stillHolds? pid ip frames = some true)
    {a : VirtualAddress} {f : FrameNumber} (hd : frames.data = some (a, f)) :
    m.pager.stateOf ⟨pid, g.pageOf a⟩ = some (.resident f) := by
  obtain ⟨held, -, hheld⟩ := Option.bind_eq_some_iff.mp hold
  rw [hd] at hheld
  cases held with
  | false => simp at hheld
  | true => exact stateOf_of_holds? hm hheld

theorem stands_of_terminated (hi : v.Inv specs h) (hr : v.Runs h c x pid t mem) {i : Instruction}
    (hinstr : i = .decode (t.trace.textAt x.regs.ip))
    (hend : AttemptEnd v m c x.regs pid t.textPages (i.dataAddress? x.regs t.dataBase)
      .terminated) : m.Stands specs h := by
  obtain ⟨hm, hastray⟩ := hend
  rw [hinstr] at hastray
  exact hm.stands (hi.exited hr (hr.step?_of_astray hastray))

theorem quietly_dispatch (hm : m.Shows v) (c : Nat) (p : Process) :
    Quietly (dispatch c p) m fun _ m' => m'.Shows (v.dispatched c p.pid p.saved) := by
  refine quietly_time_bind fun now => ?_
  refine (quietly_changeProcess hm p.pid (fun t => { t with status := .running c })
    fun _ => rfl).bind ?_
  intro _ m₁ hm₁
  refine (quietly_changeCpu hm₁ c _).bind ?_
  intro _ m₂ hm₂
  refine (quietly_dispatchTranslator hm₂ c p.pid).bind ?_
  intro _ m₃ hm₃
  refine (quietly_report rfl).mono ?_
  rintro _ _ rfl
  exact hm₃

variable [Scheduler S]

section Complete

variable {b : Burst} {regs : Registers} {s s' : Solo g} {d : Deed}

theorem quietly_exitProcess_executed (hi : v.Inv specs h) (hr : v.Runs h c x b.pid t mem)
    (hm : m.Shows (v.executed c b.pid regs s'.memory d.lines)) (hd : d.regs = regs)
    (hreach : Reaches (h ++ [(b.pid, d)]) b.pid t.trace s) (hend : s.step? t.trace = none) :
    Quietly (exitProcess c b) m fun _ m' => Executed specs h v c b.pid d m' := by
  have hx := cpus_executed hr.cpu b.pid regs s'.memory d.lines
  refine (quietly_exitProcess hm hx b).mono fun _ m' hm' => hm'.executed (hi.ended hr hreach hend)
    ?_ rfl
  simp [View.exited, View.setStatus, View.undispatched, View.changeTask, View.changeCpu, hx, hd]

theorem quietly_complete (hi : v.Inv specs h) (hr : v.Runs h c x b.pid t mem)
    (hm : m.Shows (v.executed c b.pid regs s'.memory d.lines)) (hd : d.regs = s'.regs)
    (hreach : Reaches (h ++ [(b.pid, d)]) b.pid t.trace s)
    (hend : s'.ended = true → s.step? t.trace = none) (hlive : s'.ended = false → s = s')
    {done : Completion} (hdone : Execution.Completed regs s' done) (text : String)
    (ip : VirtualAddress) :
    Quietly (complete c b text ip done) m fun _ m' => Executed specs h v c b.pid d m' := by
  have hx := cpus_executed hr.cpu b.pid regs s'.memory d.lines
  match done, hdone with
  | .next next, hdone =>
    obtain ⟨hregs, hended⟩ := hdone
    obtain rfl := hlive hended
    refine (quietly_changeCpu hm c _).mono fun _ m' hm' =>
      hm'.executed (hi.wentOn hr rfl hreach hended hregs) ?_ rfl
    rw [hd, hregs, View.changeCpu, hx]
    simp
  | .block next ticks, hdone =>
    obtain ⟨hregs, hended⟩ := hdone
    obtain rfl := hlive hended
    refine (quietly_changeCpu hm c _).bind ?_
    intro _ m₁ hm₁
    have hx₁ : ((v.executed c b.pid regs s.memory d.lines).changeCpu c fun y =>
        { y with regs := { y.regs with ip := next } }).cpus c =
          some { x with regs := { regs with ip := next } } := by
      rw [View.changeCpu, hx]
      simp
    refine (quietly_blockProcess hm₁ hx₁ b ticks).mono fun _ m' hm' =>
      hm'.executed (hi.blocked hr rfl hreach hended hregs) ?_ rfl
    simp [View.setStatus, View.undispatched, View.changeTask, View.changeCpu, hx, hd, hregs]
  | .signal .exit, hdone =>
    obtain ⟨hregs, hended⟩ := hdone
    exact quietly_exitProcess_executed hi hr hm (hd.trans hregs) hreach (hend hended)
  | .signal .invalidInstruction, hdone =>
    obtain ⟨hregs, hended⟩ := hdone
    refine quietly_report_bind rfl ?_
    exact quietly_exitProcess_executed hi hr hm (hd.trans hregs) hreach (hend hended)
  | .signal .allocationFailure, hdone =>
    obtain ⟨hregs, hended⟩ := hdone
    refine (quietly_process b.pid).bind ?_
    rintro p m₁ ⟨-, rfl⟩
    refine quietly_report_bind rfl ?_
    exact quietly_exitProcess_executed hi hr hm (hd.trans hregs) hreach (hend hended)

end Complete

theorem keeps_executeOn (hm : m.Shows v) (hi : v.Inv specs h) {b : Burst}
    (hr : v.Runs h c x b.pid t mem) {i : InFlight} {frames : InstructionFrames}
    (htext : i.text = t.trace.textAt x.regs.ip) (hinstr : i.instruction = .decode i.text)
    (haddr : frames.data.map Prod.fst = i.instruction.dataAddress? x.regs t.dataBase)
    (hst : ∀ a f, frames.data = some (a, f) →
      m.pager.stateOf ⟨b.pid, g.pageOf a⟩ = some (.resident f)) :
    Keeps specs h v.output (executeOn c b i frames) m := by
  refine (quietly_cpu_eq hm hr.cpu).bind_keeps ?_
  rintro x m₁ ⟨rfl, rfl⟩
  refine Meets.bind (P := fun _ m' es => m' = m₁ ∧ es = [.executing c i.text b.pid x.regs.ip
    (g.physicalAddress frames.instruction x.regs.ip)]) (meets_report ⟨rfl, rfl⟩) ?_
  rintro _ m₁ _ ⟨rfl, rfl⟩
  have hrest : Quietly (process b.pid >>= fun p =>
      onExecution c (Execution.execute b.pid p.dataBase
        (frames.data.map fun (a, f) => g.physicalAddress f a) i.instruction) >>= fun done =>
      complete c b i.text x.regs.ip done) m₁ fun _ m' => ∃ s : Solo g, ∃ lines,
        Executed specs h v c b.pid ⟨x.regs.ip, i.text, s.regs, lines⟩ m' := by
    refine (quietly_task hm hr.task).bind ?_
    rintro p m₁ ⟨rfl, rfl⟩
    refine (quietly_onExecution hm hr.cpu hr.memory p.dataBase i.instruction haddr hst).bind ?_
    rintro done m₂ ⟨s', lines, regs, hsolo, hdone, hm₂⟩
    rw [hinstr, htext] at hsolo
    obtain ⟨s, hreach, hend, hlive⟩ := hr.deed hsolo
    rw [← htext] at hreach
    exact (quietly_complete hi hr hm₂ rfl hreach hend hlive hdone _ _).mono
      fun _ m' hd => ⟨s', lines, hd⟩
  exact Meets.mono hrest fun _ m' es ⟨hs, s', lines, hd⟩ m₀ ho => hd.keeps hs _ ho

/-! The turns of a CPU. -/

theorem keeps_finishInstruction (hm : m.Shows v) (hi : v.Inv specs h) {b : Burst}
    (hr : v.Runs h c x b.pid t mem) {i : InFlight} (hphase : x.phase = .spending b i) :
    Keeps specs h v.output (finishInstruction c b i) m := by
  obtain ⟨-, u, hu, -, -, hspent⟩ := hi.cpu c x hr.cpu b.pid hr.current
  obtain rfl : t = u := by
    rw [hr.task] at hu
    exact Option.some.inj hu
  obtain ⟨htext, hinstr, -, haddr, -⟩ := hspent b i hphase
  refine (quietly_changeAccount hm b.pid
    (f := fun a => { a with executedTicks := a.executedTicks + 1 }) fun _ => rfl).bind_keeps ?_
  intro _ m₁ hm₁
  refine (quietly_cpu c).bind_keeps ?_
  rintro y m₂ ⟨hy, rfl⟩
  refine quietly_get.bind_keeps ?_
  rintro _ m₃ ⟨rfl, rfl⟩
  refine (quietly_ofOption (regular_crash _)).bind_keeps ?_
  rintro held m₃ ⟨hheld, rfl⟩
  cases held with
  | true =>
    rw [if_pos rfl]
    exact keeps_executeOn (b := { b with ticks := b.ticks + 1 }) hm₁ hi hr htext hinstr haddr
      fun a f hd => stateOf_of_stillHolds? hm₁.sound hheld hd
  | false =>
    -- a frame was stolen while the tick was spent: nothing was executed, the registers stand
    rw [if_neg nofun]
    refine (quietly_process b.pid).bind_keeps ?_
    rintro p m₄ ⟨-, rfl⟩
    refine quietly_time.bind_keeps ?_
    rintro now m₄ ⟨-, rfl⟩
    refine (quietly_report rfl).bind_keeps ?_
    rintro _ m₄ rfl
    refine (quietly_resolve hm₁ hr.cpu { b with ticks := b.ticks + 1 } hr.task hr.owner
      i.instruction).bind_keeps ?_
    rintro (_ | frames) m₅ hend
    · exact (quietly_pure (stands_of_terminated hi hr (by rw [hinstr, htext]) hend)).keeps
    · obtain ⟨hm₅, -, haddr, hst⟩ := hend
      exact keeps_executeOn (b := { b with ticks := b.ticks + 1 }) hm₅ hi hr htext hinstr haddr hst

theorem quietly_startInstruction (hm : m.Shows v) (hi : v.Inv specs h) {b : Burst}
    (hr : v.Runs h c x b.pid t mem) :
    Quietly (startInstruction c b) m fun _ m' => m'.Stands specs h := by
  refine (quietly_task hm hr.task).bind ?_
  rintro p m₁ ⟨rfl, rfl⟩
  split
  · exact (quietly_expireQuantum hm hr.cpu b).mono fun _ m' hm' => hm'.stands (hi.expired hr)
  · refine (quietly_cpu_eq hm hr.cpu).bind ?_
    rintro x m₁ ⟨rfl, rfl⟩
    refine (quietly_resolve hm hr.cpu b hr.task hr.owner _).bind ?_
    rintro (_ | frames) m₂ hend
    · exact quietly_pure (stands_of_terminated hi hr rfl hend)
    · obtain ⟨hm₂, hfetch, haddr, hst⟩ := hend
      refine (quietly_tickAfter 1).bind ?_
      rintro wake _ rfl
      refine (quietly_changeCpu hm₂ c _).bind ?_
      intro _ m₃ hm₃
      exact (quietly_park hm₃ c (some wake)).mono fun _ m' hm' =>
        hm'.stands (hi.spending hr rfl ⟨rfl, rfl, hm₂.sound.resident_lt hfetch, haddr,
          fun a f hd => ⟨hm₂.sound.resident_lt (hst a f hd),
            fun mem hmem => hm₂.isSome_of_resident hmem (hst a f hd)⟩⟩)

theorem quietly_ask (hm : m.Shows v) (hi : v.Inv specs h) (hx : v.cpus c = some x)
    (hidle : x.current? = none) : Quietly (ask c) m fun _ m' => m'.Stands specs h := by
  refine (quietly_policy hm _).bind ?_
  rintro (_ | pid) m₁ hm₁
  · refine quietly_time_bind fun now => ?_
    refine quietly_report_bind rfl ?_
    exact (quietly_park hm₁ c none).mono fun _ m' hm' => hm'.stands hi
  · refine (quietly_process pid).bind ?_
    rintro p m₂ ⟨hp, rfl⟩
    split
    · refine quietly_time_bind fun now => ?_
      exact quietly_fail_bind nofun
    · next hready =>
      have ht := hm₁.task hp
      have hpid : p.pid = pid := (hi.task pid p.task ht).pid_eq
      refine (quietly_dispatch hm₁ c p).mono fun _ m' hm' => ?_
      rw [hpid] at hm'
      exact hm'.stands (hi.dispatched hx hidle ht (not_not.mp hready))

theorem keeps_cpuStep (hm : m.Stands specs h) (c : Nat) :
    Keeps specs h m.output.toList (cpuStep c) m := by
  have hshows : m.Shows m.view := ⟨hm.sound, rfl⟩
  refine (quietly_cpu c).bind_keeps ?_
  rintro x m₁ ⟨hx, rfl⟩
  have hx := hshows.cpu hx
  split
  · next hphase =>
    exact (quietly_ask hshows hm.inv hx (Cpu.current?_of_asking hphase)).keeps
  · next b hphase =>
    have hcur := Cpu.current?_of_bursting hphase
    obtain ⟨t, mem, hr⟩ := hm.inv.runs hx hcur
    exact (quietly_startInstruction hshows hm.inv hr).keeps
  · next b i hphase =>
    have hcur := Cpu.current?_of_spending hphase
    obtain ⟨t, mem, hr⟩ := hm.inv.runs hx hcur
    exact keeps_finishInstruction hshows hm.inv hr hphase

end DemandPaging.Machine
