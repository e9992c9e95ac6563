import DemandPaging.Proofs.Machine.View
import DemandPaging.Proofs.Reference
/-!
What holds of a machine between two steps, as far as its view and the deeds so far tell: every
started process stands where the reference interpreter stands after as many deeds, every CPU holds
registers of the one process that runs on it, and nobody waits twice.
-/

namespace DemandPaging

variable {g : Geometry}

abbrev History := List (ProcessId × Deed)

namespace History

def of (h : History) (pid : ProcessId) : List Deed :=
  (h.filter fun x => x.1 = pid).map Prod.snd

theorem of_append_self (h : History) (pid : ProcessId) (d : Deed) :
    of (h ++ [(pid, d)]) pid = h.of pid ++ [d] := by
  simp [of]

theorem of_append_of_ne (h : History) {pid q : ProcessId} (hne : q ≠ pid) (d : Deed) :
    of (h ++ [(pid, d)]) q = h.of q := by
  simp [of, Ne.symm hne]

end History

/-- The deeds at instruction pointers inside the text. -/
def Trace.inText (g : Geometry) (t : Trace) (deeds : List Deed) : List Deed :=
  deeds.filter fun d => g.pageOf d.ip < t.textPages g

/-- The reference interpreter stands here after as many steps as a process has done deeds inside
its text, and these are its deeds. The others printed nothing. Its text is in its memory. -/
structure Reaches (h : History) (pid : ProcessId) (t : Trace) (s : Solo g) : Prop where
  run : Solo.run? g t (t.inText g (h.of pid)).length = some (t.inText g (h.of pid), s)
  lost : ∀ d ∈ h.of pid, t.textPages g ≤ g.pageOf d.ip → d.lines = []
  text : ∀ p, p < t.textPages g → (s.memory p).isSome

namespace Reaches

variable {h : History} {pid : ProcessId} {t : Trace} {s s' : Solo g} {d : Deed}

theorem start (hno : h.of pid = []) : Reaches h pid t (Solo.start g t) := by
  refine ⟨by rw [hno]; rfl, by rw [hno]; nofun, fun p hp => ?_⟩
  change (FlatMemory.empty.allocate 0 (t.textPages g) p).isSome = true
  rw [FlatMemory.allocate, if_pos ⟨Nat.zero_le p, by rwa [Nat.zero_add]⟩]
  rfl

theorem deed (hr : Reaches h pid t s) (hs : s.step? t = some (d, s')) :
    Reaches (h ++ [(pid, d)]) pid t s' := by
  obtain ⟨hin, base, lines, hx⟩ := Solo.of_step?_eq_some hs
  have happend : t.inText g (History.of (h ++ [(pid, d)]) pid) = t.inText g (h.of pid) ++ [d] := by
    rw [History.of_append_self, Trace.inText, List.filter_append]
    simp [hin, Trace.inText]
  refine ⟨?_, fun e he hout => ?_, fun p hp => Solo.isSome_memory_of_execute? hx (hr.text p hp)⟩
  · rw [happend, List.length_append, List.length_singleton, Solo.run?_succ_of_step? hr.run hs]
  · rw [History.of_append_self, List.mem_append, List.mem_singleton] at he
    rcases he with he | rfl
    · exact hr.lost e he hout
    · exact absurd hin (Nat.not_lt.mpr hout)

theorem outside (hr : Reaches h pid t s) (hout : t.textPages g ≤ g.pageOf d.ip)
    (hlines : d.lines = []) : Reaches (h ++ [(pid, d)]) pid t s := by
  have happend : t.inText g (History.of (h ++ [(pid, d)]) pid) = t.inText g (h.of pid) := by
    rw [History.of_append_self, Trace.inText, List.filter_append]
    simp [Nat.not_lt.mpr hout, Trace.inText]
  refine ⟨happend ▸ hr.run, fun e he hout => ?_, hr.text⟩
  rw [History.of_append_self, List.mem_append, List.mem_singleton] at he
  rcases he with he | rfl
  · exact hr.lost e he hout
  · exact hlines

end Reaches

namespace View

/-- The registers of a process: those of its CPU while it runs. -/
def regsOf (v : View g) (t : Task) : Registers :=
  match t.status with
  | .running c => ((v.cpus c).map Cpu.regs).getD t.saved
  | _ => t.saved

/-- A process stands where the reference interpreter does; one that has exited stands where the
reference interpreter has no further step. -/
def StandsAt (v : View g) (pid : ProcessId) (t : Task) (s : Solo g) : Prop :=
  (t.status = .exited → s.step? t.trace = none) ∧
    (t.status ≠ .exited →
      s.ended = false ∧ s.regs = v.regsOf t ∧ v.memories pid = some s.memory)

structure Traced (v : View g) (h : History) (pid : ProcessId) (t : Task) : Prop where
  textPages : t.textPages = t.trace.textPages g
  dataBase : t.dataBase = t.trace.dataBase g
  stands : ∃ s, Reaches h pid t.trace s ∧ v.StandsAt pid t s

structure TaskInv (v : View g) (h : History) (pid : ProcessId) (t : Task) : Prop where
  pid_eq : t.pid = pid
  runs : ∀ c, t.status = .running c → ∃ x, v.cpus c = some x ∧ x.current? = some pid
  waits : v.waiting pid ≠ 0 → v.waiting pid = 1 ∧
    (t.started = false ∧ t.status = .pending ∨ t.started = true ∧ t.status = .blocked)
  unstarted : t.started = false → (t.status = .pending ∨ t.status = .exited) ∧
    v.memories pid = none ∧ h.of pid = []
  traced : t.started = true → v.Traced h pid t
  gone : t.status = .exited → v.memories pid = none

/-- An instruction whose tick is being spent: it is the one at the instruction pointer, it came out
of a frame, and its data address, if it has one, was translated and lies on a page that the process
has. -/
structure Flight (g : Geometry) (t : Task) (mem : Option (FlatMemory g)) (regs : Registers)
    (i : InFlight) : Prop where
  text : i.text = t.trace.textAt regs.ip
  instruction : i.instruction = .decode i.text
  frame : i.frames.instruction < g.frameCount
  data : i.frames.data.map Prod.fst = i.instruction.dataAddress? regs t.dataBase
  allocated : ∀ a f, i.frames.data = some (a, f) → f < g.frameCount ∧
    ∀ m, mem = some m → (m (g.pageOf a)).isSome

/-- What holds of one CPU: its process runs on it and is served by its translator, and what is in
flight is an instruction of that process. -/
def CpuInv (v : View g) (c : Nat) : Prop :=
  ∀ x, v.cpus c = some x → ∀ pid, x.current? = some pid →
    v.owners c = some (some pid) ∧ ∃ t, v.tasks pid = some t ∧ t.started = true ∧
      t.status = .running c ∧
        ∀ b i, x.phase = .spending b i → Flight g t (v.memories pid) x.regs i

structure Inv (specs : List ProcessSpec) (v : View g) (h : History) : Prop where
  trace : ∀ pid : ProcessId, (v.tasks pid).map Task.trace = specs[pid]?.map ProcessSpec.trace
  known : ∀ pid, v.waiting pid ≠ 0 → (v.tasks pid).isSome
  strangers : ∀ pid, v.tasks pid = none → v.memories pid = none
  task : ∀ pid t, v.tasks pid = some t → v.TaskInv h pid t
  cpu : ∀ c, v.CpuInv c
  output : v.output = h.flatMap fun (_, d) => d.lines
  alive : ∀ e, v.status ≠ .aborted e

variable {v v' : View g} {h h' : History} {pid : ProcessId} {t : Task} {c : Nat}
  {specs : List ProcessSpec}

theorem TaskInv.frame (hi : v.TaskInv h pid t) (hmem : v'.memories pid = v.memories pid)
    (hwait : v'.waiting pid = v.waiting pid)
    (hcpu : ∀ c, t.status = .running c → v'.cpus c = v.cpus c)
    (hdeeds : h'.of pid = h.of pid) :
    v'.TaskInv h' pid t := by
  have hregs : v'.regsOf t = v.regsOf t := by
    unfold regsOf
    split
    · next c hc => rw [hcpu c hc]
    · rfl
  refine ⟨hi.pid_eq, fun c hc => ?_, fun hw => ?_, fun hs => ?_, fun hs => ?_,
    fun hs => hmem.trans (hi.gone hs)⟩
  · rw [hcpu c hc]
    exact hi.runs c hc
  · rw [hwait] at hw ⊢
    exact hi.waits hw
  · obtain ⟨hstatus, hnomem, hno⟩ := hi.unstarted hs
    exact ⟨hstatus, by rw [hmem, hnomem], by rw [hdeeds, hno]⟩
  · obtain ⟨htp, hdb, s, ⟨hrun, hlost, htext⟩, hexit, hlive⟩ := hi.traced hs
    refine ⟨htp, hdb, s, ⟨by rw [hdeeds, hrun], hdeeds ▸ hlost, htext⟩, hexit, fun hne => ?_⟩
    rw [hregs, hmem]
    exact hlive hne

theorem CpuInv.frame (hi : v.CpuInv c) (hcpu : v'.cpus c = v.cpus c)
    (howner : v'.owners c = v.owners c)
    (htask : ∀ x pid, v.cpus c = some x → x.current? = some pid →
      v'.tasks pid = v.tasks pid ∧ v'.memories pid = v.memories pid) :
    v'.CpuInv c := by
  intro x hx pid hpid
  rw [hcpu] at hx
  obtain ⟨htask, hmem⟩ := htask x pid hx hpid
  rw [howner, htask, hmem]
  exact hi x hx pid hpid

/-- Two views differ only where one process and some CPUs are concerned. -/
structure Elsewhere (pid : ProcessId) (cs : Nat → Prop) (v v' : View g) : Prop where
  tasks : ∀ q, q ≠ pid → v'.tasks q = v.tasks q
  memories : ∀ q, q ≠ pid → v'.memories q = v.memories q
  waiting : ∀ q, q ≠ pid → v'.waiting q = v.waiting q
  cpus : ∀ i, ¬cs i → v'.cpus i = v.cpus i
  owners : ∀ i, ¬cs i → v'.owners i = v.owners i
  status : v'.status = v.status

/-- The invariant survives a change of one process and of the CPUs that run it, as long as it
holds of these afterwards. -/
theorem Inv.change (hi : v.Inv specs h) {cs : Nat → Prop} (he : Elsewhere pid cs v v')
    (honly : ∀ i x q, cs i → v.cpus i = some x → x.current? = some q → q = pid)
    (hruns : ∀ t i, v.tasks pid = some t → t.status = .running i → cs i)
    (hdeeds : ∀ q, q ≠ pid → h'.of q = h.of q)
    (htask : ∃ t t', v.tasks pid = some t ∧ v'.tasks pid = some t' ∧ t'.trace = t.trace ∧
      v'.TaskInv h' pid t')
    (hcpu : ∀ i, cs i → v'.CpuInv i) (hout : v'.output = h'.flatMap fun (_, d) => d.lines) :
    v'.Inv specs h' := by
  obtain ⟨t, t', ht, ht', htrace, hinv⟩ := htask
  refine ⟨fun q => ?_, fun q hw => ?_, fun q hq => ?_, fun q u hu => ?_, fun i => ?_, hout,
    he.status ▸ hi.alive⟩
  · by_cases hq : q = pid
    · rw [← hi.trace q, hq, ht, ht', Option.map_some, Option.map_some, htrace]
    · rw [he.tasks q hq, hi.trace q]
  · by_cases hq : q = pid
    · rw [hq, ht']
      rfl
    · rw [he.waiting q hq] at hw
      rw [he.tasks q hq]
      exact hi.known q hw
  · have hne : q ≠ pid := by
      rintro rfl
      rw [ht'] at hq
      simp at hq
    rw [he.tasks q hne] at hq
    exact (he.memories q hne).trans (hi.strangers q hq)
  · by_cases hq : q = pid
    · subst hq
      rw [ht'] at hu
      exact Option.some.inj hu ▸ hinv
    · rw [he.tasks q hq] at hu
      have hold := hi.task q u hu
      refine hold.frame (he.memories q hq) (he.waiting q hq) (fun c hc => he.cpus c fun hcs => ?_)
        (hdeeds q hq)
      obtain ⟨x, hx, hcur⟩ := hold.runs c hc
      exact hq (honly c x q hcs hx hcur)
  · by_cases hcs : cs i
    · exact hcpu i hcs
    · refine (hi.cpu i).frame (he.cpus i hcs) (he.owners i hcs) fun x q hx hcur => ?_
      have hne : q ≠ pid := fun hq => hcs <| by
        obtain ⟨-, u, hu, -, hstatus, -⟩ := hi.cpu i x hx q hcur
        exact hruns u i (hq ▸ hu) hstatus
      exact ⟨he.tasks q hne, he.memories q hne⟩

structure Runs (v : View g) (h : History) (c : Nat) (x : Cpu) (pid : ProcessId) (t : Task)
    (mem : FlatMemory g) : Prop where
  cpu : v.cpus c = some x
  current : x.current? = some pid
  owner : v.owners c = some (some pid)
  task : v.tasks pid = some t
  pid_eq : t.pid = pid
  started : t.started = true
  status : t.status = .running c
  waiting : v.waiting pid = 0
  memory : v.memories pid = some mem
  textPages : t.textPages = t.trace.textPages g
  dataBase : t.dataBase = t.trace.dataBase g
  reaches : Reaches h pid t.trace { regs := x.regs, memory := mem }

theorem Inv.runs (hi : v.Inv specs h) {x : Cpu} (hx : v.cpus c = some x)
    (hcur : x.current? = some pid) : ∃ t mem, v.Runs h c x pid t mem := by
  obtain ⟨howner, t, ht, hstarted, hstatus, -⟩ := hi.cpu c x hx pid hcur
  have hinv := hi.task pid t ht
  obtain ⟨htp, hdb, s, hreach, -, hlive⟩ := hinv.traced hstarted
  obtain ⟨hended, hregs, hmem⟩ := hlive (by rw [hstatus]; nofun)
  have hx' : v.regsOf t = x.regs := by
    rw [regsOf, hstatus]
    simp only [hx, Option.map_some, Option.getD_some]
  have hs : s = { regs := x.regs, memory := s.memory } := by
    rw [← hx', ← hregs, ← hended]
  refine ⟨t, s.memory, hx, hcur, howner, ht, hinv.pid_eq, hstarted, hstatus, ?_, hmem, htp, hdb,
    hs ▸ hreach⟩
  by_contra hw
  rcases (hinv.waits hw).2 with ⟨-, hp⟩ | ⟨-, hb⟩
  · rw [hstatus] at hp
    simp at hp
  · rw [hstatus] at hb
    simp at hb

theorem Inv.change_running (hi : v.Inv specs h) {x : Cpu} {t : Task} {mem : FlatMemory g}
    (hr : v.Runs h c x pid t mem) (he : Elsewhere pid (· = c) v v')
    (hdeeds : ∀ q, q ≠ pid → h'.of q = h.of q)
    (htask : ∃ t', v'.tasks pid = some t' ∧ t'.trace = t.trace ∧ v'.TaskInv h' pid t')
    (hcpu : v'.CpuInv c) (hout : v'.output = h'.flatMap fun (_, d) => d.lines) :
    v'.Inv specs h' := by
  obtain ⟨t', ht', htrace, hinv⟩ := htask
  refine hi.change he ?_ ?_ hdeeds ⟨t, t', hr.task, ht', htrace, hinv⟩ ?_ hout
  · rintro i y q rfl hy hcur
    rw [hr.cpu] at hy
    obtain rfl := Option.some.inj hy
    rw [hr.current] at hcur
    exact (Option.some.inj hcur).symm
  · intro u i hu hstatus
    rw [hr.task] at hu
    obtain rfl := Option.some.inj hu
    rw [hr.status] at hstatus
    exact (ProcessStatus.running.inj hstatus).symm
  · rintro i rfl
    exact hcpu

namespace Elsewhere

variable {cs : Nat → Prop}

protected theorem refl (v : View g) : Elsewhere pid cs v v :=
  ⟨fun _ _ => rfl, fun _ _ => rfl, fun _ _ => rfl, fun _ _ => rfl, fun _ _ => rfl, rfl⟩

protected theorem trans {u : View g} (h : Elsewhere pid cs v u) (h' : Elsewhere pid cs u v') :
    Elsewhere pid cs v v' :=
  ⟨fun q hq => (h'.tasks q hq).trans (h.tasks q hq),
    fun q hq => (h'.memories q hq).trans (h.memories q hq),
    fun q hq => (h'.waiting q hq).trans (h.waiting q hq),
    fun i hi => (h'.cpus i hi).trans (h.cpus i hi),
    fun i hi => (h'.owners i hi).trans (h.owners i hi), h'.status.trans h.status⟩

theorem changeTask (v : View g) (pid : ProcessId) (f : Task → Task) :
    Elsewhere pid cs v (v.changeTask pid f) :=
  { Elsewhere.refl v with tasks := fun _ hq => Function.update_of_ne hq _ _ }

theorem changeCpu (v : View g) (pid : ProcessId) (c : Nat) (f : Cpu → Cpu) :
    Elsewhere pid (· = c) v (v.changeCpu c f) :=
  { Elsewhere.refl v with cpus := fun _ hi => Function.update_of_ne hi _ _ }

theorem memory (v : View g) (pid : ProcessId) (mem : Option (FlatMemory g)) :
    Elsewhere pid cs v { v with memories := Function.update v.memories pid mem } :=
  { Elsewhere.refl v with memories := fun _ hq => Function.update_of_ne hq _ _ }

theorem wait (v : View g) (pid : ProcessId) (n : Nat) :
    Elsewhere pid cs v { v with waiting := Function.update v.waiting pid n } :=
  { Elsewhere.refl v with waiting := fun _ hq => Function.update_of_ne hq _ _ }

theorem owner (v : View g) (pid : ProcessId) (c : Nat) (o : Option (Option ProcessId)) :
    Elsewhere pid (· = c) v { v with owners := Function.update v.owners c o } :=
  { Elsewhere.refl v with owners := fun _ hi => Function.update_of_ne hi _ _ }

theorem undispatched (v : View g) (c : Nat) (pid : ProcessId) (regs : Registers) :
    Elsewhere pid (· = c) v (v.undispatched c pid regs) :=
  (changeTask v pid _).trans (changeCpu _ pid c _)

theorem exited (v : View g) (c : Nat) (pid : ProcessId) (regs : Registers) :
    Elsewhere pid (· = c) v (v.exited c pid regs) :=
  ((undispatched v c pid regs).trans (changeTask _ pid _)).trans (memory _ pid none)

end Elsewhere

theorem Inv.left (hi : v.Inv specs h) {x : Cpu} {t : Task} {mem : FlatMemory g}
    (hr : v.Runs h c x pid t mem) (he : Elsewhere pid (· = c) v v') {s : Solo g}
    {saved : Registers} {status : ProcessStatus}
    (htask : v'.tasks pid = some { t with saved, status })
    (hoff : status = .ready ∨ status = .blocked ∨ status = .exited)
    (hcpu : ∀ y, v'.cpus c = some y → y.current? = none)
    (hreach : Reaches h' pid t.trace s)
    (hexit : status = .exited → s.step? t.trace = none ∧ v'.memories pid = none)
    (hlive : status ≠ .exited →
      s.ended = false ∧ s.regs = saved ∧ v'.memories pid = some s.memory)
    (hwait : v'.waiting pid ≠ 0 → v'.waiting pid = 1 ∧ status = .blocked)
    (hdeeds : ∀ q, q ≠ pid → h'.of q = h.of q)
    (hout : v'.output = h'.flatMap fun (_, d) => d.lines) : v'.Inv specs h' := by
  have hnot : ∀ i, status ≠ .running i := by
    rintro i rfl
    simp at hoff
  refine hi.change_running hr he hdeeds ⟨_, htask, rfl, hr.pid_eq, fun i hs => absurd hs (hnot i),
    fun hw => ⟨(hwait hw).1, .inr ⟨hr.started, (hwait hw).2⟩⟩, fun hs => ?_, fun _ => ?_,
    fun hs => (hexit hs).2⟩ (fun y hy q hq => ?_) hout
  · rw [hr.started] at hs
    simp at hs
  · refine ⟨hr.textPages, hr.dataBase, s, hreach, fun hs => (hexit hs).1, fun hne => ?_⟩
    obtain ⟨hended, hregs, hmem⟩ := hlive hne
    refine ⟨hended, ?_, hmem⟩
    rw [regsOf]
    split
    · next i hs => exact absurd hs (hnot i)
    · exact hregs
  · rw [hcpu y hy] at hq
    simp at hq

theorem Inv.stayed (hi : v.Inv specs h) {x y : Cpu} {t : Task} {mem : FlatMemory g}
    (hr : v.Runs h c x pid t mem) (he : Elsewhere pid (· = c) v v') {s : Solo g}
    (htask : v'.tasks pid = some t) (hy : v'.cpus c = some y) (hcur : y.current? = some pid)
    (howner : v'.owners c = some (some pid))
    (hflight : ∀ b i, y.phase = .spending b i → Flight g t (v'.memories pid) y.regs i)
    (hreach : Reaches h' pid t.trace s) (hended : s.ended = false) (hregs : s.regs = y.regs)
    (hmem : v'.memories pid = some s.memory) (hwait : v'.waiting pid = 0)
    (hdeeds : ∀ q, q ≠ pid → h'.of q = h.of q)
    (hout : v'.output = h'.flatMap fun (_, d) => d.lines) : v'.Inv specs h' := by
  refine hi.change_running hr he hdeeds ⟨t, htask, rfl, hr.pid_eq, fun i hs => ?_,
    fun hw => absurd hwait hw, fun hs => ?_, fun _ => ?_, fun hs => ?_⟩
    (fun z hz q hq => ?_) hout
  · rw [hr.status] at hs
    obtain rfl := ProcessStatus.running.inj hs
    exact ⟨y, hy, hcur⟩
  · rw [hr.started] at hs
    simp at hs
  · refine ⟨hr.textPages, hr.dataBase, s, hreach, fun hs => ?_, fun _ => ⟨hended, ?_, hmem⟩⟩
    · rw [hr.status] at hs
      simp at hs
    · rw [regsOf, hr.status]
      simp only [hy, Option.map_some, Option.getD_some, hregs]
  · rw [hr.status] at hs
    simp at hs
  · rw [hy] at hz
    obtain rfl := Option.some.inj hz
    rw [hcur] at hq
    obtain rfl := Option.some.inj hq
    exact ⟨howner, t, htask, hr.started, hr.status, hflight⟩

end View

end DemandPaging
