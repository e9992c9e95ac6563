import DemandPaging.Proofs.Machine.Fetch
import DemandPaging.Proofs.Machine.Invariant
/-!
The changes that a CPU on its turn and a moving clock make to the view of a machine. Each keeps the
invariant.
-/

namespace DemandPaging.View

open DemandPaging.Machine (Astray)

variable {g : Geometry} {v v' : View g} {h : History} {pid : ProcessId} {t t' : Task} {c : Nat}
  {specs : List ProcessSpec} {x : Cpu} {mem : FlatMemory g}

theorem current?_undispatched (v : View g) (c : Nat) (pid : ProcessId) (regs : Registers) :
    ∀ y, (v.undispatched c pid regs).cpus c = some y → y.current? = none := by
  intro y hy
  simp only [undispatched, changeCpu, changeTask, Function.update_self] at hy
  obtain ⟨z, -, rfl⟩ := Option.map_eq_some_iff.mp hy
  rfl

theorem tasks_setStatus_undispatched (ht : v.tasks pid = some t) (regs : Registers)
    (status : ProcessStatus) : ((v.undispatched c pid regs).setStatus pid status).tasks pid =
      some { t with saved := regs, status } := by
  simp [undispatched, setStatus, changeTask, changeCpu, ht]

theorem Runs.step?_of_astray (hr : v.Runs h c x pid t mem)
    (ha : Astray v pid x.regs.ip (.fetch t.textPages) ∨
      ∃ a, (Instruction.decode (t.trace.textAt x.regs.ip)).dataAddress? x.regs t.dataBase = some a ∧
        Astray v pid a .data) :
    ({ regs := x.regs, memory := mem } : Solo g).step? t.trace = none := by
  rcases ha with ha | ⟨a, hdata, ha⟩
  · refine Solo.step?_of_outside (Nat.not_lt.mp fun hin => ?_)
    rcases ha with hillegal | hnone
    · simp only [Access.isIllegal, decide_eq_true_eq, hr.textPages] at hillegal
      exact absurd hin (Nat.not_lt.mpr hillegal)
    · have htext : (mem (g.pageOf x.regs.ip)).isSome = true := hr.reaches.text _ hin
      rw [hnone mem hr.memory] at htext
      simp at htext
  · rcases ha with hillegal | hnone
    · simp [Access.isIllegal] at hillegal
    · rw [hr.dataBase] at hdata
      exact Solo.step?_of_data hdata (hnone mem hr.memory)

theorem Inv.exited (hi : v.Inv specs h) (hr : v.Runs h c x pid t mem)
    (hend : ({ regs := x.regs, memory := mem } : Solo g).step? t.trace = none) :
    (v.exited c pid x.regs).Inv specs h :=
  hi.left hr (.exited v c pid x.regs)
    (tasks_setStatus_undispatched (c := c) hr.task x.regs .exited) (.inr (.inr rfl))
    (current?_undispatched v c pid x.regs) hr.reaches
    (fun _ => ⟨hend, Function.update_self ..⟩) (fun hne => absurd rfl hne)
    (fun hw => absurd hr.waiting hw) (fun _ _ => rfl) hi.output

theorem Inv.expired (hi : v.Inv specs h) (hr : v.Runs h c x pid t mem) :
    ((v.undispatched c pid x.regs).setStatus pid .ready).Inv specs h :=
  hi.left hr ((Elsewhere.undispatched v c pid x.regs).trans (.changeTask _ pid _))
    (tasks_setStatus_undispatched hr.task x.regs .ready) (.inl rfl)
    (current?_undispatched v c pid x.regs) hr.reaches nofun (fun _ => ⟨rfl, rfl, hr.memory⟩)
    (fun hw => absurd hr.waiting hw) (fun _ _ => rfl) hi.output

theorem Inv.spending (hi : v.Inv specs h) (hr : v.Runs h c x pid t mem) {b : Burst}
    (hb : b.pid = pid) {i : InFlight} (hflight : Flight g t (v.memories pid) x.regs i) :
    (v.changeCpu c fun x => { x with phase := .spending b i }).Inv specs h := by
  have hcpu : (v.changeCpu c fun x => { x with phase := .spending b i }).cpus c =
      some { x with phase := .spending b i } := by
    simp [changeCpu, hr.cpu]
  refine hi.stayed hr (.changeCpu v pid c _) hr.task hcpu (by rw [← hb]; rfl) hr.owner ?_
    hr.reaches rfl rfl hr.memory hr.waiting (fun _ _ => rfl) hi.output
  rintro _ _ ⟨⟩
  exact hflight

def dispatched (v : View g) (c : Nat) (pid : ProcessId) (regs : Registers) : View g :=
  { (v.setStatus pid (.running c)).changeCpu c
      fun x => { x with regs, phase := .bursting { pid } } with
    owners := Function.update v.owners c (some (some pid)) }

theorem Elsewhere.dispatched (v : View g) (c : Nat) (pid : ProcessId) (regs : Registers) :
    Elsewhere pid (· = c) v (v.dispatched c pid regs) :=
  ((Elsewhere.changeTask v pid _).trans (.changeCpu _ pid c _)).trans (.owner _ pid c _)

theorem tasks_dispatched (ht : v.tasks pid = some t) (c : Nat) (regs : Registers) :
    (v.dispatched c pid regs).tasks pid = some { t with status := .running c } := by
  simp [dispatched, setStatus, changeTask, changeCpu, ht]

theorem cpus_dispatched (hx : v.cpus c = some x) (pid : ProcessId) (regs : Registers) :
    (v.dispatched c pid regs).cpus c = some { x with regs, phase := .bursting { pid } } := by
  simp [dispatched, setStatus, changeTask, changeCpu, hx]

theorem TaskInv.ready (hi : v.TaskInv h pid t) (hr : t.status = .ready) :
    t.started = true ∧ v.waiting pid = 0 := by
  constructor
  · by_contra hs
    have hstatus := (hi.unstarted (by simpa using hs)).1
    simp [hr] at hstatus
  · by_contra hw
    have hstatus := (hi.waits hw).2
    simp [hr] at hstatus

theorem Inv.dispatched (hi : v.Inv specs h) (hx : v.cpus c = some x) (hidle : x.current? = none)
    (ht : v.tasks pid = some t) (hready : t.status = .ready) :
    (v.dispatched c pid t.saved).Inv specs h := by
  have hinv := hi.task pid t ht
  obtain ⟨hstarted, hwait⟩ := hinv.ready hready
  obtain ⟨htp, hdb, s, hreach, -, hlive⟩ := hinv.traced hstarted
  obtain ⟨hended, hregs, hmem⟩ := hlive (by rw [hready]; nofun)
  have hsaved : v.regsOf t = t.saved := by rw [regsOf, hready]
  have htask := tasks_dispatched ht c t.saved
  have hcpu := cpus_dispatched hx pid t.saved
  refine hi.change (.dispatched v c pid t.saved) ?_ ?_ (fun _ _ => rfl)
    ⟨t, _, ht, htask, rfl, hinv.pid_eq, ?_, fun hw => absurd hwait hw, fun hs => ?_, fun _ =>
      ⟨htp, hdb, s, hreach, fun hs => ?_, fun _ => ⟨hended, ?_, hmem⟩⟩, by rintro ⟨⟩⟩ ?_ hi.output
  · rintro i y q rfl hy hq
    rw [hx] at hy
    obtain rfl := Option.some.inj hy
    rw [hidle] at hq
    simp at hq
  · intro u i hu hrun
    rw [ht] at hu
    obtain rfl := Option.some.inj hu
    rw [hready] at hrun
    simp at hrun
  · rintro i ⟨⟩
    exact ⟨_, hcpu, rfl⟩
  · rw [hstarted] at hs
    simp at hs
  · simp at hs
  · rw [hregs, hsaved, regsOf]
    simp only [hcpu, Option.map_some, Option.getD_some]
  · rintro i rfl y hy q hq
    rw [hcpu] at hy
    obtain rfl := Option.some.inj hy
    obtain rfl := Option.some.inj hq
    exact ⟨Function.update_self .., _, htask, hstarted, rfl, fun _ _ hs => by simp at hs⟩

/-! Executed instructions. -/

def executed (v : View g) (c : Nat) (pid : ProcessId) (regs : Registers) (memory : FlatMemory g)
    (lines : List String) : View g :=
  { v.changeCpu c fun x => { x with regs } with
    memories := Function.update v.memories pid (some memory)
    output := v.output ++ lines }

theorem Elsewhere.executed (v : View g) (c : Nat) (pid : ProcessId) (regs : Registers)
    (memory : FlatMemory g) (lines : List String) :
    Elsewhere pid (· = c) v (v.executed c pid regs memory lines) :=
  { Elsewhere.refl v with
    cpus := fun _ hi => Function.update_of_ne hi _ _
    memories := fun _ hq => Function.update_of_ne hq _ _ }

/-- What an instruction does on a CPU is what the reference interpreter does next. Outside the text
it only ends the process, and there the reference interpreter could not go on either. -/
theorem Runs.deed (hr : v.Runs h c x pid t mem) {s' : Solo g} {lines : List String}
    (hx : ({ regs := x.regs, memory := mem } : Solo g).execute? t.dataBase
      (.decode (t.trace.textAt x.regs.ip)) = some (s', lines)) :
    ∃ s, Reaches (h ++ [(pid, ⟨x.regs.ip, t.trace.textAt x.regs.ip, s'.regs, lines⟩)])
        pid t.trace s ∧ (s'.ended = true → s.step? t.trace = none) ∧
      (s'.ended = false → s = s') := by
  by_cases hin : g.pageOf x.regs.ip < t.trace.textPages g
  · rw [hr.dataBase] at hx
    exact ⟨s', hr.reaches.deed (Solo.step?_of_execute? rfl hin hx), Solo.step?_of_ended _,
      fun _ => rfl⟩
  · have hout := Nat.not_lt.mp hin
    obtain ⟨_, hdecode⟩ := Instruction.decode_textAt t.trace (t.trace.size_le_of_outside hout)
    rw [hdecode] at hx
    obtain ⟨rfl, rfl⟩ := Prod.mk.inj (Option.some.inj hx)
    exact ⟨_, hr.reaches.outside hout rfl, fun _ => Solo.step?_of_outside hout, nofun⟩

section Deeds

variable {d : Deed} {s : Solo g} {regs : Registers}

theorem Inv.output_append (hi : v.Inv specs h) (pid : ProcessId) (d : Deed) :
    v.output ++ d.lines = (h ++ [(pid, d)]).flatMap fun (_, d) => d.lines := by
  rw [hi.output, List.flatMap_append, List.flatMap_singleton]

theorem Inv.wentOn (hi : v.Inv specs h) (hr : v.Runs h c x pid t mem) {b : Burst}
    (hb : b.pid = pid) {ip : VirtualAddress} (hreach : Reaches (h ++ [(pid, d)]) pid t.trace s)
    (hended : s.ended = false) (hregs : s.regs = { regs with ip }) :
    ((v.executed c pid regs s.memory d.lines).changeCpu c fun y =>
      { regs := { y.regs with ip }, phase := .bursting b }).Inv specs (h ++ [(pid, d)]) := by
  have hcpu : ((v.executed c pid regs s.memory d.lines).changeCpu c fun y =>
      { regs := { y.regs with ip }, phase := .bursting b }).cpus c =
        some { regs := { regs with ip }, phase := .bursting b } := by
    simp [executed, changeCpu, hr.cpu]
  exact hi.stayed hr
    ((Elsewhere.executed v c pid regs s.memory d.lines).trans (.changeCpu _ pid c _))
    hr.task hcpu (by rw [← hb]; rfl) hr.owner (fun _ _ hs => by simp at hs) hreach hended hregs
    (Function.update_self ..) hr.waiting (fun _ hq => History.of_append_of_ne h hq d)
    (hi.output_append pid d)

theorem Inv.blocked (hi : v.Inv specs h) (hr : v.Runs h c x pid t mem) {ip : VirtualAddress}
    {w : View g}
    (hw : w = (v.executed c pid regs s.memory d.lines).changeCpu c fun y =>
      { y with regs := { y.regs with ip } })
    (hreach : Reaches (h ++ [(pid, d)]) pid t.trace s) (hended : s.ended = false)
    (hregs : s.regs = { regs with ip }) :
    View.Inv specs { (w.undispatched c pid { regs with ip }).setStatus pid .blocked with
      waiting := Function.update w.waiting pid (w.waiting pid + 1) } (h ++ [(pid, d)]) := by
  subst hw
  refine hi.left hr ((((Elsewhere.executed v c pid regs s.memory d.lines).trans
    (.changeCpu _ pid c _)).trans (.undispatched _ c pid { regs with ip })).trans
    ((Elsewhere.changeTask _ pid _).trans (.wait _ pid _)))
    (tasks_setStatus_undispatched (c := c) hr.task { regs with ip } .blocked) (.inr (.inl rfl))
    (current?_undispatched _ c pid { regs with ip }) hreach nofun
    (fun _ => ⟨hended, hregs, Function.update_self ..⟩) (fun _ => ⟨?_, rfl⟩)
    (fun _ hq => History.of_append_of_ne h hq d) (hi.output_append pid d)
  change Function.update v.waiting pid (v.waiting pid + 1) pid = 1
  rw [Function.update_self, hr.waiting]

theorem Inv.ended (hi : v.Inv specs h) (hr : v.Runs h c x pid t mem) {memory : FlatMemory g}
    (hreach : Reaches (h ++ [(pid, d)]) pid t.trace s) (hend : s.step? t.trace = none) :
    ((v.executed c pid regs memory d.lines).exited c pid regs).Inv specs (h ++ [(pid, d)]) :=
  hi.left hr ((Elsewhere.executed v c pid regs memory d.lines).trans (.exited _ c pid regs))
    (tasks_setStatus_undispatched (c := c) hr.task regs .exited) (.inr (.inr rfl))
    (current?_undispatched _ c pid regs) hreach (fun _ => ⟨hend, Function.update_self ..⟩)
    (fun hne => absurd rfl hne)
    (fun hw => absurd hr.waiting hw) (fun _ hq => History.of_append_of_ne h hq d)
    (hi.output_append pid d)

end Deeds

/-! The clock. -/

theorem Inv.change_waiting (hi : v.Inv specs h) (ht : v.tasks pid = some t)
    (hw : v.waiting pid ≠ 0) (he : Elsewhere pid (fun _ => False) v v')
    (ht' : v'.tasks pid = some t') (htrace : t'.trace = t.trace) (hinv : v'.TaskInv h pid t')
    (hout : v'.output = v.output) : v'.Inv specs h := by
  refine hi.change he (fun _ _ _ hf => hf.elim) (fun u i hu hrun => ?_) (fun _ _ => rfl)
    ⟨t, t', ht, ht', htrace, hinv⟩ (fun _ hf => hf.elim) (hout.trans hi.output)
  rw [ht] at hu
  obtain rfl := Option.some.inj hu
  have hstatus := ((hi.task pid t ht).waits hw).2
  simp [hrun] at hstatus

theorem Inv.woken (hi : v.Inv specs h) (ht : v.tasks pid = some t) (hw : v.waiting pid ≠ 0)
    (hstarted : t.started = true) (he : Elsewhere pid (fun _ => False) v v')
    (ht' : v'.tasks pid = some { t with status := .ready }) (hwait : v'.waiting pid = 0)
    (hmem : v'.memories pid = v.memories pid) (hout : v'.output = v.output) :
    v'.Inv specs h := by
  have hinv := hi.task pid t ht
  have hblocked : t.status = .blocked := by
    have hstatus := (hinv.waits hw).2
    simpa [hstarted] using hstatus
  obtain ⟨htp, hdb, s, hreach, -, hlive⟩ := hinv.traced hstarted
  obtain ⟨hended, hregs, hold⟩ := hlive (by rw [hblocked]; nofun)
  have hsaved : v.regsOf t = t.saved := by rw [regsOf, hblocked]
  refine hi.change_waiting ht hw he ht' rfl ⟨hinv.pid_eq, fun _ hs => ?_,
    fun h => absurd hwait h, fun hs => ?_,
    fun _ => ⟨htp, hdb, s, hreach, fun hs => ?_, fun _ => ⟨hended, ?_, ?_⟩⟩, by rintro ⟨⟩⟩ hout
  · simp at hs
  · rw [hstarted] at hs
    simp at hs
  · simp at hs
  · rw [hregs, hsaved]
    rfl
  · rw [hmem, hold]

theorem Inv.started (hi : v.Inv specs h) (ht : v.tasks pid = some t) (hw : v.waiting pid ≠ 0)
    (hnot : t.started = false) (he : Elsewhere pid (fun _ => False) v v')
    (ht' : v'.tasks pid = some { t with
      textPages := t.trace.textPages g, dataBase := t.trace.dataBase g, saved := {}
      status := .ready, started := true })
    (hwait : v'.waiting pid = 0)
    (hmem : v'.memories pid = some (FlatMemory.empty.allocate 0 (t.trace.textPages g)))
    (hout : v'.output = v.output) : v'.Inv specs h := by
  have hinv := hi.task pid t ht
  obtain ⟨-, -, hno⟩ := hinv.unstarted hnot
  exact hi.change_waiting ht hw he ht' rfl ⟨hinv.pid_eq, nofun, fun h => absurd hwait h, nofun,
    fun _ => ⟨rfl, rfl, Solo.start g t.trace, .start hno, nofun, fun _ => ⟨rfl, rfl, hmem⟩⟩,
    nofun⟩ hout

theorem Inv.refused (hi : v.Inv specs h) (ht : v.tasks pid = some t) (hw : v.waiting pid ≠ 0)
    (hnot : t.started = false) (he : Elsewhere pid (fun _ => False) v v')
    (ht' : v'.tasks pid = some { t with status := .exited }) (hwait : v'.waiting pid = 0)
    (hmem : v'.memories pid = none) (hout : v'.output = v.output) : v'.Inv specs h := by
  have hinv := hi.task pid t ht
  obtain ⟨-, -, hno⟩ := hinv.unstarted hnot
  refine hi.change_waiting ht hw he ht' rfl ⟨hinv.pid_eq, nofun, fun h => absurd hwait h,
    fun _ => ⟨.inr rfl, hmem, hno⟩, fun hs => ?_, fun _ => hmem⟩ hout
  rw [hnot] at hs
  simp at hs

theorem Inv.finished (hi : v.Inv specs h) : View.Inv specs { v with status := .finished } h :=
  ⟨hi.trace, hi.known, hi.strangers,
    fun pid t ht => (hi.task pid t ht).frame rfl rfl (fun _ _ => rfl) rfl,
    fun c => (hi.cpu c).frame rfl rfl fun _ _ _ _ => ⟨rfl, rfl⟩, hi.output, nofun⟩

end DemandPaging.View
