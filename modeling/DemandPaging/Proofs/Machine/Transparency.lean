import DemandPaging.Machine.Run
import DemandPaging.Proofs.Machine.Clock
import DemandPaging.Proofs.Pager.Reachable
import Mathlib.Data.List.Count
/-!
Whatever else runs on a machine, however few frames it has and whoever steals them: a process does
what the reference interpreter does with its trace alone.
-/

namespace DemandPaging

namespace EventQueue

variable {α : Type} [DecidableEq α]

theorem count_foldl_schedule {β : Type} (tick : β → Nat) (w : β → α) (l : List β)
    (q : EventQueue α) (a : α) :
    (l.foldl (fun q b => q.schedule (tick b) (w b)) q).count a =
      q.count a + (l.map w).count a := by
  induction l generalizing q with
  | nil => simp
  | cons b l ih =>
    rw [List.foldl_cons, ih, count_schedule, List.map_cons, List.count_cons, List.count_cons,
      List.count_nil]
    omega

end EventQueue

namespace Machine

variable {g : Geometry} {S : Type} {m : Machine g S} {specs : List ProcessSpec} {h : History}

/-! A machine before its first step. -/

theorem getElem?_processes_new (cpus : Nat) (useTlb : Bool) (policy : S)
    (specs : List ProcessSpec) (pid : ProcessId) :
    (new g cpus useTlb policy specs).processes[pid]? =
      specs[pid]?.map fun s => s.toProcess pid := by
  change (specs.zipIdx.map fun x => x.1.toProcess x.2).toArray[pid]? = _
  rw [List.getElem?_toArray, List.getElem?_map, List.getElem?_zipIdx, Option.map_map]
  cases hs : specs[pid]? with
  | none => rfl
  | some s => simp

theorem waiting_new (cpus : Nat) (useTlb : Bool) (policy : S) (specs : List ProcessSpec)
    (pid : ProcessId) :
    (new g cpus useTlb policy specs).view.waiting pid = if pid < specs.length then 1 else 0 := by
  change (specs.zipIdx.foldl (fun (q : EventQueue Waiter) b => q.schedule b.1.start (.process b.2))
    {}).count (.process pid) = _
  have hwaiters : specs.zipIdx.map (fun b => Waiter.process b.2) =
      (List.range specs.length).map Waiter.process := by
    rw [List.range_eq_range', ← List.zipIdx_map_snd 0 specs, List.map_map]
    rfl
  have hinj : Function.Injective Waiter.process := fun _ _ => Waiter.process.inj
  rw [EventQueue.count_foldl_schedule, hwaiters, List.count_map_of_injective _ _ hinj,
    List.count_range]
  simp [EventQueue.count]

theorem cpus_new {cpus : Nat} {useTlb : Bool} {policy : S} {c : Nat} {x : Cpu}
    (hx : (new g cpus useTlb policy specs).cpus[c]? = some x) : x = {} := by
  rw [new, Array.getElem?_replicate] at hx
  split at hx
  · exact (Option.some.inj hx).symm
  · simp at hx

theorem stands_new (cpus : Nat) (useTlb : Bool) (policy : S) (specs : List ProcessSpec) :
    (new g cpus useTlb policy specs).Stands specs [] := by
  have htasks (pid : ProcessId) : (new g cpus useTlb policy specs).view.tasks pid =
      specs[pid]?.map fun s => (s.toProcess pid).task := by
    change (new g cpus useTlb policy specs).processes[pid]?.map Process.task = _
    rw [getElem?_processes_new, Option.map_map]
    rfl
  have hmem : (new g cpus useTlb policy specs).view.memories = fun _ => none :=
    Pager.flat_new g (List.replicate cpus useTlb)
  refine ⟨Pager.sound_new g (List.replicate cpus useTlb), fun pid => ?_, fun pid hw => ?_,
    fun pid _ => congrFun hmem pid, fun pid t ht => ?_, fun c x hx pid hpid => ?_, rfl, nofun⟩
  · rw [htasks, Option.map_map]
    rfl
  · rw [waiting_new] at hw
    split at hw
    · next hlt =>
      rw [htasks, List.getElem?_eq_getElem hlt]
      rfl
    · simp at hw
  · rw [htasks] at ht
    obtain ⟨s, -, rfl⟩ := Option.map_eq_some_iff.mp ht
    refine ⟨rfl, nofun, fun hw => ⟨?_, .inl ⟨rfl, rfl⟩⟩, fun _ => ⟨.inl rfl, ?_, rfl⟩, nofun,
      nofun⟩
    · rw [waiting_new] at hw ⊢
      split at hw
      · next hlt => rw [if_pos hlt]
      · simp at hw
    · rw [hmem]
  · obtain rfl := cpus_new hx
    simp [Cpu.current?] at hpid

/-! Reading the invariant. -/

def registersOf (m : Machine g S) (p : Process) : Registers :=
  match p.status with
  | .running c => (m.cpus[c]?.map Cpu.regs).getD p.saved
  | _ => p.saved

/-- A process of a machine is where the reference interpreter is with its trace, after as many
steps as the process has executed instructions in its text. These did what the reference
interpreter did, one that was executed outside the text printed nothing, and the process has ended
only where the reference interpreter cannot go on. -/
structure Mirrors (m : Machine g S) (done : List Deed) (p : Process) (s : Solo g) : Prop where
  textPages : p.textPages = p.trace.textPages g
  deeds : Solo.run? g p.trace (p.trace.inText g done).length = some (p.trace.inText g done, s)
  lost : ∀ d ∈ done, p.textPages ≤ g.pageOf d.ip → d.lines = []
  exited : p.status = .exited → s.step? p.trace = none
  live : p.status ≠ .exited →
    s.ended = false ∧ s.regs = m.registersOf p ∧ m.pager.flat p.pid = some s.memory

theorem Stands.mirrors {pid : ProcessId} {p : Process} (hm : m.Stands specs h)
    (hp : m.processes[pid]? = some p) (hstarted : p.isStarted = true) :
    specs[pid]?.map ProcessSpec.trace = some p.trace ∧ ∃ s, m.Mirrors (h.of pid) p s := by
  have ht : m.view.tasks pid = some p.task := by
    change m.processes[pid]?.map Process.task = _
    rw [hp]
    rfl
  have hinv := hm.inv.task pid p.task ht
  have hpid : p.pid = pid := hinv.pid_eq
  obtain ⟨htp, -, s, ⟨hrun, hlost, -⟩, hexit, hlive⟩ := hinv.traced hstarted
  have htp : p.textPages = p.trace.textPages g := htp
  refine ⟨?_, s, htp, hrun, ?_, hexit, ?_⟩
  · rw [← hm.inv.trace pid, ht]
    rfl
  · rw [htp]
    exact hlost
  · rw [hpid]
    exact hlive

/-! Steps. -/

theorem stands_settle {crashed : RunError} {y : Running g S Unit}
    (hy : Keeps specs h m.output.toList y m)
    (hok : ∀ e, (m.settle crashed y).1.status ≠ .aborted e) :
    (m.settle crashed y).1.Stands specs
      (h ++ m.deeds (m.settle crashed y).1 (m.settle crashed y).2) := by
  unfold settle at hok ⊢
  split
  · next t e hrun => exact hy.of_ok hrun m rfl
  · next r t e hrun =>
    rw [hrun] at hok
    exact absurd rfl (hok r)
  · next r t e hrun =>
    rw [hrun] at hok
    exact absurd rfl (hok crashed)

variable [Scheduler S]

theorem Stands.step (hm : m.Stands specs h) (hok : ∀ e, m.step.1.status ≠ .aborted e) :
    m.step.1.Stands specs (h ++ m.deeds m.step.1 m.step.2) := by
  have hidle : m.Stands specs (h ++ m.deeds m []) := by
    rwa [deeds_of_silent m m silent_nil, List.append_nil]
  unfold Machine.step at hok ⊢
  split at hok
  · next hrun =>
    rw [if_pos hrun]
    split at hok
    · next c rest hturns => exact stands_settle (keeps_cpuStep hm c) hok
    · next hturns =>
      split at hok
      · next hparked =>
        rw [if_pos hparked]
        exact stands_settle (quietly_advance hm).keeps hok
      · next hparked =>
        rw [if_neg hparked]
        exact hidle
  · next hrun =>
    rw [if_neg hrun]
    exact hidle

theorem stepN_succ (m : Machine g S) (n : Nat) : m.stepN (n + 1) = (m.stepN n).step.1 := by
  rw [stepN_add]
  rfl

theorem stepN_eq_iterate (m : Machine g S) (n : Nat) :
    m.stepN n = (fun m => m.step.1)^[n] m := by
  induction n generalizing m with
  | zero => rfl
  | succ n ih => exact ih m.step.1

def history (m : Machine g S) : (steps : Nat) → History
  | 0 => []
  | n + 1 => m.history n ++ (m.stepN n).deeds (m.stepN n).step.1 (m.stepN n).step.2

theorem Stands.stepN (hm : m.Stands specs []) (n : Nat)
    (hok : ∀ e, (m.stepN n).status ≠ .aborted e) : (m.stepN n).Stands specs (m.history n) := by
  induction n with
  | zero => exact hm
  | succ n ih =>
    rw [stepN_succ] at hok ⊢
    refine (ih fun e he => hok e ?_).step hok
    rw [step_of_not_isRunning (by rw [isRunning, he]; rfl), he]

/-- Every started process of a run that is not aborted is where the reference interpreter is with
the trace that the process was given, and the output is what the executed instructions printed. -/
theorem run_mirrors_reference (cpus : Nat) (useTlb : Bool) (policy : S)
    (specs : List ProcessSpec) (n : Nat)
    (hok : ∀ e, ((new g cpus useTlb policy specs).stepN n).status ≠ .aborted e) :
    (∀ pid p, ((new g cpus useTlb policy specs).stepN n).processes[pid]? = some p →
      p.isStarted = true → specs[pid]?.map ProcessSpec.trace = some p.trace ∧
        ∃ s, ((new g cpus useTlb policy specs).stepN n).Mirrors
          (((new g cpus useTlb policy specs).history n).of pid) p s) ∧
      ((new g cpus useTlb policy specs).stepN n).output.toList =
        ((new g cpus useTlb policy specs).history n).flatMap fun (_, d) => d.lines :=
  have hm := (stands_new cpus useTlb policy specs).stepN n hok
  ⟨fun _ _ hp hstarted => hm.mirrors hp hstarted, hm.inv.output⟩

def sharing : Machine Pager.oneFrame RoundRobin :=
  new Pager.oneFrame 1 true {}
    [{ name := "seven", trace := ⟨#["incrReg1 7", "printReg1", "Syscall_Exit"]⟩, quantum := 1 },
      { name := "nine", trace := ⟨#["incrReg1 9", "printReg1", "Syscall_Exit"]⟩, quantum := 1 }]

theorem run_mirrors_reference_sharing : (sharing.stepN 26).status = .running ∧
    ∃ p s, (sharing.stepN 26).processes[0]? = some p ∧ p.status = .exited ∧
      (sharing.stepN 26).Mirrors ((sharing.history 26).of 0) p s := by
  have hstatus : (sharing.stepN 26).status = .running := by decide +kernel
  have hprocess : (sharing.stepN 26).processes[0]?.map (fun p => (p.isStarted, p.status)) =
      some (true, .exited) := by decide +kernel
  obtain ⟨p, hp, hpair⟩ := Option.map_eq_some_iff.mp hprocess
  obtain ⟨hstarted, hexited⟩ := Prod.mk.inj hpair
  obtain ⟨-, s, hs⟩ := (run_mirrors_reference 1 true ({} : RoundRobin) _ 26
    fun e => hstatus ▸ nofun).1 0 p hp hstarted
  exact ⟨hstatus, p, s, hp, hexited, hs⟩

end Machine

end DemandPaging
