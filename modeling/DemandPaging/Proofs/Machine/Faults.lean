import DemandPaging.Machine.Run
import DemandPaging.Proofs.Machine.Surely
import DemandPaging.Proofs.Pager.Missed
/-!
Every miss of a translator is charged to a process. The two are counted in different places, so
they agree only between the calls of a CPU: while a fault is handled, the translator has counted it
and the process is still to be charged.
-/

namespace DemandPaging

def Account.faults (a : Account) : Nat := a.instructionFaults + a.dataFaults

namespace Machine

open DemandPaging.Action

variable {g : Geometry} {S α β : Type}

def charged (m : Machine g S) : Nat := (m.processes.toList.map fun p => p.account.faults).sum

/-- The faults that were charged, and those that were counted. -/
def tally (m : Machine g S) : Nat × Nat := (m.charged, m.pager.missed)

/-! What handles no fault. -/

theorem leaves_time : Leaves tally (time : Running g S Nat) :=
  leaves_get.bind fun _ => leaves_pure _

theorem leaves_process (pid : ProcessId) : Leaves tally (process pid : Running g S Process) :=
  leaves_get.bind fun _ => leaves_ofOption _ _

theorem leaves_cpu (c : Nat) : Leaves tally (cpu c : Running g S Cpu) :=
  leaves_get.bind fun _ => leaves_ofOption _ _

theorem leaves_tickAfter (ticks : Nat) : Leaves tally (tickAfter ticks : Running g S Nat) :=
  leaves_time.bind fun _ => leaves_ofOption _ _

theorem charged_modify {m : Machine g S} {pid : ProcessId} {p : Process}
    (hp : m.processes[pid]? = some p) (f : Process → Process) :
    ({ m with processes := m.processes.modify pid f } : Machine g S).charged + p.account.faults =
      m.charged + (f p).account.faults := by
  have hset : m.processes.modify pid f = m.processes.setIfInBounds pid (f p) := by grind
  rw [charged, charged, hset, Array.toList_setIfInBounds]
  exact sum_map_set (by simpa using hp) (f p) _

theorem leaves_changeProcess (pid : ProcessId) {f : Process → Process}
    (hf : ∀ p, (f p).account.faults = p.account.faults) :
    Leaves tally (changeProcess pid f : Running g S Unit) := by
  refine leaves_modify fun m => Prod.ext ?_ rfl
  cases hp : m.processes[pid]? with
  | none =>
    have hsame : m.processes.modify pid f = m.processes := by grind
    rw [hsame]
  | some p =>
    have hsum := charged_modify hp f
    have hfaults := hf p
    change charged _ = m.charged
    omega

theorem leaves_onPager {y : Paged g α} (hy : Leaves Pager.missed y) :
    Leaves tally (onPager y : Running g S α) :=
  leaves_time.bind fun _ => leaves_within _ _ fun m => Prod.ext rfl (hy m.pager)

theorem leaves_onPolicy (y : Policy S α) : Leaves tally (onPolicy y : Running g S α) :=
  leaves_within _ _ fun _ => rfl

theorem leaves_dispatch (c : Nat) (p : Process) : Leaves tally (dispatch c p : Running g S Unit) :=
  leaves_time.bind fun _ => Leaves.bind (leaves_changeProcess _ fun _ => rfl) fun _ =>
    Leaves.bind (leaves_modify fun _ => rfl) fun _ =>
      (leaves_onPager (Pager.leaves_missed_dispatch _ _)).bind fun _ => leaves_report _

theorem leaves_undispatch (c : Nat) (b : Burst) :
    Leaves tally (undispatch c b : Running g S Unit) :=
  (leaves_cpu c).bind fun _ => Leaves.bind (leaves_changeProcess _ fun _ => rfl) fun _ =>
    Leaves.bind (leaves_modify fun _ => rfl) fun _ => leaves_onPager (Pager.leaves_missed_flush c)

theorem leaves_setStatus (pid : ProcessId) (s : ProcessStatus) :
    Leaves tally (setStatus pid s : Running g S Unit) := leaves_changeProcess _ fun _ => rfl

section Policy

variable [Scheduler S]

theorem leaves_expireQuantum (c : Nat) (b : Burst) :
    Leaves tally (expireQuantum c b : Running g S Unit) :=
  (leaves_process _).bind fun _ => leaves_time.bind fun _ => (leaves_report _).bind fun _ =>
    (leaves_undispatch c b).bind fun _ => (leaves_setStatus _ _).bind fun _ => leaves_onPolicy _

theorem leaves_blockProcess (c : Nat) (b : Burst) (ticks : Nat) :
    Leaves tally (blockProcess c b ticks : Running g S Unit) :=
  (leaves_process _).bind fun _ => leaves_time.bind fun _ => (leaves_report _).bind fun _ =>
    (leaves_undispatch c b).bind fun _ => (leaves_setStatus _ _).bind fun _ =>
      (leaves_onPolicy _).bind fun _ => (leaves_tickAfter ticks).bind fun _ =>
        leaves_modify fun _ => rfl

theorem leaves_exitProcess (c : Nat) (b : Burst) :
    Leaves tally (exitProcess c b : Running g S Unit) :=
  leaves_time.bind fun _ => (leaves_onPager (Pager.leaves_missed_checkTable _)).bind fun _ =>
    (leaves_undispatch c b).bind fun _ => (leaves_onPager (Pager.leaves_missed_release _)).bind
      fun _ => (leaves_onPolicy _).bind fun _ => Leaves.bind (leaves_modify fun _ => rfl) fun _ =>
        (leaves_setStatus _ _).bind fun _ => Leaves.bind (leaves_changeProcess _ fun _ => rfl)
          fun _ => (leaves_process _).bind fun _ => (leaves_report _).bind fun _ => leaves_report _

theorem leaves_ask (c : Nat) : Leaves tally (ask c : Running g S Unit) := by
  refine (leaves_onPolicy _).bind ?_
  rintro (_ | pid)
  · exact leaves_time.bind fun _ => (leaves_report _).bind fun _ => leaves_modify fun _ => rfl
  · refine (leaves_process pid).bind fun p => ?_
    split
    · exact leaves_time.bind fun _ => (leaves_fail _).bind fun _ => leaves_dispatch c p
    · exact leaves_dispatch c p

/-! Executing an instruction. -/

theorem leaves_execution_onPager {y : Paged g α} (hy : Leaves Pager.missed y) :
    Leaves (fun e => e.pager.missed) (Execution.onPager y) :=
  leaves_within _ _ fun e => hy e.pager

theorem leaves_execute (pid : ProcessId) (base : VirtualAddress) (data : Option PhysicalAddress)
    (i : Instruction) : Leaves (fun e => e.pager.missed)
      (Execution.execute pid base data i : Execution.Executing g _) := by
  refine leaves_get.bind fun e => ?_
  have hset (r : Register) (w : Int32) :
      Leaves (fun e : Execution g => e.pager.missed) (Execution.setRegister r w) := fun _ => rfl
  have hprint (line : String) :
      Leaves (fun e : Execution g => e.pager.missed) (Execution.print line) := fun _ => rfl
  cases i with
  | invalid _ => exact leaves_pure _
  | printReg r => exact (leaves_report _).bind fun _ => (hprint _).bind fun _ => leaves_pure _
  | printStr s => exact (leaves_report _).bind fun _ => (hprint _).bind fun _ => leaves_pure _
  | incr r w => exact (hset _ _).bind fun _ => (leaves_report _).bind fun _ => leaves_pure _
  | loadImmediate r w =>
    exact (hset _ _).bind fun _ => (leaves_report _).bind fun _ => leaves_pure _
  | loadPageAddr r p => exact (hset _ _).bind fun _ => (leaves_report _).bind fun _ => leaves_pure _
  | loadIndirect d a =>
    cases data with
    | none => exact leaves_pure _
    | some a =>
      exact (leaves_execution_onPager (Pager.leaves_missed_loadWord a)).bind fun _ =>
        (hset _ _).bind fun _ => (leaves_report _).bind fun _ => leaves_pure _
  | storeIndirect r a =>
    cases data with
    | none => exact leaves_pure _
    | some a =>
      exact (leaves_execution_onPager (Pager.leaves_missed_loadWord a)).bind fun _ =>
        (leaves_execution_onPager (Pager.leaves_missed_storeWord a _)).bind fun _ =>
          (leaves_report _).bind fun _ => leaves_pure _
  | alloc =>
    refine (leaves_report _).bind fun _ => Leaves.bind ?_ fun granted => ?_
    · unfold Execution.allocate
      split
      · exact (leaves_report _).bind fun _ => leaves_pure _
      · exact leaves_execution_onPager (Pager.leaves_missed_allocate _ _ _)
    · cases granted <;> exact leaves_pure _
  | _ => exact (leaves_report _).bind fun _ => leaves_pure _

omit [Scheduler S] in
theorem leaves_onExecution (c : Nat) {y : Execution.Executing g α}
    (hy : Leaves (fun e => e.pager.missed) y) : Leaves tally (onExecution c y : Running g S α) :=
  leaves_time.bind fun _ => (leaves_cpu c).bind fun x => leaves_within _ _ fun m =>
    Prod.ext rfl (hy { regs := x.regs, pager := m.pager })

theorem leaves_complete (c : Nat) (b : Burst) (text : String) (ip : VirtualAddress)
    (done : Completion) : Leaves tally (complete c b text ip done : Running g S Unit) := by
  match done with
  | .next _ => exact leaves_modify fun _ => rfl
  | .block _ ticks =>
    exact Leaves.bind (leaves_modify fun _ => rfl) fun _ => leaves_blockProcess c b ticks
  | .signal .exit => exact leaves_exitProcess c b
  | .signal .invalidInstruction => exact (leaves_report _).bind fun _ => leaves_exitProcess c b
  | .signal .allocationFailure =>
    exact (leaves_process _).bind fun _ => (leaves_report _).bind fun _ => leaves_exitProcess c b

theorem leaves_executeOn (c : Nat) (b : Burst) (i : InFlight) (frames : InstructionFrames) :
    Leaves tally (executeOn c b i frames : Running g S Unit) :=
  (leaves_cpu c).bind fun _ => (leaves_report _).bind fun _ => (leaves_process _).bind fun _ =>
    (leaves_onExecution c (leaves_execute _ _ _ _)).bind fun _ => leaves_complete _ _ _ _ _

end Policy

/-! What handles faults. -/

def charge (m : Machine g S) (pid : ProcessId) (access : Access) : Machine g S :=
  { m with
    processes := m.processes.modify pid fun p => p.changeAccount fun a => countFault a access }

theorem charged_charge {m : Machine g S} {pid : ProcessId} {access : Access} {p : Process}
    (hp : (m.charge pid access).processes[pid]? = some p) :
    (m.charge pid access).charged = m.charged + 1 := by
  cases hq : m.processes[pid]? with
  | none => simp [charge, Array.getElem?_modify, hq] at hp
  | some q =>
    have hsum := charged_modify hq fun p => p.changeAccount fun a => countFault a access
    have hone : (countFault q.account access).faults = q.account.faults + 1 := by
      cases access
      · exact Nat.add_right_comm ..
      · rfl
    change (m.charge pid access).charged + q.account.faults =
      m.charged + (countFault q.account access).faults at hsum
    omega

def Tallied (m : Machine g S) : Prop := m.charged = m.pager.missed

/-- The action answers only where the faults are tallied again. -/
def Tallies (x : Running g S α) : Prop :=
  ∀ m, m.Tallied → x.Meets m (fun _ => True) fun _ m' _ => m'.Tallied

section Rules

variable {x : Running g S α} {f : α → Running g S β}

theorem Tallies.bind (hx : Tallies x) (hf : ∀ a, Tallies (f a)) : Tallies (x >>= f) :=
  fun m hm => Meets.bind (hx m hm) fun a m' _ hm' => hf a m' hm'

theorem tallies_of_leaves (hx : Leaves tally x) : Tallies x := fun m hm =>
  (hx.meets m).mono fun _ m' _ h => by
    have hcharged : m'.charged = m.charged := congrArg Prod.fst h
    have hmissed : m'.pager.missed = m.pager.missed := congrArg Prod.snd h
    exact hcharged.trans (hm.trans hmissed.symm)

theorem tallies_bind_of_leaves (hx : Leaves tally x) (hf : ∀ a, Tallies (f a)) :
    Tallies (x >>= f) := (tallies_of_leaves hx).bind hf

end Rules

theorem meets_onPager {y : Paged g α} {m : Machine g S} {Q : α → Pager g → Prop}
    (h : y.Meets m.pager (fun _ => True) fun a p _ => Q a p) :
    (onPager y).Meets m (fun _ => True) fun a m' _ => ∃ p, m' = { m with pager := p } ∧ Q a p := by
  refine Meets.bind (P := fun _ m' _ => m' = m) rfl ?_
  rintro now _ _ rfl
  exact meets_within ((h.mono fun a p _ hq => ⟨p, rfl, hq⟩).weaken fun _ _ => trivial)

theorem meets_translate_bind {m : Machine g S} (hm : m.Tallied) (c : Nat) (pid : ProcessId)
    (a : VirtualAddress) {f : Option FrameNumber → Running g S α}
    (hsome : ∀ frame, Tallies (f (some frame)))
    (hnone : ∀ p : Pager g, p.missed = m.pager.missed + 1 ∨ p = m.pager ∧ p.space? pid = none →
      (f none).Meets { m with pager := p } (fun _ => True) fun _ m' _ => m'.Tallied) :
    (onPager (Pager.translate c pid a) >>= f).Meets m (fun _ => True) fun _ m' _ => m'.Tallied := by
  refine Meets.bind (meets_onPager (Pager.meets_translate m.pager c pid a)) ?_
  rintro (_ | frame) _ _ ⟨p, rfl, hp⟩
  · exact hnone p (hp.imp id fun ⟨_, hsame, hs⟩ => ⟨hsame, hsame ▸ hs⟩)
  · refine hsome frame _ (hm.trans ?_)
    rcases hp with hp | ⟨hp, -⟩
    · exact hp.symm
    · simp at hp

variable [Scheduler S]

theorem meets_exitProcess_homeless {m : Machine g S} (c : Nat) {b : Burst}
    (hs : m.pager.space? b.pid = none) :
    (exitProcess c b).Meets m (fun _ => True) fun _ _ _ => False := by
  have hflush : Leaves Pager.spaces (Pager.flush c : Paged g Unit) :=
    Leaves.bind (leaves_get.bind fun _ => leaves_ofOption _ _) fun u =>
      leaves_each (fun slot => leaves_update _ fun p p' h => by
        obtain ⟨t, -, rfl⟩ := Option.map_eq_some_iff.mp h
        rfl) _
  have hleaves : Leaves (fun m : Machine g S => m.pager.spaces) (undispatch c b) :=
    Leaves.bind (leaves_get.bind fun _ => leaves_ofOption _ _) fun x =>
      Leaves.bind (leaves_modify fun _ => rfl) fun _ => Leaves.bind (leaves_modify fun _ => rfl)
        fun _ => Leaves.bind (leaves_get.bind fun _ => leaves_pure _) fun now =>
          leaves_within _ _ fun m => hflush m.pager
  obtain ⟨holes, es, hrun⟩ := Pager.run_checkTable m.pager b.pid
  refine Meets.bind (P := fun _ m' _ => m' = m) rfl ?_
  rintro now m _ rfl
  refine Meets.bind (P := fun _ m' _ => m' = m) (meets_of_run_ok (run_onPager hrun) rfl) ?_
  rintro _ m _ rfl
  refine Meets.bind ((hleaves.map fun spaces => spaces[b.pid]?).meets m) fun _ m₁ _ h₁ => ?_
  have hs₁ : m₁.pager.space? b.pid = none := h₁.trans hs
  refine Meets.bind (meets_onPager (Q := fun _ _ => False)
    (meets_of_run_error (Pager.run_release_none hs₁) trivial)) ?_
  rintro _ _ _ ⟨_, -, hf⟩
  exact hf.elim

theorem tallies_fetch (c : Nat) (b : Burst) (addr : VirtualAddress) (access : Access) :
    Tallies (fetch c b addr access : Running g S Fetch) := by
  intro m hm
  refine meets_translate_bind hm c b.pid addr
    (fun f => tallies_of_leaves (leaves_pure _)) fun p hp => ?_
  refine Meets.bind (P := fun _ m' _ => m' = charge { m with pager := p } b.pid access) rfl ?_
  rintro _ _ _ rfl
  refine Meets.bind ((quietly_process b.pid).weaken fun _ _ => trivial) ?_
  rintro q _ _ ⟨-, hq, rfl⟩
  rcases hp with hmissed | ⟨rfl, hs⟩
  · have hm₁ : (charge { m with pager := p } b.pid access).Tallied :=
      (charged_charge hq).trans ((congrArg (· + 1) hm).trans hmissed.symm)
    refine tallies_bind_of_leaves (leaves_report _) (fun _ => ?_) _ hm₁
    refine tallies_bind_of_leaves (leaves_onPager (Pager.leaves_missed_handleFault _ _ _)) ?_
    rintro (f | violation)
    · intro m₂ hm₂
      refine meets_translate_bind hm₂ c b.pid addr (fun f => ?_) fun _ _ => meets_fail trivial
      exact tallies_of_leaves ((leaves_report _).bind fun _ => leaves_pure _)
    · exact tallies_of_leaves ((leaves_report _).bind fun _ =>
        (leaves_exitProcess c b).bind fun _ => leaves_pure _)
  · refine Meets.bind (P := fun _ m' _ => m' = charge m b.pid access) rfl ?_
    rintro _ _ _ rfl
    refine Meets.bind (meets_onPager (Pager.meets_handleFault_homeless hs addr access)) ?_
    rintro _ _ _ ⟨p, rfl, rfl, violation, rfl⟩
    refine Meets.bind (P := fun _ m' _ => m' = charge m b.pid access) rfl ?_
    rintro _ _ _ rfl
    exact Meets.bind (meets_exitProcess_homeless c hs) fun _ _ _ hf => hf.elim

theorem tallies_fetchData (c : Nat) (b : Burst) (frame : FrameNumber)
    (addr : Option VirtualAddress) :
    Tallies (fetchData c b frame addr : Running g S Attempt) := by
  cases addr with
  | none => exact tallies_of_leaves (leaves_pure _)
  | some a =>
    refine tallies_bind_of_leaves (leaves_report _) fun _ =>
      (tallies_fetch c b a .data).bind ?_
    rintro (f | _ | _) <;> exact tallies_of_leaves (leaves_pure _)

theorem tallies_attempt (c : Nat) (b : Burst) (i : Instruction) :
    Tallies (attempt c b i : Running g S Attempt) := by
  refine tallies_bind_of_leaves (leaves_process _) fun p => ?_
  refine tallies_bind_of_leaves (leaves_cpu c) fun x => ?_
  refine tallies_bind_of_leaves (leaves_report _) fun _ => (tallies_fetch c b _ _).bind ?_
  rintro (f | _ | _)
  · exact tallies_bind_of_leaves (leaves_report _) fun _ => tallies_fetchData c b f _
  · exact tallies_of_leaves (leaves_pure _)
  · exact tallies_of_leaves (leaves_pure _)

theorem tallies_resolve (c : Nat) (b : Burst) (i : Instruction) :
    Tallies (resolve c b i : Running g S (Option InstructionFrames)) := by
  have hwithin (attempts : Nat) : Tallies (resolveWithin c b i attempts : Running g S _) := by
    induction attempts with
    | zero =>
      exact tallies_of_leaves (leaves_time.bind fun _ => (leaves_cpu c).bind fun _ => leaves_fail _)
    | succ attempts ih =>
      refine (tallies_attempt c b i).bind ?_
      rintro (frames | _ | _)
      · exact tallies_of_leaves (leaves_pure _)
      · exact ih
      · exact tallies_of_leaves (leaves_pure _)
  exact hwithin _

theorem tallies_startInstruction (c : Nat) (b : Burst) :
    Tallies (startInstruction c b : Running g S Unit) := by
  refine tallies_bind_of_leaves (leaves_process _) fun p => ?_
  split
  · exact tallies_of_leaves (leaves_expireQuantum c b)
  · refine tallies_bind_of_leaves (leaves_cpu c) fun x => (tallies_resolve c b _).bind ?_
    rintro (_ | frames)
    · exact tallies_of_leaves (leaves_pure _)
    · exact tallies_of_leaves ((leaves_tickAfter 1).bind fun _ =>
        Leaves.bind (leaves_modify fun _ => rfl) fun _ => leaves_modify fun _ => rfl)

theorem tallies_finishInstruction (c : Nat) (b : Burst) (i : InFlight) :
    Tallies (finishInstruction c b i : Running g S Unit) := by
  refine tallies_bind_of_leaves (leaves_changeProcess _ fun _ => rfl) fun _ => ?_
  refine tallies_bind_of_leaves (leaves_cpu c) fun x => ?_
  refine tallies_bind_of_leaves leaves_get fun m => ?_
  refine tallies_bind_of_leaves (leaves_ofOption _ _) fun held => ?_
  split
  · exact tallies_of_leaves (leaves_executeOn _ _ _ _)
  · refine tallies_bind_of_leaves (leaves_process _) fun p => ?_
    refine tallies_bind_of_leaves leaves_time fun now => ?_
    refine tallies_bind_of_leaves (leaves_report _) fun _ =>
      (tallies_resolve c _ _).bind ?_
    rintro (_ | frames)
    · exact tallies_of_leaves (leaves_pure _)
    · exact tallies_of_leaves (leaves_executeOn _ _ _ _)

theorem tallies_cpuStep (c : Nat) : Tallies (cpuStep c : Running g S Unit) := by
  refine tallies_bind_of_leaves (leaves_cpu c) fun x => ?_
  split
  · exact tallies_of_leaves (leaves_ask c)
  · exact tallies_startInstruction c _
  · exact tallies_finishInstruction c _ _

/-! The clock. -/

theorem leaves_wake (pid : ProcessId) : Leaves tally (wake pid : Running g S Unit) := by
  have hrefuse (textPages : Nat) : Leaves tally (refuse pid textPages : Running g S Unit) :=
    leaves_time.bind fun _ => (leaves_process _).bind fun _ => (leaves_report _).bind fun _ =>
      (leaves_setStatus _ _).bind fun _ => Leaves.bind (leaves_changeProcess _ fun _ => rfl)
        fun _ => (leaves_onPager (Pager.leaves_missed_release _)).bind fun _ =>
          leaves_modify fun _ => rfl
  refine (leaves_process pid).bind fun p => ?_
  split
  · exact leaves_time.bind fun _ => (leaves_report _).bind fun _ =>
      (leaves_setStatus _ _).bind fun _ => leaves_onPolicy _
  · refine leaves_time.bind fun _ => Leaves.bind (leaves_modify fun _ => rfl) fun _ => ?_
    refine (leaves_process _).bind fun p => ?_
    refine (leaves_onPager (Pager.leaves_missed_allocate _ _ _)).bind fun fits => ?_
    split
    · exact Leaves.bind (leaves_changeProcess _ fun _ => rfl) fun _ =>
        (leaves_report _).bind fun _ => leaves_onPolicy _
    · exact hrefuse _

theorem leaves_advance : Leaves tally (advance : Running g S Unit) := by
  have hwoken (w : Waiter) : Leaves tally (wakeWaiter w : Running g S Unit) := by
    cases w with
    | cpu c => exact leaves_pure _
    | process pid => exact leaves_wake pid
  refine leaves_get.bind fun m => ?_
  split
  · exact leaves_modify fun _ => rfl
  · refine leaves_time.bind fun now => (leaves_ofOption _ _).bind ?_
    rintro ⟨⟨tick, due⟩, rest⟩
    refine Leaves.bind (leaves_modify fun _ => rfl) fun _ => (leaves_ofOption _ _).bind fun _ => ?_
    exact Leaves.bind (leaves_modify fun _ => rfl) fun _ => (leaves_each hwoken due).bind fun _ =>
      leaves_modify fun _ => rfl

/-! Steps. -/

variable {m : Machine g S}

omit [Scheduler S] in
theorem Tallies.settle {x : Running g S Unit} (hx : Tallies x) (hm : m.Tallied) (crashed : RunError)
    (hok : ∀ e, (m.settle crashed x).1.status ≠ .aborted e) : (m.settle crashed x).1.Tallied := by
  unfold Machine.settle at hok ⊢
  split at hok
  · next hrun => exact (hx m hm).of_ok hrun
  · exact absurd rfl (hok _)
  · exact absurd rfl (hok _)

theorem Tallied.step (hm : m.Tallied) (hok : ∀ e, m.step.1.status ≠ .aborted e) :
    m.step.1.Tallied := by
  revert hok
  unfold Machine.step
  split
  · split
    · next c _ _ => exact (tallies_cpuStep c).settle hm _
    · split
      · exact (tallies_of_leaves leaves_advance).settle hm _
      · exact fun _ => hm
  · exact fun _ => hm

omit [Scheduler S] in
theorem tallied_new (g : Geometry) (cpus : Nat) (useTlb : Bool) (policy : S)
    (specs : List ProcessSpec) : (new g cpus useTlb policy specs).Tallied := by
  have hcharged : (new g cpus useTlb policy specs).charged = 0 := by
    refine List.sum_eq_zero_iff_forall_eq_nat.mpr fun k hk => ?_
    simp only [new, List.map_map, List.mem_map] at hk
    obtain ⟨x, -, rfl⟩ := hk
    rfl
  have hmissed : (new g cpus useTlb policy specs).pager.missed = 0 := by
    refine List.sum_eq_zero_iff_forall_eq_nat.mpr fun k hk => ?_
    simp only [new, Pager.new, List.map_map, List.mem_map] at hk
    obtain ⟨x, -, rfl⟩ := hk
    rfl
  exact hcharged.trans hmissed.symm

end Machine

end DemandPaging
