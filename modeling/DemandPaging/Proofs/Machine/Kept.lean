import DemandPaging.Machine.Run
import DemandPaging.Proofs.Pager.Past
/-!
What the memory system keeps true of itself, whatever it is asked, is true of it after every step
of a machine: a machine changes its memory system only by asking.
-/

namespace DemandPaging.Machine

open DemandPaging.Action

variable {g : Geometry} {S α : Type} {P : Pager g → Prop}

theorem kept_time : Preserves (P ∘ pager) (time : Running g S Nat) :=
  preserves_get.bind fun _ => preserves_pure _

theorem kept_process (pid : ProcessId) :
    Preserves (P ∘ pager) (process pid : Running g S Process) :=
  preserves_get.bind fun _ => preserves_ofOption _ _

theorem kept_cpu (c : Nat) : Preserves (P ∘ pager) (cpu c : Running g S Cpu) :=
  preserves_get.bind fun _ => preserves_ofOption _ _

theorem kept_tickAfter (ticks : Nat) : Preserves (P ∘ pager) (tickAfter ticks : Running g S Nat) :=
  kept_time.bind fun _ => preserves_ofOption _ _

theorem kept_modify {c : Machine g S → Machine g S} (hc : ∀ m, (c m).pager = m.pager) :
    Preserves (P ∘ pager) (modify c : Running g S Unit) :=
  preserves_modify fun m (hm : P m.pager) => show P _ from (hc m).symm ▸ hm

theorem kept_changeProcess (pid : ProcessId) (f : Process → Process) :
    Preserves (P ∘ pager) (changeProcess pid f : Running g S Unit) := kept_modify fun _ => rfl

theorem kept_changeCpu (c : Nat) (f : Cpu → Cpu) :
    Preserves (P ∘ pager) (changeCpu c f : Running g S Unit) := kept_modify fun _ => rfl

theorem kept_onPolicy (y : Policy S α) : Preserves (P ∘ pager) (onPolicy y : Running g S α) :=
  preserves_within _ _ fun _ hm => hm

theorem kept_onPager {y : Paged g α} (hy : Preserves P y) :
    Preserves (P ∘ pager) (onPager y : Running g S α) :=
  kept_time.bind fun _ => preserves_within _ _ fun m hm => hy m.pager hm

section Turns

variable (hP : Pager.Kept P)
include hP

theorem kept_dispatch (c : Nat) (p : Process) :
    Preserves (P ∘ pager) (dispatch c p : Running g S Unit) :=
  kept_time.bind fun _ => (kept_changeProcess _ _).bind fun _ => (kept_changeCpu _ _).bind
    fun _ => (kept_onPager (hP.dispatch c p.pid)).bind fun _ => preserves_report _

theorem kept_undispatch (c : Nat) (b : Burst) :
    Preserves (P ∘ pager) (undispatch c b : Running g S Unit) :=
  (kept_cpu c).bind fun _ => (kept_changeProcess _ _).bind fun _ => (kept_changeCpu _ _).bind
    fun _ => kept_onPager (hP.flush c)

variable [Scheduler S]

theorem kept_expireQuantum (c : Nat) (b : Burst) :
    Preserves (P ∘ pager) (expireQuantum c b : Running g S Unit) :=
  (kept_process _).bind fun _ => kept_time.bind fun _ => (preserves_report _).bind fun _ =>
    (kept_undispatch hP c b).bind fun _ => (kept_changeProcess _ _).bind fun _ =>
      kept_onPolicy _

theorem kept_blockProcess (c : Nat) (b : Burst) (ticks : Nat) :
    Preserves (P ∘ pager) (blockProcess c b ticks : Running g S Unit) :=
  (kept_process _).bind fun _ => kept_time.bind fun _ => (preserves_report _).bind fun _ =>
    (kept_undispatch hP c b).bind fun _ => (kept_changeProcess _ _).bind fun _ =>
      (kept_onPolicy _).bind fun _ => (kept_tickAfter ticks).bind fun _ =>
        kept_modify fun _ => rfl

theorem kept_exitProcess (c : Nat) (b : Burst) :
    Preserves (P ∘ pager) (exitProcess c b : Running g S Unit) :=
  kept_time.bind fun _ => (kept_onPager (Pager.preserves_checkTable _)).bind fun _ =>
    (kept_undispatch hP c b).bind fun _ => (kept_onPager (hP.release _)).bind fun _ =>
      (kept_onPolicy _).bind fun _ => Preserves.bind (kept_modify fun _ => rfl) fun _ =>
        (kept_changeProcess _ _).bind fun _ => (kept_changeProcess _ _).bind fun _ =>
          (kept_process _).bind fun _ => (preserves_report _).bind fun _ => preserves_report _

theorem kept_fetch (c : Nat) (b : Burst) (addr : VirtualAddress) (access : Access) :
    Preserves (P ∘ pager) (fetch c b addr access : Running g S Fetch) := by
  have htranslate : Preserves (P ∘ pager) (onPager (Pager.translate c b.pid addr) :
      Running g S (Option FrameNumber)) := kept_onPager (hP.translate c b.pid addr)
  refine htranslate.bind ?_
  rintro (_ | f)
  · refine (kept_changeProcess _ _).bind fun _ => (kept_process _).bind fun p => ?_
    refine (preserves_report _).bind fun _ => (kept_onPager (hP.handleFault _ _ _)).bind ?_
    rintro (f | v)
    · refine htranslate.bind ?_
      rintro (_ | f)
      · exact preserves_fail _
      · exact (preserves_report _).bind fun _ => preserves_pure _
    · exact (preserves_report _).bind fun _ => (kept_exitProcess hP c b).bind fun _ =>
        preserves_pure _
  · exact preserves_pure _

theorem kept_fetchData (c : Nat) (b : Burst) (frame : FrameNumber)
    (addr : Option VirtualAddress) :
    Preserves (P ∘ pager) (fetchData c b frame addr : Running g S Attempt) := by
  cases addr with
  | none => exact preserves_pure _
  | some a =>
    refine (preserves_report _).bind fun _ => (kept_fetch hP c b a .data).bind ?_
    rintro (f | _ | _) <;> exact preserves_pure _

theorem kept_attempt (c : Nat) (b : Burst) (i : Instruction) :
    Preserves (P ∘ pager) (attempt c b i : Running g S Attempt) := by
  refine (kept_process _).bind fun p => (kept_cpu c).bind fun x => ?_
  refine (preserves_report _).bind fun _ => (kept_fetch hP c b _ _).bind ?_
  rintro (f | _ | _)
  · exact (preserves_report _).bind fun _ => kept_fetchData hP c b f _
  · exact preserves_pure _
  · exact preserves_pure _

theorem kept_resolve (c : Nat) (b : Burst) (i : Instruction) :
    Preserves (P ∘ pager) (resolve c b i : Running g S (Option InstructionFrames)) := by
  have hwithin (attempts : Nat) :
      Preserves (P ∘ pager) (resolveWithin c b i attempts : Running g S _) := by
    induction attempts with
    | zero => exact kept_time.bind fun _ => (kept_cpu c).bind fun _ => preserves_fail _
    | succ attempts ih =>
      refine (kept_attempt hP c b i).bind ?_
      rintro (frames | _ | _)
      · exact preserves_pure _
      · exact ih
      · exact preserves_pure _
  exact hwithin _

theorem kept_ask (c : Nat) : Preserves (P ∘ pager) (ask c : Running g S Unit) := by
  refine (kept_onPolicy _).bind ?_
  rintro (_ | pid)
  · exact kept_time.bind fun _ => (preserves_report _).bind fun _ => kept_modify fun _ => rfl
  · refine (kept_process pid).bind fun p => ?_
    split
    · exact kept_time.bind fun _ => (preserves_fail _).bind fun _ => kept_dispatch hP c p
    · exact kept_dispatch hP c p

theorem kept_startInstruction (c : Nat) (b : Burst) :
    Preserves (P ∘ pager) (startInstruction c b : Running g S Unit) := by
  refine (kept_process _).bind fun p => ?_
  split
  · exact kept_expireQuantum hP c b
  · refine (kept_cpu c).bind fun x => (kept_resolve hP c b _).bind ?_
    rintro (_ | frames)
    · exact preserves_pure _
    · exact (kept_tickAfter 1).bind fun _ => (kept_changeCpu _ _).bind fun _ =>
        kept_modify fun _ => rfl

/-! Executing an instruction. -/

omit [Scheduler S] in
theorem kept_execute (pid : ProcessId) (base : VirtualAddress) (data : Option PhysicalAddress)
    (i : Instruction) : Preserves (P ∘ Execution.pager) (Execution.execute pid base data i) := by
  refine preserves_get.bind fun e => ?_
  have hset (r : Register) (w : Int32) :
      Preserves (P ∘ Execution.pager) (Execution.setRegister r w) := fun _ he => he
  have hprint (line : String) :
      Preserves (P ∘ Execution.pager) (Execution.print line) := fun _ he => he
  have hpager {α : Type} {y : Paged g α} (hy : Preserves P y) :
      Preserves (P ∘ Execution.pager) (Execution.onPager y) :=
    preserves_within _ _ fun e he => hy e.pager he
  cases i with
  | invalid _ => exact preserves_pure _
  | printReg r => exact (preserves_report _).bind fun _ => (hprint _).bind fun _ => preserves_pure _
  | printStr s => exact (preserves_report _).bind fun _ => (hprint _).bind fun _ => preserves_pure _
  | incr r w => exact (hset _ _).bind fun _ => (preserves_report _).bind fun _ => preserves_pure _
  | loadImmediate r w =>
    exact (hset _ _).bind fun _ => (preserves_report _).bind fun _ => preserves_pure _
  | loadPageAddr r p =>
    exact (hset _ _).bind fun _ => (preserves_report _).bind fun _ => preserves_pure _
  | loadIndirect d a =>
    cases data with
    | none => exact preserves_pure _
    | some a =>
      exact (hpager (Pager.preserves_loadWord a)).bind fun _ => (hset _ _).bind fun _ =>
        (preserves_report _).bind fun _ => preserves_pure _
  | storeIndirect r a =>
    cases data with
    | none => exact preserves_pure _
    | some a =>
      exact (hpager (Pager.preserves_loadWord a)).bind fun _ => (hpager (hP.storeWord a _)).bind
        fun _ => (preserves_report _).bind fun _ => preserves_pure _
  | alloc =>
    refine (preserves_report _).bind fun _ => Preserves.bind ?_ fun granted => ?_
    · unfold Execution.allocate
      split
      · exact (preserves_report _).bind fun _ => preserves_pure _
      · exact hpager (hP.allocate _ _ _)
    · cases granted <;> exact preserves_pure _
  | _ => exact (preserves_report _).bind fun _ => preserves_pure _

omit [Scheduler S] hP in
theorem kept_onExecution (c : Nat) {y : Execution.Executing g α}
    (hy : Preserves (P ∘ Execution.pager) y) :
    Preserves (P ∘ pager) (onExecution c y : Running g S α) :=
  kept_time.bind fun _ => (kept_cpu c).bind fun x => preserves_within _ _ fun m hm =>
    hy { regs := x.regs, pager := m.pager } hm

theorem kept_complete (c : Nat) (b : Burst) (text : String) (ip : VirtualAddress)
    (done : Completion) : Preserves (P ∘ pager) (complete c b text ip done : Running g S Unit) := by
  match done with
  | .next _ => exact kept_changeCpu _ _
  | .block _ ticks => exact (kept_changeCpu _ _).bind fun _ => kept_blockProcess hP c b ticks
  | .signal .exit => exact kept_exitProcess hP c b
  | .signal .invalidInstruction =>
    exact (preserves_report _).bind fun _ => kept_exitProcess hP c b
  | .signal .allocationFailure =>
    exact (kept_process _).bind fun _ => (preserves_report _).bind fun _ =>
      kept_exitProcess hP c b

theorem kept_executeOn (c : Nat) (b : Burst) (i : InFlight) (frames : InstructionFrames) :
    Preserves (P ∘ pager) (executeOn c b i frames : Running g S Unit) :=
  (kept_cpu c).bind fun _ => (preserves_report _).bind fun _ => (kept_process _).bind fun _ =>
    (kept_onExecution c (kept_execute hP _ _ _ _)).bind fun _ => kept_complete hP _ _ _ _ _

theorem kept_finishInstruction (c : Nat) (b : Burst) (i : InFlight) :
    Preserves (P ∘ pager) (finishInstruction c b i : Running g S Unit) := by
  refine (kept_changeProcess _ _).bind fun _ => (kept_cpu c).bind fun x => ?_
  refine preserves_get.bind fun m => (preserves_ofOption _ _).bind fun held => ?_
  split
  · exact kept_executeOn hP c _ i _
  · refine (kept_process _).bind fun _ => kept_time.bind fun _ => ?_
    refine (preserves_report _).bind fun _ => (kept_resolve hP c _ _).bind ?_
    rintro (_ | frames)
    · exact preserves_pure _
    · exact kept_executeOn hP c _ i frames

theorem kept_cpuStep (c : Nat) : Preserves (P ∘ pager) (cpuStep c : Running g S Unit) := by
  refine (kept_cpu c).bind fun x => ?_
  split
  · exact kept_ask hP c
  · exact kept_startInstruction hP c _
  · exact kept_finishInstruction hP c _ _

/-! The clock. -/

theorem kept_wake (pid : ProcessId) : Preserves (P ∘ pager) (wake pid : Running g S Unit) := by
  have hrefuse (textPages : Nat) :
      Preserves (P ∘ pager) (refuse pid textPages : Running g S Unit) :=
    kept_time.bind fun _ => (kept_process _).bind fun _ => (preserves_report _).bind fun _ =>
      (kept_changeProcess _ _).bind fun _ => (kept_changeProcess _ _).bind fun _ =>
        (kept_onPager (hP.release _)).bind fun _ => kept_modify fun _ => rfl
  refine (kept_process pid).bind fun p => ?_
  split
  · exact kept_time.bind fun _ => (preserves_report _).bind fun _ =>
      (kept_changeProcess _ _).bind fun _ => kept_onPolicy _
  · have hcreate : Preserves (P ∘ pager)
        (modify fun m => { m with pager := m.pager.createSpace pid } : Running g S Unit) :=
      preserves_modify fun m hm => hP.createSpace m.pager pid hm
    refine kept_time.bind fun _ => hcreate.bind fun _ => (kept_process _).bind fun p => ?_
    refine (kept_onPager (hP.allocate _ _ _)).bind fun fits => ?_
    split
    · exact (kept_changeProcess _ _).bind fun _ => (preserves_report _).bind fun _ =>
        kept_onPolicy _
    · exact hrefuse _

theorem kept_advance : Preserves (P ∘ pager) (advance : Running g S Unit) := by
  refine preserves_get.bind fun m => ?_
  split
  · exact kept_modify fun _ => rfl
  · refine kept_time.bind fun now => (preserves_ofOption _ _).bind ?_
    rintro ⟨⟨tick, due⟩, rest⟩
    refine Preserves.bind (kept_modify fun _ => rfl) fun _ => (preserves_ofOption _ _).bind
      fun _ => Preserves.bind (kept_modify fun _ => rfl) fun _ => ?_
    refine (preserves_each fun w _ => ?_).bind fun _ => kept_modify fun _ => rfl
    cases w with
    | cpu c => exact preserves_pure ()
    | process pid => exact kept_wake hP pid

/-! Steps. -/

omit [Scheduler S] hP in
theorem kept_settle {m : Machine g S} {y : Running g S Unit} (hy : Preserves (P ∘ pager) y)
    (hm : P m.pager) (crashed : RunError) : P (m.settle crashed y).1.pager := by
  have hrun := hy m hm
  unfold settle
  split
  · next h => rwa [h] at hrun
  · next h => rwa [h] at hrun
  · next h => rwa [h] at hrun

theorem kept_step {m : Machine g S} (hm : P m.pager) : P m.step.1.pager := by
  unfold step
  split
  · split
    · exact kept_settle (kept_cpuStep hP _) hm _
    · split
      · exact kept_settle (kept_advance hP) hm _
      · exact hm
  · exact hm

theorem kept_stepN {m : Machine g S} (hm : P m.pager) (n : Nat) : P (m.stepN n).pager := by
  induction n generalizing m with
  | zero => exact hm
  | succ n ih => exact ih (kept_step hP hm)

end Turns

theorem past_stepN [Scheduler S] {m : Machine g S} (hm : m.pager.Past) (n : Nat) :
    (m.stepN n).pager.Past :=
  Pager.timely_zero.mp (kept_stepN (Pager.kept_timely g 0) (Pager.timely_zero.mpr hm) n)

end DemandPaging.Machine
