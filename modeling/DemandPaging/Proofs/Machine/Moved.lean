import DemandPaging.Proofs.Execute
import DemandPaging.Proofs.Machine.Moves
import DemandPaging.Proofs.Timeline
/-!
The actions of a machine make the moves of its roster and no others. Each action has one lemma that
says what it does to the roster, and a step of the machine is read off from them.
-/

namespace DemandPaging

namespace Machine

open DemandPaging.Action Roster

variable {g : Geometry} {S : Type} {r : Roster S} {c : Nat} {x : Cpu} {b : Burst} {p : Process}
  {pid : ProcessId}

theorem Fair.misled [Scheduler S] {e : Failure RunError} (he : Fair e) : r.Misled c e := by
  rcases e with e | _
  · cases e <;> trivial
  · trivial

theorem Fair.stuck {e : Failure RunError} (he : Fair e) : r.Stuck e := by
  rcases e with e | _
  · cases e <;> trivial
  · trivial

theorem moves_tell {z : Policy S Unit} :
    Moves Fair (onPolicy z : Running g S Unit) r fun _ s => s = r.told z :=
  (moves_onPolicy z).mono fun _ _ h => h.2

theorem moves_dispatch (hp : r.processes[p.pid]? = some p) (hx : r.cpus[c]? = some x) :
    Moves Fair (dispatch c p : Running g S Unit) r fun _ s => s = r.dispatched c p p.pid := by
  refine moves_time_bind ?_
  refine (moves_changeProcess hp _).andThen fun _ => ?_
  refine (moves_changeCpu (y := x) (by exact hx) _).andThen fun _ => ?_
  refine (moves_onPager _).andThen fun _ => ?_
  exact moves_report

theorem moves_undispatch (hp : r.processes[b.pid]? = some p) (hx : r.cpus[c]? = some x) :
    Moves Fair (undispatch c b : Running g S Unit) r
      fun _ s => s = r.off c x b (p.undispatched x.regs b.ticks) := by
  refine moves_cpu_bind hx ?_
  refine (moves_changeProcess hp _).andThen fun _ => ?_
  refine (moves_changeCpu (y := x) (by exact hx) _).andThen fun _ => ?_
  exact moves_onPager _

variable [Scheduler S]

theorem moves_expireQuantum (hp : r.processes[b.pid]? = some p) (hx : r.cpus[c]? = some x) :
    Moves Fair (expireQuantum c b : Running g S Unit) r fun _ s => s = r.expired c x b p := by
  refine moves_process_bind hp ?_
  refine moves_time_bind ?_
  refine moves_report_bind ?_
  refine (moves_undispatch hp hx).andThen fun _ => ?_
  refine (moves_changeProcess (getElem?_off_self hp c x _) _).andThen fun _ => ?_
  rw [setProcess_off]
  exact moves_tell

theorem moves_blockProcess (hp : r.processes[b.pid]? = some p) (hx : r.cpus[c]? = some x)
    (ticks : Nat) : Moves Fair (blockProcess c b ticks : Running g S Unit) r
      fun _ s => s = r.blocked c x b p (r.clock.now + ticks) := by
  refine moves_process_bind hp ?_
  refine moves_time_bind ?_
  refine moves_report_bind ?_
  refine (moves_undispatch hp hx).andThen fun _ => ?_
  refine (moves_changeProcess (getElem?_off_self hp c x _) _).andThen fun _ => ?_
  rw [setProcess_off]
  refine moves_tell.andThen fun _ => ?_
  refine (moves_tickAfter ticks).bind ?_
  rintro tick _ ⟨htick, rfl⟩
  obtain ⟨rfl, -⟩ := Number.add?_eq_some.mp htick
  exact moves_scheduleWaiter _ _

theorem moves_exitProcess (hp : r.processes[b.pid]? = some p) (hx : r.cpus[c]? = some x) :
    Moves Fair (exitProcess c b : Running g S Unit) r fun _ s => s = r.ended c x b p := by
  refine moves_time_bind ?_
  refine (moves_onPager _).andThen fun _ => ?_
  refine (moves_undispatch hp hx).andThen fun _ => ?_
  refine (moves_onPager _).andThen fun _ => ?_
  refine moves_tell.andThen fun _ => ?_
  refine moves_countDown.andThen fun _ => ?_
  have hp₁ := getElem?_off_self hp c x (p.undispatched x.regs b.ticks)
  refine (moves_changeProcess (by exact hp₁) _).andThen fun _ => ?_
  have hp₂ := getElem?_setProcess_self hp₁ { p.undispatched x.regs b.ticks with status := .exited }
  refine (moves_changeProcess (by exact hp₂) _).andThen fun _ => ?_
  refine moves_process_bind (getElem?_setProcess_self (by exact hp₂) _) ?_
  refine moves_report_bind ?_
  refine moves_report.mono ?_
  rintro _ _ rfl
  rw [setProcess_setProcess]
  exact congrArg (fun s : Roster S => { s.told (Scheduler.exited b.pid) with live := r.live - 1 })
    (setProcess_off r c x b _ _)

/-! Bringing in the pages of an instruction. -/

theorem exists_countFault (p : Process) (access : Access) :
    ∃ k l, (p.changeAccount fun a => countFault a access) = p.faulted k l := by
  cases access with
  | fetch _ => exact ⟨1, 0, rfl⟩
  | data => exact ⟨0, 1, rfl⟩

theorem moves_fetch (hp : r.processes[b.pid]? = some p) (hx : r.cpus[c]? = some x)
    (addr : VirtualAddress) (access : Access) :
    Moves Fair (fetch c b addr access : Running g S Fetch) r
      fun f s => Faulted r c x b p (f = .terminated) s := by
  refine (moves_onPager _).andThen ?_
  rintro (_ | f)
  · refine (moves_changeProcess hp _).andThen fun _ => ?_
    obtain ⟨k, l, hcount⟩ := exists_countFault p access
    rw [hcount]
    have hp₁ := getElem?_setProcess_self hp (p.faulted k l)
    refine moves_process_bind hp₁ ?_
    refine moves_report_bind ?_
    refine (moves_onPager _).andThen ?_
    rintro (f | v)
    · refine (moves_onPager _).andThen ?_
      rintro (_ | f)
      · exact moves_fail trivial
      · refine moves_report_bind ?_
        exact moves_pure (.stays k l)
    · refine moves_report_bind ?_
      refine (moves_exitProcess hp₁ hx).andThen fun _ => ?_
      rw [ended_setProcess]
      exact moves_pure (.ends k l)
  · exact moves_pure (.none hp c x)

theorem moves_fetchData (hp : r.processes[b.pid]? = some p) (hx : r.cpus[c]? = some x)
    (frame : FrameNumber) (addr : Option VirtualAddress) :
    Moves Fair (fetchData c b frame addr : Running g S Attempt) r
      fun a s => Faulted r c x b p (a = .terminated) s := by
  cases addr with
  | none => exact moves_pure (.none hp c x)
  | some a =>
    refine moves_report_bind ?_
    refine (moves_fetch hp hx a .data).bind ?_
    rintro (f | _ | _) s hs <;> exact moves_pure hs

theorem moves_attempt (hp : r.processes[b.pid]? = some p) (hx : r.cpus[c]? = some x)
    (i : Instruction) : Moves Fair (attempt c b i : Running g S Attempt) r
      fun a s => Faulted r c x b p (a = .terminated) s := by
  refine moves_process_bind hp ?_
  refine moves_cpu_bind hx ?_
  refine moves_report_bind ?_
  refine (moves_fetch hp hx _ _).bind ?_
  rintro (f | _ | _) s hs
  · cases hs with
    | stays k l =>
      refine moves_report_bind ?_
      exact (moves_fetchData (getElem?_setProcess_self hp _) hx f _).mono fun _ _ h => h.after
  · exact moves_pure hs
  · exact moves_pure hs

theorem moves_resolveWithin (hp : r.processes[b.pid]? = some p) (hx : r.cpus[c]? = some x)
    (i : Instruction) (attempts : Nat) :
    Moves Fair (resolveWithin c b i attempts : Running g S (Option InstructionFrames)) r
      fun o s => Faulted r c x b p o.isNone s := by
  induction attempts generalizing r p with
  | zero =>
    refine moves_time_bind ?_
    refine moves_cpu_bind hx ?_
    exact moves_fail trivial
  | succ attempts ih =>
    refine (moves_attempt hp hx i).bind ?_
    rintro (frames | _ | _) s hs
    · exact moves_pure hs
    · cases hs with
      | stays k l => exact (ih (getElem?_setProcess_self hp _) hx).mono fun _ _ h => h.after
    · exact moves_pure hs

theorem moves_resolve (hp : r.processes[b.pid]? = some p) (hx : r.cpus[c]? = some x)
    (i : Instruction) : Moves Fair (resolve c b i : Running g S (Option InstructionFrames)) r
      fun o s => Faulted r c x b p o.isNone s := moves_resolveWithin hp hx i _

/-! The turn of a CPU. -/

theorem moves_ask (hr : r.Manned) (hx : r.cpus[c]? = some x) (hphase : x.phase = .asking) :
    Moves (r.Misled c) (ask c : Running g S Unit) r fun _ s => r.Move c x s := by
  refine ((moves_onPolicy (Scheduler.schedule c)).weaken fun _ => Fair.misled).bind ?_
  rintro (_ | pid) _ ⟨hpick, rfl⟩
  · refine moves_time_bind ?_
    refine moves_report_bind ?_
    refine (moves_park c none).mono ?_
    rintro _ _ rfl
    exact .idles hphase hpick
  · refine ((moves_process pid).weaken fun _ => Fair.misled).bind ?_
    rintro p _ ⟨hp, rfl⟩
    obtain rfl := hr.named pid p hp
    split
    · next hne =>
      refine moves_time_bind ?_
      exact moves_fail_bind ⟨_, p, hpick, hp, hne⟩
    · next hready =>
      refine ((moves_dispatch hp hx).weaken fun _ => Fair.misled).mono ?_
      rintro _ _ rfl
      exact .dispatches hphase hpick hp (Decidable.not_not.mp hready)

theorem moves_startInstruction (hx : r.cpus[c]? = some x) (hphase : x.phase = .bursting b) :
    Moves Fair (startInstruction c b : Running g S Unit) r fun _ s => r.Move c x s := by
  refine (moves_process b.pid).bind ?_
  rintro p _ ⟨hp, rfl⟩
  split
  · next hquantum =>
    refine (moves_expireQuantum hp hx).mono ?_
    rintro _ _ rfl
    exact .expires hphase hp hquantum
  · next hquantum =>
    refine moves_cpu_bind hx ?_
    refine (moves_resolve hp hx _).bind ?_
    rintro (_ | frames) s hs
    · cases hs with
      | ends k l => exact moves_pure (.strays hphase hp (Nat.lt_of_not_le hquantum))
    · cases hs with
      | stays k l =>
        refine (moves_tickAfter 1).bind ?_
        rintro wake _ ⟨hwake, rfl⟩
        obtain ⟨rfl, -⟩ := Number.add?_eq_some.mp hwake
        refine (moves_changeCpu (y := x) (by exact hx) _).andThen fun _ => ?_
        refine (moves_park c _).mono ?_
        rintro _ _ rfl
        exact .spends hphase hp (Nat.lt_of_not_le hquantum)

theorem moves_complete_block (hp : r.processes[b.pid]? = some p) (hx : r.cpus[c]? = some x)
    (text : String) (ip next : VirtualAddress) (ticks : Nat) :
    Moves Fair (complete c b text ip (.block next ticks) : Running g S Unit) r
      fun _ s => ∃ regs, s = r.blocked c { x with regs } b p (r.clock.now + ticks) := by
  refine (moves_changeCpu hx _).andThen fun _ => ?_
  refine (moves_blockProcess (by exact hp) (getElem?_setCpu_self hx _) ticks).mono ?_
  rintro _ _ rfl
  rw [blocked_setCpu]
  exact ⟨_, rfl⟩

theorem moves_complete (hp : r.processes[b.pid]? = some p) (hx : r.cpus[c]? = some x)
    (text : String) (ip : VirtualAddress) {i : Instruction} {done : Completion}
    (hdone : ∀ next ticks, done = .block next ticks → i = .block ticks) :
    Moves Fair (complete c b text ip done : Running g S Unit) r
      fun _ s => Ran r c x b p i s := by
  have hexit : Moves Fair (exitProcess c b : Running g S Unit) r
      fun _ s => Ran r c x b p i s := by
    refine (moves_exitProcess hp hx).mono ?_
    rintro _ _ rfl
    exact .ends x.regs
  match done with
  | .next next =>
    refine (moves_changeCpu hx _).mono ?_
    rintro _ _ rfl
    exact .goesOn _
  | .block next ticks =>
    refine (moves_complete_block hp hx text ip next ticks).mono ?_
    rintro _ _ ⟨regs, rfl⟩
    exact .blocks regs (hdone next ticks rfl)
  | .signal .exit => exact hexit
  | .signal .invalidInstruction => exact moves_report_bind hexit
  | .signal .allocationFailure =>
    refine moves_process_bind hp ?_
    exact moves_report_bind hexit

theorem moves_execute_block (hp : r.processes[b.pid]? = some p) (hx : r.cpus[c]? = some x)
    (text : String) (ip base : VirtualAddress) (data : Option PhysicalAddress) (ticks : Nat) :
    Moves Fair (onExecution c (Execution.execute b.pid base data (.block ticks)) >>=
        complete c b text ip : Running g S Unit) r
      fun _ s => ∃ regs, s = r.blocked c { x with regs } b p (r.clock.now + ticks) := by
  refine (moves_onExecution hx (Execution.meets_execute_of_block _ _ _ _)).bind ?_
  rintro _ _ ⟨⟨next, rfl⟩, regs, rfl⟩
  refine (moves_complete_block (by exact hp) (getElem?_setCpu_self hx _) text ip next ticks).mono ?_
  rintro _ _ ⟨regs', rfl⟩
  rw [blocked_setCpu]
  exact ⟨regs', rfl⟩

theorem moves_executeOn (hp : r.processes[b.pid]? = some p) (hx : r.cpus[c]? = some x)
    (i : InFlight) (frames : InstructionFrames) :
    Moves Fair (executeOn c b i frames : Running g S Unit) r
      fun _ s => Ran r c x b p i.instruction s := by
  refine moves_cpu_bind hx ?_
  refine moves_report_bind ?_
  refine moves_process_bind hp ?_
  refine (moves_onExecution hx (Execution.meets_execute_block _ _ _ _)).bind ?_
  rintro done _ ⟨hdone, regs, rfl⟩
  exact (moves_complete (by exact hp) (getElem?_setCpu_self hx _) _ _ hdone).mono
    fun _ _ h => h.after

theorem moves_finishInstruction (hr : r.Manned) (hx : r.cpus[c]? = some x) {i : InFlight}
    (hphase : x.phase = .spending b i) :
    Moves Fair (finishInstruction c b i : Running g S Unit) r fun _ s => r.Move c x s := by
  obtain ⟨p, hp⟩ := Option.isSome_iff_exists.mp
    (hr.current c x b.pid hx (Cpu.current?_of_spending hphase))
  refine (moves_changeProcess hp _).andThen fun _ => ?_
  have hp₁ := getElem?_setProcess_self hp p.spent
  refine moves_cpu_bind (y := x) hx ?_
  refine moves_get_bind fun m _ => ?_
  refine (moves_ofOption fun _ => trivial).bind ?_
  rintro held _ ⟨-, rfl⟩
  split
  · refine (moves_executeOn (b := { b with ticks := b.ticks + 1 }) hp₁ hx i i.frames).mono ?_
    intro _ s hs
    exact Ran.move (k := 0) (l := 0) hphase hp hs
  · refine moves_process_bind hp₁ ?_
    refine moves_time_bind ?_
    refine moves_report_bind ?_
    refine (moves_resolve (b := { b with ticks := b.ticks + 1 }) hp₁ hx i.instruction).bind ?_
    rintro (_ | frames) s hs
    · cases hs with
      | ends k l =>
        rw [ended_setProcess (b := { b with ticks := b.ticks + 1 })]
        exact moves_pure (.ends hphase hp)
    · cases hs with
      | stays k l =>
        rw [setProcess_setProcess]
        exact (moves_executeOn (b := { b with ticks := b.ticks + 1 })
          (getElem?_setProcess_self hp _) hx i frames).mono fun _ _ h => h.move hphase hp

theorem moves_cpuStep (hr : r.Manned) (c : Nat) :
    Moves (r.Misled c) (cpuStep c : Running g S Unit) r
      fun _ s => ∃ x, r.cpus[c]? = some x ∧ r.Move c x s := by
  refine ((moves_cpu c).weaken fun _ => Fair.misled).bind ?_
  rintro x s ⟨hx, hs⟩
  rw [hs]
  refine Moves.mono (P := fun _ s => r.Move c x s) ?_ fun _ _ h => ⟨x, hx, h⟩
  split
  · next hphase => exact moves_ask hr hx hphase
  · next b hphase => exact (moves_startInstruction hx hphase).weaken fun _ => Fair.misled
  · next b i hphase => exact (moves_finishInstruction hr hx hphase).weaken fun _ => Fair.misled

/-! The clock. -/

omit [Scheduler S] in
theorem moves_refuse (hp : r.processes[pid]? = some p) (textPages : Nat) :
    Moves Fair (refuse pid textPages : Running g S Unit) r
      fun _ s => s = { r.setProcess pid (p.exited r.clock.now) with live := r.live - 1 } := by
  refine moves_time_bind ?_
  refine moves_process_bind hp ?_
  refine moves_report_bind ?_
  refine (moves_changeProcess hp _).andThen fun _ => ?_
  refine (moves_changeProcess (getElem?_setProcess_self hp _) _).andThen fun _ => ?_
  rw [setProcess_setProcess]
  refine (moves_onPager _).andThen fun _ => ?_
  exact moves_countDown

theorem moves_start (hp : r.processes[pid]? = some p) (hnot : p.isStarted = false) :
    Moves Fair (start pid : Running g S Unit) r fun _ s => r.Wake g pid s := by
  refine moves_time_bind ?_
  refine (moves_modify r ?_).andThen fun _ => ?_
  · exact fun _ hm => hm
  refine moves_process_bind hp ?_
  refine (moves_onPager _).andThen ?_
  rintro (_ | _)
  · rw [if_neg nofun]
    refine (moves_refuse hp _).mono ?_
    rintro _ _ rfl
    exact .refuses hp hnot
  · rw [if_pos rfl]
    refine (moves_changeProcess hp _).andThen fun _ => ?_
    refine moves_report_bind ?_
    refine moves_tell.mono ?_
    rintro _ _ rfl
    exact .starts hp hnot

theorem moves_wake (pid : ProcessId) :
    Moves Fair (wake pid : Running g S Unit) r fun _ s => r.Wake g pid s := by
  refine (moves_process pid).bind ?_
  rintro p _ ⟨hp, rfl⟩
  split
  · next hstarted =>
    refine moves_time_bind ?_
    refine moves_report_bind ?_
    refine (moves_changeProcess hp _).andThen fun _ => ?_
    refine moves_tell.mono ?_
    rintro _ _ rfl
    exact .unblocks hp hstarted
  · next hnot => exact moves_start hp (by simpa using hnot)

theorem moves_each_wakeWaiter (due : List Waiter) :
    Moves Fair (each wakeWaiter due : Running g S Unit) r fun _ s => Woken g r due s := by
  induction due generalizing r with
  | nil => exact moves_pure (.done r)
  | cons w due ih =>
    cases w with
    | cpu c => exact Moves.andThen (moves_pure rfl) fun _ => ih.mono fun _ _ h => .cpu c h
    | process pid =>
      exact (moves_wake pid).bind fun _ s hs => ih.mono fun _ _ h => .process hs h

omit [Scheduler S] in
theorem roster_releaseCpus (m : Machine g S) (due : List Waiter) :
    (m.releaseCpus due).roster = m.roster.release due := rfl

theorem moves_advance :
    Moves r.Stuck (advance : Running g S Unit) r fun _ s => r.Advance g s := by
  refine moves_get_bind fun m hm => ?_
  subst hm
  split
  · next hlive =>
    refine (moves_modify { m.roster with status := .finished } ?_).mono ?_
    · intro m' hm'
      exact congrArg (fun s : Roster S => { s with status := .finished }) hm'
    · rintro _ _ rfl
      exact .finishes hlive
  · next hlive =>
    refine moves_time_bind ?_
    refine (moves_ofOption fun hpop => ⟨hlive, hpop⟩).bind ?_
    rintro ⟨⟨tick, due⟩, rest⟩ _ ⟨hpop, rfl⟩
    refine (moves_modify { m.roster with queue := rest } ?_).andThen fun _ => ?_
    · intro m' hm'
      exact congrArg (fun s : Roster S => { s with queue := rest }) hm'
    refine (moves_ofOption fun hwarp =>
      ⟨tick, due, rest, hpop, VirtualClock.advance?_eq_none.mp hwarp⟩).bind ?_
    rintro clock _ ⟨hclock, rfl⟩
    obtain ⟨hle, rfl⟩ := VirtualClock.advance?_eq_some.mp hclock
    refine (moves_modify { m.roster with queue := rest, clock := ⟨tick⟩ } ?_).andThen fun _ => ?_
    · intro m' hm'
      exact congrArg (fun s : Roster S => { s with clock := ⟨tick⟩ }) hm'
    refine ((moves_each_wakeWaiter due).weaken fun _ => Fair.stuck).bind ?_
    intro _ s hs
    refine (moves_modify (s.release due) ?_).mono ?_
    · rintro m' rfl
      exact roster_releaseCpus m' due
    · rintro _ _ rfl
      exact .moves hlive hpop hle hs

/-! Steps. -/

omit [Scheduler S] in
theorem status_roster_eq_running {m : Machine g S} :
    m.roster.status = .running ↔ m.isRunning = true := decide_eq_true_iff.symm

omit [Scheduler S] in
theorem roster_settle {E : Failure RunError → Prop} {Q : Roster S → Prop} {m : Machine g S}
    {y : Running g S Unit} (hy : Moves E y m.roster fun _ s => Q s) (crashed : RunError)
    (hcrashed : E (.error crashed)) :
    Q (m.settle crashed y).1.roster ∨
      ∃ e, E (.error e) ∧ (m.settle crashed y).1.roster.status = .aborted e := by
  have hrun := hy m rfl
  unfold settle
  split
  · next hok => exact .inl (hrun.of_ok hok)
  · next e _ _ herror => exact .inr ⟨e, hrun.of_error herror, rfl⟩
  · exact .inr ⟨crashed, hcrashed, rfl⟩

theorem roster_step {m : Machine g S} (hm : m.roster.Manned) :
    m.roster.Step g m.step.1.roster := by
  unfold Machine.step
  split
  · next hrun =>
    have hrun := status_roster_eq_running.mpr hrun
    split
    · next c cs hturns =>
      have hhead : m.roster.turns.head? = some c := congrArg List.head? hturns
      rcases roster_settle (moves_cpuStep hm c) (.cpuCrashed c) trivial with
        ⟨x, hx, hmove⟩ | ⟨e, he, hs⟩
      · exact .turns hrun hhead hx hmove
      · exact .stops hrun hhead he hs
    · next hturns =>
      split
      · next hparked =>
        rcases roster_settle (moves_advance (r := m.roster)) .advanceCrashed trivial with
          hadvance | ⟨e, he, hs⟩
        · exact .advances hrun hturns hparked hadvance
        · exact .sticks hrun hturns hparked he hs
      · next hparked => exact .rests fun _ => ⟨hturns, hparked⟩
  · next hrun => exact .rests fun h => absurd (status_roster_eq_running.mp h) hrun

end Machine

end DemandPaging
