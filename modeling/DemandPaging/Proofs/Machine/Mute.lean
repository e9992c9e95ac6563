import DemandPaging.Machine.Run
import DemandPaging.Proofs.Machine.Quiet
/-!
Actions that execute no instruction, on whatever machine they run and however they end. Only the
end of a turn does, once the tick of an instruction has been spent.
-/

namespace DemandPaging.Machine

open DemandPaging.Action

variable {g : Geometry} {S α β : Type}

/-- None of the events of the action tells of an executed instruction, not even if it fails. -/
def Mute (x : Running g S α) : Prop := ∀ m, Silent (x.run m).events

section Rules

variable {x : Running g S α} {f : α → Running g S β}

theorem mute_of_events_eq_nil (h : ∀ m, (x.run m).events = []) : Mute x := fun m => by
  rw [h m]
  exact silent_nil

theorem Mute.bind (hx : Mute x) (hf : ∀ a, Mute (f a)) : Mute (x >>= f) := by
  intro m
  have hfirst := hx m
  rw [run_bind]
  rcases hrun : x.run m with ⟨r | a, t, es⟩
  · rw [hrun] at hfirst
    exact hfirst
  · rw [hrun] at hfirst
    exact hfirst.append (hf a t)

theorem mute_pure (a : α) : Mute (pure a : Running g S α) := mute_of_events_eq_nil fun _ => rfl

theorem mute_fail (r : Failure RunError) : Mute (fail r : Running g S α) :=
  mute_of_events_eq_nil fun _ => rfl

theorem mute_get : Mute (get : Running g S (Machine g S)) := mute_of_events_eq_nil fun _ => rfl

theorem mute_modify (c : Machine g S → Machine g S) : Mute (modify c) :=
  mute_of_events_eq_nil fun _ => rfl

theorem mute_ofOption (r : Failure RunError) (o : Option α) :
    Mute (ofOption r o : Running g S α) := by
  cases o with
  | none => exact mute_fail r
  | some a => exact mute_pure a

theorem mute_report {e : Event} (he : e.isDeed = false) : Mute (report e : Running g S Unit) := by
  intro m
  simpa [Silent] using he

theorem mute_within {ω ε τ : Type} {view : Machine g S → τ} {put : τ → Machine g S → Machine g S}
    {event : ω → Event} (hevent : ∀ o, (event o).isDeed = false) (failure : ε → Failure RunError)
    (y : Action ω ε τ α) : Mute (within view put event failure y) := by
  intro m e he
  rw [run_within] at he
  obtain ⟨o, -, rfl⟩ := List.mem_map.mp he
  exact hevent o

end Rules

theorem mute_time : Mute (time : Running g S Nat) := mute_get.bind fun _ => mute_pure _

theorem mute_process (pid : ProcessId) : Mute (process pid : Running g S Process) :=
  mute_get.bind fun _ => mute_ofOption _ _

theorem mute_cpu (c : Nat) : Mute (cpu c : Running g S Cpu) :=
  mute_get.bind fun _ => mute_ofOption _ _

theorem mute_tickAfter (ticks : Nat) : Mute (tickAfter ticks : Running g S Nat) :=
  mute_time.bind fun _ => mute_ofOption _ _

theorem mute_onPager (y : Paged g α) : Mute (onPager y : Running g S α) :=
  mute_time.bind fun _ => mute_within (fun _ => rfl) _ y

theorem mute_onPolicy (y : Policy S α) : Mute (onPolicy y : Running g S α) :=
  mute_within (fun o => o.elim) _ y

theorem mute_onExecution (c : Nat) (y : Execution.Executing g α) :
    Mute (onExecution c y : Running g S α) :=
  mute_time.bind fun _ => (mute_cpu c).bind fun _ => mute_within (fun _ => rfl) _ y

theorem mute_dispatch (c : Nat) (p : Process) : Mute (dispatch c p : Running g S Unit) :=
  mute_time.bind fun _ => (mute_modify _).bind fun _ => (mute_modify _).bind fun _ =>
    (mute_onPager _).bind fun _ => mute_report rfl

theorem mute_undispatch (c : Nat) (b : Burst) : Mute (undispatch c b : Running g S Unit) :=
  (mute_cpu c).bind fun _ => (mute_modify _).bind fun _ => (mute_modify _).bind fun _ =>
    mute_onPager _

variable [Scheduler S]

theorem mute_expireQuantum (c : Nat) (b : Burst) : Mute (expireQuantum c b : Running g S Unit) :=
  (mute_process _).bind fun _ => mute_time.bind fun _ => (mute_report rfl).bind fun _ =>
    (mute_undispatch c b).bind fun _ => (mute_modify _).bind fun _ => mute_onPolicy _

theorem mute_blockProcess (c : Nat) (b : Burst) (ticks : Nat) :
    Mute (blockProcess c b ticks : Running g S Unit) :=
  (mute_process _).bind fun _ => mute_time.bind fun _ => (mute_report rfl).bind fun _ =>
    (mute_undispatch c b).bind fun _ => (mute_modify _).bind fun _ =>
      (mute_onPolicy _).bind fun _ => (mute_tickAfter ticks).bind fun _ => mute_modify _

theorem mute_exitProcess (c : Nat) (b : Burst) : Mute (exitProcess c b : Running g S Unit) :=
  mute_time.bind fun _ => (mute_onPager _).bind fun _ => (mute_undispatch c b).bind fun _ =>
    (mute_onPager _).bind fun _ => (mute_onPolicy _).bind fun _ => (mute_modify _).bind fun _ =>
      (mute_modify _).bind fun _ => (mute_modify _).bind fun _ => (mute_process _).bind fun _ =>
        (mute_report rfl).bind fun _ => mute_report rfl

/-! Bringing in the pages of an instruction. -/

theorem mute_fetch (c : Nat) (b : Burst) (addr : VirtualAddress) (access : Access) :
    Mute (fetch c b addr access : Running g S Fetch) := by
  refine (mute_onPager _).bind ?_
  rintro (_ | f)
  · refine (mute_modify _).bind fun _ => (mute_process _).bind fun p => ?_
    refine (mute_report rfl).bind fun _ => (mute_onPager _).bind ?_
    rintro (f | v)
    · refine (mute_onPager _).bind ?_
      rintro (_ | f)
      · exact mute_fail _
      · exact (mute_report rfl).bind fun _ => mute_pure _
    · exact (mute_report rfl).bind fun _ => (mute_exitProcess c b).bind fun _ => mute_pure _
  · exact mute_pure _

theorem mute_fetchData (c : Nat) (b : Burst) (frame : FrameNumber) (addr : Option VirtualAddress) :
    Mute (fetchData c b frame addr : Running g S Attempt) := by
  cases addr with
  | none => exact mute_pure _
  | some a =>
    refine (mute_report rfl).bind fun _ => (mute_fetch c b a .data).bind ?_
    rintro (f | _ | _) <;> exact mute_pure _

theorem mute_attempt (c : Nat) (b : Burst) (i : Instruction) :
    Mute (attempt c b i : Running g S Attempt) := by
  refine (mute_process _).bind fun p => (mute_cpu c).bind fun x => ?_
  refine (mute_report rfl).bind fun _ => (mute_fetch c b _ _).bind ?_
  rintro (f | _ | _)
  · exact (mute_report rfl).bind fun _ => mute_fetchData c b f _
  · exact mute_pure _
  · exact mute_pure _

theorem mute_resolve (c : Nat) (b : Burst) (i : Instruction) :
    Mute (resolve c b i : Running g S (Option InstructionFrames)) := by
  have hwithin (attempts : Nat) : Mute (resolveWithin c b i attempts : Running g S _) := by
    induction attempts with
    | zero => exact mute_time.bind fun _ => (mute_cpu c).bind fun _ => mute_fail _
    | succ attempts ih =>
      refine (mute_attempt c b i).bind ?_
      rintro (frames | _ | _)
      · exact mute_pure _
      · exact ih
      · exact mute_pure _
  exact hwithin _

/-! Turns before the tick of an instruction, and what follows one that was executed. -/

theorem mute_ask (c : Nat) : Mute (ask c : Running g S Unit) := by
  refine (mute_onPolicy _).bind ?_
  rintro (_ | pid)
  · exact mute_time.bind fun _ => (mute_report rfl).bind fun _ => mute_modify _
  · refine (mute_process pid).bind fun p => ?_
    split
    · exact mute_time.bind fun _ => (mute_fail _).bind fun _ => mute_dispatch c p
    · exact mute_dispatch c p

theorem mute_startInstruction (c : Nat) (b : Burst) :
    Mute (startInstruction c b : Running g S Unit) := by
  refine (mute_process _).bind fun p => ?_
  split
  · exact mute_expireQuantum c b
  · refine (mute_cpu c).bind fun x => (mute_resolve c b _).bind ?_
    rintro (_ | frames)
    · exact mute_pure _
    · exact (mute_tickAfter 1).bind fun _ => (mute_modify _).bind fun _ => mute_modify _

theorem mute_complete (c : Nat) (b : Burst) (text : String) (ip : VirtualAddress)
    (done : Completion) : Mute (complete c b text ip done : Running g S Unit) := by
  match done with
  | .next _ => exact mute_modify _
  | .block _ ticks => exact (mute_modify _).bind fun _ => mute_blockProcess c b ticks
  | .signal .exit => exact mute_exitProcess c b
  | .signal .invalidInstruction => exact (mute_report rfl).bind fun _ => mute_exitProcess c b
  | .signal .allocationFailure =>
    exact (mute_process _).bind fun _ => (mute_report rfl).bind fun _ => mute_exitProcess c b

/-! The clock. -/

theorem mute_wake (pid : ProcessId) : Mute (wake pid : Running g S Unit) := by
  have hrefuse (textPages : Nat) : Mute (refuse pid textPages : Running g S Unit) :=
    mute_time.bind fun _ => (mute_process _).bind fun _ => (mute_report rfl).bind fun _ =>
      (mute_modify _).bind fun _ => (mute_modify _).bind fun _ => (mute_onPager _).bind fun _ =>
        mute_modify _
  refine (mute_process pid).bind fun p => ?_
  split
  · exact mute_time.bind fun _ => (mute_report rfl).bind fun _ => (mute_modify _).bind fun _ =>
      mute_onPolicy _
  · refine mute_time.bind fun _ => (mute_modify _).bind fun _ => (mute_process _).bind fun p => ?_
    refine (mute_onPager _).bind fun fits => ?_
    split
    · exact (mute_modify _).bind fun _ => (mute_report rfl).bind fun _ => mute_onPolicy _
    · exact hrefuse _

theorem mute_each_wakeWaiter (due : List Waiter) :
    Mute (each wakeWaiter due : Running g S Unit) := by
  induction due with
  | nil => exact mute_pure _
  | cons w due ih =>
    refine Mute.bind ?_ fun _ => ih
    cases w with
    | cpu c => exact mute_pure _
    | process pid => exact mute_wake pid

theorem mute_advance : Mute (advance : Running g S Unit) := by
  refine mute_get.bind fun m => ?_
  split
  · exact mute_modify _
  · refine mute_time.bind fun now => (mute_ofOption _ _).bind ?_
    rintro ⟨⟨tick, due⟩, rest⟩
    exact (mute_modify _).bind fun _ => (mute_ofOption _ _).bind fun _ =>
      (mute_modify _).bind fun _ => (mute_each_wakeWaiter due).bind fun _ => mute_modify _

/-! Steps. -/

omit [Scheduler S] in
theorem events_settle (m : Machine g S) (crashed : RunError) (y : Running g S Unit) :
    ∃ last, Silent last ∧ (m.settle crashed y).2 = (y.run m).events ++ last := by
  have hlast (t : Nat) (r : RunError) : Silent [.aborted t r] := by simp [Silent, Event.isDeed]
  unfold settle
  split
  · next hrun => exact ⟨[], silent_nil, by rw [hrun, List.append_nil]⟩
  · next hrun => exact ⟨_, hlast _ _, by rw [hrun]⟩
  · next hrun => exact ⟨_, hlast _ _, by rw [hrun]⟩

omit [Scheduler S] in
theorem Mute.settle {y : Running g S Unit} (hy : Mute y) (m : Machine g S) (crashed : RunError) :
    Silent (m.settle crashed y).2 := by
  obtain ⟨last, hlast, hevents⟩ := m.events_settle crashed y
  rw [hevents]
  exact (hy m).append hlast

end DemandPaging.Machine
