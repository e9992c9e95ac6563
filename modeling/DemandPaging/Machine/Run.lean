import DemandPaging.Machine.Cpu
import DemandPaging.Machine.Advance
/-!
Running a machine. A step is one of the CPU at the head of the turns or, when all CPUs are
parked, of the clock. An error aborts the run, as does an undefined call.
-/

namespace DemandPaging.Machine

open DemandPaging.Action

variable {g : Geometry} {S : Type}

/-- The machine after an action that may stop it; `crashed` is the error an undefined call
becomes. -/
def settle (m : Machine g S) (crashed : RunError) (x : Running g S Unit) :
    Machine g S × List Event :=
  match x.run m with
  | ⟨.ok (), t, e⟩ => (t, e)
  | ⟨.error (.error r), t, e⟩ => (t.abort r, e ++ [.aborted t.clock.now r])
  | ⟨.error (.crash _), t, e⟩ => (t.abort crashed, e ++ [.aborted t.clock.now crashed])

variable [Scheduler S]

def step (m : Machine g S) : Machine g S × List Event :=
  if m.isRunning then
    match m.turns with
    | c :: _ => m.settle (.cpuCrashed c) (cpuStep c)
    | [] =>
      if m.parked = m.cpus.size then m.settle .advanceCrashed advance else (m, [])
  else (m, [])

/-- Takes steps while the machine runs, no more than `fuel` of them, and collects what they
report. -/
def runFor : (fuel : Nat) → Machine g S → Array Event → Machine g S × Array Event
  | 0, m, events => (m, events)
  | fuel + 1, m, events =>
    if m.isRunning then
      match m.step with
      | (t, e) => runFor fuel t (events ++ e)
    else (m, events)

def stepN (m : Machine g S) : Nat → Machine g S
  | 0 => m
  | n + 1 => (m.step.1).stepN n

theorem step_of_not_isRunning {m : Machine g S} (h : m.isRunning = false) : m.step = (m, []) := by
  simp [step, h]

theorem stepN_of_not_isRunning {m : Machine g S} (h : m.isRunning = false) (n : Nat) :
    m.stepN n = m := by
  induction n with
  | zero => rfl
  | succ n ih => rw [stepN, step_of_not_isRunning h]; exact ih

theorem stepN_add (m : Machine g S) (a b : Nat) : m.stepN (a + b) = (m.stepN a).stepN b := by
  induction a generalizing m with
  | zero => rw [Nat.zero_add, stepN]
  | succ n ih => rw [Nat.succ_add, stepN, stepN, ih]

theorem runFor_fst (fuel : Nat) (m : Machine g S) (events : Array Event) :
    (runFor fuel m events).1 = m.stepN fuel := by
  induction fuel generalizing m events with
  | zero => rfl
  | succ n ih =>
    unfold runFor
    by_cases h : m.isRunning = true
    · rw [if_pos h, ih, stepN]
    · rw [if_neg h, stepN_of_not_isRunning (by simpa using h)]

end DemandPaging.Machine
