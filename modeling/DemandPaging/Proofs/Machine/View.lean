import DemandPaging.Machine.Run
import DemandPaging.Proofs.Pager.Flat
import DemandPaging.Proofs.Timeline
/-!
A machine as far as its programs can tell it apart: processes without their accounts, the CPUs
with their registers, whom the translators serve, the flat memories, who waits for a tick, the
printed lines, and whether the run goes on. Each change of the machine changes the view in one
place or not at all.
-/

namespace DemandPaging

/-- A process without its name, quantum and account. -/
structure Task where
  pid : ProcessId
  trace : Trace
  status : ProcessStatus
  saved : Registers
  dataBase : VirtualAddress
  textPages : Nat
  started : Bool

def Process.task (p : Process) : Task :=
  { pid := p.pid, trace := p.trace, status := p.status, saved := p.saved, dataBase := p.dataBase
    textPages := p.textPages, started := p.isStarted }

namespace EventQueue

variable {α : Type} [DecidableEq α]

def count (q : EventQueue α) (a : α) : Nat := (q.pending.flatMap Prod.snd).count a

theorem count_flatMap_insert (tick : Nat) (a b : α) (l : List (Nat × List α)) :
    ((insert tick a l).flatMap Prod.snd).count b =
      (l.flatMap Prod.snd).count b + [a].count b := by
  induction l with
  | nil => simp [insert]
  | cons d l ih =>
    unfold insert
    split
    · simp only [List.flatMap_cons, List.count_append]
      omega
    · split
      · simp only [List.flatMap_cons, List.count_append]
        omega
      · simp only [List.flatMap_cons, List.count_append, ih]
        omega

theorem count_schedule (q : EventQueue α) (tick : Nat) (a b : α) :
    (q.schedule tick a).count b = q.count b + [a].count b :=
  count_flatMap_insert tick a b q.pending

theorem count_schedule_process (q : EventQueue Waiter) (tick : Nat) (pid i : ProcessId) :
    (q.schedule tick (.process pid)).count (.process i) =
      if i = pid then q.count (.process i) + 1 else q.count (.process i) := by
  rw [count_schedule]
  split
  · next h => rw [h, List.count_singleton_self]
  · next h =>
    rw [List.count_singleton, if_neg]
    · rfl
    · simpa using Ne.symm h

theorem count_of_pop? {q rest : EventQueue α} {tick : Nat} {due : List α}
    (h : q.pop? = some ((tick, due), rest)) (a : α) : q.count a = due.count a + rest.count a := by
  rw [count, pending_of_pop? h, List.flatMap_cons, List.count_append]
  rfl

end EventQueue

structure View (g : Geometry) where
  tasks : ProcessId → Option Task
  cpus : Nat → Option Cpu
  owners : Nat → Option (Option ProcessId)
  memories : FlatMemories g
  waiting : ProcessId → Nat
  output : List String
  status : RunStatus

namespace View

variable {g : Geometry} (v : View g)

def changeTask (pid : ProcessId) (f : Task → Task) : View g :=
  { v with tasks := Function.update v.tasks pid ((v.tasks pid).map f) }

def changeCpu (c : Nat) (f : Cpu → Cpu) : View g :=
  { v with cpus := Function.update v.cpus c ((v.cpus c).map f) }

def setStatus (pid : ProcessId) (s : ProcessStatus) : View g :=
  v.changeTask pid fun t => { t with status := s }

def undispatched (c : Nat) (pid : ProcessId) (regs : Registers) : View g :=
  (v.changeTask pid fun t => { t with saved := regs }).changeCpu c
    fun x => { x with phase := .asking }

def exited (c : Nat) (pid : ProcessId) (regs : Registers) : View g :=
  { (v.undispatched c pid regs).setStatus pid .exited with
    memories := Function.update v.memories pid none }

end View

namespace Machine

variable {g : Geometry} {S : Type}

def view (m : Machine g S) : View g where
  tasks pid := m.processes[pid]?.map Process.task
  cpus c := m.cpus[c]?
  owners c := m.pager.translators[c]?.map Translator.owner
  memories := m.pager.flat
  waiting pid := m.queue.count (.process pid)
  output := m.output.toList
  status := m.status

variable {m : Machine g S}

theorem view_park (m : Machine g S) (c : Nat) (wake : Option Nat) :
    (m.park c wake).view = m.view := by
  have hw : (m.park c wake).view.waiting = m.view.waiting := by
    funext pid
    cases wake with
    | none => rfl
    | some tick =>
      change (m.queue.schedule tick (.cpu c)).count (.process pid) = _
      rw [EventQueue.count_schedule]
      rfl
  calc (m.park c wake).view
      = { m.view with waiting := (m.park c wake).view.waiting } := by cases wake <;> rfl
    _ = m.view := by rw [hw]

theorem view_changeProcess (m : Machine g S) (pid : ProcessId) {f : Process → Process}
    (f' : Task → Task) (hf : ∀ p, (f p).task = f' p.task) :
    ({ m with processes := m.processes.modify pid f } : Machine g S).view =
      m.view.changeTask pid f' := by
  have ht : (fun q => (m.processes.modify pid f)[q]?.map Process.task) =
      Function.update m.view.tasks pid ((m.view.tasks pid).map f') := by
    funext q
    rw [Array.getElem?_modify, Function.update_apply]
    by_cases hq : pid = q
    · rw [if_pos hq, if_pos hq.symm, hq, view, Option.map_map, Option.map_map]
      congr 1
      funext p
      exact hf p
    · rw [if_neg hq, if_neg (Ne.symm hq)]
      rfl
  rw [View.changeTask, ← ht]
  rfl

theorem view_changeAccount (m : Machine g S) (pid : ProcessId) {f : Account → Account}
    (hf : ∀ a, (f a).startedAt = a.startedAt) :
    ({ m with processes := m.processes.modify pid fun p => p.changeAccount f } : Machine g S).view =
      m.view := by
  rw [view_changeProcess m pid id]
  · rw [View.changeTask, Option.map_id, id, Function.update_eq_self]
  · intro p
    simp [Process.task, Process.changeAccount, Process.isStarted, Process.pid, hf]

theorem view_changeCpu (m : Machine g S) (c : Nat) (f : Cpu → Cpu) :
    ({ m with cpus := m.cpus.modify c f } : Machine g S).view = m.view.changeCpu c f := by
  have hc : (fun i => (m.cpus.modify c f)[i]?) =
      Function.update m.view.cpus c ((m.view.cpus c).map f) := by
    funext i
    rw [Array.getElem?_modify, Function.update_apply]
    by_cases hi : c = i
    · rw [if_pos hi, if_pos hi.symm, hi]
      rfl
    · rw [if_neg hi, if_neg (Ne.symm hi)]
      rfl
  rw [View.changeCpu, ← hc]
  rfl

theorem view_schedule (m : Machine g S) (tick : Nat) (pid : ProcessId) :
    ({ m with queue := m.queue.schedule tick (.process pid) } : Machine g S).view =
      { m.view with
        waiting := Function.update m.view.waiting pid (m.view.waiting pid + 1) } := by
  have hw : (fun q => (m.queue.schedule tick (.process pid)).count (.process q)) =
      Function.update m.view.waiting pid (m.view.waiting pid + 1) := by
    funext q
    rw [EventQueue.count_schedule_process, Function.update_apply]
    split
    · next hq => rw [hq]; rfl
    · rfl
  rw [← hw]
  rfl

theorem view_pager (m : Machine g S) (p : Pager g) :
    ({ m with pager := p } : Machine g S).view = { m.view with
      owners := fun c : Nat => p.translators[c]?.map Translator.owner
      memories := p.flat } := rfl

theorem view_of_faithful {p : Pager g} (h : Pager.Faithful m.pager p) :
    ({ m with pager := p } : Machine g S).view = m.view := by
  have ho : (fun c : Nat => p.translators[c]?.map Translator.owner) = m.view.owners :=
    funext h.owners
  rw [view_pager, ho, h.flat]
  rfl

end Machine

end DemandPaging
