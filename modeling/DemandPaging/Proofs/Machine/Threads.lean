import DemandPaging.Proofs.Machine.Barrier
import DemandPaging.Simulation
import Mathlib.Data.List.Sort
/-!
A machine shared by threads under a lock. One thread works for each CPU and waits for its turn, and
one moves the clock and waits for all CPUs to be parked. Any thread whose condition holds may take
a free lock; it acts until it has to wait again. In no state of a run do two conditions hold, so
however the threads interleave, the machine goes through the same states.
-/

namespace DemandPaging

namespace Machine

inductive Thread where
  | worker (cpu : Nat)
  | director
deriving DecidableEq, Repr

variable {g : Geometry} {S : Type}

def Lets (m : Machine g S) : Thread → Prop
  | .worker c => c < m.cpus.size ∧ m.turns.head? = some c
  | .director => m.parked = m.cpus.size

instance (m : Machine g S) (t : Thread) : Decidable (m.Lets t) :=
  match t with
  | .worker c => inferInstanceAs (Decidable (c < m.cpus.size ∧ m.turns.head? = some c))
  | .director => inferInstanceAs (Decidable (m.parked = m.cpus.size))

def act [Scheduler S] (m : Machine g S) : Thread → Machine g S
  | .worker c => (m.settle (.cpuCrashed c) (cpuStep c)).1
  | .director => (m.settle .advanceCrashed advance).1

/-- What holds of the places of CPUs while a machine runs. Whatever moves the clock takes no more
CPUs off the counter of parked ones than it counts, and one thread may go. -/
structure Barred (m : Machine g S) (cpus : Nat) : Prop where
  places : (m.turns ++ m.idle ++ cpusOf m.queue.waiters).Perm (List.range cpus)
  parked : m.parked = m.idle.length + (cpusOf m.queue.waiters).length
  turns : m.parked + m.turns.length = cpus
  released : ∀ tick due rest, m.queue.pop? = some ((tick, due), rest) →
    (cpusOf due ++ m.idle).length ≤ m.parked
  one : ∃! t, m.Lets t

end Machine

structure Shared (g : Geometry) (S : Type) where
  machine : Machine g S
  holder : Option Machine.Thread := none

namespace Shared

open Machine (Thread)

variable {g : Geometry} {S : Type} [Scheduler S]

/-- A thread that has acted keeps the lock unless it has to wait. -/
def after (t : Thread) (m : Machine g S) : Shared g S :=
  ⟨m, if m.isRunning = true ∧ m.Lets t then some t else none⟩

inductive Step : Shared g S → List (Machine g S) → Shared g S → Prop
  | takes {m t} (hrun : m.isRunning = true) (hlets : m.Lets t) : Step ⟨m, none⟩ [] ⟨m, some t⟩
  | acts {m t} : Step ⟨m, some t⟩ [m.act t] (after t (m.act t))

/-- Any order of steps of the threads from a machine that nobody has locked. -/
inductive Interleaving (m : Machine g S) : List (Machine g S) → Shared g S → Prop
  | start : Interleaving m [] ⟨m, none⟩
  | step {ms new x y} (h : Interleaving m ms x) (hstep : Step x new y) :
      Interleaving m (ms ++ new) y

end Shared

namespace Machine

open Roster (Seated)

variable {g : Geometry} {S : Type} {m : Machine g S} {n : Nat} {t : Thread}

theorem lets_cases (hm : m.roster.Seated n) :
    (∃ c, m.turns.head? = some c ∧ ∀ t, m.Lets t ↔ t = .worker c) ∨
      m.turns = [] ∧ ∀ t, m.Lets t ↔ t = .director := by
  have hsize : m.cpus.size = n := hm.size
  have hparked : m.parked + m.turns.length = n := hm.parked_add
  cases hturns : m.turns with
  | nil =>
    rw [hturns] at hparked
    refine .inr ⟨rfl, fun t => ?_⟩
    cases t with
    | worker c => simp [Lets, hturns]
    | director => simpa [Lets, hsize] using hparked
  | cons c cs =>
    have hlt : c < m.cpus.size := hsize ▸ hm.lt_of_mem_turns (by
      change c ∈ m.turns
      rw [hturns]
      exact List.mem_cons_self)
    rw [hturns, List.length_cons] at hparked
    refine .inl ⟨c, rfl, fun t => ?_⟩
    cases t with
    | worker d => simp [Lets, hturns, eq_comm]; omega
    | director => simp [Lets, hsize]; omega

theorem existsUnique_lets (hm : m.roster.Seated n) : ∃! t, m.Lets t := by
  rcases lets_cases hm with ⟨c, -, hlets⟩ | ⟨-, hlets⟩
  · exact ⟨.worker c, (hlets _).mpr rfl, fun t ht => (hlets t).mp ht⟩
  · exact ⟨.director, (hlets _).mpr rfl, fun t ht => (hlets t).mp ht⟩

theorem barred_of_seated (hm : m.roster.Seated n) : m.Barred n :=
  ⟨hm.places, hm.parked, hm.parked_add, fun _ _ _ hpop => hm.released_le hpop,
    existsUnique_lets hm⟩

variable [Scheduler S]

theorem act_eq_step (hm : m.roster.Seated n) (hrun : m.isRunning = true) (hlets : m.Lets t) :
    m.act t = m.step.1 := by
  rcases lets_cases hm with ⟨c, hhead, honly⟩ | ⟨hturns, honly⟩
  · obtain rfl := (honly t).mp hlets
    obtain ⟨cs, hturns⟩ := List.head?_eq_some_iff.mp hhead
    rw [Machine.step, if_pos hrun, hturns]
    rfl
  · obtain rfl := (honly t).mp hlets
    rw [Machine.step, if_pos hrun, hturns]
    exact (congrArg Prod.fst (if_pos hlets)).symm

theorem isRunning_stepN_of_le {a b : Nat} (hle : a ≤ b) (hrun : (m.stepN b).isRunning = true) :
    (m.stepN a).isRunning = true := by
  obtain ⟨more, rfl⟩ := Nat.exists_eq_add_of_le hle
  by_contra hstop
  rw [stepN_add, stepN_of_not_isRunning (by simpa using hstop)] at hrun
  exact hstop hrun

theorem sound_stepN (cpus : Nat) (useTlb : Bool) (policy : S) (specs : List ProcessSpec) (k : Nat)
    (hok : ∀ e, ((new g cpus useTlb policy specs).stepN k).status ≠ .aborted e) :
    (((new g cpus useTlb policy specs).stepN k).roster.life []).Sound ∧
      ((new g cpus useTlb policy specs).stepN k).roster.Seated cpus :=
  holds_stepN (P := fun m : Machine g S => (m.roster.life []).Sound ∧ m.roster.Seated cpus)
    ⟨sound_life_new cpus useTlb policy specs, seated_new cpus useTlb policy specs⟩
    (fun _ hm hok => ⟨sound_life_step hm.1 hok,
      (roster_step (Roster.manned hm.1)).seated hm.2 hok⟩) k hok

theorem seated_stepN (cpus : Nat) (useTlb : Bool) (policy : S) (specs : List ProcessSpec) (k : Nat)
    (hrun : ((new g cpus useTlb policy specs).stepN k).isRunning = true) :
    ((new g cpus useTlb policy specs).stepN k).roster.Seated cpus :=
  (sound_stepN cpus useTlb policy specs k fun e he => by simp [isRunning, he] at hrun).2

end Machine

theorem Simulation.result_run {S : Type} [Scheduler S] {c : Config} (hroom : hasRoom c = true)
    (fuel : Nat) (policy : S) : (run fuel c policy).map Ended.result =
      (conclude ((machine c policy).stepN fuel)).map Prod.fst := by
  rw [run, if_pos hroom, ← Machine.runFor_fst fuel (machine c policy) (openingEvents c).toArray,
    Option.map_map]
  rfl

theorem Machine.error_of_conclude {g : Geometry} {S : Type} {m : Machine g S} {e : RunError}
    {result : Except (Failure RunError) RunSummary} {closing : List Log.Record}
    (h : Simulation.conclude m = some (result, closing)) (he : result = .error (.error e)) :
    m.status = .aborted e := by
  unfold Simulation.conclude at h
  split at h
  · simp at h
  · next e' hst =>
    obtain ⟨rfl, -⟩ := Prod.mk.inj (Option.some.inj h)
    rw [hst, Failure.error.inj (Except.error.inj he)]
  · obtain ⟨rfl, -⟩ := Prod.mk.inj (Option.some.inj h)
    simp at he

namespace Simulation

variable {S : Type} [Scheduler S] {c : Config} {fuel : Nat} {policy : S} {e : Ended S}

theorem conclude_of_run (hend : run fuel c policy = some e) :
    e.result = .error (.crash .noRoom) ∨
      ∃ closing, conclude ((machine c policy).stepN fuel) = some (e.result, closing) := by
  by_cases hroom : hasRoom c = true
  · have hresult := result_run hroom fuel policy
    rw [hend, Option.map_some] at hresult
    obtain ⟨⟨result, closing⟩, hconclude, rfl⟩ := Option.map_eq_some_iff.mp hresult.symm
    exact .inr ⟨closing, hconclude⟩
  · rw [run, if_neg hroom] at hend
    obtain rfl := Option.some.inj hend
    exact .inl rfl

theorem finished_of_run {s : RunSummary} (hend : run fuel c policy = some e)
    (hok : e.result = .ok s) : ((machine c policy).stepN fuel).status = .finished ∧
      s = summary ((machine c policy).stepN fuel) := by
  rcases conclude_of_run hend with hcrash | ⟨closing, hconclude⟩
  · simp [hok] at hcrash
  · rw [hok] at hconclude
    unfold conclude at hconclude
    split at hconclude
    · simp at hconclude
    · simp at hconclude
    · next hfin =>
      exact ⟨hfin, (Except.ok.inj (Prod.mk.inj (Option.some.inj hconclude)).1).symm⟩

theorem aborted_of_run {error : RunError} (hend : run fuel c policy = some e)
    (he : e.result = .error (.error error)) :
    ((machine c policy).stepN fuel).status = .aborted error := by
  rcases conclude_of_run hend with hcrash | ⟨closing, hconclude⟩
  · simp [he] at hcrash
  · exact Machine.error_of_conclude hconclude he

end Simulation

namespace Shared

open Machine (Thread)

variable {g : Geometry} {S : Type} [Scheduler S] {m : Machine g S} {ms : List (Machine g S)}
  {x : Shared g S} {n : Nat}

structure Follows (m : Machine g S) (ms : List (Machine g S)) (x : Shared g S) : Prop where
  states : ms = (List.range ms.length).map fun k => m.stepN (k + 1)
  machine : x.machine = m.stepN ms.length
  running : ∀ k, k < ms.length → (m.stepN k).isRunning = true
  holder : ∀ t, x.holder = some t → x.machine.isRunning = true ∧ x.machine.Lets t

theorem Interleaving.follows (h : Interleaving m ms x)
    (hm : ∀ k, (m.stepN k).isRunning = true → (m.stepN k).roster.Seated n) : Follows m ms x := by
  induction h with
  | start => exact ⟨rfl, rfl, nofun, nofun⟩
  | @step ms new x y h hstep ih =>
    cases hstep with
    | takes hrun hlets =>
      rw [List.append_nil]
      refine ⟨ih.states, ih.machine, ih.running, ?_⟩
      rintro _ ⟨⟩
      exact ⟨hrun, hlets⟩
    | @acts m' t =>
      obtain ⟨hrun, hlets⟩ := ih.holder t rfl
      have hmachine : m' = m.stepN ms.length := ih.machine
      have hact : m'.act t = m.stepN (ms.length + 1) := by
        rw [Machine.act_eq_step (hmachine ▸ hm _ (hmachine ▸ hrun)) hrun hlets, hmachine,
          Machine.stepN_succ]
      refine ⟨?_, ?_, fun k hk => ?_, fun u hu => ?_⟩
      · rw [List.length_append, List.length_singleton, List.range_succ, List.map_append,
          List.map_singleton, ← ih.states, hact]
      · rw [List.length_append, List.length_singleton]
        exact hact
      · rw [List.length_append, List.length_singleton] at hk
        rcases Nat.lt_succ_iff_lt_or_eq.mp hk with hlt | rfl
        · exact ih.running k hlt
        · exact hmachine ▸ hrun
      · unfold after at hu
        split at hu
        · next hgo =>
          obtain rfl := Option.some.inj hu
          exact hgo
        · simp at hu

theorem Follows.exists_step (h : Follows m ms x) (hrun : x.machine.isRunning = true)
    (hlets : ∃! t, x.machine.Lets t) : ∃ new y, Step x new y := by
  obtain ⟨machine, holder⟩ := x
  cases holder with
  | some t => exact ⟨_, _, .acts⟩
  | none =>
    obtain ⟨t, ht, -⟩ := hlets
    exact ⟨_, _, .takes hrun ht⟩

theorem exists_interleaving
    (hm : ∀ k, (m.stepN k).isRunning = true → (m.stepN k).roster.Seated n) (k : Nat)
    (hrun : ∀ j, j < k → (m.stepN j).isRunning = true) :
    ∃ ms x, Interleaving m ms x ∧ ms.length = k := by
  induction k with
  | zero => exact ⟨[], _, .start, rfl⟩
  | succ k ih =>
    obtain ⟨ms, ⟨machine, holder⟩, h, rfl⟩ := ih fun j hj => hrun j (Nat.lt_succ_of_lt hj)
    have hmachine : machine = m.stepN ms.length := (h.follows hm).machine
    have hgoes : machine.isRunning = true := hmachine ▸ hrun _ (Nat.lt_succ_self _)
    cases holder with
    | some t => exact ⟨_, _, h.step .acts, List.length_append⟩
    | none =>
      obtain ⟨t, ht, -⟩ := Machine.existsUnique_lets (hmachine ▸ hm _ (hmachine ▸ hgoes))
      have htaken := h.step (.takes hgoes ht)
      rw [List.append_nil] at htaken
      exact ⟨_, _, htaken.step .acts, List.length_append⟩

theorem Follows.length_eq {ms' : List (Machine g S)} {x' : Shared g S} (h : Follows m ms x)
    (h' : Follows m ms' x') (hstop : x.machine.isRunning = false)
    (hstop' : x'.machine.isRunning = false) : ms.length = ms'.length := by
  rw [h.machine] at hstop
  rw [h'.machine] at hstop'
  rcases Nat.lt_trichotomy ms.length ms'.length with hlt | heq | hlt
  · simp [h'.running _ hlt] at hstop
  · exact heq
  · simp [h.running _ hlt] at hstop'

/-- While a run goes on, every CPU is in one place, one of the threads may go and nothing is stuck.
Any two interleavings of the threads bring about the same states of the machine, as far as both
go, and if both have come to an end, these and the result of the run are the same. -/
theorem interleavings_agree (c : Config) (policy : S) :
    (∀ ms x, Interleaving (Simulation.machine c policy) ms x →
      ms = (List.range ms.length).map (fun k => (Simulation.machine c policy).stepN (k + 1)) ∧
        x.machine = (Simulation.machine c policy).stepN ms.length ∧
        (x.machine.isRunning = true →
          x.machine.Barred c.cpus ∧ ∃ new y, Step x new y)) ∧
      ∀ ms x ms' x', Interleaving (Simulation.machine c policy) ms x →
        Interleaving (Simulation.machine c policy) ms' x' → x.machine.isRunning = false →
        x'.machine.isRunning = false → ms = ms' ∧ x.machine = x'.machine ∧
          Simulation.conclude x.machine = Simulation.conclude x'.machine ∧
          ∀ fuel, Simulation.hasRoom c = true → ms.length ≤ fuel →
            (Simulation.run fuel c policy).map Ended.result =
              (Simulation.conclude x.machine).map Prod.fst := by
  have hseated := Machine.seated_stepN (g := c.geometry) c.cpus c.useTlb policy c.processes
  refine ⟨fun ms x h => ?_, fun ms x ms' x' h h' hstop hstop' => ?_⟩
  · have hfollows := h.follows hseated
    refine ⟨hfollows.states, hfollows.machine, fun hrun => ?_⟩
    have hbarred : x.machine.Barred c.cpus := by
      rw [hfollows.machine] at hrun ⊢
      exact Machine.barred_of_seated (hseated _ hrun)
    exact ⟨hbarred, hfollows.exists_step hrun hbarred.one⟩
  · have hfollows := h.follows hseated
    have hfollows' := h'.follows hseated
    have hlength := hfollows.length_eq hfollows' hstop hstop'
    have hmachine : x.machine = x'.machine := by
      rw [hfollows.machine, hfollows'.machine, hlength]
    refine ⟨by rw [hfollows.states, hfollows'.states, hlength], hmachine, by rw [hmachine],
      fun fuel hroom hle => ?_⟩
    obtain ⟨more, rfl⟩ := Nat.exists_eq_add_of_le hle
    rw [Simulation.result_run hroom, Machine.stepN_add, ← hfollows.machine,
      Machine.stepN_of_not_isRunning hstop]

def pair : Config :=
  { geometry := Pager.oneFrame, cpus := 2
    processes := [{ name := "exits", trace := ⟨#["Syscall_Exit"]⟩ }] }

theorem interleavings_agree_pair : ∃ ms x,
    Interleaving (Simulation.machine pair ({} : RoundRobin)) ms x ∧
      x.machine.isRunning = false ∧ ms.length = 11 ∧
      x.machine = (Simulation.machine pair ({} : RoundRobin)).stepN 11 ∧
      ∀ ms' x', Interleaving (Simulation.machine pair ({} : RoundRobin)) ms' x' →
        x'.machine.isRunning = false → ms = ms' ∧ x.machine = x'.machine := by
  have hstate : (fun m : Machine Pager.oneFrame RoundRobin => (m.isRunning, m.step.1.isRunning))
      ((Simulation.machine pair ({} : RoundRobin)).stepN 10) = (true, false) := by
    simp only [Machine.stepN_eq_iterate, Machine.step, Machine.advance, Machine.releaseCpus,
      List.mergeSort_eq_insertionSort]
    decide +kernel
  obtain ⟨hrun, hend⟩ := Prod.mk.inj hstate
  obtain ⟨hany, hall⟩ := interleavings_agree pair ({} : RoundRobin)
  have hseated := Machine.seated_stepN (g := pair.geometry) pair.cpus pair.useTlb
    ({} : RoundRobin) pair.processes
  obtain ⟨ms, x, h, hlength⟩ := exists_interleaving hseated 11 fun j hj =>
    Machine.isRunning_stepN_of_le (Nat.le_of_lt_succ hj) hrun
  have hmachine := (hany ms x h).2.1
  rw [hlength] at hmachine
  have hstop : x.machine.isRunning = false := by
    rw [hmachine, Machine.stepN_succ _ 10]
    exact hend
  refine ⟨ms, x, h, hstop, hlength, hmachine, fun ms' x' h' hstop' => ?_⟩
  obtain ⟨hms, hx, -⟩ := hall ms x ms' x' h h' hstop hstop'
  exact ⟨hms, hx⟩

end Shared

end DemandPaging
