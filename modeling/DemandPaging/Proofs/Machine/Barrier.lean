import DemandPaging.Proofs.Machine.Life
import Mathlib.Data.List.Perm.Basic
/-!
Every CPU is in one place: it has a turn, is idle, or waits in the queue for a tick. The counter of
parked CPUs counts the idle and the waiting ones. Under every policy, what a CPU does on its turn
and what a moving clock does keep it so.
-/

namespace DemandPaging

namespace EventQueue

variable {α : Type} [DecidableEq α]

def waiters (q : EventQueue α) : List α := q.pending.flatMap Prod.snd

theorem waiters_schedule (q : EventQueue α) (tick : Nat) (a : α) :
    (q.schedule tick a).waiters.Perm (a :: q.waiters) :=
  List.perm_iff_count.mpr fun b => by
    have hcount := q.count_schedule tick a b
    rw [List.count_singleton] at hcount
    rw [List.count_cons]
    exact hcount

omit [DecidableEq α] in
theorem waiters_of_pop? {q rest : EventQueue α} {tick : Nat} {due : List α}
    (h : q.pop? = some ((tick, due), rest)) : q.waiters = due ++ rest.waiters := by
  rw [waiters, pending_of_pop? h, List.flatMap_cons]
  rfl

end EventQueue

def Machine.cpusOf (due : List Waiter) : List Nat := due.filterMap Waiter.cpu?

namespace Roster

open Machine (cpusOf)

variable {S : Type} {r s : Roster S} {c n : Nat} {due : List Waiter}

structure Seated (r : Roster S) (n : Nat) : Prop where
  size : r.cpus.size = n
  places : (r.turns ++ r.idle ++ cpusOf r.queue.waiters).Perm (List.range n)
  parked : r.parked = r.idle.length + (cpusOf r.queue.waiters).length

namespace Seated

theorem parked_add (h : r.Seated n) : r.parked + r.turns.length = n := by
  have hlength := h.places.length_eq
  have hparked := h.parked
  simp only [List.length_append, List.length_range] at hlength
  omega

theorem nodup (h : r.Seated n) : (r.turns ++ r.idle ++ cpusOf r.queue.waiters).Nodup :=
  h.places.nodup_iff.mpr List.nodup_range

theorem not_mem_idle (h : r.Seated n) (hhead : r.turns.head? = some c) : c ∉ r.idle := by
  obtain ⟨cs, hturns⟩ := List.head?_eq_some_iff.mp hhead
  have hnodup := h.nodup
  rw [hturns] at hnodup
  simp only [List.cons_append, List.nodup_cons, List.mem_append, not_or] at hnodup
  exact hnodup.1.1.2

theorem lt_of_mem_turns (h : r.Seated n) (hc : c ∈ r.turns) : c < n := by
  have hmem : c ∈ r.turns ++ r.idle ++ cpusOf r.queue.waiters := by simp [hc]
  exact List.mem_range.mp (h.places.mem_iff.mp hmem)

theorem released_le (h : r.Seated n) {tick : Nat} {rest : EventQueue Waiter}
    (hpop : r.queue.pop? = some ((tick, due), rest)) :
    (cpusOf due ++ r.idle).length ≤ r.parked := by
  have hparked := h.parked
  rw [EventQueue.waiters_of_pop? hpop, cpusOf, List.filterMap_append, List.length_append] at hparked
  rw [hparked, List.length_append, cpusOf]
  omega

theorem congr (h : r.Seated n) (hturns : s.turns = r.turns) (hidle : s.idle = r.idle)
    (hparked : s.parked = r.parked) (hsize : s.cpus.size = r.cpus.size)
    (hwaiting : (cpusOf s.queue.waiters).Perm (cpusOf r.queue.waiters)) : s.Seated n := by
  refine ⟨hsize.trans h.size, ?_, ?_⟩
  · rw [hturns, hidle]
    exact (hwaiting.append_left _).trans h.places
  · rw [hparked, hidle, hwaiting.length_eq, h.parked]

theorem park (h : r.Seated n) (hhead : r.turns.head? = some c) (wake : Option Nat) :
    (r.park c wake).Seated n := by
  obtain ⟨cs, hturns⟩ := List.head?_eq_some_iff.mp hhead
  have hparked := h.parked
  have hplaces := h.places
  rw [hturns] at hplaces
  have htail : (r.park c wake).turns = cs := by
    rw [Roster.park, hturns]
    exact if_pos rfl
  cases wake with
  | none =>
    refine ⟨h.size, ?_, ?_⟩
    · rw [htail]
      refine List.Perm.trans (List.perm_iff_count.mpr fun a => ?_) hplaces
      simp only [Roster.park, Option.elim, List.count_append, List.count_cons, List.count_nil]
      omega
    · change r.parked + 1 = (r.idle ++ [c]).length + (cpusOf r.queue.waiters).length
      rw [hparked, List.length_append, List.length_singleton]
      omega
  | some tick =>
    have hwaiting : (cpusOf (r.queue.schedule tick (.cpu c)).waiters).Perm
        (c :: cpusOf r.queue.waiters) := (r.queue.waiters_schedule tick (.cpu c)).filterMap _
    refine ⟨h.size, ?_, ?_⟩
    · rw [htail]
      refine (hwaiting.append_left _).trans ?_
      exact List.perm_middle.trans hplaces
    · change r.parked + 1 = r.idle.length + (cpusOf (r.queue.schedule tick (.cpu c)).waiters).length
      rw [hparked, hwaiting.length_eq, List.length_cons]
      rfl

theorem release {rest : EventQueue Waiter} {tick : Nat} (h : r.Seated n)
    (hpop : r.queue.pop? = some ((tick, due), rest)) (hturns : s.turns = r.turns)
    (hidle : s.idle = r.idle) (hparked : s.parked = r.parked) (hsize : s.cpus.size = r.cpus.size)
    (hqueue : s.queue = rest) : (s.release due).Seated n := by
  have hsort := List.mergeSort_perm (cpusOf due ++ s.idle) (· ≤ ·)
  have hwaiting : cpusOf r.queue.waiters = cpusOf due ++ cpusOf rest.waiters := by
    rw [EventQueue.waiters_of_pop? hpop, cpusOf, List.filterMap_append]
    rfl
  refine ⟨hsize.trans h.size, ?_, ?_⟩
  · have hplaces := h.places
    rw [← hturns, ← hidle, hwaiting, ← hqueue] at hplaces
    refine List.Perm.trans ?_ hplaces
    refine List.perm_iff_count.mpr fun a => ?_
    have hcount := hsort.count_eq a
    change ((s.turns ++ (cpusOf due ++ s.idle).mergeSort (· ≤ ·)) ++ [] ++
      cpusOf s.queue.waiters).count a = _
    simp only [List.count_append, List.count_nil] at hcount ⊢
    omega
  · have hlength := hsort.length_eq
    have hp := h.parked
    rw [← hparked, ← hidle, hwaiting, ← hqueue] at hp
    change s.parked - ((cpusOf due ++ s.idle).mergeSort (· ≤ ·)).length =
      ([] : List Nat).length + (cpusOf s.queue.waiters).length
    simp only [List.length_append, List.length_nil] at hlength hp ⊢
    omega

end Seated

theorem seated_told {α : Type} (h : r.Seated n) (y : Policy S α) : (r.told y).Seated n :=
  ⟨h.size, h.places, h.parked⟩

theorem seated_setProcess (h : r.Seated n) (pid : ProcessId) (p : Process) :
    (r.setProcess pid p).Seated n := ⟨h.size, h.places, h.parked⟩

theorem seated_setCpu (h : r.Seated n) (c : Nat) (x : Cpu) : (r.setCpu c x).Seated n :=
  h.congr rfl rfl rfl (Array.size_setIfInBounds ..) .rfl

theorem seated_off (h : r.Seated n) (c : Nat) (x : Cpu) (b : Burst) (p : Process) :
    (r.off c x b p).Seated n := seated_setCpu (seated_setProcess h b.pid p) c _

variable [Scheduler S] {x : Cpu} {g : Geometry}

theorem seated_ended (h : r.Seated n) (c : Nat) (x : Cpu) (b : Burst) (p : Process) :
    (r.ended c x b p).Seated n := by
  have hoff := seated_off h c x b ((p.undispatched x.regs b.ticks).exited r.clock.now)
  exact ⟨hoff.size, hoff.places, hoff.parked⟩

theorem seated_blocked (h : r.Seated n) (c : Nat) (x : Cpu) (b : Burst) (p : Process)
    (tick : Nat) : (r.blocked c x b p tick).Seated n :=
  (seated_off h c x b { p.undispatched x.regs b.ticks with status := .blocked }).congr
    rfl rfl rfl rfl ((r.queue.waiters_schedule tick (.process b.pid)).filterMap _)

theorem Move.seated (hr : r.Seated n) (hhead : r.turns.head? = some c) (h : r.Move c x s) :
    s.Seated n := by
  cases h with
  | idles hphase hnone => exact (seated_told hr _).park hhead none
  | dispatches hphase hsome hp hready =>
    exact seated_setCpu (seated_setProcess (seated_told hr _) _ _) c _
  | expires hphase hp hquantum => exact seated_told (seated_off hr ..) _
  | spends hphase hp hquantum => exact (seated_setCpu (seated_setProcess hr _ _) c _).park hhead _
  | strays hphase hp hquantum => exact seated_ended hr ..
  | goesOn hphase hp => exact seated_setCpu (seated_setProcess hr _ _) c _
  | blocks hphase hp => exact seated_blocked hr ..
  | ends hphase hp => exact seated_ended hr ..

theorem Woken.places (h : Woken g r due s) : s.turns = r.turns ∧ s.idle = r.idle ∧
    s.parked = r.parked ∧ s.cpus.size = r.cpus.size ∧ s.queue = r.queue := by
  induction h with
  | done => exact ⟨rfl, rfl, rfl, rfl, rfl⟩
  | cpu c hrest ih => exact ih
  | process hwake hrest ih => cases hwake <;> exact ih

theorem Advance.seated (hr : r.Seated n) (h : r.Advance g s) : s.Seated n := by
  cases h with
  | finishes hlive => exact ⟨hr.size, hr.places, hr.parked⟩
  | moves hlive hpop htick hwoken =>
    obtain ⟨hturns, hidle, hparked, hsize, hqueue⟩ := hwoken.places
    exact hr.release hpop hturns hidle hparked hsize hqueue

theorem Step.seated (hr : r.Seated n) (h : r.Step g s) (hok : ∀ e, s.status ≠ .aborted e) :
    s.Seated n := by
  cases h with
  | rests hrest => exact hr
  | turns hrun hhead hx hmove => exact hmove.seated hr hhead
  | advances hrun hturns hparked hadvance => exact hadvance.seated hr
  | stops hrun hhead he hs => exact absurd hs (hok _)
  | sticks hrun hturns hparked he hs => exact absurd hs (hok _)

end Roster

namespace Machine

variable {g : Geometry} {S : Type}

theorem cpusOf_waiters_new (cpus : Nat) (useTlb : Bool) (policy : S) (specs : List ProcessSpec) :
    cpusOf (new g cpus useTlb policy specs).queue.waiters = [] := by
  have hwaiters : (new g cpus useTlb policy specs).queue.waiters.Perm
      (specs.zipIdx.map fun x => .process x.2) :=
    List.perm_iff_count.mpr fun a =>
      (EventQueue.count_foldl_schedule _ _ specs.zipIdx {} a).trans (Nat.zero_add _)
  have hcpus : cpusOf (specs.zipIdx.map fun x => Waiter.process x.2) = [] := by
    rw [cpusOf, List.filterMap_map]
    exact List.filterMap_eq_nil_iff.mpr fun _ _ => rfl
  exact List.Perm.eq_nil (hcpus ▸ hwaiters.filterMap Waiter.cpu?)

theorem seated_new (cpus : Nat) (useTlb : Bool) (policy : S) (specs : List ProcessSpec) :
    (new g cpus useTlb policy specs).roster.Seated cpus := by
  have hwaiting := cpusOf_waiters_new (g := g) cpus useTlb policy specs
  refine ⟨Array.size_replicate .., ?_, ?_⟩
  · change (List.range cpus ++ [] ++ cpusOf (new g cpus useTlb policy specs).queue.waiters).Perm _
    rw [hwaiting, List.append_nil, List.append_nil]
  · change 0 = ([] : List Nat).length +
      (cpusOf (new g cpus useTlb policy specs).queue.waiters).length
    rw [hwaiting]
    rfl

end Machine

end DemandPaging
