import DemandPaging.Proofs.Machine.Transparency
import DemandPaging.Proofs.Pager.Coherence
/-!
No run of a machine is stopped by a fault that was resolved and still faults.
-/

namespace DemandPaging.Machine

variable {g : Geometry} {S : Type} {m : Machine g S} {specs : List ProcessSpec} {h : History}
  {purpose : Purpose} {pid : ProcessId} {a : VirtualAddress}

theorem status_settle_ne {crashed : RunError} {y : Running g S Unit} {output : List String}
    (hy : Keeps specs h output y m) (ho : m.output.toList = output)
    (hcrash : crashed ≠ .stillFaulting purpose pid a) :
    (m.settle crashed y).1.status ≠ .aborted (.stillFaulting purpose pid a) := by
  unfold settle
  split
  · next t e hrun => exact (hy.of_ok hrun m ho).inv.alive _
  · next r t e hrun =>
    have hr := hy.of_error hrun purpose pid a
    intro he
    exact hr (congrArg Failure.error (RunStatus.aborted.inj he))
  · next r t e hrun => exact fun he => hcrash (RunStatus.aborted.inj he)

variable [Scheduler S]

theorem Stands.status_step_ne (hm : m.Stands specs h) :
    m.step.1.status ≠ .aborted (.stillFaulting purpose pid a) := by
  unfold Machine.step
  split
  · split
    · exact status_settle_ne (keeps_cpuStep hm _) rfl nofun
    · split
      · exact status_settle_ne (quietly_advance hm).keeps rfl nofun
      · exact hm.inv.alive _
  · exact hm.inv.alive _

theorem status_stepN_ne (hm : m.Stands specs []) (n : Nat) :
    (m.stepN n).status ≠ .aborted (.stillFaulting purpose pid a) := by
  induction n with
  | zero => exact hm.inv.alive _
  | succ n ih =>
    rw [stepN_succ]
    by_cases hok : ∀ e, (m.stepN n).status ≠ .aborted e
    · exact (hm.stepN n hok).status_step_ne
    · obtain ⟨e, he⟩ := not_forall_not.mp hok
      rwa [step_of_not_isRunning (by rw [isRunning, he]; rfl)]

/-- Buffers make no difference: in every reachable state of the memory system they know what the
page tables say and nothing else, and no machine is stopped by a fault that was resolved. -/
theorem buffers_transparent :
    (∀ (useTlbs : List Bool) (m : Pager g), Pager.Reachable useTlbs m → m.Coherent) ∧
      ∀ (cpus : Nat) (useTlb : Bool) (policy : S) (specs : List ProcessSpec) (n : Nat)
        (purpose : Purpose) (pid : ProcessId) (a : VirtualAddress),
        ((new g cpus useTlb policy specs).stepN n).status ≠
          .aborted (.stillFaulting purpose pid a) :=
  ⟨fun _ _ hm => hm.sound.coherent, fun cpus useTlb policy specs n _ _ _ =>
    status_stepN_ne (stands_new cpus useTlb policy specs) n⟩

theorem buffers_transparent_shared : ∃ m : Pager Pager.oneFrame,
    Pager.Reachable [true, true] m ∧
      (m.translators.toList.map fun u => u.cached.map fun s => (s.page, s.frame)) =
        [[(0, 0)], [(0, 0)]] ∧ m.Coherent := by
  have hstart : Pager.Reachable [true, true] (Pager.new Pager.oneFrame [true, true]) := .start
  have hcreated := hstart.call (.create 0) rfl
  have hallocated := hcreated.call (.allocate 0 0 2) trivial
  have hfirst := hallocated.call (.dispatch 0 0) trivial
  have hsecond := hfirst.call (.dispatch 1 0) trivial
  have hfault := hsecond.call (.fault 0 .zero .data) trivial
  have hcached := hfault.call (.translate 0 0 .zero)
    (Option.map_eq_some_iff (f := Translator.owner).mp (by decide +kernel))
  have hboth := hcached.call (.translate 1 0 .zero)
    (Option.map_eq_some_iff (f := Translator.owner).mp (by decide +kernel))
  exact ⟨_, hboth, by decide +kernel,
    (buffers_transparent (S := RoundRobin)).1 [true, true] _ hboth⟩

end DemandPaging.Machine
