import DemandPaging.Proofs.Machine.Threads
/-!
What a run that has come to its end leaves behind. However a process ends, its address space goes
with it, and a sound memory system without address spaces holds nothing: every frame is free, no
image is left and no buffer has a valid slot.
-/

namespace DemandPaging

namespace Pager

open DemandPaging.Action

variable {g : Geometry} {m : Pager g}

/-- Nothing is held for any process. -/
structure Vacant (m : Pager g) : Prop where
  free : m.frames.free.Perm (List.range g.frameCount)
  owner : ∀ f : Nat, f < g.frameCount → m.owner? f = some none
  swap : m.swap.size = 0
  swaps : checkSwaps.run m = ⟨.ok 0, m, []⟩
  spaces : m.spaces.isEmpty = true
  slots : ∀ (c : Nat) (u : Translator g.tlbEntries) (t : Tlb g.tlbEntries),
    m.translators[c]? = some u → u.tlb = some t → ∀ i, (t.slots.get i).valid = false

section Vacant

variable (h : m.Sound) (hs : ∀ pid, m.space? pid = none)

include h hs

theorem Agrees.unowned {f : Nat} (hf : f < g.frameCount) : m.owner? f = some none := by
  apply h.owner?_eq_none hf
  intro o
  rw [stateOf_eq_none hs]
  nofun

theorem Agrees.valid_eq_false {c : Nat} {u : Translator g.tlbEntries} {t : Tlb g.tlbEntries}
    (hu : m.translators[c]? = some u) (ht : u.tlb = some t) (i : Fin g.tlbEntries) :
    (t.slots.get i).valid = false := by
  by_contra hv
  have hvalid : (t.slots.get i).valid = true := by simpa using hv
  obtain ⟨pid, -, hst⟩ := (h.buffers c u hu t ht).2 _ _ ⟨i, hvalid, rfl, rfl⟩
  rw [stateOf_eq_none hs] at hst
  simp at hst

theorem Agrees.vacant : m.Vacant := by
  have hempty := h.swap_isEmpty hs
  have hsize : m.swap.pages.size = 0 := by
    rw [SwapStore.isEmpty, Std.TreeMap.isEmpty_eq_size_eq_zero] at hempty
    exact of_decide_eq_true hempty
  have houtstanding : m.swap.outstanding = [] := by
    rw [SwapStore.outstanding, ← List.isEmpty_iff, Std.TreeMap.isEmpty_toList]
    exact hempty
  refine ⟨?_, fun f hf => h.unowned hs hf, hsize, ?_, ?_,
    fun c u t hu ht i => h.valid_eq_false hs hu ht i⟩
  · refine (List.perm_ext_iff_of_nodup h.books.free_nodup List.nodup_range).mpr fun f => ?_
    rw [h.books.free_iff f nofun, List.mem_range]
    exact ⟨FrameTable.lt_of_owner?_eq_some, fun hf => h.unowned hs hf⟩
  · simp [checkSwaps, houtstanding]
  · refine Std.TreeMap.isEmpty_iff_forall_contains.mpr fun pid => ?_
    rw [Std.TreeMap.contains_eq_isSome_getElem?]
    exact congrArg Option.isSome (hs pid)

end Vacant

end Pager

namespace Roster

variable {S : Type} [Scheduler S] {g : Geometry} {r s : Roster S}

theorem Step.live_eq_zero (h : r.Step g s) (hr : r.status = .finished → r.live = 0)
    (hs : s.status = .finished) : s.live = 0 := by
  cases h with
  | rests hrest => exact hr hs
  | turns hrun hhead hx hmove => simp [hmove.status, hrun] at hs
  | advances hrun hturns hparked hadvance =>
    cases hadvance with
    | finishes hlive => exact hlive
    | moves hlive hpop htick hwoken =>
      have hstatus := hwoken.status.symm.trans hs
      simp [hrun] at hstatus
  | stops hrun hhead he haborted => simp [haborted] at hs
  | sticks hrun hturns hparked he haborted => simp [haborted] at hs

omit [Scheduler S] in
theorem exited_of_live_eq_zero (hl : (r.life []).Sound) (hlive : r.live = 0) {pid : ProcessId}
    {p : Process} (hp : r.processes[pid]? = some p) : p.status = .exited := by
  have hcount : r.processes.countP (fun p => p.status ≠ .exited) = 0 := hl.live.symm.trans hlive
  simpa using Array.countP_eq_zero.mp hcount p (Array.mem_of_getElem? hp)

end Roster

namespace Machine

variable {g : Geometry} {S : Type} {m : Machine g S} {specs : List ProcessSpec} {h : History}

theorem Stands.vacant (hm : m.Stands specs h) (hl : (m.roster.life []).Sound)
    (hlive : m.live = 0) : m.pager.Vacant := by
  refine hm.sound.vacant fun pid => ?_
  have hmem : m.view.memories pid = none := by
    cases hp : m.processes[pid]? with
    | none => exact hm.inv.strangers pid (congrArg (Option.map Process.task) hp)
    | some p =>
      have ht : m.view.tasks pid = some p.task := congrArg (Option.map Process.task) hp
      exact (hm.inv.task pid p.task ht).gone (Roster.exited_of_live_eq_zero hl hlive hp)
  have hflat : m.pager.flat pid = none := hmem
  rw [Pager.flat_eq] at hflat
  simpa using hflat

variable [Scheduler S]

theorem vacant_of_finished (cpus : Nat) (useTlb : Bool) (policy : S) (specs : List ProcessSpec)
    (n : Nat) (hfin : ((new g cpus useTlb policy specs).stepN n).status = .finished) :
    ((new g cpus useTlb policy specs).stepN n).pager.Vacant := by
  have hok : ∀ e, ((new g cpus useTlb policy specs).stepN n).status ≠ .aborted e := by
    rw [hfin]
    nofun
  have hboth := holds_stepN
    (P := fun m : Machine g S => (m.roster.life []).Sound ∧ (m.status = .finished → m.live = 0))
    ⟨sound_life_new cpus useTlb policy specs, nofun⟩
    (fun m hm hok => ⟨sound_life_step hm.1 hok,
      (roster_step (Roster.manned hm.1)).live_eq_zero hm.2⟩) n hok
  exact ((stands_new cpus useTlb policy specs).stepN n hok).vacant hboth.1 (hboth.2 hfin)

/-- A run that has finished leaves nothing behind, however its processes ended: all frames are free,
the swap store is empty, no address space is live and no buffer has a valid slot. Its summary counts
no image, and nothing but the summary is logged. -/
theorem finished_vacant (c : Config) (policy : S) :
    (∀ n, ((Simulation.machine c policy).stepN n).status = .finished →
      ((Simulation.machine c policy).stepN n).pager.Vacant ∧
        Simulation.conclude ((Simulation.machine c policy).stepN n) =
          some (.ok (Simulation.summary ((Simulation.machine c policy).stepN n)),
            (Simulation.summary ((Simulation.machine c policy).stepN n)).records)) ∧
      ∀ fuel e s, Simulation.run fuel c policy = some e → e.result = .ok s →
        s.outstandingSwaps = 0 := by
  have hvacant : ∀ n, ((Simulation.machine c policy).stepN n).status = .finished →
      ((Simulation.machine c policy).stepN n).pager.Vacant := fun n =>
    vacant_of_finished c.cpus c.useTlb policy c.processes n
  refine ⟨fun n hfin => ⟨hvacant n hfin, ?_⟩, fun fuel e s hend hok => ?_⟩
  · unfold Simulation.conclude
    split
    · next hst => simp [hfin] at hst
    · next hst => simp [hfin] at hst
    · simp only [(hvacant n hfin).swaps]
      rfl
  · obtain ⟨hfin, rfl⟩ := Simulation.finished_of_run hend hok
    exact (hvacant fuel hfin).swap

def departing : Config :=
  { geometry := Pager.oneFrame, cpus := 1, useTlb := true
    processes := [
      { name := "exits", quantum := 1, trace := ⟨#["NoOp", "Syscall_Exit"]⟩ },
      { name := "strays", quantum := 1, trace := ⟨#["NoOp"]⟩ },
      { name := "too long", trace := ⟨Array.replicate 5 "NoOp"⟩ }] }

theorem finished_vacant_departing :
    ((Simulation.machine departing ({} : RoundRobin)).stepN 14).pager.swap.size = 2 ∧
      ((Simulation.machine departing ({} : RoundRobin)).stepN 20).status = .finished ∧
      ((Simulation.machine departing ({} : RoundRobin)).stepN 20).pager.Vacant := by
  have hfin : ((Simulation.machine departing ({} : RoundRobin)).stepN 20).status = .finished := by
    decide +kernel
  exact ⟨by decide +kernel, hfin, ((finished_vacant departing ({} : RoundRobin)).1 20 hfin).1⟩

end Machine

end DemandPaging
