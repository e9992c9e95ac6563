import DemandPaging.Proofs.Machine.Accounts
import DemandPaging.Proofs.Machine.Appointments
import DemandPaging.Proofs.Machine.Faults
import DemandPaging.Proofs.Machine.Teardown
/-!
The summary of a run that has finished. The accounts are kept in order by every step, so those of
processes that have ended are settled: each by itself, and together against the counters of the CPUs
and the time the run took.
-/

namespace DemandPaging

structure Account.Settled (a : Account) (spec : ProcessSpec) : Prop where
  completed : a.completedAt.isSome = true
  bursts : a.bursts.toList.sum = a.executedTicks
  dispatches : a.bursts.size = a.dispatches
  quantum : ∀ k ∈ a.bursts, k ≤ spec.quantum
  started : ∀ t, a.startedAt = some t → t = spec.start ∧
    ∀ e, a.completedAt = some e → t + a.executedTicks ≤ e
  unstarted : a.startedAt = none → a.dispatches = 0 ∧ a.bursts = #[] ∧ a.executedTicks = 0

/-- What a summary says fits together, and fits the configuration. -/
structure RunSummary.Settled (s : RunSummary) (c : Config) : Prop where
  accounts : List.Forall₂ (fun spec x => Account.Settled x.2 spec) c.processes s.processes
  finished : s.finishedAt = ((s.processes.filterMap fun x => x.2.completedAt).max?).getD 0
  faults : (s.processes.map fun x => x.2.instructionFaults + x.2.dataFaults).sum =
    (s.cpus.map fun x => x.2.faults).sum
  ticks : (s.processes.map fun x => x.2.executedTicks).sum ≤ c.cpus * s.finishedAt

theorem Process.Kept.settled {p : Process} {spec : ProcessSpec} {now : Nat} (h : p.Kept spec now)
    (hbalanced : p.account.Balanced none) (hexited : p.status = .exited) :
    p.account.Settled spec := by
  refine ⟨h.exited.mp hexited, hbalanced.ticks, hbalanced.count, ?_, fun t ht => ?_,
    fun hnone => ?_⟩
  · rw [← h.quantum]
    exact h.bursts
  · exact ⟨(h.started t ht).1, fun e he => (h.completed e he).2 t ht⟩
  · obtain ⟨hticks, hdispatches, hbursts, -⟩ := h.unstarted hnone
    exact ⟨hdispatches, hbursts, hticks⟩

theorem ProcessSpec.kept_toProcess (spec : ProcessSpec) (pid : ProcessId) (now : Nat) :
    (spec.toProcess pid).Kept spec now :=
  ⟨rfl, nofun, fun _ => ⟨rfl, rfl, rfl, .inl rfl⟩, nofun, nofun, ⟨nofun, nofun⟩⟩

namespace Roster

variable {S : Type} {r s : Roster S} {g : Geometry} {specs : List ProcessSpec} {n : Nat}
  {log : List (Nat × Nat)}

structure Orderly (r : Roster S) (specs : List ProcessSpec) : Prop where
  audited : r.Audited specs (· ∈ r.turns)
  afforded : r.Afforded
  closing : r.Closing

theorem Step.orderly [Scheduler S] (h : r.Step g s) (hr : r.Orderly specs)
    (hl : (r.life []).Sound) (hseated : r.Seated n) (ht : r.Timed log)
    (hok : ∀ e, s.status ≠ .aborted e) : s.Orderly specs := by
  have hafter := h.seated hseated hok
  cases h with
  | rests hrest => exact hr
  | turns hrun hhead hx hmove =>
    have hsize := hafter.size.trans hseated.size.symm
    exact ⟨hmove.audited hr.audited hl ht.turns hx hhead,
      hmove.afforded hr.afforded ht.turns hx hhead hsize, hmove.closing hr.closing⟩
  | advances hrun hturns hparked hadvance =>
    exact ⟨hadvance.audited hr.audited hl ht, hadvance.afforded hr.afforded hseated ht,
      hadvance.closing hr.closing⟩
  | stops hrun hhead he haborted => exact absurd haborted (hok _)
  | sticks hrun hturns hparked he haborted => exact absurd haborted (hok _)

section Finished

variable (hr : r.Orderly specs) (hlive : r.live = 0)

include hr hlive

theorem Orderly.settled (hl : (r.life []).Sound) {pid : ProcessId} {p : Process}
    (hp : r.processes[pid]? = some p) :
    ∃ spec, specs[pid]? = some spec ∧ p.account.Settled spec := by
  have hexited : p.status = .exited := exited_of_live_eq_zero hl hlive hp
  obtain ⟨spec, hspec, hkept⟩ := hr.audited.kept pid p hp
  have hbalanced := hr.audited.resting pid p hp (by rw [hexited]; nofun)
  exact ⟨spec, hspec, hkept.settled hbalanced hexited⟩

theorem Orderly.forall₂_settled (hl : (r.life []).Sound)
    (hsize : r.processes.size = specs.length) :
    List.Forall₂ (fun spec p => Account.Settled p.account spec) specs r.processes.toList := by
  refine List.forall₂_iff_get.mpr ⟨by simpa using hsize.symm, fun pid hspec hpid => ?_⟩
  have hp : r.processes[pid]? = some (r.processes.toList.get ⟨pid, hpid⟩) := by simp
  obtain ⟨spec, hget, hsettled⟩ := hr.settled hlive hl hp
  rw [List.getElem?_eq_getElem hspec] at hget
  obtain rfl := Option.some.inj hget
  exact hsettled

theorem Orderly.now_eq : r.clock.now =
    ((r.processes.toList.filterMap fun p => p.account.completedAt).max?).getD 0 := by
  have hle : ∀ k ∈ r.processes.toList.filterMap fun p => p.account.completedAt,
      k ≤ r.clock.now := by
    intro k hk
    obtain ⟨p, hp, hdone⟩ := List.mem_filterMap.mp hk
    obtain ⟨pid, hpid⟩ := List.mem_iff_getElem?.mp hp
    obtain ⟨spec, -, hkept⟩ := hr.audited.kept pid p (by simpa using hpid)
    exact (hkept.completed k hdone).1
  rcases hr.closing hlive with ⟨hsize, hnow⟩ | ⟨pid, p, hp, hdone⟩
  · have hnone : r.processes.toList = [] := by simpa using hsize
    rw [hnone]
    exact hnow
  · have hmem : r.clock.now ∈ r.processes.toList.filterMap fun p => p.account.completedAt :=
      List.mem_filterMap.mpr ⟨p, by simpa using Array.mem_of_getElem? hp, hdone⟩
    rw [List.max?_eq_some_iff.mpr ⟨hmem, hle⟩]
    rfl

end Finished

end Roster

namespace Machine

variable {g : Geometry} {S : Type} {m : Machine g S} {specs : List ProcessSpec}

theorem orderly_new (cpus : Nat) (useTlb : Bool) (policy : S) (specs : List ProcessSpec) :
    (new g cpus useTlb policy specs).roster.Orderly specs := by
  have hprocess {pid : ProcessId} {p : Process}
      (hp : (new g cpus useTlb policy specs).roster.processes[pid]? = some p) :
      ∃ spec, specs[pid]? = some spec ∧ spec.toProcess pid = p := by
    change (new g cpus useTlb policy specs).processes[pid]? = some p at hp
    rw [getElem?_processes_new] at hp
    exact Option.map_eq_some_iff.mp hp
  have hcpu {c : Nat} {x : Cpu}
      (hx : (new g cpus useTlb policy specs).roster.cpus[c]? = some x) : x = {} := by
    change (new g cpus useTlb policy specs).cpus[c]? = some x at hx
    exact cpus_new hx
  refine ⟨⟨fun pid p hp => ?_, fun pid p hp _ => ?_, fun c x pid p hx hcur => ?_,
    fun t pid p hmem hp _ => ?_⟩, ?_, fun hlive => .inl ⟨?_, rfl⟩⟩
  · obtain ⟨spec, hspec, rfl⟩ := hprocess hp
    exact ⟨spec, hspec, spec.kept_toProcess pid _⟩
  · obtain ⟨spec, -, rfl⟩ := hprocess hp
    exact ⟨rfl, rfl⟩
  · obtain rfl := hcpu hx
    simp [Cpu.current?] at hcur
  · have hentries := (EventQueue.perm_entries_foldl_schedule
      (fun x : ProcessSpec × Nat => x.1.start) (fun x => Waiter.process x.2) specs.zipIdx {}).subset
        hmem
    rw [show EventQueue.entries ({} : EventQueue Waiter) = [] from rfl, List.append_nil] at hentries
    obtain ⟨⟨spec, i⟩, hspec, heq⟩ := List.mem_map.mp hentries
    obtain ⟨rfl, hi⟩ := Prod.mk.inj heq
    obtain rfl := Waiter.process.inj hi
    exact ⟨spec, List.mem_zipIdx_iff_getElem?.mp hspec, rfl⟩
  · have hexecuted : (new g cpus useTlb policy specs).roster.executed = 0 := by
      refine List.sum_eq_zero_iff_forall_eq_nat.mpr fun k hk => ?_
      obtain ⟨p, hp, rfl⟩ := List.mem_map.mp hk
      obtain ⟨pid, hpid⟩ := List.mem_iff_getElem?.mp hp
      rw [Array.getElem?_toList] at hpid
      obtain ⟨spec, -, rfl⟩ := hprocess hpid
      rfl
    have hduties : (new g cpus useTlb policy specs).roster.duties = 0 := by
      refine List.countP_eq_zero.mpr fun c _ => ?_
      rw [Roster.spends_iff]
      rintro ⟨x, b, i, hx, hphase⟩
      obtain rfl := hcpu hx
      simp at hphase
    rw [Roster.Afforded, hexecuted, hduties]
    exact Nat.zero_le _
  · have hsize : (new g cpus useTlb policy specs).processes.size = specs.length := by simp [new]
    exact hsize.trans hlive

variable [Scheduler S]

structure Accounted (m : Machine g S) (specs : List ProcessSpec) : Prop where
  orderly : m.roster.Orderly specs
  tallied : m.Tallied
  finished : m.status = .finished → m.live = 0

theorem accounted_stepN (cpus : Nat) (useTlb : Bool) (policy : S) (specs : List ProcessSpec)
    (n : Nat) (hok : ∀ e, ((new g cpus useTlb policy specs).stepN n).status ≠ .aborted e) :
    ((new g cpus useTlb policy specs).stepN n).Accounted specs := by
  induction n with
  | zero =>
    exact ⟨orderly_new cpus useTlb policy specs, tallied_new g cpus useTlb policy specs, nofun⟩
  | succ n ih =>
    have hbefore := alive_of_le (Nat.le_succ n) hok
    have hm := ih hbefore
    have htime := inTime_stepN cpus useTlb policy specs n hbefore
    have hstep := roster_step (Roster.manned htime.life)
    rw [stepN_succ] at hok ⊢
    exact ⟨hstep.orderly hm.orderly htime.life htime.seated htime.timed hok, hm.tallied.step hok,
      hstep.live_eq_zero hm.finished⟩

omit [Scheduler S] in
theorem InTime.size_processes {n : Nat} {log : List (Nat × Nat)} (hm : m.InTime specs n log) :
    m.processes.size = specs.length := by
  obtain ⟨h, hstands⟩ := hm.stands
  have hsome (i : Nat) : (m.processes[i]?).isSome = (specs[i]?).isSome := by
    have htrace := congrArg Option.isSome (hstands.inv.trace i)
    simpa [view] using htrace
  refine Nat.le_antisymm (Nat.not_lt.mp fun hlt => ?_) (Nat.not_lt.mp fun hlt => ?_)
  · simpa [hlt] using hsome specs.length
  · simpa [hlt] using hsome m.processes.size

omit [Scheduler S] in
theorem settled_of_finished {c : Config} {m : Machine c.geometry S} {log : List (Nat × Nat)}
    (hm : m.Accounted c.processes) (htime : m.InTime c.processes c.cpus log)
    (hfin : m.status = .finished) : (Simulation.summary m).Settled c := by
  have hlive : m.roster.live = 0 := hm.finished hfin
  have hsummary : (Simulation.summary m).processes =
      m.roster.processes.toList.map fun p => (p.id, p.account) := rfl
  have hcpus : (Simulation.summary m).cpus =
      m.pager.translators.toList.map fun u => (u.cpu, u.counts) := rfl
  refine ⟨?_, ?_, ?_, ?_⟩
  · rw [hsummary, List.forall₂_map_right_iff]
    exact hm.orderly.forall₂_settled hlive htime.life htime.size_processes
  · rw [hsummary, List.filterMap_map]
    exact hm.orderly.now_eq hlive
  · rw [hsummary, hcpus, List.map_map, List.map_map]
    exact hm.tallied
  · rw [hsummary, List.map_map]
    have hafforded : m.roster.executed + m.roster.duties ≤
        m.roster.cpus.size * m.roster.clock.now := hm.orderly.afforded
    rw [htime.seated.size] at hafforded
    exact (Nat.le_add_right _ _).trans hafforded

/-- The accounts of a run that ends with a summary are settled. -/
theorem accounts_settle (c : Config) (policy : S) (fuel : Nat) {e : Ended S} {s : RunSummary}
    (hend : Simulation.run fuel c policy = some e) (hok : e.result = .ok s) : s.Settled c := by
  obtain ⟨hfin, rfl⟩ := Simulation.finished_of_run hend hok
  have halive : ∀ e, ((Simulation.machine c policy).stepN fuel).status ≠ .aborted e := by
    rw [hfin]
    nofun
  exact settled_of_finished (accounted_stepN c.cpus c.useTlb policy c.processes fuel halive)
    (inTime_stepN c.cpus c.useTlb policy c.processes fuel halive) hfin

omit [Scheduler S] in
theorem result_conclude {m : Machine g S} (hfin : m.status = .finished) :
    (Simulation.conclude m).map Prod.fst = some (.ok (Simulation.summary m)) := by
  simp [Simulation.conclude, hfin]

theorem accounts_settle_departing :
    ∃ e s, Simulation.run 20 departing ({} : RoundRobin) = some e ∧ e.result = .ok s ∧
      s.finishedAt = 3 ∧ s.processes.map (fun x => x.2.bursts) = [#[1, 1], #[1, 0], #[]] ∧
      s.Settled departing := by
  have hfin : ((Simulation.machine departing ({} : RoundRobin)).stepN 20).status = .finished := by
    decide +kernel
  have hresult := (Simulation.result_run (by decide) 20 ({} : RoundRobin)).trans
    (result_conclude hfin)
  obtain ⟨e, hend, hok⟩ := Option.map_eq_some_iff.mp hresult
  exact ⟨e, _, hend, hok, by decide +kernel, by decide +kernel,
    accounts_settle departing _ 20 hend hok⟩

end Machine

end DemandPaging
