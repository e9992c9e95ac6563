import DemandPaging.Proofs.Machine.Turns
/-!
Actions of a machine that are sure to answer. Taking a process off its CPU and ending it is one of
them, as long as the policy answers when it is told.
-/

namespace DemandPaging

theorem Pager.run_checkTable {g : Geometry} (m : Pager g) (pid : ProcessId) :
    ∃ holes es, (checkTable pid).run m = ⟨.ok holes, m, es⟩ := by
  unfold checkTable
  cases hs : m.space? pid <;> simp [hs]

namespace Machine

open DemandPaging.Action

variable {g : Geometry} {S α β : Type} {m : Machine g S} {v : View g} {c : Nat} {x : Cpu}
  {b : Burst}

theorem run_onPager {y : Paged g α} {a : α} {p : Pager g} {es : List Paging.Event}
    (h : y.run m.pager = ⟨.ok a, p, es⟩) :
    (onPager y).run m = ⟨.ok a, { m with pager := p }, es.map .paging⟩ := by
  simp [onPager, time, h]

theorem run_process {pid : ProcessId} {p : Process} (hp : m.processes[pid]? = some p) :
    (process pid).run m = ⟨.ok p, m, []⟩ := by simp [process, hp]

theorem run_cpu (hx : m.cpus[c]? = some x) : (Machine.cpu c).run m = ⟨.ok x, m, []⟩ := by
  simp [Machine.cpu, hx]

/-- Run from `m`, the action answers, and as `Q` says. -/
def Surely (y : Running g S α) (m : Machine g S) (Q : α → List Event → Prop) : Prop :=
  y.Meets m (fun _ => False) fun a _ es => Q a es

section Surely

variable {y : Running g S α} {f : α → Running g S β} {P : α → Machine g S → Prop}
  {Q : α → List Event → Prop} {R : β → List Event → Prop}

theorem Surely.exists (h : Surely y m Q) : ∃ a t es, y.run m = ⟨.ok a, t, es⟩ ∧ Q a es := by
  unfold Surely Meets at h
  split at h
  · next a t es hrun => exact ⟨a, t, es, hrun, h⟩
  · exact h.elim

theorem surely_run_bind {a : α} {t : Machine g S} {es : List Event}
    (h : y.run m = ⟨.ok a, t, es⟩) (hf : Surely (f a) t fun b es' => R b (es ++ es')) :
    Surely (y >>= f) m R := meets_bind_of_run h hf

theorem Surely.bind (h : Surely y m Q) (hq : Quietly y m P)
    (hf : ∀ a m' es, P a m' → Surely (f a) m' fun b es' => R b (es ++ es')) :
    Surely (y >>= f) m R := by
  obtain ⟨a, t, es, hrun, -⟩ := h.exists
  exact surely_run_bind hrun (hf a t es (hq.of_ok hrun).2)

end Surely

theorem surely_modify (f : Machine g S → Machine g S) :
    Surely (modify f) m fun _ _ => True := trivial

theorem surely_report_bind {e : Event} {f : Unit → Running g S β} {R : β → List Event → Prop}
    (h : Surely (f ()) m fun b es => R b (e :: es)) : Surely (report e >>= f) m R :=
  Meets.bind (P := fun _ m' es => m' = m ∧ es = [e]) ⟨rfl, rfl⟩
    fun _ _ _ ⟨hm, he⟩ => hm ▸ he ▸ h

section Exit

theorem Shows.cpus (h : m.Shows v) (hx : v.cpus c = some x) : m.cpus[c]? = some x := by
  rw [← hx, ← h.view]
  rfl

theorem Shows.process (h : m.Shows v) {pid : ProcessId} {t : Task} (ht : v.tasks pid = some t) :
    ∃ p, m.processes[pid]? = some p := by
  rw [← h.view] at ht
  obtain ⟨p, hp, -⟩ := Option.map_eq_some_iff.mp ht
  exact ⟨p, hp⟩

theorem surely_checkTable (m : Machine g S) (pid : ProcessId) :
    Surely (onPager (Pager.checkTable pid)) m fun _ _ => True := by
  obtain ⟨holes, es, hrun⟩ := Pager.run_checkTable m.pager pid
  exact meets_of_run_ok (run_onPager hrun) trivial

theorem surely_release (h : m.Shows v) {pid : ProcessId} {mem : FlatMemory g}
    (hmem : v.memories pid = some mem) :
    Surely (onPager (Pager.release pid)) m fun _ _ => True := by
  have hflat : m.pager.flat pid = some mem := by rw [← hmem, ← h.view]; rfl
  obtain ⟨s, hs⟩ := Option.isSome_iff_exists.mp (Pager.flat_eq_some_iff.mp hflat).1
  obtain ⟨p, es, hrun, -⟩ := Pager.run_release h.sound hs
  exact meets_of_run_ok (run_onPager hrun) trivial

theorem surely_undispatch (h : m.Shows v) (hx : v.cpus c = some x) (b : Burst) {pid : ProcessId}
    (ho : v.owners c = some (some pid)) : Surely (undispatch c b) m fun _ _ => True := by
  refine surely_run_bind (run_cpu (h.cpus hx)) ?_
  refine (surely_modify _).bind (quietly_changeProcess h b.pid (fun t => { t with saved := x.regs })
    fun _ => rfl) ?_
  intro _ m₁ _ h₁
  refine (surely_modify _).bind (quietly_changeCpu h₁ c _) ?_
  intro _ m₂ _ h₂
  obtain ⟨u, hu, -⟩ := h₂.owner (c := c) ho
  exact meets_of_run_ok (run_onPager (Pager.run_flush h₂.sound hu)) trivial

variable [Scheduler S]

/-- The policy answers when it is told that a process has ended. -/
def HearsExits (S : Type) [Scheduler S] : Prop :=
  ∀ (pid : ProcessId) (s : S), ((Scheduler.exited pid).run s).answer = .ok ()

theorem hearsExits_roundRobin : HearsExits RoundRobin := fun _ _ => rfl

theorem HearsExits.surely (hexit : HearsExits S) (m : Machine g S) (pid : ProcessId) :
    Surely (onPolicy (Scheduler.exited pid)) m fun _ _ => True := by
  have hanswer := hexit pid m.scheduler
  unfold Surely Meets
  rw [onPolicy, run_within]
  rcases hrun : (Scheduler.exited pid).run m.scheduler with ⟨r, t, es⟩
  rw [hrun] at hanswer
  obtain rfl : r = .ok () := hanswer
  trivial

theorem surely_exitProcess (hexit : HearsExits S) (h : m.Shows v) (hx : v.cpus c = some x)
    (b : Burst) {t : Task} {mem : FlatMemory g} (ho : v.owners c = some (some b.pid))
    (ht : v.tasks b.pid = some t) (hmem : v.memories b.pid = some mem) :
    Surely (exitProcess c b) m fun _ _ => True := by
  refine surely_run_bind rfl ?_
  refine (surely_checkTable _ b.pid).bind (quietly_checkTable h b.pid) ?_
  intro _ m₁ _ h₁
  refine (surely_undispatch h₁ hx b ho).bind (quietly_undispatch h₁ hx b) ?_
  intro _ m₂ _ h₂
  refine (surely_release h₂ hmem).bind (quietly_release h₂ b.pid) ?_
  intro _ m₃ _ h₃
  refine (hexit.surely _ _).bind (quietly_policy h₃ _) ?_
  intro _ m₄ _ h₄
  refine (surely_modify _).bind (quietly_modify _) ?_
  rintro _ _ _ rfl
  have h₅ : ({ m₄ with live := m₄.live - 1 } : Machine g S).Shows _ := h₄.of_eq rfl rfl
  refine (surely_modify _).bind (quietly_setStatus h₅ b.pid .exited) ?_
  intro _ m₆ _ h₆
  refine (surely_modify _).bind (quietly_changeAccount h₆ b.pid
    (f := fun a => { a with completedAt := some m.clock.now }) fun _ => rfl) ?_
  intro _ m₇ _ h₇
  obtain ⟨p, hp⟩ := h₇.process (View.tasks_setStatus_undispatched (c := c) ht x.regs .exited)
  refine surely_run_bind (run_process hp) ?_
  trivial

end Exit

end Machine

end DemandPaging
