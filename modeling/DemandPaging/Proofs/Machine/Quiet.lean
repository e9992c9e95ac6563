import DemandPaging.Proofs.Machine.View
/-!
What the calls of a CPU do to the view of the machine. None of them executes an instruction, and
none fails because a resolved fault still does not translate.
-/

namespace DemandPaging.Machine

open DemandPaging.Action

def Event.isDeed : Event → Bool
  | .executing .. => true
  | _ => false

def Silent (es : List Event) : Prop := ∀ e ∈ es, e.isDeed = false

theorem silent_nil : Silent [] := nofun

theorem Silent.append {es es' : List Event} (h : Silent es) (h' : Silent es') :
    Silent (es ++ es') :=
  fun e he => (List.mem_append.mp he).elim (h e) (h' e)

theorem silent_map_paging (es : List Paging.Event) : Silent (es.map Event.paging) := by
  intro e he
  obtain ⟨p, -, rfl⟩ := List.mem_map.mp he
  rfl

/-- A failure other than that a resolved fault still does not translate. -/
def Regular (r : Failure RunError) : Prop :=
  ∀ purpose pid a, r ≠ .error (.stillFaulting purpose pid a)

variable {g : Geometry} {S α β : Type}

/-- Run from `m`, the action is silent, answers as `Q` says and has no other than regular
failures. -/
def Quietly (x : Running g S α) (m : Machine g S) (Q : α → Machine g S → Prop) : Prop :=
  x.Meets m Regular fun a m' es => Silent es ∧ Q a m'

section Rules

variable {m : Machine g S} {x : Running g S α} {f : α → Running g S β}
  {P Q : α → Machine g S → Prop} {R : β → Machine g S → Prop}

theorem Quietly.mono (h : Quietly x m P) (hq : ∀ a m', P a m' → Q a m') : Quietly x m Q :=
  Meets.mono h fun _ _ _ ⟨hs, hp⟩ => ⟨hs, hq _ _ hp⟩

theorem Quietly.bind (h : Quietly x m P) (hf : ∀ a m', P a m' → Quietly (f a) m' R) :
    Quietly (x >>= f) m R :=
  Meets.bind h fun a m' _ ⟨hs, hp⟩ =>
    Meets.mono (hf a m' hp) fun _ _ _ ⟨hs', hr⟩ => ⟨hs.append hs', hr⟩

theorem quietly_pure {a : α} (h : Q a m) : Quietly (pure a) m Q := meets_pure ⟨silent_nil, h⟩

theorem quietly_fail {r : Failure RunError} (h : Regular r) :
    Quietly (fail r : Running g S α) m Q := meets_fail h

theorem quietly_fail_bind {r : Failure RunError} (h : Regular r) :
    Quietly (fail r >>= f) m R :=
  Quietly.bind (P := fun _ _ => False) (quietly_fail h) fun _ _ hf => hf.elim

theorem quietly_get : Quietly get m fun a m' => a = m ∧ m' = m :=
  meets_get ⟨silent_nil, rfl, rfl⟩

theorem quietly_modify (c : Machine g S → Machine g S) :
    Quietly (modify c) m fun _ m' => m' = c m := meets_modify ⟨silent_nil, rfl⟩

theorem quietly_report {e : Event} (he : e.isDeed = false) :
    Quietly (report e) m fun _ m' => m' = m :=
  meets_report ⟨by simpa [Silent] using he, rfl⟩

theorem quietly_ofOption {r : Failure RunError} (hr : Regular r) {o : Option α} :
    Quietly (ofOption r o) m fun a m' => o = some a ∧ m' = m :=
  meets_ofOption hr fun _ ha => ⟨silent_nil, ha, rfl⟩

theorem regular_crash (c : Crash) : Regular (.crash c) := nofun

theorem quietly_time : Quietly time m fun _ m' => m' = m := by
  refine quietly_get.bind ?_
  rintro _ _ ⟨rfl, rfl⟩
  exact quietly_pure rfl

theorem quietly_time_bind {f : Nat → Running g S β} (h : ∀ now, Quietly (f now) m R) :
    Quietly (time >>= f) m R := by
  refine quietly_time.bind ?_
  rintro now _ rfl
  exact h now

theorem quietly_report_bind {e : Event} (he : e.isDeed = false) {f : Unit → Running g S β}
    (h : Quietly (f ()) m R) : Quietly (report e >>= f) m R := by
  refine (quietly_report he).bind ?_
  rintro _ _ rfl
  exact h

theorem quietly_process (pid : ProcessId) :
    Quietly (process pid) m fun p m' => m.processes[pid]? = some p ∧ m' = m := by
  refine quietly_get.bind ?_
  rintro _ _ ⟨rfl, rfl⟩
  exact quietly_ofOption (regular_crash _)

theorem quietly_cpu (c : Nat) : Quietly (cpu c) m fun x m' => m.cpus[c]? = some x ∧ m' = m := by
  refine quietly_get.bind ?_
  rintro _ _ ⟨rfl, rfl⟩
  exact quietly_ofOption (regular_crash _)

theorem quietly_tickAfter (ticks : Nat) : Quietly (tickAfter ticks) m fun _ m' => m' = m :=
  quietly_time_bind fun _ => (quietly_ofOption (regular_crash _)).mono fun _ _ h => h.2

theorem quietly_onPager {y : Paged g α}
    (h : y.Meets m.pager (fun _ => True) fun a p _ => Q a { m with pager := p }) :
    Quietly (onPager y) m Q := by
  refine quietly_time_bind fun now => meets_within ?_
  unfold Meets at *
  split
  · next hrun =>
    rw [hrun] at h
    exact ⟨silent_map_paging _, h⟩
  · next r _ _ _ => cases r <;> nofun

theorem quietly_onPolicy (y : Policy S α) :
    Quietly (onPolicy y) m fun _ m' => ∃ s, m' = { m with scheduler := s } := by
  refine meets_within ?_
  unfold Meets
  split
  · refine ⟨fun e he => ?_, _, rfl⟩
    obtain ⟨z, -, -⟩ := List.mem_map.mp he
    exact z.elim
  · exact regular_crash _

end Rules

/-- The machine looks like this, and its memory system is sound. -/
structure Shows (m : Machine g S) (v : View g) : Prop where
  sound : m.pager.Sound
  view : m.view = v

section Shows

variable {m : Machine g S} {v : View g}

theorem Shows.cpu (h : m.Shows v) {c : Nat} {x : Cpu} (hx : m.cpus[c]? = some x) :
    v.cpus c = some x := by
  rw [← h.view, ← hx]
  rfl

theorem Shows.task (h : m.Shows v) {pid : ProcessId} {p : Process}
    (hp : m.processes[pid]? = some p) : v.tasks pid = some p.task := by
  rw [← h.view]
  change m.processes[pid]?.map Process.task = _
  rw [hp]
  rfl

theorem quietly_cpu_eq (h : m.Shows v) {c : Nat} {x : Cpu} (hx : v.cpus c = some x) :
    Quietly (Machine.cpu c) m fun y m' => y = x ∧ m' = m :=
  (quietly_cpu c).mono fun _ _ ⟨hy, hm⟩ => ⟨Option.some.inj ((h.cpu hy).symm.trans hx), hm⟩

theorem quietly_task (h : m.Shows v) {pid : ProcessId} {t : Task} (ht : v.tasks pid = some t) :
    Quietly (process pid) m fun p m' => p.task = t ∧ m' = m :=
  (quietly_process pid).mono fun _ _ ⟨hp, hm⟩ =>
    ⟨Option.some.inj ((h.task hp).symm.trans ht), hm⟩

theorem Shows.of_eq {m' : Machine g S} (h : m.Shows v) (hp : m'.pager = m.pager)
    (hv : m'.view = m.view) : m'.Shows v := ⟨hp ▸ h.sound, hv.trans h.view⟩

theorem Shows.of_pager (h : m.Shows v) {p : Pager g} (hp : p.Sound)
    (hf : Pager.Faithful m.pager p) : ({ m with pager := p } : Machine g S).Shows v :=
  ⟨hp, (view_of_faithful hf).trans h.view⟩

theorem quietly_changeProcess (h : m.Shows v) (pid : ProcessId) {f : Process → Process}
    (f' : Task → Task) (hf : ∀ p, (f p).task = f' p.task) :
    Quietly (changeProcess pid f) m fun _ m' => m'.Shows (v.changeTask pid f') := by
  refine (quietly_modify _).mono ?_
  rintro _ _ rfl
  exact ⟨h.sound, by rw [view_changeProcess m pid f' hf, h.view]⟩

theorem quietly_setStatus (h : m.Shows v) (pid : ProcessId) (s : ProcessStatus) :
    Quietly (setStatus pid s) m fun _ m' => m'.Shows (v.setStatus pid s) :=
  quietly_changeProcess h pid _ fun _ => rfl

theorem quietly_changeAccount (h : m.Shows v) (pid : ProcessId) {f : Account → Account}
    (hf : ∀ a, (f a).startedAt = a.startedAt) :
    Quietly (changeAccount pid f) m fun _ m' => m'.Shows v := by
  refine (quietly_modify _).mono ?_
  rintro _ _ rfl
  exact ⟨h.sound, (view_changeAccount m pid hf).trans h.view⟩

theorem quietly_changeCpu (h : m.Shows v) (c : Nat) (f : Cpu → Cpu) :
    Quietly (changeCpu c f) m fun _ m' => m'.Shows (v.changeCpu c f) := by
  refine (quietly_modify _).mono ?_
  rintro _ _ rfl
  exact ⟨h.sound, by rw [view_changeCpu, h.view]⟩

theorem quietly_policy (h : m.Shows v) (y : Policy S α) :
    Quietly (onPolicy y) m fun _ m' => m'.Shows v := by
  refine (quietly_onPolicy y).mono ?_
  rintro _ _ ⟨s, rfl⟩
  exact h.of_eq rfl rfl

theorem quietly_park (h : m.Shows v) (c : Nat) (wake : Option Nat) :
    Quietly (modify fun m => m.park c wake) m fun _ m' => m'.Shows v := by
  refine (quietly_modify _).mono ?_
  rintro _ _ rfl
  exact h.of_eq rfl (view_park m c wake)

theorem quietly_scheduleProcess (h : m.Shows v) (tick : Nat) (pid : ProcessId) :
    Quietly (scheduleWaiter tick (.process pid)) m fun _ m' => m'.Shows
      { v with waiting := Function.update v.waiting pid (v.waiting pid + 1) } := by
  refine (quietly_modify _).mono ?_
  rintro _ _ rfl
  exact ⟨h.sound, by rw [view_schedule, h.view]⟩

theorem quietly_flush (h : m.Shows v) (c : Nat) :
    Quietly (onPager (Pager.flush c)) m fun _ m' => m'.Shows v := by
  refine quietly_onPager ?_
  cases hu : m.pager.translators[c]? with
  | none =>
    refine meets_of_run_error (r := Pager.beyond) (e := []) (t := m.pager) ?_ trivial
    simp [Pager.flush, Pager.run_translator_none m.pager hu]
  | some u =>
    have hs := Pager.steady_flushedBy m.pager (m.pager.slotsOf c)
    exact meets_of_run_ok (Pager.run_flush h.sound hu)
      (h.of_pager (hs.agrees_of_translators_eq h.sound rfl) (.of_steady hs rfl))

theorem quietly_checkTable (h : m.Shows v) (pid : ProcessId) :
    Quietly (onPager (Pager.checkTable pid)) m fun _ m' => m'.Shows v := by
  refine quietly_onPager (Meets.bind (meets_get (Q := fun p p' _ => p = m.pager ∧ p' = m.pager)
    ⟨rfl, rfl⟩) ?_)
  rintro _ _ _ ⟨rfl, rfl⟩
  split
  · exact meets_pure h
  · exact Meets.bind (meets_reportAll (Q := fun _ p' _ => p' = m.pager) rfl)
      fun _ _ _ hp => meets_pure (hp ▸ h)

theorem quietly_release (h : m.Shows v) (pid : ProcessId) :
    Quietly (onPager (Pager.release pid)) m fun _ m' => m'.Shows
      { v with memories := Function.update v.memories pid none } := by
  refine quietly_onPager ?_
  cases hs : m.pager.space? pid with
  | none => exact meets_of_run_error (Pager.run_release_none hs) trivial
  | some s =>
    obtain ⟨p, es, hrun, hp, -, hspace, hc, howner⟩ := Pager.run_release h.sound hs
    refine meets_of_run_ok hrun ⟨hp, ?_⟩
    rw [← h.view, view_pager, funext howner, Pager.flat_of_released hspace hc]
    rfl

theorem quietly_dispatchTranslator (h : m.Shows v) (c : Nat) (pid : ProcessId) :
    Quietly (onPager (Pager.dispatch c pid)) m fun _ m' => m'.Shows
      { v with owners := Function.update v.owners c (some (some pid)) } := by
  refine quietly_onPager ?_
  cases hu : m.pager.translators[c]? with
  | none =>
    refine meets_of_run_error (r := Pager.beyond) (e := []) (t := m.pager) ?_ trivial
    simp [Pager.dispatch, Pager.run_translator_none m.pager hu]
  | some u =>
    have hs := Pager.steady_withTranslator m.pager c (u.dispatch pid)
    refine meets_of_run_ok (Pager.run_dispatch hu pid)
      ⟨Pager.agrees_withTranslator h.sound hu ((h.sound.buffers c u hu).dispatch pid), ?_⟩
    have ho : (fun i : Nat => (m.pager.withTranslator c (u.dispatch pid)).translators[i]?.map
        Translator.owner) = Function.update v.owners c (some (some pid)) := by
      funext i
      rw [Pager.getElem?_withTranslator hu, Function.update_apply]
      split
      · rw [Option.map_some, Translator.owner_dispatch]
      · rw [← h.view]
        rfl
    have hflat : (m.pager.withTranslator c (u.dispatch pid)).flat = m.pager.flat :=
      Pager.flat_congr (fun q => by rw [Pager.space?, hs.spaces, Pager.space?]) hs.contents
    rw [view_pager, ho, hflat, ← h.view]
    rfl

/-! Taking a process off its CPU. -/

theorem quietly_undispatch (h : m.Shows v) {c : Nat} {x : Cpu} (hx : v.cpus c = some x)
    (b : Burst) :
    Quietly (undispatch c b) m fun _ m' => m'.Shows (v.undispatched c b.pid x.regs) := by
  refine (quietly_cpu_eq h hx).bind ?_
  rintro x _ ⟨rfl, rfl⟩
  refine (quietly_changeProcess h b.pid (fun t => { t with saved := x.regs }) fun _ => rfl).bind ?_
  intro _ m₁ h₁
  refine (quietly_changeCpu h₁ c _).bind ?_
  intro _ m₂ h₂
  exact quietly_flush h₂ c

theorem quietly_exitProcess [Scheduler S] (h : m.Shows v) {c : Nat} {x : Cpu}
    (hx : v.cpus c = some x) (b : Burst) :
    Quietly (exitProcess c b) m fun _ m' => m'.Shows (v.exited c b.pid x.regs) := by
  refine quietly_time_bind fun now => ?_
  refine (quietly_checkTable h b.pid).bind ?_
  intro _ m₁ h₁
  refine (quietly_undispatch h₁ hx b).bind ?_
  intro _ m₂ h₂
  refine (quietly_release h₂ b.pid).bind ?_
  intro _ m₃ h₃
  refine (quietly_policy h₃ _).bind ?_
  intro _ m₄ h₄
  refine (quietly_modify _).bind ?_
  rintro _ _ rfl
  have h₅ : ({ m₄ with live := m₄.live - 1 } : Machine g S).Shows _ := h₄.of_eq rfl rfl
  refine (quietly_setStatus h₅ b.pid .exited).bind ?_
  intro _ m₆ h₆
  refine (quietly_changeAccount h₆ b.pid (f := fun a => { a with completedAt := some now })
    fun _ => rfl).bind ?_
  intro _ m₇ h₇
  refine (quietly_process b.pid).bind ?_
  rintro p _ ⟨-, rfl⟩
  refine quietly_report_bind rfl ?_
  refine (quietly_report rfl).mono ?_
  rintro _ _ rfl
  exact h₇

theorem quietly_expireQuantum [Scheduler S] (h : m.Shows v) {c : Nat} {x : Cpu}
    (hx : v.cpus c = some x) (b : Burst) :
    Quietly (expireQuantum c b) m fun _ m' =>
      m'.Shows ((v.undispatched c b.pid x.regs).setStatus b.pid .ready) := by
  refine (quietly_process b.pid).bind ?_
  rintro p _ ⟨-, rfl⟩
  refine quietly_time_bind fun now => ?_
  refine quietly_report_bind rfl ?_
  refine (quietly_undispatch h hx b).bind ?_
  intro _ m₁ h₁
  refine (quietly_setStatus h₁ b.pid .ready).bind ?_
  intro _ m₂ h₂
  exact quietly_policy h₂ _

theorem quietly_blockProcess [Scheduler S] (h : m.Shows v) {c : Nat} {x : Cpu}
    (hx : v.cpus c = some x) (b : Burst) (ticks : Nat) :
    Quietly (blockProcess c b ticks) m fun _ m' => m'.Shows
      { (v.undispatched c b.pid x.regs).setStatus b.pid .blocked with
        waiting := Function.update v.waiting b.pid (v.waiting b.pid + 1) } := by
  refine (quietly_process b.pid).bind ?_
  rintro p _ ⟨-, rfl⟩
  refine quietly_time_bind fun now => ?_
  refine quietly_report_bind rfl ?_
  refine (quietly_undispatch h hx b).bind ?_
  intro _ m₁ h₁
  refine (quietly_setStatus h₁ b.pid .blocked).bind ?_
  intro _ m₂ h₂
  refine (quietly_policy h₂ _).bind ?_
  intro _ m₃ h₃
  refine (quietly_tickAfter ticks).bind ?_
  rintro tick _ rfl
  exact quietly_scheduleProcess h₃ tick b.pid

end Shows

end DemandPaging.Machine
