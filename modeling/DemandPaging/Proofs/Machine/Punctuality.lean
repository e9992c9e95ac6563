import DemandPaging.Proofs.Machine.Appointments
/-!
Those who wait are left alone until the clock shows their tick. A process that executes a block for
some ticks is blocked until that many ticks have passed and ready then, a CPU that gives up its turn
with an instruction has its next turn one tick later, and a process starts when it arrives.
-/

namespace DemandPaging

namespace Machine

variable {g : Geometry} {S : Type}

def statusOf (m : Machine g S) (pid : ProcessId) : Option ProcessStatus := m.roster.statusOf pid

variable [Scheduler S]

/-- The step executes an instruction by which the process blocks for so many ticks. -/
def Suspends (m : Machine g S) (pid : ProcessId) (ticks : Nat) : Prop :=
  ∃ c text ip physical, .executing c text pid ip physical ∈ m.step.2 ∧
    Instruction.decode text = .block ticks

/-- Between two states of a run `P` holds, or only up to a step that brings about `Q`. -/
def Until (m : Machine g S) (k n : Nat) (P Q : Machine g S → Prop) : Prop :=
  (∀ i, k ≤ i → i ≤ n → P (m.stepN i)) ∨
    ∃ j, k ≤ j ∧ j < n ∧ (∀ i, k ≤ i → i ≤ j → P (m.stepN i)) ∧ Q (m.stepN (j + 1))

variable {m m' : Machine g S} {specs : List ProcessSpec} {h : History} {cpus k n t : Nat}
  {P P' Q Q' : Machine g S → Prop} {log : List (Nat × Nat)} {pid : ProcessId} {p : Process}
  {c : Nat}

theorem until_of_step (hle : k ≤ n) (hk : P (m.stepN k))
    (hstep : ∀ i, k ≤ i → i < n → P (m.stepN i) → P (m.stepN (i + 1)) ∨ Q (m.stepN (i + 1))) :
    m.Until k n P Q := by
  induction n, hle using Nat.le_induction with
  | base => exact .inl fun i hge hle => Nat.le_antisymm hle hge ▸ hk
  | succ n hle ih =>
    rcases ih fun i hi hlt => hstep i hi (Nat.lt_succ_of_lt hlt) with hall | ⟨j, hj, hlt, hq⟩
    · rcases hstep n hle (Nat.lt_succ_self n) (hall n hle (Nat.le_refl n)) with hp | hq
      · refine .inl fun i hge hi => ?_
        rcases Nat.le_succ_iff.mp hi with hi | rfl
        · exact hall i hge hi
        · exact hp
      · exact .inr ⟨n, hle, Nat.lt_succ_self n, hall, hq⟩
    · exact .inr ⟨j, hj, Nat.lt_succ_of_lt hlt, hq⟩

theorem Until.mono (h : m.Until k n P Q) (hp : ∀ i, k ≤ i → i ≤ n → P (m.stepN i) → P' (m.stepN i))
    (hq : ∀ s, Q s → Q' s) : m.Until k n P' Q' := by
  rcases h with hall | ⟨j, hj, hlt, hall, hend⟩
  · exact .inl fun i hge hle => hp i hge hle (hall i hge hle)
  · refine .inr ⟨j, hj, hlt, fun i hge hle => ?_, hq _ hend⟩
    exact hp i hge (Nat.le_of_lt (Nat.lt_of_le_of_lt hle hlt)) (hall i hge hle)

/-! Waiting. -/

omit [Scheduler S] in
theorem Passes.awaits_process (h : m.Passes m') (hnodup : (m.queue.entries.map Prod.snd).Nodup)
    (hmem : (t, .process pid) ∈ m.queue.entries) (hp : m.processes[pid]? = some p)
    (hwaits : p.status = .pending ∨ p.status = .blocked) :
    (t, .process pid) ∈ m'.queue.entries ∧ m'.processes[pid]? = some p ∨
      m'.clock.now = t ∧ m.Served m' (.process pid) := by
  rcases h.mem_entries hmem with hstays | ⟨due, hdue, hw, hserved⟩
  · refine .inl ⟨hstays, ?_⟩
    cases h with
    | rests hdue hroster =>
      have hprocesses : m'.processes = m.processes := congrArg Roster.processes hroster
      rw [hprocesses]
      exact hp
    | turns hdue hclock hhead hx hbooks hcpus hleaves => exact hleaves pid p hp hwaits
    | moves hdue hclock hqueue hserved hturns hidle hcpus hothers =>
      rw [hothers pid (EventQueue.not_mem_of_pop? hnodup hqueue hstays)]
      exact hp
  · exact .inr hserved

omit [Scheduler S] in
theorem Passes.getElem?_cpus (h : m.Passes m') (hc : c ∉ m.turns) :
    m'.cpus[c]? = m.cpus[c]? := by
  cases h with
  | rests hdue hroster =>
    have hcpus : m'.cpus = m.cpus := congrArg Roster.cpus hroster
    rw [hcpus]
  | turns hdue hclock hhead hx hbooks hcpus hleaves =>
    exact hcpus c fun heq => hc (heq ▸ List.mem_of_mem_head? hhead)
  | moves hdue hclock hqueue hserved hturns hidle hcpus hothers => rw [hcpus]

omit [Scheduler S] in
theorem Passes.awaits_idle (h : m.Passes m') (hc : c ∈ m.idle) :
    c ∈ m'.idle ∧ m'.clock = m.clock ∨ c ∈ m'.turns := by
  cases h with
  | rests hdue hroster =>
    have hidle : m'.idle = m.idle := congrArg Roster.idle hroster
    exact .inl ⟨hidle ▸ hc, congrArg Roster.clock hroster⟩
  | turns hdue hclock hhead hx hbooks hcpus hleaves =>
    refine .inl ⟨?_, hclock⟩
    change c ∈ m'.roster.idle
    cases hbooks with
    | nothing hqueue hturns hidle hblocked => exact hidle ▸ hc
    | idle hphase hcpus hqueue hturns hidle hprocesses =>
      exact hidle ▸ List.mem_append_left _ hc
    | tick hphase hx hqueue hturns hidle hblocked => exact hidle ▸ hc
    | block hphase hblock hstatus hqueue hturns hidle hblocked => exact hidle ▸ hc
  | moves hdue hclock hqueue hserved hturns hidle hcpus hothers =>
    exact .inr ((hturns c).mpr (.inl hc))

omit [Scheduler S] in
theorem Passes.parks (h : m.Passes m') (hc : c ∈ m.turns) (hc' : c ∉ m'.turns) :
    m'.clock = m.clock ∧ ((m.clock.now + 1, .cpu c) ∈ m'.queue.entries ∧
        (∃ x b i, m'.cpus[c]? = some x ∧ x.phase = .spending b i) ∨
      c ∈ m'.idle ∧ ∃ x, m'.cpus[c]? = some x ∧ x.phase = .asking) := by
  cases h with
  | rests hdue hroster =>
    have hturns : m'.turns = m.turns := congrArg Roster.turns hroster
    exact absurd (hturns ▸ hc) hc'
  | @turns d x hdue hclock hhead hx hbooks hcpus hleaves =>
    obtain ⟨cs, hd⟩ := List.head?_eq_some_iff.mp hhead
    have heq (hturns : m'.roster.turns = m.roster.turns.tail) : c = d := by
      have htail : m'.turns = cs := by
        have hd' : m.roster.turns = d :: cs := hd
        exact hturns.trans (by rw [hd', List.tail_cons])
      rw [hd] at hc
      exact (List.mem_cons.mp hc).resolve_right (htail ▸ hc')
    refine ⟨hclock, ?_⟩
    cases hbooks with
    | nothing hqueue hturns hidle hblocked =>
      exact absurd (hturns.symm ▸ hc : c ∈ m'.roster.turns) hc'
    | idle hphase hsame hqueue hturns hidle hprocesses =>
      obtain rfl := heq hturns
      have hcpus' : m'.cpus = m.cpus := hsame
      refine .inr ⟨?_, x, by rw [hcpus', hx], hphase⟩
      change c ∈ m'.roster.idle
      rw [hidle]
      exact List.mem_append_right _ List.mem_cons_self
    | tick hphase hx' hqueue hturns hidle hblocked =>
      obtain rfl := heq hturns
      have hqueue' : m'.queue = m.queue.schedule (m.clock.now + 1) (.cpu c) := hqueue
      refine .inl ⟨?_, _, _, _, hx', rfl⟩
      rw [hqueue']
      exact (EventQueue.entries_schedule ..).symm.subset List.mem_cons_self
    | block hphase hblock hstatus hqueue hturns hidle hblocked =>
      exact absurd (hturns.symm ▸ hc : c ∈ m'.roster.turns) hc'
  | moves hdue hclock hqueue hserved hturns hidle hcpus hothers =>
    rw [due?_of_turns_ne_nil (List.ne_nil_of_mem hc)] at hdue
    simp at hdue

/-! Blocking. -/

omit [Scheduler S] in
theorem run_of_settle {crashed : RunError} {y : Running g S Unit}
    (hok : ∀ e, (m.settle crashed y).1.status ≠ .aborted e) :
    y.run m = ⟨.ok (), (m.settle crashed y).1, (m.settle crashed y).2⟩ := by
  unfold settle at hok ⊢
  split at hok
  · next hrun => rw [hrun]
  · exact absurd rfl (hok _)
  · exact absurd rfl (hok _)

theorem Resumes.blocks {x : Cpu} {b : Burst} {i : InFlight}
    {o : Outcome Event (Failure RunError) (Machine g S) Unit} (h : m.Resumes c x b i p o)
    (hx : m.cpus[c]? = some x) (hp : m.processes[b.pid]? = some p)
    (hblock : i.instruction = .block n) (ho : o.answer = .ok ()) :
    (∃ physical, .executing c i.text b.pid x.regs.ip physical ∈ o.events) ∧
        o.state.statusOf b.pid = some .blocked ∧
        o.state.queue = m.queue.schedule (m.clock.now + n) (.process b.pid) ∨
      Silent o.events ∧ o.state.statusOf b.pid = some .exited := by
  cases h with
  | @executes m₁ es frame data k l hsilent hroster hholds =>
    refine .inl ⟨⟨g.physicalAddress frame x.regs.ip, by simp [Outcome.after]⟩, ?_⟩
    have hp₁ : m₁.roster.processes[b.pid]? = some (p.spent.faulted k l) := by
      rw [hroster]
      exact Roster.getElem?_setProcess_self hp _
    have hx₁ : m₁.roster.cpus[c]? = some x := by
      rw [hroster]
      exact hx
    have hmoves := moves_execute_block (b := { b with ticks := b.ticks + 1 }) hp₁ hx₁ i.text
      x.regs.ip p.dataBase data n m₁ rfl
    rw [hblock] at ho ⊢
    rcases hrun : (onExecution c (Execution.execute b.pid p.dataBase data (.block n)) >>=
      complete c { b with ticks := b.ticks + 1 } i.text x.regs.ip).run m₁ with ⟨r | a, s, es'⟩
    · simp [hrun, Outcome.after] at ho
    · obtain ⟨regs, hs⟩ := hmoves.of_ok hrun
      have hqueue : s.queue = m.queue.schedule (m.clock.now + n) (.process b.pid) := by
        rw [hroster] at hs
        exact congrArg Roster.queue hs
      refine ⟨?_, hqueue⟩
      change s.roster.statusOf b.pid = some .blocked
      rw [hs]
      exact Roster.statusOf_blocked (b := { b with ticks := b.ticks + 1 }) hp₁ _ _
  | @strays m₁ es k l hsilent hout hroster =>
    refine .inr ⟨hsilent, ?_⟩
    change m₁.roster.statusOf b.pid = some .exited
    rw [hroster]
    exact Roster.statusOf_ended (b := { b with ticks := b.ticks + 1 }) hp _
  | stops hsilent hthwarted => simp at ho

theorem Stands.blocks_step (hm : m.Stands specs h) (hrun : m.isRunning = true)
    (hok : ∀ e, m.step.1.status ≠ .aborted e) {x : Cpu} {b : Burst} {i : InFlight}
    (hhead : m.turns.head? = some c) (hx : m.cpus[c]? = some x) (hphase : x.phase = .spending b i)
    (hblock : i.instruction = .block n) :
    m.Suspends b.pid n ∧ m.step.1.statusOf b.pid = some .blocked ∧
        m.step.1.queue = m.queue.schedule (m.clock.now + n) (.process b.pid) ∨
      Silent m.step.2 ∧ m.step.1.statusOf b.pid = some .exited := by
  obtain ⟨cs, hturns⟩ := List.head?_eq_some_iff.mp hhead
  have hstep : m.step = m.settle (.cpuCrashed c) (cpuStep c) := by
    rw [Machine.step, if_pos hrun, hturns]
  obtain ⟨p, hp, -, hdecode, hresumes⟩ := hm.resumes hx hphase
  rw [hstep] at hok
  rw [run_of_settle hok, ← hstep] at hresumes
  refine (hresumes.blocks hx hp hblock rfl).imp_left ?_
  rintro ⟨⟨physical, hevent⟩, hrest⟩
  exact ⟨⟨c, _, _, physical, hevent, hdecode.symm.trans hblock⟩, hrest⟩

omit [Scheduler S] in
theorem Passes.blocks (h : m.Passes m') (hnot : m.statusOf pid ≠ some .blocked)
    (hblocked : m'.statusOf pid = some .blocked) : ∃ c x b i n, m.turns.head? = some c ∧
      m.cpus[c]? = some x ∧ x.phase = .spending b i ∧ i.instruction = .block n ∧ b.pid = pid := by
  have hsame (hprocesses : m'.processes[pid]? = m.processes[pid]?) : False := by
    refine hnot (Eq.trans ?_ hblocked)
    exact congrArg (Option.map Process.status) hprocesses.symm
  cases h with
  | rests hdue hroster =>
    exact (hsame (congrArg (fun r : Roster S => r.processes[pid]?) hroster)).elim
  | turns hdue hclock hhead hx hbooks hcpus hleaves =>
    cases hbooks with
    | nothing hqueue hturns hidle hothers => exact absurd (hothers pid hblocked) hnot
    | idle hphase hcpus' hqueue hturns hidle hprocesses =>
      have hprocesses' : m'.processes = m.processes := hprocesses
      exact (hsame (by rw [hprocesses'])).elim
    | tick hphase hx' hqueue hturns hidle hothers => exact absurd (hothers pid hblocked) hnot
    | @block b i n hphase hblock hstatus hqueue hturns hidle hothers =>
      by_cases heq : b.pid = pid
      · exact ⟨_, _, b, i, n, hhead, hx, hphase, hblock, heq⟩
      · exact absurd (hothers pid (Ne.symm heq) hblocked) hnot
  | @moves t due hdue hclock hqueue hserved hturns hidle hcpus hothers =>
    by_cases hmem : .process pid ∈ due
    · obtain ⟨p, q, hp, hq, hreleased⟩ := hserved _ hmem
      obtain ⟨q', hq', hstatus⟩ := Roster.statusOf_eq_some.mp hblocked
      obtain rfl := Option.some.inj (hq.symm.trans hq')
      rcases hreleased with ⟨-, rfl⟩ | ⟨-, rfl | rfl⟩
      · simp at hstatus
      · simp [Process.started] at hstatus
      · simp [Process.exited] at hstatus
    · exact (hsame (hothers pid hmem)).elim

theorem InTime.blocks (hm : m.InTime specs cpus log) (hok : ∀ e, m.step.1.status ≠ .aborted e)
    (hnot : m.statusOf pid ≠ some .blocked) (hblocked : m.step.1.statusOf pid = some .blocked) :
    ∃ ticks, m.Suspends pid ticks := by
  obtain ⟨h, hstands⟩ := hm.stands
  have hrun : m.isRunning = true := by
    by_contra hstop
    rw [step_of_not_isRunning (by simpa using hstop)] at hblocked
    exact hnot hblocked
  obtain ⟨c, x, b, i, n, hhead, hx, hphase, hblock, rfl⟩ :=
    (hstands.passes hm.life hok).blocks hnot hblocked
  rcases hstands.blocks_step hrun hok hhead hx hphase hblock with ⟨hsuspends, -⟩ | ⟨-, hexited⟩
  · exact ⟨n, hsuspends⟩
  · simp [hexited] at hblocked

/-- A process that executes a block is blocked, and its return is entered in the queue. -/
theorem InTime.suspended (hm : m.InTime specs cpus log)
    (hok : ∀ e, m.step.1.status ≠ .aborted e) (hsuspends : m.Suspends pid n) :
    m.statusOf pid ≠ some .blocked ∧ m.step.1.statusOf pid = some .blocked ∧
      (m.clock.now + n, .process pid) ∈ m.step.1.queue.entries := by
  obtain ⟨h, hstands⟩ := hm.stands
  obtain ⟨d, text, ip, physical, hevent, hdecode⟩ := hsuspends
  have hrun : m.isRunning = true := by
    by_contra hstop
    rw [step_of_not_isRunning (by simpa using hstop)] at hevent
    simp at hevent
  have hdeed := List.mem_filter.mpr ⟨hevent, (rfl : Event.isDeed (.executing ..) = true)⟩
  rcases hstands.deeds_step with hnone | ⟨c, x, b, i, physical', hhead, hx, hphase, hone⟩
  · simp [hnone] at hdeed
  · rw [hone, List.mem_singleton] at hdeed
    obtain ⟨rfl, rfl, rfl, -, -⟩ := Event.executing.inj hdeed
    have hblock : i.instruction = .block n := (hstands.decoded hx hphase).trans hdecode
    have hcur := Cpu.current?_of_spending hphase
    have hnot : m.statusOf b.pid ≠ some .blocked := by
      intro hblocked
      obtain ⟨p, hp, hstatus⟩ := Roster.statusOf_eq_some.mp hblocked
      rw [Roster.status_running hm.life hx hcur hp] at hstatus
      simp at hstatus
    rcases hstands.blocks_step hrun hok hhead hx hphase hblock with
      ⟨-, hblocked, hqueue⟩ | ⟨hsilent, -⟩
    · refine ⟨hnot, hblocked, ?_⟩
      rw [hqueue]
      exact (EventQueue.entries_schedule ..).symm.subset List.mem_cons_self
    · exact absurd (hsilent _ hevent) (by simp [Event.isDeed])

/-! Runs. -/

omit [Scheduler S] in
theorem InTime.lt_of_mem_entries (hm : m.InTime specs cpus log) {w : Waiter}
    (hmem : (t, w) ∈ m.queue.entries) : m.roster.Dawn ∨ m.clock.now < t := by
  refine hm.timed.ahead.imp And.left fun hahead => ?_
  obtain ⟨d, hd, rfl, -⟩ := EventQueue.mem_entries.mp hmem
  exact hahead d hd

omit [Scheduler S] in
theorem InTime.not_mem_turns_of_mem_entries (hm : m.InTime specs cpus log)
    (hmem : (t, .cpu c) ∈ m.queue.entries) : c ∉ m.turns := by
  have hwaits : .cpu c ∈ m.queue.waiters := by
    rw [← EventQueue.map_snd_entries]
    exact List.mem_map_of_mem hmem
  have hcpu : c ∈ cpusOf m.queue.waiters := List.mem_filterMap.mpr ⟨_, hwaits, rfl⟩
  have hdisjoint := (List.nodup_append.mp hm.seated.nodup).2.2
  exact fun hc => hdisjoint c (List.mem_append_left _ hc) c hcpu rfl

omit [Scheduler S] in
theorem InTime.not_mem_turns_of_mem_idle (hm : m.InTime specs cpus log) (hc : c ∈ m.idle) :
    c ∉ m.turns := by
  have hdisjoint := (List.nodup_append.mp (List.nodup_append.mp hm.seated.nodup).1).2.2
  exact fun hturn => hdisjoint c hturn c hc rfl

omit [Scheduler S] in
theorem InTime.waits (hm : m.InTime specs cpus log) (hmem : (t, .process pid) ∈ m.queue.entries)
    (hp : m.processes[pid]? = some p) : p.status = .pending ∨ p.status = .blocked := by
  obtain ⟨h, hstands⟩ := hm.stands
  have hwaits : .process pid ∈ m.queue.waiters := by
    rw [← EventQueue.map_snd_entries]
    exact List.mem_map_of_mem hmem
  exact (hstands.waits hp (List.count_pos_iff.mpr hwaits).ne').imp And.right And.right

section Run

variable (hm : ∀ n, (∀ e, (m.stepN n).status ≠ .aborted e) →
  (m.stepN n).InTime specs cpus (m.record executions n))

include hm

theorem until_process (hle : k ≤ n) (hok : ∀ e, (m.stepN n).status ≠ .aborted e)
    (hmem : (t, .process pid) ∈ (m.stepN k).queue.entries)
    (hp : (m.stepN k).processes[pid]? = some p) :
    m.Until k n (fun s => (t, .process pid) ∈ s.queue.entries ∧ s.processes[pid]? = some p)
      fun s => s.clock.now = t ∧ ∃ q, s.processes[pid]? = some q ∧
        (p.status = .blocked ∧ q = { p with status := .ready } ∨
          p.status = .pending ∧ (q = p.started g t ∨ q = p.exited t)) := by
  refine until_of_step hle ⟨hmem, hp⟩ fun i hi hlt ⟨hmem, hp⟩ => ?_
  have hin := hm i (alive_of_le (Nat.le_of_lt hlt) hok)
  obtain ⟨h, hstands⟩ := hin.stands
  have hpasses := passes_stepN hm i (alive_of_le hlt hok)
  rw [stepN_succ]
  refine (hpasses.awaits_process (hstands.nodup_entries hin.seated) hmem hp
    (hin.waits hmem hp)).imp_right ?_
  rintro ⟨rfl, u, q, hu, hq, hreleased⟩
  obtain rfl := Option.some.inj (hp.symm.trans hu)
  exact ⟨rfl, q, hq, hreleased⟩

theorem wakes_stepN {ticks : Nat} (hlt : k < n) (hok : ∀ e, (m.stepN n).status ≠ .aborted e)
    (hsuspends : (m.stepN k).Suspends pid ticks) :
    m.Until (k + 1) n
      (fun s => s.statusOf pid = some .blocked ∧ s.clock.now < (m.stepN k).clock.now + ticks)
      fun s => s.statusOf pid = some .ready ∧ s.clock.now = (m.stepN k).clock.now + ticks := by
  have hok' := alive_of_le hlt hok
  rw [stepN_succ] at hok'
  obtain ⟨-, hblocked, hmem⟩ :=
    (hm k (alive_of_le (Nat.le_of_lt hlt) hok)).suspended hok' hsuspends
  obtain ⟨p, hp, hstatus⟩ := Roster.statusOf_eq_some.mp hblocked
  rw [← stepN_succ] at hmem
  have hp' : (m.stepN (k + 1)).processes[pid]? = some p := stepN_succ m k ▸ hp
  refine (until_process hm hlt hok hmem hp').mono (fun i hge hle => ?_) fun s => ?_
  · rintro ⟨hmem, hp⟩
    refine ⟨Roster.statusOf_eq_some.mpr ⟨p, hp, hstatus⟩, ?_⟩
    refine ((hm i (alive_of_le hle hok)).lt_of_mem_entries hmem).resolve_left fun hdawn => ?_
    rw [hdawn.pending pid p hp] at hstatus
    simp at hstatus
  · rintro ⟨hclock, q, hq, ⟨-, rfl⟩ | ⟨hpending, -⟩⟩
    · exact ⟨Roster.statusOf_eq_some.mpr ⟨_, hq, rfl⟩, hclock⟩
    · rw [hpending] at hstatus
      simp at hstatus

theorem resumes_stepN {x : Cpu} {b : Burst} {i : InFlight} (hlt : k < n)
    (hok : ∀ e, (m.stepN n).status ≠ .aborted e) (hc : c ∈ (m.stepN k).turns)
    (hc' : c ∉ (m.stepN (k + 1)).turns) (hx : (m.stepN (k + 1)).cpus[c]? = some x)
    (hphase : x.phase = .spending b i) :
    m.Until (k + 1) n
      (fun s => c ∉ s.turns ∧ s.cpus[c]? = some x ∧ s.clock.now < (m.stepN k).clock.now + 1)
      fun s => c ∈ s.turns ∧ s.cpus[c]? = some x ∧
        s.clock.now = (m.stepN k).clock.now + 1 := by
  have hparks := passes_stepN hm k (alive_of_le hlt hok)
  rw [← stepN_succ] at hparks
  have hmem : ((m.stepN k).clock.now + 1, .cpu c) ∈ (m.stepN (k + 1)).queue.entries := by
    rcases (hparks.parks hc hc').2 with ⟨hmem, -⟩ | ⟨-, y, hy, hasking⟩
    · exact hmem
    · obtain rfl := Option.some.inj (hx.symm.trans hy)
      simp [hphase] at hasking
  refine Until.mono (P := fun s => ((m.stepN k).clock.now + 1, .cpu c) ∈ s.queue.entries ∧
    s.cpus[c]? = some x) (until_of_step hlt ⟨hmem, hx⟩ fun j hj hjn => ?_) (fun j hge hle => ?_)
      fun _ => id
  · rintro ⟨hmem, hx⟩
    have hpasses := passes_stepN hm j (alive_of_le hjn hok)
    have hno := (hm j (alive_of_le (Nat.le_of_lt hjn) hok)).not_mem_turns_of_mem_entries hmem
    rw [stepN_succ]
    rw [← hpasses.getElem?_cpus hno] at hx
    rcases hpasses.mem_entries hmem with hstays | ⟨due, -, -, hclock, hserved⟩
    · exact .inl ⟨hstays, hx⟩
    · exact .inr ⟨hserved, hx, hclock⟩
  · rintro ⟨hmem, hx⟩
    have hin := hm j (alive_of_le hle hok)
    refine ⟨hin.not_mem_turns_of_mem_entries hmem, hx, ?_⟩
    refine (hin.lt_of_mem_entries hmem).resolve_left fun hdawn => ?_
    rw [hdawn.asking c x hx] at hphase
    simp at hphase

theorem rejoins_stepN (hlt : k < n) (hok : ∀ e, (m.stepN n).status ≠ .aborted e)
    (hc : c ∈ (m.stepN k).turns) (hc' : c ∉ (m.stepN (k + 1)).turns)
    (hrests : ¬(m.stepN (k + 1)).roster.Spends c) :
    m.Until (k + 1) n (fun s => c ∉ s.turns ∧ s.clock = (m.stepN k).clock)
      fun s => c ∈ s.turns := by
  have hparks := passes_stepN hm k (alive_of_le hlt hok)
  rw [← stepN_succ] at hparks
  obtain ⟨hclock, hidle⟩ := hparks.parks hc hc'
  have hidle : c ∈ (m.stepN (k + 1)).idle := by
    rcases hidle with ⟨-, x, b, i, hx, hphase⟩ | ⟨hidle, -⟩
    · exact absurd ⟨x, b, i, hx, hphase⟩ hrests
    · exact hidle
  refine Until.mono (P := fun s => c ∈ s.idle ∧ s.clock = (m.stepN k).clock)
    (until_of_step hlt ⟨hidle, hclock⟩ fun j hj hjn => ?_) (fun j hge hle => ?_) fun _ => id
  · rintro ⟨hidle, hclock⟩
    have hpasses := passes_stepN hm j (alive_of_le hjn hok)
    rw [stepN_succ]
    exact (hpasses.awaits_idle hidle).imp_left fun ⟨hidle', hclock'⟩ =>
      ⟨hidle', hclock'.trans hclock⟩
  · exact fun ⟨hidle, hclock⟩ =>
      ⟨(hm j (alive_of_le hle hok)).not_mem_turns_of_mem_idle hidle, hclock⟩

end Run

/-- How a run keeps time. Of all appointments, those in the queue at first and those made by a step,
every one is kept, once and when the clock shows its tick, or is still in the queue, and nobody
waits for a tick that has passed. Each step enters what it should and nothing else. A process that
blocks for some ticks is ready after so many, a CPU with an instruction has its turn one tick later,
and an idle one when the clock moves. Instructions are executed in the order of their ticks and, at
each tick, of their CPUs. -/
structure KeepsTime (m : Machine g S) : Prop where
  ledger : ∀ n, (∀ e, (m.stepN n).status ≠ .aborted e) →
    (m.queue.entries ++ m.record made n).Perm (m.record kept n ++ (m.stepN n).queue.entries)
  once : ∀ n, (∀ e, (m.stepN n).status ≠ .aborted e) →
    ((m.stepN n).queue.entries.map Prod.snd).Nodup
  ahead : ∀ n, (∀ e, (m.stepN n).status ≠ .aborted e) →
    (∀ d ∈ (m.stepN n).queue.pending, (m.stepN n).clock.now < d.1) ∨
      (m.stepN n).clock = m.clock ∧ ∀ k < n, (m.stepN k).due? = none
  passes : ∀ n, (∀ e, (m.stepN (n + 1)).status ≠ .aborted e) →
    (m.stepN n).Passes (m.stepN (n + 1))
  serves : ∀ k n t w, k ≤ n → (∀ e, (m.stepN n).status ≠ .aborted e) →
    (t, w) ∈ (m.stepN k).queue.entries → (t, w) ∈ (m.stepN n).queue.entries ∨
      ∃ j, k ≤ j ∧ j < n ∧ ∃ due, (m.stepN j).due? = some (t, due) ∧ w ∈ due ∧
        (m.stepN (j + 1)).clock.now = t ∧ (m.stepN j).Served (m.stepN (j + 1)) w
  blocks : ∀ n pid, (∀ e, (m.stepN (n + 1)).status ≠ .aborted e) →
    ((m.stepN n).statusOf pid ≠ some .blocked ∧ (m.stepN (n + 1)).statusOf pid = some .blocked ↔
      ∃ ticks, (m.stepN n).Suspends pid ticks)
  wakes : ∀ k n pid ticks, k < n → (∀ e, (m.stepN n).status ≠ .aborted e) →
    (m.stepN k).Suspends pid ticks → m.Until (k + 1) n
      (fun s => s.statusOf pid = some .blocked ∧ s.clock.now < (m.stepN k).clock.now + ticks)
      fun s => s.statusOf pid = some .ready ∧ s.clock.now = (m.stepN k).clock.now + ticks
  resumes : ∀ k n c x b i, k < n → (∀ e, (m.stepN n).status ≠ .aborted e) →
    c ∈ (m.stepN k).turns → c ∉ (m.stepN (k + 1)).turns →
    (m.stepN (k + 1)).cpus[c]? = some x → x.phase = .spending b i → m.Until (k + 1) n
      (fun s => c ∉ s.turns ∧ s.cpus[c]? = some x ∧ s.clock.now < (m.stepN k).clock.now + 1)
      fun s => c ∈ s.turns ∧ s.cpus[c]? = some x ∧ s.clock.now = (m.stepN k).clock.now + 1
  rejoins : ∀ k n c, k < n → (∀ e, (m.stepN n).status ≠ .aborted e) →
    c ∈ (m.stepN k).turns → c ∉ (m.stepN (k + 1)).turns →
    ¬(m.stepN (k + 1)).roster.Spends c → m.Until (k + 1) n
      (fun s => c ∉ s.turns ∧ s.clock = (m.stepN k).clock) fun s => c ∈ s.turns
  later : ∀ k n t due, k < n → (m.stepN k).due? ≠ none → (m.stepN n).due? = some (t, due) →
    (m.stepN n).clock.now < t
  ascends : ∀ n, (m.record executions n).Pairwise (Prod.Lex (· < ·) (· < ·))
  no_warp : ∀ n now tick, (m.stepN n).status ≠ .aborted (.timeWarp now tick)

theorem keepsTime_of_inTime (hm : ∀ n, (∀ e, (m.stepN n).status ≠ .aborted e) →
      (m.stepN n).InTime specs cpus (m.record executions n))
    (halive : ∀ e, m.status ≠ .aborted e) : m.KeepsTime := by
  refine ⟨perm_stepN hm, fun n hok => ?_, ahead_stepN hm, fun n hok => ?_, serves_stepN hm,
    fun n pid hok => ?_, fun _ _ _ _ => wakes_stepN hm, fun _ _ _ _ _ _ => resumes_stepN hm,
    fun _ _ _ => rejoins_stepN hm, fun _ _ _ _ => lt_of_due? hm, pairwise_stepN hm,
    not_warped_stepN hm halive⟩
  · obtain ⟨h, hstands⟩ := (hm n hok).stands
    exact hstands.nodup_entries (hm n hok).seated
  · rw [stepN_succ]
    exact passes_stepN hm n hok
  · have hn := hm n (alive_of_le (Nat.le_succ n) hok)
    rw [stepN_succ] at hok ⊢
    refine ⟨fun ⟨hnot, hblocked⟩ => hn.blocks hok hnot hblocked, ?_⟩
    rintro ⟨ticks, hsuspends⟩
    obtain ⟨hnot, hblocked, -⟩ := hn.suspended hok hsuspends
    exact ⟨hnot, hblocked⟩

omit [Scheduler S] in
theorem perm_entries_new (c : Config) (policy : S) :
    (Simulation.machine c policy).queue.entries.Perm
      (c.processes.zipIdx.map fun (s, pid) => (s.start, .process pid)) :=
  (EventQueue.perm_entries_foldl_schedule _ _ c.processes.zipIdx {}).trans
    (.of_eq (List.append_nil _))

/-- A process is pending until the clock shows its arrival. It has started then, or has ended if
there is no room for its text. -/
theorem arrives_stepN (config : Config) (policy : S) {spec : ProcessSpec}
    (hok : ∀ e, ((Simulation.machine config policy).stepN n).status ≠ .aborted e)
    (hspec : config.processes[pid]? = some spec) : (Simulation.machine config policy).Until 0 n
      (fun s => s.statusOf pid = some .pending ∧ (s.clock.now < spec.start ∨ s.clock.now = 0))
      fun s => s.clock.now = spec.start ∧ ∃ q, s.processes[pid]? = some q ∧
        (q.status = .ready ∧ q.account.startedAt = some spec.start ∨
          q.status = .exited ∧ q.account.startedAt = none ∧
            q.account.completedAt = some spec.start) := by
  have hm := inTime_stepN config.cpus config.useTlb policy config.processes (g := config.geometry)
  have hmem : (spec.start, .process pid) ∈ (Simulation.machine config policy).queue.entries := by
    refine (perm_entries_new config policy).symm.subset (List.mem_map.mpr ⟨(spec, pid), ?_, rfl⟩)
    exact List.mem_zipIdx_iff_getElem?.mpr hspec
  have hp : (Simulation.machine config policy).processes[pid]? = some (spec.toProcess pid) := by
    rw [Simulation.machine, getElem?_processes_new, hspec, Option.map_some]
  refine (until_process hm (Nat.zero_le n) hok hmem hp).mono (fun i hge hle => ?_) fun s => ?_
  · rintro ⟨hmem, hp⟩
    refine ⟨Roster.statusOf_eq_some.mpr ⟨_, hp, rfl⟩, ?_⟩
    exact ((hm i (alive_of_le hle hok)).lt_of_mem_entries hmem).symm.imp_right Roster.Dawn.now
  · rintro ⟨hclock, q, hq, ⟨hblocked, -⟩ | ⟨-, rfl | rfl⟩⟩
    · simp [ProcessSpec.toProcess] at hblocked
    · exact ⟨hclock, _, hq, .inl ⟨rfl, rfl⟩⟩
    · exact ⟨hclock, _, hq, .inr ⟨rfl, rfl, rfl⟩⟩

/-- Every run keeps time, from the arrivals of its processes on, and no run ends because time was
out of order. -/
theorem keeps_time (c : Config) (policy : S) :
    (Simulation.machine c policy).KeepsTime ∧
      (Simulation.machine c policy).queue.entries.Perm
        (c.processes.zipIdx.map fun (s, pid) => (s.start, .process pid)) ∧
      (∀ n pid spec, (∀ e, ((Simulation.machine c policy).stepN n).status ≠ .aborted e) →
        c.processes[pid]? = some spec → (Simulation.machine c policy).Until 0 n
          (fun s => s.statusOf pid = some .pending ∧ (s.clock.now < spec.start ∨ s.clock.now = 0))
          fun s => s.clock.now = spec.start ∧ ∃ q, s.processes[pid]? = some q ∧
            (q.status = .ready ∧ q.account.startedAt = some spec.start ∨
              q.status = .exited ∧ q.account.startedAt = none ∧
                q.account.completedAt = some spec.start)) ∧
      ∀ fuel e, Simulation.run fuel c policy = some e →
        ∀ now tick, e.result ≠ .error (.error (.timeWarp now tick)) := by
  have hm : (Simulation.machine c policy).KeepsTime :=
    keepsTime_of_inTime (inTime_stepN c.cpus c.useTlb policy c.processes) nofun
  refine ⟨hm, perm_entries_new c policy, fun _ _ _ => arrives_stepN c policy,
    fun fuel e hend now tick he => ?_⟩
  exact hm.no_warp fuel now tick (Simulation.aborted_of_run hend he)

def waking : Config :=
  { geometry := Pager.fourFrames, cpus := 2
    processes := [
      { name := "blocks", trace := ⟨#["Syscall_Block 3", "Syscall_Exit"]⟩ },
      { name := "arrives", start := 2, trace := ⟨#["NoOp", "NoOp", "Syscall_Exit"]⟩ }] }

theorem suspends_waking :
    ((Simulation.machine waking ({} : RoundRobin)).stepN 7).Suspends 0 3 := by
  have hdeeds : ((Simulation.machine waking ({} : RoundRobin)).stepN 7).step.2.filter Event.isDeed =
      [.executing 0 "Syscall_Block 3" 0 (.ofNat 0) (.ofNat 0)] := by
    simp only [stepN_eq_iterate, step, advance, releaseCpus, List.mergeSort_eq_insertionSort]
    decide +kernel
  have hmem := List.mem_singleton_self (Event.executing 0 "Syscall_Block 3" 0 (.ofNat 0) (.ofNat 0))
  rw [← hdeeds] at hmem
  exact ⟨0, _, _, _, (List.mem_filter.mp hmem).1, by decide +kernel⟩

theorem keeps_time_waking :
    ((Simulation.machine waking ({} : RoundRobin)).stepN 7).clock.now = 1 ∧
      ((Simulation.machine waking ({} : RoundRobin)).stepN 7).Suspends 0 3 ∧
      ∃ j, 8 ≤ j ∧ j < 20 ∧
        (∀ i, 8 ≤ i → i ≤ j →
          ((Simulation.machine waking ({} : RoundRobin)).stepN i).statusOf 0 = some .blocked) ∧
        ((Simulation.machine waking ({} : RoundRobin)).stepN (j + 1)).statusOf 0 = some .ready ∧
        ((Simulation.machine waking ({} : RoundRobin)).stepN (j + 1)).clock.now = 4 := by
  have hclock : ((Simulation.machine waking ({} : RoundRobin)).stepN 7).clock.now = 1 := by
    simp only [stepN_eq_iterate, step, advance, releaseCpus, List.mergeSort_eq_insertionSort]
    decide +kernel
  have hwoken : (fun m : Machine waking.geometry RoundRobin => (m.status, m.statusOf 0))
      ((Simulation.machine waking ({} : RoundRobin)).stepN 20) = (.running, some .ready) := by
    simp only [stepN_eq_iterate, step, advance, releaseCpus, List.mergeSort_eq_insertionSort]
    decide +kernel
  obtain ⟨hstatus, hready⟩ := Prod.mk.inj hwoken
  have hwakes := (keeps_time waking ({} : RoundRobin)).1.wakes 7 20 0 3 (by decide)
    (fun e he => by cases hstatus.symm.trans he) suspends_waking
  refine ⟨hclock, suspends_waking, ?_⟩
  rcases hwakes with hall | ⟨j, hj, hlt, hall, hend⟩
  · have hblocked := (hall 20 (by decide) (by decide)).1
    cases hready.symm.trans hblocked
  · rw [hclock] at hend
    exact ⟨j, hj, hlt, fun i hge hle => (hall i hge hle).1, hend⟩

end Machine

end DemandPaging
