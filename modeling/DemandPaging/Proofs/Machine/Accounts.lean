import DemandPaging.Proofs.Machine.Timetable
import DemandPaging.Proofs.Pager.Missed
/-!
The accounts of processes. An account is kept in many places: where a process is dispatched, where
its instruction has had its tick, where it is taken off its CPU, and where it ends. While a process
is on a CPU, its account and the burst of the CPU belong together; off the CPU its account is
complete.
-/

namespace DemandPaging

namespace Account

/-- The completed bursts, and the ticks of the burst that goes on if there is one, make up what was
executed. -/
structure Balanced (a : Account) (current : Option Nat) : Prop where
  ticks : a.bursts.toList.sum + current.getD 0 = a.executedTicks
  count : a.bursts.size + current.toList.length = a.dispatches

end Account

namespace Process

variable {p : Process} {spec : ProcessSpec} {now k : Nat}

structure Kept (p : Process) (spec : ProcessSpec) (now : Nat) : Prop where
  quantum : p.quantum = spec.quantum
  bursts : ∀ k ∈ p.account.bursts, k ≤ p.quantum
  unstarted : p.account.startedAt = none → p.account.executedTicks = 0 ∧
    p.account.dispatches = 0 ∧ p.account.bursts = #[] ∧ (p.status = .pending ∨ p.status = .exited)
  started : ∀ t, p.account.startedAt = some t → t = spec.start ∧ t + p.account.executedTicks ≤ now
  completed : ∀ t, p.account.completedAt = some t → t ≤ now ∧
    ∀ s, p.account.startedAt = some s → s + p.account.executedTicks ≤ t
  exited : p.status = .exited ↔ p.account.completedAt.isSome = true

def Behind (p : Process) (now : Nat) : Prop :=
  ∀ t, p.account.startedAt = some t → t + p.account.executedTicks < now

theorem Kept.later (h : p.Kept spec now) {later : Nat} (hle : now ≤ later) : p.Kept spec later := by
  refine ⟨h.quantum, h.bursts, h.unstarted, fun t ht => ?_, fun t ht => ?_, h.exited⟩
  · obtain ⟨hstart, hnow⟩ := h.started t ht
    exact ⟨hstart, hnow.trans hle⟩
  · obtain ⟨hnow, hstarted⟩ := h.completed t ht
    exact ⟨hnow.trans hle, hstarted⟩

theorem Kept.behind (h : p.Kept spec now) {later : Nat} (hlt : now < later) : p.Behind later :=
  fun t ht => Nat.lt_of_le_of_lt (h.started t ht).2 hlt

theorem Kept.faulted (h : p.Kept spec now) (k l : Nat) : (p.faulted k l).Kept spec now :=
  ⟨h.quantum, h.bursts, h.unstarted, h.started, h.completed, h.exited⟩

theorem Kept.completedAt_eq_none (h : p.Kept spec now) (hlive : p.status ≠ .exited) :
    p.account.completedAt = none := by
  cases hc : p.account.completedAt with
  | none => rfl
  | some t => exact absurd (h.exited.mpr (by rw [hc]; rfl)) hlive

theorem Kept.startedAt_ne_none (h : p.Kept spec now) (hpending : p.status ≠ .pending)
    (hlive : p.status ≠ .exited) : p.account.startedAt ≠ none := fun hnone =>
  (h.unstarted hnone).2.2.2.elim hpending hlive

theorem Kept.spent (h : p.Kept spec now) (hbehind : p.Behind now)
    (hstarted : p.account.startedAt ≠ none) (hlive : p.status ≠ .exited) :
    p.spent.Kept spec now := by
  refine ⟨h.quantum, h.bursts, fun hnone => absurd hnone hstarted, fun t ht => ?_, fun t ht => ?_,
    h.exited⟩
  · exact ⟨(h.started t ht).1, hbehind t ht⟩
  · have hnone := h.completedAt_eq_none hlive
    simp [Process.spent, Process.changeAccount, hnone] at ht

theorem Kept.dispatched (h : p.Kept spec now) (hready : p.status = .ready) (c : Nat) :
    (p.dispatched c).Kept spec now := by
  have hlive : p.status ≠ .exited := by rw [hready]; nofun
  have hstarted := h.startedAt_ne_none (by rw [hready]; nofun) hlive
  refine ⟨h.quantum, h.bursts, fun hnone => absurd hnone hstarted, h.started, h.completed, ?_⟩
  simp [Process.dispatched, h.completedAt_eq_none hlive]

theorem Kept.undispatched (h : p.Kept spec now) (hstarted : p.account.startedAt ≠ none)
    (hlive : p.status ≠ .exited) (regs : Registers) (hk : k ≤ p.quantum) {st : ProcessStatus}
    (hst : st ≠ .exited) :
    ({ p.undispatched regs k with status := st } : Process).Kept spec now := by
  refine ⟨h.quantum, fun l hl => ?_, fun hnone => absurd hnone hstarted, h.started, h.completed, ?_⟩
  · rcases Array.mem_push.mp hl with hl | rfl
    · exact h.bursts l hl
    · exact hk
  · simp [Process.undispatched, h.completedAt_eq_none hlive, hst]

theorem Kept.ended (h : p.Kept spec now) (hstarted : p.account.startedAt ≠ none)
    (regs : Registers) (hk : k ≤ p.quantum) :
    ((p.undispatched regs k).exited now).Kept spec now := by
  refine ⟨h.quantum, fun l hl => ?_, fun hnone => absurd hnone hstarted, h.started, fun t ht => ?_,
    by simp [Process.exited]⟩
  · rcases Array.mem_push.mp hl with hl | rfl
    · exact h.bursts l hl
    · exact hk
  · obtain rfl := Option.some.inj ht
    exact ⟨Nat.le_refl _, fun s hs => (h.started s hs).2⟩

end Process

namespace Account.Balanced

variable {p : Process} {k : Nat}

theorem faulted {current : Option Nat} (h : p.account.Balanced current) (k l : Nat) :
    (p.faulted k l).account.Balanced current := ⟨h.ticks, h.count⟩

theorem dispatched (h : p.account.Balanced none) (c : Nat) :
    (p.dispatched c).account.Balanced (some 0) := ⟨h.ticks, congrArg (· + 1) h.count⟩

theorem spent (h : p.account.Balanced (some k)) : p.spent.account.Balanced (some (k + 1)) :=
  ⟨congrArg (· + 1) h.ticks, h.count⟩

theorem undispatched (h : p.account.Balanced (some k)) (regs : Registers) :
    (p.undispatched regs k).account.Balanced none := by
  refine ⟨?_, ?_⟩
  · change (p.account.bursts.push k).toList.sum + 0 = _
    rw [Array.toList_push, List.sum_append, List.sum_singleton]
    exact h.ticks
  · change (p.account.bursts.push k).size + 0 = _
    rw [Array.size_push]
    exact h.count

theorem exited {current : Option Nat} (h : p.account.Balanced current) (now : Nat) :
    (p.exited now).account.Balanced current := ⟨h.ticks, h.count⟩

end Account.Balanced

/-- What the account of the process on a CPU says. A process that has spent the tick of its
instruction has room for it in its time. -/
def Cpu.Engages (x : Cpu) (p : Process) (now : Nat) (awake : Prop) : Prop :=
  match x.phase with
  | .asking => True
  | .bursting b => p.account.Balanced (some b.ticks) ∧ b.ticks ≤ p.quantum
  | .spending b _ => p.account.Balanced (some b.ticks) ∧ b.ticks < p.quantum ∧
      (awake → p.Behind now)

theorem Cpu.Engages.weaken {x : Cpu} {p : Process} {now : Nat} {a b : Prop}
    (h : x.Engages p now a) (hab : b → a) : x.Engages p now b := by
  unfold Engages at *
  split at h
  · trivial
  · exact h
  · exact ⟨h.1, h.2.1, fun hb => h.2.2 (hab hb)⟩

theorem Cpu.Engages.later {x : Cpu} {p : Process} {spec : ProcessSpec} {now later : Nat}
    {a b : Prop} (h : x.Engages p now a) (hk : p.Kept spec now) (hlt : now < later) :
    x.Engages p later b := by
  unfold Engages at *
  split at h
  · trivial
  · exact h
  · exact ⟨h.1, h.2.1, fun _ => hk.behind hlt⟩

def Cpu.spends (x : Cpu) : Bool :=
  match x.phase with
  | .spending .. => true
  | _ => false

namespace Roster.Awakes

variable {g : Geometry} {now : Nat} {p q : Process}

theorem kept {spec : ProcessSpec} (h : Awakes g now p q) (hk : p.Kept spec now)
    (hlive : p.status ≠ .exited) (harrives : p.account.startedAt = none → spec.start = now) :
    q.Kept spec now := by
  have hnot := hk.completedAt_eq_none hlive
  cases h with
  | unblocks hstarted =>
    have hsome : p.account.startedAt ≠ none := by
      intro hnone
      simp [Process.isStarted, hnone] at hstarted
    exact ⟨hk.quantum, hk.bursts, fun hnone => absurd hnone hsome, hk.started, hk.completed,
      by simp [hnot]⟩
  | starts hnew =>
    have hnone : p.account.startedAt = none := by simpa [Process.isStarted] using hnew
    obtain ⟨hticks, -⟩ := hk.unstarted hnone
    refine ⟨hk.quantum, hk.bursts, by rintro ⟨⟩, fun t ht => ?_, fun t ht => ?_,
      by simp [Process.started, hnot]⟩
    · obtain rfl := Option.some.inj ht
      refine ⟨(harrives hnone).symm, ?_⟩
      change now + p.account.executedTicks ≤ now
      omega
    · change p.account.completedAt = some t at ht
      simp [hnot] at ht
  | refuses hnew =>
    have hnone : p.account.startedAt = none := by simpa [Process.isStarted] using hnew
    obtain ⟨hticks, hdispatches, hbursts, -⟩ := hk.unstarted hnone
    refine ⟨hk.quantum, hk.bursts, fun _ => ⟨hticks, hdispatches, hbursts, .inr rfl⟩, hk.started,
      fun t ht => ?_, by simp [Process.exited]⟩
    obtain rfl := Option.some.inj ht
    refine ⟨Nat.le_refl _, fun t ht => ?_⟩
    change p.account.startedAt = some t at ht
    simp [hnone] at ht

theorem balanced {current : Option Nat} (h : Awakes g now p q)
    (hb : p.account.Balanced current) : q.account.Balanced current := by
  cases h <;> exact ⟨hb.ticks, hb.count⟩

theorem startedAt_eq_none (h : Awakes g now p q) (hnone : q.account.startedAt = none) :
    p.account.startedAt = none := by
  cases h with
  | unblocks hstarted => exact hnone
  | starts hnew => simp [Process.started] at hnone
  | refuses hnew => exact hnone

end Roster.Awakes

namespace Roster

variable {S : Type} {r s : Roster S} {specs : List ProcessSpec} {c : Nat} {x y : Cpu}
  {pid : ProcessId} {p q : Process} {b : Burst} {k : Nat} {g : Geometry} {due : List Waiter}

/-- The accounts of all processes are in order. A CPU that is awake may have an instruction whose
tick has passed and is not entered yet. -/
structure Audited (r : Roster S) (specs : List ProcessSpec) (awake : Nat → Prop) : Prop where
  kept : ∀ (pid : ProcessId) p, r.processes[pid]? = some p →
    ∃ spec, specs[pid]? = some spec ∧ p.Kept spec r.clock.now
  resting : ∀ (pid : ProcessId) p, r.processes[pid]? = some p → (∀ c, p.status ≠ .running c) →
    p.account.Balanced none
  engaged : ∀ (c : Nat) x pid p, r.cpus[c]? = some x → x.current? = some pid →
    r.processes[pid]? = some p → x.Engages p r.clock.now (awake c)
  arrivals : ∀ t (pid : ProcessId) p, (t, .process pid) ∈ r.queue.entries →
    r.processes[pid]? = some p → p.account.startedAt = none →
      ∃ spec, specs[pid]? = some spec ∧ spec.start = t

theorem Books.mem_entries (h : r.Books c x s) {t : Nat}
    (hmem : (t, .process pid) ∈ s.queue.entries) :
    (t, .process pid) ∈ r.queue.entries ∨ x.current? = some pid := by
  cases h with
  | nothing hqueue => exact .inl (hqueue ▸ hmem)
  | idle hphase hcpus hqueue => exact .inl (hqueue ▸ hmem)
  | tick hphase hx hqueue =>
    rw [hqueue] at hmem
    have hcons := (EventQueue.entries_schedule ..).subset hmem
    exact .inl (by simpa using hcons)
  | block hphase hblock hstatus hqueue =>
    rw [hqueue] at hmem
    rcases List.mem_cons.mp ((EventQueue.entries_schedule ..).subset hmem) with heq | hmem
    · right
      rw [Cpu.current?_of_spending hphase, Waiter.process.inj (Prod.mk.inj heq).2]
    · exact .inl hmem

theorem Audited.of_bursting (hr : r.Audited specs (· ∈ r.turns)) (hx : r.cpus[c]? = some x)
    (hphase : x.phase = .bursting b) (hp : r.processes[b.pid]? = some p) :
    p.account.Balanced (some b.ticks) ∧ b.ticks ≤ p.quantum := by
  have hengaged := hr.engaged c x b.pid p hx (Cpu.current?_of_bursting hphase) hp
  rwa [Cpu.Engages, hphase] at hengaged

theorem status_ne_exited (hl : (r.life []).Sound) (hx : r.cpus[c]? = some x)
    (hcur : x.current? = some pid) (hp : r.processes[pid]? = some p) : p.status ≠ .exited := by
  rw [status_running hl hx hcur hp]
  nofun

theorem Audited.spent (hr : r.Audited specs (· ∈ r.turns)) (hl : (r.life []).Sound)
    (hx : r.cpus[c]? = some x) (hhead : r.turns.head? = some c) {i : InFlight}
    (hphase : x.phase = .spending b i) (hp : r.processes[b.pid]? = some p) (k l : Nat) :
    (p.spent.faulted k l).account.Balanced (some (b.ticks + 1)) ∧ b.ticks + 1 ≤ p.quantum ∧
      ∀ spec, p.Kept spec r.clock.now → p.account.startedAt ≠ none →
        (p.spent.faulted k l).Kept spec r.clock.now := by
  have hcur := Cpu.current?_of_spending hphase
  have hengaged := hr.engaged c x b.pid p hx hcur hp
  rw [Cpu.Engages, hphase] at hengaged
  obtain ⟨hbalanced, hlt, hbehind⟩ := hengaged
  refine ⟨hbalanced.spent.faulted k l, hlt, fun spec hk hstarted => ?_⟩
  exact (hk.spent (hbehind (List.mem_of_mem_head? hhead)) hstarted
    (status_ne_exited hl hx hcur hp)).faulted k l

variable [Scheduler S]

theorem Move.audited_of_changed (h : r.Move c x s) (hr : r.Audited specs (· ∈ r.turns))
    (hl : (r.life []).Sound) (hx : r.cpus[c]? = some x) (hhead : r.turns.head? = some c)
    (hp : r.processes[pid]? = some p)
    (hon : x.current? = some pid ∨ x.current? = none ∧ p.status = .ready)
    (hprocesses : s.processes = (r.setProcess pid q).processes)
    (hcpus : s.cpus = (r.setCpu c y).cpus) (hcur : ∀ i, y.current? = some i → i = pid)
    (hkept : ∀ spec, p.Kept spec r.clock.now → p.account.startedAt ≠ none →
      q.Kept spec r.clock.now)
    (hstarted : q.account.startedAt = p.account.startedAt)
    (hrests : (∀ c, q.status ≠ .running c) → q.account.Balanced none)
    (hengages : y.Engages q r.clock.now (c ∈ s.turns)) : s.Audited specs (· ∈ s.turns) := by
  have hstatus : p.status = .running c ∨ p.status = .ready :=
    hon.imp (fun hcur => status_running hl hx hcur hp) And.right
  have hother {i : ProcessId} (hi : i ≠ pid) : s.processes[i]? = r.processes[i]? := by
    rw [hprocesses, getElem?_setProcess hp, if_neg (Ne.symm hi)]
  have hself : s.processes[pid]? = some q := by rw [hprocesses, getElem?_setProcess_self hp]
  obtain ⟨spec, hspec, hk⟩ := hr.kept pid p hp
  have hstart : p.account.startedAt ≠ none := by
    rcases hstatus with hst | hst <;> exact hk.startedAt_ne_none (by simp [hst]) (by simp [hst])
  refine ⟨fun i p' hp' => ?_, fun i p' hp' hrest => ?_, fun d z i p' hz hi hp' => ?_,
    fun t i p' hmem hp' hnone => ?_⟩
  · rw [h.clock]
    by_cases hi : i = pid
    · subst hi
      obtain rfl := Option.some.inj (hself.symm.trans hp')
      exact ⟨spec, hspec, hkept spec hk hstart⟩
    · exact hr.kept i p' (hother hi ▸ hp')
  · by_cases hi : i = pid
    · subst hi
      obtain rfl := Option.some.inj (hself.symm.trans hp')
      exact hrests hrest
    · exact hr.resting i p' (hother hi ▸ hp') hrest
  · rw [h.clock]
    by_cases hd : d = c
    · subst hd
      rw [hcpus, getElem?_setCpu_self hx] at hz
      obtain rfl := Option.some.inj hz
      obtain rfl := hcur i hi
      obtain rfl := Option.some.inj (hself.symm.trans hp')
      exact hengages
    · rw [h.getElem?_cpus_of_ne hd] at hz
      have hne : i ≠ pid := by
        rintro rfl
        have hrun := status_running hl hz hi hp
        rcases hstatus with hst | hst <;> rw [hst] at hrun <;> simp at hrun
        exact hd hrun.symm
      refine (hr.engaged d z i p' hz hi (hother hne ▸ hp')).weaken fun hmem => ?_
      exact (h.turns_sublist hx hhead).subset hmem
  · have hne : i ≠ pid := by
      rintro rfl
      obtain rfl := Option.some.inj (hself.symm.trans hp')
      exact hstart (hstarted ▸ hnone)
    rcases (h.books hx hhead).mem_entries hmem with hmem | hcur
    · exact hr.arrivals t i p' hmem (hother hne ▸ hp') hnone
    · rcases hon with hcur' | ⟨hcur', -⟩ <;> rw [hcur] at hcur' <;> simp at hcur'
      exact absurd hcur' hne

theorem Move.audited (h : r.Move c x s) (hr : r.Audited specs (· ∈ r.turns))
    (hl : (r.life []).Sound) (hturns : r.turns.Pairwise (· < ·)) (hx : r.cpus[c]? = some x)
    (hhead : r.turns.head? = some c) : s.Audited specs (· ∈ s.turns) := by
  have hmove := h
  cases h with
  | idles hphase hnone =>
    refine ⟨hr.kept, hr.resting, fun d z pid p hz hi hp => ?_, hr.arrivals⟩
    exact (hr.engaged d z pid p hz hi hp).weaken fun hmem =>
      (hmove.turns_sublist hx hhead).subset hmem
  | @dispatches pid p hphase hsome hp hready =>
    refine hmove.audited_of_changed (q := p.dispatched c)
      (y := { regs := p.saved, phase := .bursting { pid } }) hr hl hx hhead hp
      (.inr ⟨Cpu.current?_of_asking hphase, hready⟩) rfl rfl (fun i hi => (Option.some.inj hi).symm)
      (fun spec hk _ => hk.dispatched hready c) rfl (fun hrest => absurd rfl (hrest c)) ?_
    exact ⟨(hr.resting pid p hp (by simp [hready])).dispatched c, Nat.zero_le _⟩
  | @expires b p hphase hp hquantum =>
    have hcur := Cpu.current?_of_bursting hphase
    obtain ⟨hbalanced, hle⟩ := hr.of_bursting hx hphase hp
    exact hmove.audited_of_changed hr hl hx hhead hp (.inl hcur) rfl rfl (by rintro i ⟨⟩)
      (fun spec hk hstarted => hk.undispatched hstarted (status_ne_exited hl hx hcur hp) x.regs hle
        (by simp)) rfl (fun _ => hbalanced.undispatched x.regs) trivial
  | @spends b p i k l hphase hp hquantum =>
    have hcur := Cpu.current?_of_bursting hphase
    obtain ⟨hbalanced, -⟩ := hr.of_bursting hx hphase hp
    refine hmove.audited_of_changed (q := p.faulted k l) (y := { x with phase := .spending b i })
      hr hl hx hhead hp (.inl hcur) rfl rfl (fun j hj => (Option.some.inj hj).symm)
      (fun spec hk _ => hk.faulted k l) rfl
      (fun hrest => absurd (status_running hl hx hcur hp) (hrest c)) ?_
    refine ⟨hbalanced.faulted k l, hquantum, fun hmem => ?_⟩
    have hspends := getElem?_setCpu_self (r := r.setProcess b.pid (p.faulted k l)) (by exact hx)
      { x with phase := .spending b i }
    exact absurd rfl (hmove.spends_of_mem hturns hx hhead hmem ⟨_, b, i, hspends, rfl⟩).1
  | @strays b p k l hphase hp hquantum =>
    have hcur := Cpu.current?_of_bursting hphase
    obtain ⟨hbalanced, hle⟩ := hr.of_bursting hx hphase hp
    exact hmove.audited_of_changed hr hl hx hhead hp (.inl hcur) rfl rfl
      (by rintro i ⟨⟩) (fun spec hk hstarted => (hk.faulted k l).ended hstarted x.regs hle) rfl
      (fun _ => ((hbalanced.faulted k l).undispatched x.regs).exited _) trivial
  | @goesOn b i p regs k l hphase hp =>
    have hcur := Cpu.current?_of_spending hphase
    obtain ⟨hbalanced, hle, hkept⟩ := hr.spent hl hx hhead hphase hp k l
    exact hmove.audited_of_changed (q := p.spent.faulted k l)
      (y := { regs, phase := .bursting { b with ticks := b.ticks + 1 } }) hr hl hx hhead hp
      (.inl hcur) rfl rfl (fun j hj => (Option.some.inj hj).symm) hkept rfl
      (fun hrest => absurd (status_running hl hx hcur hp) (hrest c)) ⟨hbalanced, hle⟩
  | @blocks b i p regs k l n hphase hp hblock =>
    have hcur := Cpu.current?_of_spending hphase
    obtain ⟨hbalanced, hle, hkept⟩ := hr.spent hl hx hhead hphase hp k l
    exact hmove.audited_of_changed hr hl hx hhead hp (.inl hcur) rfl rfl
      (by rintro i ⟨⟩) (fun spec hk hstarted => (hkept spec hk hstarted).undispatched hstarted
        (status_ne_exited (p := p) hl hx hcur hp) regs hle (by simp)) rfl
      (fun _ => hbalanced.undispatched regs) trivial
  | @ends b i p regs k l hphase hp =>
    have hcur := Cpu.current?_of_spending hphase
    obtain ⟨hbalanced, hle, hkept⟩ := hr.spent hl hx hhead hphase hp k l
    exact hmove.audited_of_changed hr hl hx hhead hp (.inl hcur) rfl rfl
      (by rintro i ⟨⟩)
      (fun spec hk hstarted => (hkept spec hk hstarted).ended hstarted regs hle) rfl
      (fun _ => (hbalanced.undispatched regs).exited _) trivial

/-! The clock. -/

theorem Wake.audited {awake : Nat → Prop} (h : r.Wake g pid s) (hr : r.Audited specs awake)
    (hl : (r.life (.process pid :: due)).Sound)
    (harrives : ∀ p, r.processes[pid]? = some p → p.account.startedAt = none →
      ∃ spec, specs[pid]? = some spec ∧ spec.start = r.clock.now) : s.Audited specs awake := by
  obtain ⟨p, q, hp, hawakes, hprocesses⟩ := h.awakes
  have hstatus : p.status = .pending ∨ p.status = .blocked := by
    have hwas := (hl.of_waiting (waiting_cons_ne_zero r pid due)).2
    rw [status_life hp] at hwas
    exact hwas.imp Option.some.inj Option.some.inj
  have hother {i : ProcessId} (hi : i ≠ pid) : s.processes[i]? = r.processes[i]? := by
    rw [hprocesses, getElem?_setProcess hp, if_neg (Ne.symm hi)]
  have hself : s.processes[pid]? = some q := by rw [hprocesses, getElem?_setProcess_self hp]
  obtain ⟨hclock, hcpus, hqueue⟩ : s.clock = r.clock ∧ s.cpus = r.cpus ∧ s.queue = r.queue := by
    cases h <;> exact ⟨rfl, rfl, rfl⟩
  obtain ⟨spec, hspec, hk⟩ := hr.kept pid p hp
  refine ⟨fun i p' hp' => ?_, fun i p' hp' hrest => ?_, fun d z i p' hz hi hp' => ?_,
    fun t i p' hmem hp' hnone => ?_⟩
  · rw [hclock]
    by_cases hi : i = pid
    · subst hi
      obtain rfl := Option.some.inj (hself.symm.trans hp')
      refine ⟨spec, hspec, hawakes.kept hk (by rcases hstatus with h | h <;> simp [h]) ?_⟩
      intro hnone
      obtain ⟨spec', hspec', hstart⟩ := harrives p hp hnone
      obtain rfl := Option.some.inj (hspec.symm.trans hspec')
      exact hstart
    · exact hr.kept i p' (hother hi ▸ hp')
  · by_cases hi : i = pid
    · subst hi
      obtain rfl := Option.some.inj (hself.symm.trans hp')
      exact hawakes.balanced (hr.resting i p hp (by rcases hstatus with h | h <;> simp [h]))
    · exact hr.resting i p' (hother hi ▸ hp') hrest
  · rw [hcpus] at hz
    rw [hclock]
    have hne : i ≠ pid := by
      rintro rfl
      have hrun := status_running hl hz hi hp
      rcases hstatus with hst | hst <;> simp [hst] at hrun
    exact hr.engaged d z i p' hz hi (hother hne ▸ hp')
  · rw [hqueue] at hmem
    by_cases hi : i = pid
    · subst hi
      obtain rfl := Option.some.inj (hself.symm.trans hp')
      exact hr.arrivals t i p hmem hp (hawakes.startedAt_eq_none hnone)
    · exact hr.arrivals t i p' hmem (hother hi ▸ hp') hnone

theorem Woken.audited {awake : Nat → Prop} (h : Woken g r due s) (hr : r.Audited specs awake)
    (hl : (r.life due).Sound)
    (harrives : ∀ pid p, .process pid ∈ due → r.processes[pid]? = some p →
      p.account.startedAt = none → ∃ spec, specs[pid]? = some spec ∧ spec.start = r.clock.now) :
    s.Audited specs awake := by
  induction h with
  | done => exact hr
  | cpu c hrest ih =>
    exact ih hr (life_cons_cpu _ c _ ▸ hl) fun pid p hmem =>
      harrives pid p (List.mem_cons_of_mem _ hmem)
  | @process r s t due pid hwake hrest ih =>
    obtain ⟨p, q, hp, hawakes, hprocesses⟩ := hwake.awakes
    refine ih (hwake.audited hr hl fun p => harrives pid p List.mem_cons_self)
      ((hwake.shift hl).sound hl) fun i p' hmem hp' hnone => ?_
    rw [hwake.clock]
    have hmem' := List.mem_cons_of_mem (.process pid) hmem
    rw [hprocesses, getElem?_setProcess hp] at hp'
    split at hp'
    · next heq =>
      subst heq
      obtain rfl := Option.some.inj hp'
      exact harrives pid p hmem' hp (hawakes.startedAt_eq_none hnone)
    · exact harrives i p' hmem' hp' hnone

theorem Advance.audited {log : List (Nat × Nat)} (h : r.Advance g s)
    (hr : r.Audited specs (· ∈ r.turns)) (hl : (r.life []).Sound) (ht : r.Timed log) :
    s.Audited specs (· ∈ s.turns) := by
  cases h with
  | finishes hlive => exact ⟨hr.kept, hr.resting, hr.engaged, hr.arrivals⟩
  | @moves tick due rest s hlive hpop htick hwoken =>
    have hentries := EventQueue.entries_of_pop? hpop
    have hmoved : ({ r with queue := rest, clock := ⟨tick⟩ } : Roster S).Audited specs
        fun _ => True := by
      refine ⟨fun pid p hp => ?_, hr.resting, fun c x pid p hx hcur hp => ?_,
        fun t pid p hmem => ?_⟩
      · obtain ⟨spec, hspec, hk⟩ := hr.kept pid p hp
        exact ⟨spec, hspec, hk.later htick⟩
      · obtain ⟨spec, -, hk⟩ := hr.kept pid p hp
        rcases ht.ahead with ⟨hdawn, -⟩ | hahead
        · rw [Cpu.current?, hdawn.asking c x hx] at hcur
          simp at hcur
        · refine (hr.engaged c x pid p hx hcur hp).later hk (hahead (tick, due) ?_)
          rw [EventQueue.pending_of_pop? hpop]
          exact List.mem_cons_self
      · exact hr.arrivals t pid p (hentries ▸ List.mem_append_right _ hmem)
    have hwaked := hwoken.audited hmoved ((life_of_pop? hpop _).symm ▸ hl)
      fun pid p hmem => hr.arrivals tick pid p (by
        rw [hentries]
        exact List.mem_append_left _ (List.mem_map.mpr ⟨_, hmem, rfl⟩))
    exact ⟨hwaked.kept, hwaked.resting, fun c x pid p hx hcur hp =>
      (hwaked.engaged c x pid p hx hcur hp).weaken fun _ => trivial, hwaked.arrivals⟩

/-! Sums over all processes. -/

omit [Scheduler S] in
theorem sum_setProcess (hp : r.processes[pid]? = some p) (q : Process) (f : Process → Nat) :
    ((r.setProcess pid q).processes.toList.map f).sum + f p =
      (r.processes.toList.map f).sum + f q := by
  rw [setProcess, Array.toList_setIfInBounds]
  exact sum_map_set (by simpa using hp) q f

def executed (r : Roster S) : Nat := (r.processes.toList.map fun p => p.account.executedTicks).sum

/-- How many CPUs have an instruction to execute at this tick. -/
def duties (r : Roster S) : Nat :=
  r.turns.countP fun c => (r.cpus[c]?.map Cpu.spends).getD false

structure Entry (r : Roster S) (spends : Bool) (s : Roster S) (pid : ProcessId) (p q : Process) :
    Prop where
  before : r.processes[pid]? = some p
  after : s.processes = (r.setProcess pid q).processes
  ticks : q.account.executedTicks = p.account.executedTicks + spends.toNat
  ends : q.account.completedAt = p.account.completedAt ∧ s.live = r.live ∨
    q.account.completedAt = some r.clock.now ∧ s.live = r.live - 1

theorem Move.entry (h : r.Move c x s) :
    s.processes = r.processes ∧ s.live = r.live ∧ x.spends = false ∨
      ∃ pid p q, Entry r x.spends s pid p q := by
  cases h with
  | idles hphase hnone => exact .inl ⟨rfl, rfl, by rw [Cpu.spends, hphase]⟩
  | dispatches hphase hsome hp hready =>
    exact .inr ⟨_, _, _, hp, rfl, by rw [Cpu.spends, hphase]; rfl, .inl ⟨rfl, rfl⟩⟩
  | expires hphase hp hquantum =>
    exact .inr ⟨_, _, _, hp, rfl, by rw [Cpu.spends, hphase]; rfl, .inl ⟨rfl, rfl⟩⟩
  | spends hphase hp hquantum =>
    exact .inr ⟨_, _, _, hp, rfl, by rw [Cpu.spends, hphase]; rfl, .inl ⟨rfl, rfl⟩⟩
  | strays hphase hp hquantum =>
    exact .inr ⟨_, _, _, hp, rfl, by rw [Cpu.spends, hphase]; rfl, .inr ⟨rfl, rfl⟩⟩
  | goesOn hphase hp =>
    exact .inr ⟨_, _, _, hp, rfl, by rw [Cpu.spends, hphase]; rfl, .inl ⟨rfl, rfl⟩⟩
  | blocks hphase hp hblock =>
    exact .inr ⟨_, _, _, hp, rfl, by rw [Cpu.spends, hphase]; rfl, .inl ⟨rfl, rfl⟩⟩
  | ends hphase hp =>
    exact .inr ⟨_, _, _, hp, rfl, by rw [Cpu.spends, hphase]; rfl, .inr ⟨rfl, rfl⟩⟩

theorem Wake.entry (h : r.Wake g pid s) : ∃ p q, Entry r false s pid p q := by
  cases h with
  | unblocks hp hstarted => exact ⟨_, _, hp, rfl, rfl, .inl ⟨rfl, rfl⟩⟩
  | starts hp hnot => exact ⟨_, _, hp, rfl, rfl, .inl ⟨rfl, rfl⟩⟩
  | refuses hp hnot => exact ⟨_, _, hp, rfl, rfl, .inr ⟨rfl, rfl⟩⟩

omit [Scheduler S] in
theorem Entry.executed {spends : Bool} (h : Entry r spends s pid p q) :
    s.executed = r.executed + spends.toNat := by
  have hsum := sum_setProcess h.before q fun p => p.account.executedTicks
  rw [← h.after] at hsum
  have hticks := h.ticks
  unfold Roster.executed
  omega

/-- No more ticks are entered than the CPUs have had, those to be entered at this tick counted. -/
def Afforded (r : Roster S) : Prop := r.executed + r.duties ≤ r.cpus.size * r.clock.now

theorem Move.executed (h : r.Move c x s) : s.executed = r.executed + x.spends.toNat := by
  rcases h.entry with ⟨hprocesses, -, hspends⟩ | ⟨pid, p, q, hentry⟩
  · rw [Roster.executed, hprocesses, hspends]
    rfl
  · exact hentry.executed

omit [Scheduler S] in
theorem spends_iff (r : Roster S) (c : Nat) :
    (r.cpus[c]?.map Cpu.spends).getD false = true ↔ r.Spends c := by
  cases hx : r.cpus[c]? with
  | none => simp [Spends, hx]
  | some x =>
    obtain ⟨regs, phase⟩ := x
    cases phase <;> simp [Spends, hx, Cpu.spends]

theorem Move.duties (h : r.Move c x s) (hturns : r.turns.Pairwise (· < ·))
    (hx : r.cpus[c]? = some x) (hhead : r.turns.head? = some c) :
    s.duties + x.spends.toNat ≤ r.duties := by
  obtain ⟨cs, hcs⟩ := List.head?_eq_some_iff.mp hhead
  have hrest : cs.countP (fun i => (s.cpus[i]?.map Cpu.spends).getD false) =
      cs.countP fun i => (r.cpus[i]?.map Cpu.spends).getD false := by
    refine List.countP_congr fun i hi => ?_
    have hlt := lt_of_pairwise_of_head? hturns hhead i (by rw [hcs]; exact hi)
    rw [h.getElem?_cpus_of_ne (Nat.ne_of_gt hlt)]
  have hbefore : r.duties = (cs.countP fun i => (r.cpus[i]?.map Cpu.spends).getD false) +
      x.spends.toNat := by
    rw [Roster.duties, hcs, List.countP_cons, hx]
    cases hs : x.spends <;> simp [hs]
  have hafter : s.duties = cs.countP fun i => (s.cpus[i]?.map Cpu.spends).getD false := by
    rcases h.turns hx hhead with hs | ⟨hs, hnot⟩
    · rw [Roster.duties, hs, hcs, List.tail_cons]
    · rw [Roster.duties, hs, hcs, List.countP_cons_of_neg]
      rwa [spends_iff]
  omega

theorem Move.afforded (h : r.Move c x s) (hr : r.Afforded) (hturns : r.turns.Pairwise (· < ·))
    (hx : r.cpus[c]? = some x) (hhead : r.turns.head? = some c)
    (hsize : s.cpus.size = r.cpus.size) : s.Afforded := by
  have hexecuted := h.executed
  have hduties := h.duties hturns hx hhead
  unfold Afforded at *
  rw [hsize, h.clock]
  omega

theorem Woken.executed (h : Woken g r due s) : s.executed = r.executed := by
  induction h with
  | done => rfl
  | cpu c hrest ih => exact ih
  | process hwake hrest ih =>
    obtain ⟨p, q, hentry⟩ := hwake.entry
    exact ih.trans hentry.executed

theorem Advance.afforded {log : List (Nat × Nat)} {n : Nat} (h : r.Advance g s)
    (hr : r.Afforded) (hseated : r.Seated n) (ht : r.Timed log) : s.Afforded := by
  have hafter := h.seated hseated
  cases h with
  | finishes hlive => exact hr
  | @moves tick due rest s hlive hpop htick hwoken =>
    have hsize : (s.release due).cpus.size = r.cpus.size := hafter.size.trans hseated.size.symm
    have hclock : (s.release due).clock.now = tick := congrArg VirtualClock.now hwoken.clock
    have hexecuted : (s.release due).executed = r.executed := hwoken.executed
    unfold Afforded at *
    rw [hsize, hclock, hexecuted]
    rcases ht.ahead with ⟨hdawn, -⟩ | hahead
    · have hnone : (s.release due).duties = 0 := by
        refine List.countP_eq_zero.mpr fun c _ => ?_
        rw [spends_iff]
        rintro ⟨x, b, i, hx, hphase⟩
        have hx' : s.cpus[c]? = some x := hx
        rw [hwoken.cpus] at hx'
        rw [hdawn.asking c x hx'] at hphase
        simp at hphase
      rw [hdawn.now] at hr
      omega
    · have hlt : r.clock.now < tick := hahead (tick, due) (by
        rw [EventQueue.pending_of_pop? hpop]
        exact List.mem_cons_self)
      have hduties : (s.release due).duties ≤ r.cpus.size := by
        refine List.countP_le_length.trans ?_
        have hadd := hafter.parked_add
        rw [hseated.size]
        omega
      have hmul : r.cpus.size * r.clock.now + r.cpus.size ≤ r.cpus.size * tick := by
        rw [← Nat.mul_succ]
        exact Nat.mul_le_mul_left _ hlt
      omega

/-! The last process. -/

/-- Once no process is alive, one has ended at this time, if there are any. -/
def Closing (r : Roster S) : Prop :=
  r.live = 0 → r.processes.size = 0 ∧ r.clock.now = 0 ∨
    ∃ (pid : ProcessId) (p : Process), r.processes[pid]? = some p ∧
      p.account.completedAt = some r.clock.now

omit [Scheduler S] in
theorem Entry.closing {spends : Bool} (h : Entry r spends s pid p q) (hr : r.Closing)
    (hclock : s.clock = r.clock) : s.Closing := by
  have hself : s.processes[pid]? = some q := by
    rw [h.after]
    exact getElem?_setProcess_self h.before q
  intro hlive
  rw [hclock]
  rcases h.ends with ⟨hsame, hsame'⟩ | ⟨hends, -⟩
  · rcases hr (hsame'.symm.trans hlive) with ⟨hsize, hnow⟩ | ⟨i, p', hp', hdone⟩
    · refine .inl ⟨?_, hnow⟩
      rw [h.after]
      exact (Array.size_setIfInBounds ..).trans hsize
    · right
      by_cases hi : i = pid
      · subst hi
        obtain rfl := Option.some.inj (h.before.symm.trans hp')
        exact ⟨i, q, hself, hsame.trans hdone⟩
      · refine ⟨i, p', ?_, hdone⟩
        rw [h.after, getElem?_setProcess h.before, if_neg (Ne.symm hi)]
        exact hp'
  · exact .inr ⟨pid, q, hself, hends⟩

theorem Move.closing (h : r.Move c x s) (hr : r.Closing) : s.Closing := by
  rcases h.entry with ⟨hprocesses, hlive, -⟩ | ⟨pid, p, q, hentry⟩
  · intro hs
    rw [hprocesses, h.clock]
    exact hr (hlive.symm.trans hs)
  · exact hentry.closing hr h.clock

theorem Woken.closing (h : Woken g r due s) (hr : r.Closing) : s.Closing := by
  induction h with
  | done => exact hr
  | cpu c hrest ih => exact ih hr
  | process hwake hrest ih =>
    obtain ⟨p, q, hentry⟩ := hwake.entry
    exact ih (hentry.closing hr hwake.clock)

theorem Advance.closing (h : r.Advance g s) (hr : r.Closing) : s.Closing := by
  cases h with
  | finishes hlive => exact hr
  | moves hlive hpop htick hwoken => exact hwoken.closing fun hzero => absurd hzero hlive

end Roster

end DemandPaging
