import DemandPaging.Proofs.Machine.Barrier
import DemandPaging.Proofs.Timeline
import Mathlib.Data.Prod.Lex
/-!
Clock, queue and turns. A CPU on its turn leaves the clock alone and makes at most one appointment,
for itself at the next tick or for its process at a later one. A moving clock goes to the next tick
that somebody waits for and releases those who wait for it. So the clock never passes a waiter, and
the instructions of a tick are executed in the order of the CPUs, one by each.
-/

namespace DemandPaging

namespace Roster

variable {S : Type} {g : Geometry} {r s : Roster S} {c n : Nat} {x : Cpu} {due : List Waiter}
  {log new : List (Nat × Nat)}

/-- The CPU has an instruction whose tick it spends or has spent. -/
def Spends (r : Roster S) (c : Nat) : Prop :=
  ∃ x b i, r.cpus[c]? = some x ∧ x.phase = .spending b i

theorem not_spends (hx : r.cpus[c]? = some x) (h : ∀ b i, x.phase ≠ .spending b i) :
    ¬r.Spends c := by
  rintro ⟨y, b, i, hy, hphase⟩
  rw [hx] at hy
  obtain rfl := Option.some.inj hy
  exact h b i hphase

theorem getElem?_setCpu_of_ne (r : Roster S) (x : Cpu) {i : Nat} (hi : i ≠ c) :
    (r.setCpu c x).cpus[i]? = r.cpus[i]? := by
  rw [setCpu, Array.getElem?_setIfInBounds, if_neg (Ne.symm hi)]

theorem not_spends_setCpu {y : Cpu} (hx : r.cpus[c]? = some x)
    (h : ∀ b i, y.phase ≠ .spending b i) : ¬(r.setCpu c y).Spends c :=
  not_spends (getElem?_setCpu_self hx y) h

def Ahead (r : Roster S) : Prop := ∀ d ∈ r.queue.pending, r.clock.now < d.1

/-- Before the clock first moves, nobody is there to run, though somebody may be about to arrive. -/
structure Dawn (r : Roster S) : Prop where
  now : r.clock.now = 0
  pending : ∀ (pid : ProcessId) p, r.processes[pid]? = some p → p.status = .pending
  asking : ∀ (c : Nat) x, r.cpus[c]? = some x → x.phase = .asking

/-- How a roster stands in time, with the ticks and CPUs of the executed instructions. -/
structure Timed (r : Roster S) (log : List (Nat × Nat)) : Prop where
  sorted : r.queue.Sorted
  turns : r.turns.Pairwise (· < ·)
  ascends : log.Pairwise (Prod.Lex (· < ·) (· < ·))
  /-- The CPUs that have executed an instruction at this tick have had their turns. -/
  past : ∀ e ∈ log, e.1 ≤ r.clock.now ∧
    (e.1 = r.clock.now → ∀ c ∈ r.turns, e.2 < c ∨ e.2 = c ∧ ¬r.Spends c)
  ahead : r.Dawn ∧ log = [] ∨ r.Ahead

theorem lt_of_pairwise_of_head? {l : List Nat} (h : l.Pairwise (· < ·)) (hhead : l.head? = some c) :
    ∀ i ∈ l.tail, c < i := by
  obtain ⟨cs, rfl⟩ := List.head?_eq_some_iff.mp hhead
  exact (List.pairwise_cons.mp h).1

theorem Timed.append (hr : r.Timed log) (hhead : r.turns.head? = some c)
    (hnew : new = [] ∨ new = [(r.clock.now, c)] ∧ r.Spends c) :
    (log ++ new).Pairwise (Prod.Lex (· < ·) (· < ·)) := by
  rcases hnew with rfl | ⟨rfl, hspends⟩
  · rw [List.append_nil]
    exact hr.ascends
  · refine List.pairwise_append.mpr ⟨hr.ascends, List.pairwise_singleton .., fun e he d hd => ?_⟩
    obtain rfl := List.mem_singleton.mp hd
    obtain ⟨hle, hnow⟩ := hr.past e he
    refine Prod.lex_iff.mpr ?_
    rcases Nat.lt_or_eq_of_le hle with hlt | heq
    · exact .inl hlt
    · rcases hnow heq c (List.mem_of_mem_head? hhead) with hlt | ⟨-, hrests⟩
      · exact .inr ⟨heq, hlt⟩
      · exact absurd hspends hrests

theorem Timed.lt_of_pop? (hr : r.Timed log) {tick : Nat} {rest : EventQueue Waiter}
    (hpop : r.queue.pop? = some ((tick, due), rest)) (he : log ≠ []) : r.clock.now < tick := by
  rcases hr.ahead with ⟨-, hnil⟩ | hahead
  · exact absurd hnil he
  · exact hahead (tick, due) (by rw [EventQueue.pending_of_pop? hpop]; exact List.mem_cons_self)

theorem Timed.not_warped (hr : r.Timed log) (now tick : Nat) :
    ¬r.Stuck (.error (.timeWarp now tick)) := by
  rintro ⟨tick, due, rest, hpop, hlt⟩
  rcases hr.ahead with ⟨hdawn, -⟩ | hahead
  · rw [hdawn.now] at hlt
    exact Nat.not_lt_zero _ hlt
  · have hlater := hahead (tick, due) (by
      rw [EventQueue.pending_of_pop? hpop]
      exact List.mem_cons_self)
    exact Nat.lt_asymm hlt hlater

def statusOf (r : Roster S) (pid : ProcessId) : Option ProcessStatus :=
  r.processes[pid]?.map Process.status

theorem statusOf_eq_some {pid : ProcessId} {status : ProcessStatus} :
    r.statusOf pid = some status ↔ ∃ p, r.processes[pid]? = some p ∧ p.status = status :=
  Option.map_eq_some_iff

theorem statusOf_of_setProcess {pid i : ProcessId} {p q : Process} {status : ProcessStatus}
    (hp : r.processes[pid]? = some p) (hs : s.processes = (r.setProcess pid q).processes)
    (hq : i = pid → q.status = status → p.status = status) (hi : s.statusOf i = some status) :
    r.statusOf i = some status := by
  obtain ⟨u, hu, hstatus⟩ := statusOf_eq_some.mp hi
  rw [hs, getElem?_setProcess hp] at hu
  split at hu
  · next heq =>
    subst heq
    obtain rfl := Option.some.inj hu
    exact statusOf_eq_some.mpr ⟨p, hp, hq rfl hstatus⟩
  · exact statusOf_eq_some.mpr ⟨u, hu, hstatus⟩

/-- What a CPU on its turn enters in the timetable. It gives up its turn only for a tick that it
spends or because it is idle, and nobody blocks but the process that is entered. -/
inductive Books (r : Roster S) (c : Nat) (x : Cpu) (s : Roster S) : Prop
  | nothing (hqueue : s.queue = r.queue) (hturns : s.turns = r.turns) (hidle : s.idle = r.idle)
      (hblocked : ∀ pid, s.statusOf pid = some .blocked → r.statusOf pid = some .blocked)
  | idle (hphase : x.phase = .asking) (hcpus : s.cpus = r.cpus) (hqueue : s.queue = r.queue)
      (hturns : s.turns = r.turns.tail) (hidle : s.idle = r.idle ++ [c])
      (hprocesses : s.processes = r.processes)
  | tick {b i} (hphase : x.phase = .bursting b)
      (hx : s.cpus[c]? = some { x with phase := .spending b i })
      (hqueue : s.queue = r.queue.schedule (r.clock.now + 1) (.cpu c))
      (hturns : s.turns = r.turns.tail) (hidle : s.idle = r.idle)
      (hblocked : ∀ pid, s.statusOf pid = some .blocked → r.statusOf pid = some .blocked)
  | block {b i n} (hphase : x.phase = .spending b i) (hblock : i.instruction = .block n)
      (hstatus : s.statusOf b.pid = some .blocked)
      (hqueue : s.queue = r.queue.schedule (r.clock.now + n) (.process b.pid))
      (hturns : s.turns = r.turns) (hidle : s.idle = r.idle)
      (hblocked : ∀ pid, pid ≠ b.pid → s.statusOf pid = some .blocked →
        r.statusOf pid = some .blocked)

theorem Books.cases_queue (h : r.Books c x s) : s.queue = r.queue ∨ ∃ t w,
    s.queue = r.queue.schedule t w ∧ ((∀ b i n, x.phase = .spending b i →
      i.instruction = .block n → 0 < n) → r.clock.now < t) := by
  cases h with
  | nothing hqueue => exact .inl hqueue
  | idle hphase hcpus hqueue => exact .inl hqueue
  | tick hphase hx hqueue => exact .inr ⟨_, _, hqueue, fun _ => Nat.lt_succ_self _⟩
  | block hphase hblock hstatus hqueue =>
    exact .inr ⟨_, _, hqueue, fun hpos => Nat.lt_add_of_pos_right (hpos _ _ _ hphase hblock)⟩

theorem Books.ahead (hr : r.Ahead) (hpos : ∀ b i n, x.phase = .spending b i →
    i.instruction = .block n → 0 < n) (hclock : s.clock = r.clock) (h : r.Books c x s) :
    s.Ahead := by
  intro d hd
  rw [hclock]
  rcases h.cases_queue with hqueue | ⟨t, w, hqueue, hlt⟩
  · exact hr d (hqueue ▸ hd)
  · rw [hqueue] at hd
    rcases EventQueue.mem_insert hd with htick | hd
    · exact htick ▸ hlt hpos
    · exact hr d hd

theorem Books.sorted (hr : r.queue.Sorted) (h : r.Books c x s) : s.queue.Sorted := by
  rcases h.cases_queue with hqueue | ⟨t, w, hqueue, -⟩
  · exact hqueue ▸ hr
  · exact hqueue ▸ hr.schedule t w

theorem pairwise_release (hturns : r.turns = []) (hnodup : (r.release due).turns.Nodup) :
    (r.release due).turns.Pairwise (· < ·) := by
  have hsorted : (r.release due).turns.Pairwise (· ≤ ·) := by
    change (r.turns ++ (Machine.cpusOf due ++ r.idle).mergeSort (· ≤ ·)).Pairwise (· ≤ ·)
    rw [hturns, List.nil_append]
    have htrans (a b c : Nat) : decide (a ≤ b) = true → decide (b ≤ c) = true →
        decide (a ≤ c) = true := by simpa using Nat.le_trans
    have htotal (a b : Nat) : (decide (a ≤ b) || decide (b ≤ a)) = true := by
      simpa using Nat.le_total a b
    exact (List.pairwise_mergeSort htrans htotal _).imp of_decide_eq_true
  exact (hsorted.and hnodup).imp fun ⟨hle, hne⟩ => Nat.lt_of_le_of_ne hle hne

variable [Scheduler S]

theorem statusOf_blocked {b : Burst} {q : Process} (hq : r.processes[b.pid]? = some q)
    (p : Process) (tick : Nat) : (r.blocked c x b p tick).statusOf b.pid = some .blocked :=
  statusOf_eq_some.mpr ⟨_, getElem?_setProcess_self hq _, rfl⟩

theorem statusOf_ended {b : Burst} {q : Process} (hq : r.processes[b.pid]? = some q)
    (p : Process) : (r.ended c x b p).statusOf b.pid = some .exited :=
  statusOf_eq_some.mpr ⟨_, getElem?_setProcess_self hq _, rfl⟩

/-! The turn of a CPU. -/

theorem Move.books (hx : r.cpus[c]? = some x) (hhead : r.turns.head? = some c)
    (h : r.Move c x s) : r.Books c x s := by
  cases h with
  | idles hphase hnone => exact .idle hphase rfl rfl (if_pos hhead) rfl rfl
  | @dispatches pid p hphase hsome hp hready =>
    exact .nothing rfl rfl rfl fun i => statusOf_of_setProcess hp rfl nofun
  | expires hphase hp hquantum =>
    exact .nothing rfl rfl rfl fun i => statusOf_of_setProcess hp rfl nofun
  | @spends b p i k l hphase hp hquantum =>
    have hx' : (r.setProcess b.pid (p.faulted k l)).cpus[c]? = some x := hx
    exact .tick hphase (getElem?_setCpu_self hx' _) rfl (if_pos hhead) rfl
      fun i => statusOf_of_setProcess hp rfl fun _ => id
  | strays hphase hp hquantum =>
    exact .nothing rfl rfl rfl fun i => statusOf_of_setProcess hp rfl nofun
  | goesOn hphase hp =>
    exact .nothing rfl rfl rfl fun i => statusOf_of_setProcess hp rfl fun _ => id
  | @blocks b i p regs k l n hphase hp hblock =>
    have hstatus := statusOf_blocked (b := { b with ticks := b.ticks + 1 }) (c := c)
      (x := { x with regs }) hp (p.spent.faulted k l) (r.clock.now + n)
    exact .block hphase hblock hstatus rfl rfl rfl
      fun j hj => statusOf_of_setProcess hp rfl fun heq => absurd heq hj
  | ends hphase hp => exact .nothing rfl rfl rfl fun i => statusOf_of_setProcess hp rfl nofun

/-- A CPU on its turn changes the process that it runs or a ready one. -/
theorem Move.getElem?_of_waits (hcur : ∀ pid p, x.current? = some pid →
    r.processes[pid]? = some p → p.status = .running c) (h : r.Move c x s) {pid : ProcessId}
    {p : Process} (hp : r.processes[pid]? = some p)
    (hwaits : p.status = .pending ∨ p.status = .blocked) : s.processes[pid]? = some p := by
  have hother {i : ProcessId} {q u : Process} (hq : r.processes[i]? = some q)
      (hqueued : q.status = .ready ∨ x.current? = some i)
      (hs : s.processes = (r.setProcess i u).processes) : s.processes[pid]? = some p := by
    rw [hs, getElem?_setProcess hq, if_neg]
    · exact hp
    · rintro rfl
      obtain rfl := Option.some.inj (hp.symm.trans hq)
      rcases hqueued with hready | hon
      · simp [hready] at hwaits
      · simp [hcur _ _ hon hp] at hwaits
  cases h with
  | idles hphase hnone => exact hp
  | dispatches hphase hsome hq hready => exact hother hq (.inl hready) rfl
  | expires hphase hq hquantum => exact hother hq (.inr (Cpu.current?_of_bursting hphase)) rfl
  | spends hphase hq hquantum => exact hother hq (.inr (Cpu.current?_of_bursting hphase)) rfl
  | strays hphase hq hquantum => exact hother hq (.inr (Cpu.current?_of_bursting hphase)) rfl
  | goesOn hphase hq => exact hother hq (.inr (Cpu.current?_of_spending hphase)) rfl
  | blocks hphase hq hblock => exact hother hq (.inr (Cpu.current?_of_spending hphase)) rfl
  | ends hphase hq => exact hother hq (.inr (Cpu.current?_of_spending hphase)) rfl

theorem Move.clock (h : r.Move c x s) : s.clock = r.clock := by
  cases h <;> rfl

theorem Move.getElem?_cpus_of_ne (h : r.Move c x s) {i : Nat} (hi : i ≠ c) :
    s.cpus[i]? = r.cpus[i]? := by
  cases h with
  | idles hphase hnone => rfl
  | dispatches hphase hsome hp hready => exact getElem?_setCpu_of_ne _ _ hi
  | expires hphase hp hquantum => exact getElem?_setCpu_of_ne _ _ hi
  | spends hphase hp hquantum => exact getElem?_setCpu_of_ne _ _ hi
  | strays hphase hp hquantum => exact getElem?_setCpu_of_ne _ _ hi
  | goesOn hphase hp => exact getElem?_setCpu_of_ne _ _ hi
  | blocks hphase hp hblock => exact getElem?_setCpu_of_ne _ _ hi
  | ends hphase hp => exact getElem?_setCpu_of_ne _ _ hi

/-- A CPU parks with the instruction that it spends a tick on, or idle. -/
theorem Move.turns (hx : r.cpus[c]? = some x) (hhead : r.turns.head? = some c)
    (h : r.Move c x s) : s.turns = r.turns.tail ∨ s.turns = r.turns ∧ ¬s.Spends c := by
  cases h with
  | idles hphase hnone => exact .inl (if_pos hhead)
  | @dispatches pid p hphase hsome hp hready =>
    have hx' : (r.setProcess pid (p.dispatched c)).cpus[c]? = some x := hx
    exact .inr ⟨rfl, not_spends_setCpu hx' nofun⟩
  | expires hphase hp hquantum => exact .inr ⟨rfl, not_spends_setCpu (by exact hx) nofun⟩
  | spends hphase hp hquantum => exact .inl (if_pos hhead)
  | strays hphase hp hquantum => exact .inr ⟨rfl, not_spends_setCpu (by exact hx) nofun⟩
  | goesOn hphase hp => exact .inr ⟨rfl, not_spends_setCpu (by exact hx) nofun⟩
  | blocks hphase hp hblock => exact .inr ⟨rfl, not_spends_setCpu (by exact hx) nofun⟩
  | ends hphase hp => exact .inr ⟨rfl, not_spends_setCpu (by exact hx) nofun⟩

theorem Move.spends_of_mem (hr : r.turns.Pairwise (· < ·)) (hx : r.cpus[c]? = some x)
    (hhead : r.turns.head? = some c) (h : r.Move c x s) {i : Nat} (hi : i ∈ s.turns)
    (hspends : s.Spends i) : i ≠ c ∧ r.Spends i := by
  have hne : i ≠ c := by
    rintro rfl
    rcases h.turns hx hhead with hturns | ⟨-, hrests⟩
    · rw [hturns] at hi
      exact Nat.lt_irrefl _ (lt_of_pairwise_of_head? hr hhead _ hi)
    · exact hrests hspends
  obtain ⟨y, b, f, hy, hphase⟩ := hspends
  exact ⟨hne, y, b, f, h.getElem?_cpus_of_ne hne ▸ hy, hphase⟩

theorem Move.turns_sublist (hx : r.cpus[c]? = some x) (hhead : r.turns.head? = some c)
    (h : r.Move c x s) : s.turns.Sublist r.turns := by
  rcases h.turns hx hhead with hturns | ⟨hturns, -⟩
  · rw [hturns]
    exact List.tail_sublist _
  · rw [hturns]

theorem Move.dawn (hr : r.Dawn) (hx : r.cpus[c]? = some x) (h : r.Move c x s) : s.Dawn := by
  have hasking := hr.asking c x hx
  cases h with
  | idles hphase hnone => exact ⟨hr.now, hr.pending, hr.asking⟩
  | dispatches hphase hsome hp hready =>
    rw [hr.pending _ _ hp] at hready
    simp at hready
  | expires hphase hp hquantum => simp [hasking] at hphase
  | spends hphase hp hquantum => simp [hasking] at hphase
  | strays hphase hp hquantum => simp [hasking] at hphase
  | goesOn hphase hp => simp [hasking] at hphase
  | blocks hphase hp hblock => simp [hasking] at hphase
  | ends hphase hp => simp [hasking] at hphase

theorem Move.timed (hr : r.Timed log) (hx : r.cpus[c]? = some x) (hhead : r.turns.head? = some c)
    (hpos : ∀ b i n, x.phase = .spending b i → i.instruction = .block n → 0 < n)
    (hnew : new = [] ∨ new = [(r.clock.now, c)] ∧ r.Spends c) (h : r.Move c x s) :
    s.Timed (log ++ new) := by
  have hbooks := h.books hx hhead
  have hsublist := h.turns_sublist hx hhead
  refine ⟨hbooks.sorted hr.sorted, hr.turns.sublist hsublist, hr.append hhead hnew, ?_, ?_⟩
  · intro e he
    rw [h.clock]
    rcases List.mem_append.mp he with he | he
    · obtain ⟨hle, hnow⟩ := hr.past e he
      refine ⟨hle, fun heq i hi => (hnow heq i (hsublist.subset hi)).imp_right ?_⟩
      rintro ⟨hei, hrests⟩
      exact ⟨hei, fun hspends => hrests (h.spends_of_mem hr.turns hx hhead hi hspends).2⟩
    · rcases hnew with rfl | ⟨rfl, -⟩
      · simp at he
      · obtain rfl := List.mem_singleton.mp he
        refine ⟨Nat.le_refl _, fun _ i hi => ?_⟩
        have hmem := hsublist.subset hi
        obtain ⟨cs, hturns⟩ := List.head?_eq_some_iff.mp hhead
        rw [hturns] at hmem
        rcases List.mem_cons.mp hmem with rfl | hmem
        · exact .inr ⟨rfl, fun hspends =>
            (h.spends_of_mem hr.turns hx hhead hi hspends).1 rfl⟩
        · exact .inl (lt_of_pairwise_of_head? hr.turns hhead i (by rw [hturns]; exact hmem))
  · rcases hr.ahead with ⟨hdawn, rfl⟩ | hahead
    · refine .inl ⟨h.dawn hdawn hx, ?_⟩
      rcases hnew with rfl | ⟨-, y, b, i, hy, hphase⟩
      · rfl
      · rw [hdawn.asking c y hy] at hphase
        simp at hphase
    · exact .inr (hbooks.ahead hahead hpos h.clock)

/-! The clock. -/

theorem Wake.clock {pid : ProcessId} (h : r.Wake g pid s) : s.clock = r.clock := by
  cases h <;> rfl

theorem Woken.clock (h : Woken g r due s) : s.clock = r.clock := by
  induction h with
  | done => rfl
  | cpu c hrest ih => exact ih
  | process hwake hrest ih => exact ih.trans hwake.clock

theorem Woken.cpus (h : Woken g r due s) : s.cpus = r.cpus := by
  induction h with
  | done => rfl
  | cpu c hrest ih => exact ih
  | process hwake hrest ih => cases hwake <;> exact ih

theorem Advance.timed (hr : r.Timed log) (hseated : r.Seated n) (hturns : r.turns = [])
    (h : r.Advance g s) : s.Timed log := by
  cases h with
  | finishes hlive =>
    refine ⟨hr.sorted, hr.turns, hr.ascends, hr.past, hr.ahead.imp_left ?_⟩
    exact fun ⟨hdawn, hnil⟩ => ⟨⟨hdawn.now, hdawn.pending, hdawn.asking⟩, hnil⟩
  | @moves tick due rest s hlive hpop htick hwoken =>
    obtain ⟨hsame, -, -, -, hqueue⟩ := hwoken.places
    have hsafe := (Advance.moves hlive hpop htick hwoken).seated hseated
    have hclock : (s.release due).clock.now = tick := congrArg VirtualClock.now hwoken.clock
    obtain ⟨hsorted, hlater⟩ := hr.sorted.of_pop? hpop
    refine ⟨by exact hqueue ▸ hsorted, pairwise_release (hsame.trans hturns) ?_, hr.ascends, ?_,
      .inr ?_⟩
    · exact (List.nodup_append.mp (List.nodup_append.mp hsafe.nodup).1).1
    · intro e he
      rw [hclock]
      have hlt := hr.lt_of_pop? hpop (List.ne_nil_of_mem he)
      have hle := (hr.past e he).1
      exact ⟨by omega, fun heq => by omega⟩
    · intro d hd
      rw [hclock]
      have hmem : d ∈ s.queue.pending := hd
      rw [hqueue] at hmem
      exact hlater d hmem

inductive Awakes (g : Geometry) (now : Nat) (p : Process) : Process → Prop
  | unblocks (hstarted : p.isStarted = true) : Awakes g now p { p with status := .ready }
  | starts (hnot : p.isStarted = false) : Awakes g now p (p.started g now)
  | refuses (hnot : p.isStarted = false) : Awakes g now p (p.exited now)

theorem Wake.awakes {pid : ProcessId} (h : r.Wake g pid s) : ∃ p q,
    r.processes[pid]? = some p ∧ Awakes g r.clock.now p q ∧
      s.processes = (r.setProcess pid q).processes := by
  cases h with
  | unblocks hp hstarted => exact ⟨_, _, hp, .unblocks hstarted, rfl⟩
  | starts hp hnot => exact ⟨_, _, hp, .starts hnot, rfl⟩
  | refuses hp hnot => exact ⟨_, _, hp, .refuses hnot, rfl⟩

theorem Woken.getElem?_of_not_mem (h : Woken g r due s) {pid : ProcessId}
    (hnot : .process pid ∉ due) : s.processes[pid]? = r.processes[pid]? := by
  induction h with
  | done => rfl
  | cpu c hrest ih => exact ih (List.not_mem_of_not_mem_cons hnot)
  | @process r s t due i hwake hrest ih =>
    obtain ⟨p, q, hp, -, hs⟩ := hwake.awakes
    have hne : i ≠ pid := fun heq => hnot (heq ▸ List.mem_cons_self)
    rw [ih (List.not_mem_of_not_mem_cons hnot), hs, getElem?_setProcess hp, if_neg hne]

theorem Woken.awakes (h : Woken g r due s) {pid : ProcessId} (hmem : .process pid ∈ due)
    (hone : due.count (.process pid) ≤ 1) : ∃ p q, r.processes[pid]? = some p ∧
      s.processes[pid]? = some q ∧ Awakes g r.clock.now p q := by
  induction h with
  | done => simp at hmem
  | cpu c hrest ih => exact ih (by simpa using hmem) (by simpa using hone)
  | @process r s t due i hwake hrest ih =>
    obtain ⟨p, q, hp, hq, hs⟩ := hwake.awakes
    by_cases heq : i = pid
    · subst heq
      rw [List.count_cons_self] at hone
      have hnot : Waiter.process i ∉ due := List.count_eq_zero.mp (by omega)
      refine ⟨p, q, hp, ?_, hq⟩
      rw [hrest.getElem?_of_not_mem hnot, hs, getElem?_setProcess_self hp]
    · have hne : Waiter.process i ≠ .process pid := fun h => heq (Waiter.process.inj h)
      rw [List.count_cons_of_ne hne] at hone
      obtain ⟨p', q', hp', hq', hawakes⟩ :=
        ih ((List.mem_cons.mp hmem).resolve_left (Ne.symm hne)) hone
      rw [hs, getElem?_setProcess hp, if_neg heq] at hp'
      exact ⟨p', q', hp', hq', hwake.clock ▸ hawakes⟩

end Roster

end DemandPaging
