import DemandPaging.Proofs.Machine.Held
import DemandPaging.Proofs.Machine.Threads
import DemandPaging.Proofs.Machine.Timetable
/-!
The appointments of a run: a process with its arrival, a CPU with the end of its tick, a blocked
process with the end of its block. Whatever is in the queue was entered once and has not been kept
yet, and it is kept at its tick. A record lists what the steps of a run make, keep and execute.
-/

namespace DemandPaging

theorem EventQueue.map_snd_entries {α : Type} [DecidableEq α] (q : EventQueue α) :
    q.entries.map Prod.snd = q.waiters := by
  rw [entries, List.map_flatMap, waiters]
  congr 1
  funext d
  rw [List.map_map]
  exact List.map_id _

theorem Machine.nodup_of_nodup_cpusOf {l : List Waiter} (hcpus : (cpusOf l).Nodup)
    (hprocesses : ∀ pid, l.count (.process pid) ≤ 1) : l.Nodup := by
  refine List.nodup_iff_count_le_one.mpr fun w => ?_
  cases w with
  | process pid => exact hprocesses pid
  | cpu c =>
    have hcount : l.count (.cpu c) ≤ (cpusOf l).count c := by
      rw [cpusOf, List.count_filterMap]
      refine List.countP_mono_left fun w _ hw => ?_
      obtain rfl : w = .cpu c := by simpa using hw
      simp [Waiter.cpu?]
    exact hcount.trans (List.nodup_iff_count_le_one.mp hcpus c)

namespace Machine

variable {g : Geometry} {S α : Type} [Scheduler S]

/-- The tick that a step moves the clock to, and those who wait for it. -/
def due? (m : Machine g S) : Option (Nat × List Waiter) :=
  if m.isRunning = true ∧ m.turns = [] ∧ m.parked = m.cpus.size ∧ m.live ≠ 0 then
    m.queue.pop?.map Prod.fst
  else none

def kept (m : Machine g S) : List (Nat × Waiter) :=
  (m.due?.map fun d => d.2.map fun w => (m.step.1.clock.now, w)).getD []

def made (m : Machine g S) : List (Nat × Waiter) := m.step.1.queue.entries.diff m.queue.entries

def Event.executedOn? : Event → Option Nat
  | .executing c .. => some c
  | _ => none

def executions (m : Machine g S) : List (Nat × Nat) :=
  (m.step.2.filterMap Event.executedOn?).map fun c => (m.clock.now, c)

/-- What the first steps of a run contribute, one after the other. -/
def record (m : Machine g S) (f : Machine g S → List α) (n : Nat) : List α :=
  (List.range n).flatMap fun k => f (m.stepN k)

theorem record_succ (m : Machine g S) (f : Machine g S → List α) (n : Nat) :
    m.record f (n + 1) = m.record f n ++ f (m.stepN n) := by
  rw [record, List.range_succ, List.flatMap_append, List.flatMap_singleton]
  rfl

/-- What becomes of a waiter that is released: a CPU gets a turn, a process that was blocked is
ready again, and one that arrives has started at this time, or ended if its text does not fit. -/
def Served (m m' : Machine g S) : Waiter → Prop
  | .cpu c => c ∈ m'.turns
  | .process pid => ∃ p q, m.processes[pid]? = some p ∧ m'.processes[pid]? = some q ∧
      (p.status = .blocked ∧ q = { p with status := .ready } ∨
        p.status = .pending ∧ (q = p.started g m'.clock.now ∨ q = p.exited m'.clock.now))

/-- What a step does to the clock, to the appointments and to those who wait. -/
inductive Passes (m m' : Machine g S) : Prop
  | rests (hdue : m.due? = none) (hroster : m'.roster = { m.roster with status := m'.status })
  | turns {c x} (hdue : m.due? = none) (hclock : m'.clock = m.clock)
      (hhead : m.turns.head? = some c) (hx : m.cpus[c]? = some x)
      (hbooks : m.roster.Books c x m'.roster) (hcpus : ∀ i, i ≠ c → m'.cpus[i]? = m.cpus[i]?)
      (hwaits : ∀ (pid : ProcessId) p, m.processes[pid]? = some p →
        p.status = .pending ∨ p.status = .blocked → m'.processes[pid]? = some p)
  | moves {t due} (hdue : m.due? = some (t, due)) (hclock : m'.clock.now = t)
      (hqueue : m.queue.pop? = some ((t, due), m'.queue)) (hserved : ∀ w ∈ due, m.Served m' w)
      (hturns : ∀ c, c ∈ m'.turns ↔ c ∈ m.idle ∨ .cpu c ∈ due) (hidle : m'.idle = [])
      (hcpus : m'.cpus = m.cpus)
      (hothers : ∀ pid, .process pid ∉ due → m'.processes[pid]? = m.processes[pid]?)

variable {m : Machine g S} {specs : List ProcessSpec} {h : History} {n : Nat}

omit [Scheduler S] in
theorem due?_of_turns_ne_nil (hturns : m.turns ≠ []) : m.due? = none :=
  if_neg fun hall => hturns hall.2.1

omit [Scheduler S] in
theorem of_due?_eq_some {t : Nat} {due : List Waiter} (hdue : m.due? = some (t, due)) :
    m.isRunning = true ∧ ∃ rest, m.queue.pop? = some ((t, due), rest) := by
  unfold due? at hdue
  split at hdue
  · next hall =>
    obtain ⟨⟨d, rest⟩, hpop, rfl⟩ := Option.map_eq_some_iff.mp hdue
    exact ⟨hall.1, rest, hpop⟩
  · simp at hdue

omit [Scheduler S] in
theorem Stands.decoded (hm : m.Stands specs h) {c : Nat} {x : Cpu} {b : Burst} {i : InFlight}
    (hx : m.cpus[c]? = some x) (hphase : x.phase = .spending b i) :
    i.instruction = .decode i.text := by
  have hcur := Cpu.current?_of_spending hphase
  obtain ⟨-, t, -, -, -, hflight⟩ := hm.inv.cpu c x hx b.pid hcur
  exact (hflight b i hphase).instruction

omit [Scheduler S] in
theorem Stands.ticks_pos (hm : m.Stands specs h) {c : Nat} {x : Cpu} (hx : m.cpus[c]? = some x)
    (b : Burst) (i : InFlight) (n : Nat) (hphase : x.phase = .spending b i)
    (hblock : i.instruction = .block n) : 0 < n :=
  Instruction.ticks_pos_of_decode ((hm.decoded hx hphase).symm.trans hblock)

omit [Scheduler S] in
theorem Stands.waits (hm : m.Stands specs h) {pid : ProcessId} {p : Process}
    (hp : m.processes[pid]? = some p) (hwaits : m.queue.count (.process pid) ≠ 0) :
    p.isStarted = false ∧ p.status = .pending ∨ p.isStarted = true ∧ p.status = .blocked := by
  have ht : m.view.tasks pid = some p.task := congrArg (Option.map Process.task) hp
  exact ((hm.inv.task pid p.task ht).waits hwaits).2

omit [Scheduler S] in
theorem Stands.count_le_one (hm : m.Stands specs h) (pid : ProcessId) :
    m.queue.count (.process pid) ≤ 1 := by
  by_cases hwaits : m.queue.count (.process pid) = 0
  · omega
  · obtain ⟨t, ht⟩ := Option.isSome_iff_exists.mp (hm.inv.known pid hwaits)
    exact Nat.le_of_eq ((hm.inv.task pid t ht).waits hwaits).1

theorem Stands.served (hm : m.Stands specs h) {t : Nat} {due : List Waiter}
    {rest : EventQueue Waiter} (hpop : m.queue.pop? = some ((t, due), rest)) {s : Roster S}
    (hwoken : Roster.Woken g { m.roster with queue := rest, clock := ⟨t⟩ } due s)
    {m' : Machine g S} (hs : m'.roster = s.release due) : ∀ w ∈ due, m.Served m' w := by
  intro w hw
  cases w with
  | cpu c =>
    have hturns : m'.turns = s.turns ++ (cpusOf due ++ s.idle).mergeSort (· ≤ ·) :=
      congrArg Roster.turns hs
    have hmem : c ∈ cpusOf due := List.mem_filterMap.mpr ⟨.cpu c, hw, rfl⟩
    change c ∈ m'.turns
    rw [hturns, List.mem_append, List.mem_mergeSort, List.mem_append]
    exact .inr (.inl hmem)
  | process pid =>
    have hcount := EventQueue.count_of_pop? hpop (.process pid)
    have hpos : 0 < due.count (.process pid) := List.count_pos_iff.mpr hw
    have hone := hm.count_le_one pid
    obtain ⟨p, q, hp, hq, hawakes⟩ := hwoken.awakes hw (by omega)
    have hprocesses : m'.processes = s.processes := congrArg Roster.processes hs
    have hnow : m'.clock.now = t :=
      (congrArg (fun r => r.clock.now) hs).trans (congrArg VirtualClock.now hwoken.clock)
    refine ⟨p, q, hp, hprocesses ▸ hq, ?_⟩
    have hwaits := hm.waits hp (by omega)
    rw [hnow]
    cases hawakes with
    | unblocks hstarted =>
      rcases hwaits with ⟨hnot, -⟩ | ⟨-, hblocked⟩
      · simp [hstarted] at hnot
      · exact .inl ⟨hblocked, rfl⟩
    | starts hnot =>
      rcases hwaits with ⟨-, hpending⟩ | ⟨hstarted, -⟩
      · exact .inr ⟨hpending, .inl rfl⟩
      · simp [hnot] at hstarted
    | refuses hnot =>
      rcases hwaits with ⟨-, hpending⟩ | ⟨hstarted, -⟩
      · exact .inr ⟨hpending, .inr rfl⟩
      · simp [hnot] at hstarted

theorem Stands.passes_moves (hm : m.Stands specs h) (hrun : m.isRunning = true)
    (hturns : m.turns = []) (hparked : m.parked = m.cpus.size) (hlive : m.live ≠ 0) {t : Nat}
    {due : List Waiter} {rest : EventQueue Waiter}
    (hpop : m.queue.pop? = some ((t, due), rest)) {s : Roster S}
    (hwoken : Roster.Woken g { m.roster with queue := rest, clock := ⟨t⟩ } due s)
    {m' : Machine g S} (hs : m'.roster = s.release due) : m.Passes m' := by
  obtain ⟨hturns', hidle, -, -, hrest⟩ := hwoken.places
  have hdue : m.due? = some (t, due) := by
    rw [due?, if_pos ⟨hrun, hturns, hparked, hlive⟩, hpop, Option.map_some]
  have hqueue : m'.queue = rest := (congrArg Roster.queue hs).trans hrest
  refine .moves hdue ?_ (hqueue.symm ▸ hpop) (hm.served hpop hwoken hs) (fun c => ?_)
    (congrArg Roster.idle hs) ((congrArg Roster.cpus hs).trans hwoken.cpus) fun pid hnot => ?_
  · exact (congrArg (fun r => r.clock.now) hs).trans (congrArg VirtualClock.now hwoken.clock)
  · have hreleased : m'.turns = s.turns ++ (cpusOf due ++ s.idle).mergeSort (· ≤ ·) :=
      congrArg Roster.turns hs
    have hnone : s.turns = [] := hturns'.trans hturns
    have hcpus : c ∈ cpusOf due ↔ .cpu c ∈ due := by
      refine List.mem_filterMap.trans ⟨?_, fun hmem => ⟨.cpu c, hmem, rfl⟩⟩
      rintro ⟨w, hw, hc⟩
      cases w <;> simp_all [Waiter.cpu?]
    rw [hreleased, hnone, List.nil_append, List.mem_mergeSort, List.mem_append, hcpus, hidle,
      or_comm]
    rfl
  · have hprocesses : m'.processes = s.processes := congrArg Roster.processes hs
    rw [hprocesses]
    exact hwoken.getElem?_of_not_mem hnot

theorem Stands.passes (hm : m.Stands specs h) (hl : (m.roster.life []).Sound)
    (hok : ∀ e, m.step.1.status ≠ .aborted e) : m.Passes m.step.1 := by
  have hstep := roster_step (Roster.manned hl)
  generalize hs : m.step.1.roster = s at hstep
  have hstatus : m.step.1.status = s.status := congrArg Roster.status hs
  cases hstep with
  | rests hrest =>
    refine .rests (if_neg ?_) (by rw [hs, hstatus])
    rintro ⟨hrun, hturns, hparked, -⟩
    exact (hrest (status_roster_eq_running.mpr hrun)).2 hparked
  | @turns c x s hrun hhead hx hmove =>
    have hdue : m.due? = none := due?_of_turns_ne_nil fun hnil => by
      change m.turns.head? = _ at hhead
      simp [hnil] at hhead
    have hcpus : m.step.1.cpus = s.cpus := congrArg Roster.cpus hs
    have hprocesses : m.step.1.processes = s.processes := congrArg Roster.processes hs
    refine .turns hdue ((congrArg Roster.clock hs).trans hmove.clock) hhead hx
      (hs ▸ hmove.books hx hhead) (fun i hi => ?_) fun pid p hp hwaits => ?_
    · rw [hcpus]
      exact hmove.getElem?_cpus_of_ne hi
    · rw [hprocesses]
      exact hmove.getElem?_of_waits (fun q u hcur hu => Roster.status_running hl hx hcur hu) hp
        hwaits
  | advances hrun hturns hparked hadvance =>
    cases hadvance with
    | finishes hlive => exact .rests (if_neg fun hall => hall.2.2.2 hlive) (by rw [hs, hstatus])
    | moves hlive hpop htick hwoken =>
      exact hm.passes_moves (status_roster_eq_running.mp hrun) hturns hparked hlive hpop hwoken hs
  | stops hrun hhead he habort => exact absurd (hstatus.trans habort) (hok _)
  | sticks hrun hturns hparked he habort => exact absurd (hstatus.trans habort) (hok _)

/-! What has been made, kept and executed. -/

omit [Scheduler S] in
theorem Stands.nodup_entries (hm : m.Stands specs h) (hr : m.roster.Seated n) :
    (m.queue.entries.map Prod.snd).Nodup := by
  rw [EventQueue.map_snd_entries]
  exact nodup_of_nodup_cpusOf (List.nodup_append.mp hr.nodup).2.1 hm.count_le_one

theorem perm_append_diff_of_perm_cons {α : Type} [BEq α] [LawfulBEq α] {l l' : List α} {a : α}
    (h : l'.Perm (a :: l)) : (l ++ l'.diff l).Perm l' := by
  refine List.perm_iff_count.mpr fun b => ?_
  have hcount := h.count_eq b
  rw [List.count_cons] at hcount
  rw [List.count_append, List.count_diff]
  omega

theorem diff_append_eq_nil {α : Type} [BEq α] [LawfulBEq α] (l old : List α) :
    l.diff (old ++ l) = [] := by
  refine List.Perm.eq_nil (List.perm_iff_count.mpr fun a => ?_)
  rw [List.count_diff, List.count_append, List.count_nil]
  omega

/-- What was in the queue or is made is kept or stays in the queue. -/
theorem Passes.perm (h : m.Passes m.step.1) :
    (m.queue.entries ++ m.made).Perm (m.kept ++ m.step.1.queue.entries) := by
  have hsame (hdue : m.due? = none) (hqueue : m.step.1.queue = m.queue) :
      (m.queue.entries ++ m.made).Perm (m.kept ++ m.step.1.queue.entries) := by
    have hmade : m.made = [] := by
      rw [made, hqueue]
      exact diff_append_eq_nil _ []
    rw [kept, hdue, hmade, hqueue, List.append_nil]
    exact .rfl
  cases h with
  | rests hdue hroster => exact hsame hdue (congrArg Roster.queue hroster)
  | turns hdue hclock hhead hx hbooks =>
    rcases hbooks.cases_queue with hqueue | ⟨t, w, hqueue, -⟩
    · exact hsame hdue hqueue
    · have hqueue' : m.step.1.queue = m.queue.schedule t w := hqueue
      rw [kept, hdue, made, hqueue']
      exact perm_append_diff_of_perm_cons (EventQueue.entries_schedule ..)
  | @moves t due hdue hclock hqueue hserved =>
    have hkept : m.kept = due.map fun w => (t, w) := by
      rw [kept, hdue, Option.map_some, Option.getD_some, hclock]
    rw [made, EventQueue.entries_of_pop? hqueue, diff_append_eq_nil, List.append_nil, hkept]

omit [Scheduler S] in
theorem Passes.mem_entries {m' : Machine g S} (h : m.Passes m') {t : Nat} {w : Waiter}
    (hmem : (t, w) ∈ m.queue.entries) : (t, w) ∈ m'.queue.entries ∨
      ∃ due, m.due? = some (t, due) ∧ w ∈ due ∧ m'.clock.now = t ∧ m.Served m' w := by
  cases h with
  | rests hdue hroster =>
    have hqueue : m'.queue = m.queue := congrArg Roster.queue hroster
    exact .inl (hqueue ▸ hmem)
  | turns hdue hclock hhead hx hbooks =>
    left
    rcases hbooks.cases_queue with hqueue | ⟨t', w', hqueue, -⟩
    · have hqueue' : m'.queue = m.queue := hqueue
      exact hqueue' ▸ hmem
    · have hqueue' : m'.queue = m.queue.schedule t' w' := hqueue
      rw [hqueue']
      exact (EventQueue.entries_schedule ..).symm.subset (List.mem_cons_of_mem _ hmem)
  | @moves t' due hdue hclock hqueue hserved =>
    rw [EventQueue.entries_of_pop? hqueue, List.mem_append] at hmem
    rcases hmem with hmem | hmem
    · obtain ⟨w', hw, heq⟩ := List.mem_map.mp hmem
      obtain ⟨rfl, rfl⟩ := Prod.mk.inj heq
      exact .inr ⟨due, hdue, hw, hclock, hserved _ hw⟩
    · exact .inl hmem

omit [Scheduler S] in
theorem filterMap_executedOn? (es : List Event) : es.filterMap Event.executedOn? =
    (es.filter Event.isDeed).filterMap Event.executedOn? := by
  rw [List.filterMap_filter]
  refine List.filterMap_congr fun e _ => ?_
  cases e <;> rfl

theorem Stands.executions_step (hm : m.Stands specs h) : m.executions = [] ∨
    ∃ c, m.turns.head? = some c ∧ m.executions = [(m.clock.now, c)] ∧ m.roster.Spends c := by
  rw [executions, filterMap_executedOn?]
  rcases hm.deeds_step with hnone | ⟨c, x, b, i, physical, hhead, hx, hphase, hdeeds⟩
  · rw [hnone]
    exact .inl rfl
  · rw [hdeeds]
    exact .inr ⟨c, hhead, rfl, x, b, i, hx, hphase⟩

theorem Stands.executions_of_head? (hm : m.Stands specs h) {c : Nat}
    (hhead : m.turns.head? = some c) :
    m.executions = [] ∨ m.executions = [(m.clock.now, c)] ∧ m.roster.Spends c := by
  refine hm.executions_step.imp_right ?_
  rintro ⟨d, hhead', hexecutions⟩
  rw [hhead] at hhead'
  obtain rfl := Option.some.inj hhead'
  exact hexecutions

theorem Stands.executions_eq_nil (hm : m.Stands specs h)
    (hnot : m.isRunning = true → m.turns = []) : m.executions = [] := by
  by_cases hrun : m.isRunning = true
  · refine hm.executions_step.resolve_right ?_
    rintro ⟨c, hhead, -⟩
    rw [hnot hrun] at hhead
    simp at hhead
  · rw [executions, step_of_not_isRunning (by simpa using hrun)]
    rfl

/-- How a machine stands after steps that were not aborted and executed these instructions. -/
structure InTime (m : Machine g S) (specs : List ProcessSpec) (cpus : Nat)
    (log : List (Nat × Nat)) : Prop where
  stands : ∃ h, m.Stands specs h
  life : (m.roster.life []).Sound
  seated : m.roster.Seated cpus
  timed : m.roster.Timed log

variable {cpus : Nat} {log : List (Nat × Nat)}

theorem InTime.pairwise_step (hm : m.InTime specs cpus log) :
    (log ++ m.executions).Pairwise (Prod.Lex (· < ·) (· < ·)) := by
  obtain ⟨h, hstands⟩ := hm.stands
  rcases hstands.executions_step with hnone | ⟨c, hhead, hone⟩
  · rw [hnone, List.append_nil]
    exact hm.timed.ascends
  · exact hm.timed.append hhead (.inr hone)

theorem InTime.timed_step (hm : m.InTime specs cpus log)
    (hok : ∀ e, m.step.1.status ≠ .aborted e) : m.step.1.roster.Timed (log ++ m.executions) := by
  obtain ⟨h, hstands⟩ := hm.stands
  have hstep := roster_step (Roster.manned hm.life)
  have hrests (hnot : m.isRunning = true → m.turns = []) : log ++ m.executions = log := by
    rw [hstands.executions_eq_nil hnot, List.append_nil]
  generalize hs : m.step.1.roster = s at hstep
  have hstatus : m.step.1.status = s.status := congrArg Roster.status hs
  cases hstep with
  | rests hrest =>
    rw [hrests fun hrun => (hrest (status_roster_eq_running.mpr hrun)).1]
    exact hm.timed
  | turns hrun hhead hx hmove =>
    exact hmove.timed hm.timed hx hhead (hstands.ticks_pos hx) (hstands.executions_of_head? hhead)
  | advances hrun hturns hparked hadvance =>
    rw [hrests fun _ => hturns]
    exact hadvance.timed hm.timed hm.seated hturns
  | stops hrun hhead he habort => exact absurd (hstatus.trans habort) (hok _)
  | sticks hrun hturns hparked he habort => exact absurd (hstatus.trans habort) (hok _)

theorem InTime.ahead_step (hm : m.InTime specs cpus log) (h : m.Passes m.step.1)
    (hahead : m.roster.Ahead ∨ m.due? ≠ none) : m.step.1.roster.Ahead := by
  obtain ⟨h', hstands⟩ := hm.stands
  cases h with
  | rests hdue hroster =>
    rw [hroster]
    exact hahead.resolve_right fun hne => hne hdue
  | turns hdue hclock hhead hx hbooks =>
    have hstays := hahead.resolve_right fun hne => hne hdue
    exact hbooks.ahead hstays (hstands.ticks_pos hx) hclock
  | moves hdue hclock hqueue hserved =>
    intro d hd
    change m.step.1.clock.now < d.1
    rw [hclock]
    exact (hm.timed.sorted.of_pop? hqueue).2 d hd

theorem InTime.not_warped (hm : m.InTime specs cpus log) (now tick : Nat) :
    m.step.1.status ≠ .aborted (.timeWarp now tick) := by
  have hstep := roster_step (Roster.manned hm.life)
  obtain ⟨h, hstands⟩ := hm.stands
  intro he
  have he' : m.step.1.roster.status = .aborted (.timeWarp now tick) := he
  generalize m.step.1.roster = s at hstep he'
  cases hstep with
  | rests hrest => exact hstands.inv.alive _ he'
  | turns hrun hhead hx hmove => exact hstands.inv.alive _ (hmove.status.symm.trans he')
  | advances hrun hturns hparked hadvance =>
    exact hadvance.status_ne hstands.inv.alive _ he'
  | stops hrun hhead hmisled hs =>
    obtain rfl := RunStatus.aborted.inj (hs.symm.trans he')
    exact hmisled
  | sticks hrun hturns hparked hstuck hs =>
    obtain rfl := RunStatus.aborted.inj (hs.symm.trans he')
    exact hm.timed.not_warped now tick hstuck

omit [Scheduler S] in
theorem timed_new (cpus : Nat) (useTlb : Bool) (policy : S) (specs : List ProcessSpec) :
    (new g cpus useTlb policy specs).roster.Timed [] := by
  refine ⟨?_, List.pairwise_lt_range, .nil, nofun, .inl ⟨⟨rfl, fun pid p hp => ?_, ?_⟩, rfl⟩⟩
  · exact EventQueue.sorted_foldl_schedule (fun x : ProcessSpec × Nat => x.1.start)
      (fun x => Waiter.process x.2) specs.zipIdx .nil
  · change (new g cpus useTlb policy specs).processes[pid]? = some p at hp
    rw [getElem?_processes_new] at hp
    obtain ⟨s, -, rfl⟩ := Option.map_eq_some_iff.mp hp
    rfl
  · intro c x hx
    change (new g cpus useTlb policy specs).cpus[c]? = some x at hx
    obtain rfl := cpus_new hx
    rfl

theorem alive_of_le {a b : Nat} (hle : a ≤ b) (hok : ∀ e, (m.stepN b).status ≠ .aborted e) :
    ∀ e, (m.stepN a).status ≠ .aborted e := by
  intro e he
  obtain ⟨more, rfl⟩ := Nat.exists_eq_add_of_le hle
  rw [stepN_add, stepN_of_not_isRunning (by rw [isRunning, he]; rfl)] at hok
  exact hok e he

theorem inTime_stepN (cpus : Nat) (useTlb : Bool) (policy : S) (specs : List ProcessSpec) (n : Nat)
    (hok : ∀ e, ((new g cpus useTlb policy specs).stepN n).status ≠ .aborted e) :
    ((new g cpus useTlb policy specs).stepN n).InTime specs cpus
      ((new g cpus useTlb policy specs).record executions n) := by
  induction n with
  | zero =>
    exact ⟨⟨[], stands_new cpus useTlb policy specs⟩, sound_life_new cpus useTlb policy specs,
      seated_new cpus useTlb policy specs, timed_new cpus useTlb policy specs⟩
  | succ n ih =>
    have hm := ih (alive_of_le (Nat.le_succ n) hok)
    obtain ⟨hlife, hseated⟩ := sound_stepN cpus useTlb policy specs (n + 1) hok
    refine ⟨⟨_, (stands_new cpus useTlb policy specs).stepN (n + 1) hok⟩, hlife, hseated, ?_⟩
    rw [stepN_succ] at hok ⊢
    rw [record_succ]
    exact hm.timed_step hok

section Run

variable (hm : ∀ n, (∀ e, (m.stepN n).status ≠ .aborted e) →
  (m.stepN n).InTime specs cpus (m.record executions n))

include hm

theorem passes_stepN (n : Nat) (hok : ∀ e, (m.stepN (n + 1)).status ≠ .aborted e) :
    (m.stepN n).Passes (m.stepN n).step.1 := by
  have hn := hm n (alive_of_le (Nat.le_succ n) hok)
  obtain ⟨h, hstands⟩ := hn.stands
  rw [stepN_succ] at hok
  exact hstands.passes hn.life hok

theorem perm_stepN (n : Nat) (hok : ∀ e, (m.stepN n).status ≠ .aborted e) :
    (m.queue.entries ++ m.record made n).Perm
      (m.record kept n ++ (m.stepN n).queue.entries) := by
  induction n with
  | zero => exact .of_eq (List.append_nil _)
  | succ n ih =>
    have hstep := (passes_stepN hm n hok).perm
    have hbefore := ih (alive_of_le (Nat.le_succ n) hok)
    rw [record_succ, record_succ, stepN_succ, ← List.append_assoc]
    refine (hbefore.append_right _).trans ?_
    rw [List.append_assoc, List.append_assoc]
    exact hstep.append_left _

theorem serves_stepN (k n t : Nat) (w : Waiter) (hle : k ≤ n)
    (hok : ∀ e, (m.stepN n).status ≠ .aborted e) (hmem : (t, w) ∈ (m.stepN k).queue.entries) :
    (t, w) ∈ (m.stepN n).queue.entries ∨ ∃ j, k ≤ j ∧ j < n ∧ ∃ due,
      (m.stepN j).due? = some (t, due) ∧ w ∈ due ∧ (m.stepN (j + 1)).clock.now = t ∧
        (m.stepN j).Served (m.stepN (j + 1)) w := by
  induction n, hle using Nat.le_induction with
  | base => exact .inl hmem
  | succ n hle ih =>
    rcases ih (alive_of_le (Nat.le_succ n) hok) with hwaits | ⟨j, hj, hlt, hserved⟩
    · rcases (passes_stepN hm n hok).mem_entries hwaits with hwaits | hserved
      · exact .inl (stepN_succ m n ▸ hwaits)
      · exact .inr ⟨n, hle, Nat.lt_succ_self n, stepN_succ m n ▸ hserved⟩
    · exact .inr ⟨j, hj, Nat.lt_succ_of_lt hlt, hserved⟩

theorem ahead_stepN (n : Nat) (hok : ∀ e, (m.stepN n).status ≠ .aborted e) :
    (m.stepN n).roster.Ahead ∨
      (m.stepN n).clock = m.clock ∧ ∀ k < n, (m.stepN k).due? = none := by
  induction n with
  | zero => exact .inr ⟨rfl, fun k hk => absurd hk (Nat.not_lt_zero k)⟩
  | succ n ih =>
    have hok' := alive_of_le (Nat.le_succ n) hok
    have hpasses := passes_stepN hm n hok
    rw [stepN_succ]
    rcases ih hok' with hahead | ⟨hclock, hnone⟩
    · exact .inl ((hm n hok').ahead_step hpasses (.inl hahead))
    · by_cases hdue : (m.stepN n).due? = none
      · refine .inr ⟨?_, fun k hk => ?_⟩
        · cases hpasses with
          | rests hdue' hroster => exact (congrArg Roster.clock hroster).trans hclock
          | turns hdue' hsame hhead hx hbooks => exact hsame.trans hclock
          | moves hdue' hmoved hqueue hserved => simp [hdue] at hdue'
        · rcases Nat.lt_succ_iff_lt_or_eq.mp hk with hlt | rfl
          · exact hnone k hlt
          · exact hdue
      · exact .inl ((hm n hok').ahead_step hpasses (.inr hdue))

theorem pairwise_stepN (n : Nat) :
    (m.record executions n).Pairwise (Prod.Lex (· < ·) (· < ·)) := by
  induction n with
  | zero => exact .nil
  | succ n ih =>
    rw [record_succ]
    by_cases hok : ∀ e, (m.stepN n).status ≠ .aborted e
    · exact (hm n hok).pairwise_step
    · obtain ⟨e, he⟩ := not_forall_not.mp hok
      rw [executions, step_of_not_isRunning (by rw [isRunning, he]; rfl)]
      exact (List.append_nil _).symm ▸ ih

theorem not_warped_stepN (halive : ∀ e, m.status ≠ .aborted e) (n now tick : Nat) :
    (m.stepN n).status ≠ .aborted (.timeWarp now tick) := by
  induction n with
  | zero => exact halive _
  | succ n ih =>
    rw [stepN_succ]
    by_cases hok : ∀ e, (m.stepN n).status ≠ .aborted e
    · exact (hm n hok).not_warped now tick
    · obtain ⟨e, he⟩ := not_forall_not.mp hok
      rwa [step_of_not_isRunning (by rw [isRunning, he]; rfl)]

theorem lt_of_due? {k n t : Nat} {due : List Waiter} (hk : k < n)
    (hmoved : (m.stepN k).due? ≠ none) (hdue : (m.stepN n).due? = some (t, due)) :
    (m.stepN n).clock.now < t := by
  obtain ⟨hrun, hpop⟩ := of_due?_eq_some hdue
  obtain ⟨rest, hpop⟩ := hpop
  rcases ahead_stepN hm n fun e he => by simp [isRunning, he] at hrun with hahead | ⟨-, hnone⟩
  · exact hahead (t, due) (by
      change (t, due) ∈ (m.stepN n).queue.pending
      rw [EventQueue.pending_of_pop? hpop]
      exact List.mem_cons_self)
  · exact absurd (hnone k hk) hmoved

end Run

end Machine

end DemandPaging
