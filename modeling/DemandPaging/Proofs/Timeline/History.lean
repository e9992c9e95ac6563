import DemandPaging.Proofs.Machine.Moved
import DemandPaging.Proofs.Pager.Reachable
import Mathlib.Data.List.DropRight
import Mathlib.Data.List.Pairwise
import Mathlib.Order.Bounds.Defs
/-!
The queue of waiters over a whole run of calls. What it holds for a tick is what the history of the
run has scheduled for it since it was last popped, in that order, so the queue answers from its
history alone. As long as nobody is scheduled for a tick before the last popped one, the ticks that
are popped ascend, and a clock can follow them.
-/

namespace DemandPaging

namespace EventQueue

open scoped List

variable {α : Type} {tick t u : Nat} {a : α} {due : List α}

inductive Call (α : Type) where
  | schedule (tick : Nat) (a : α)
  | pop

inductive Record (α : Type) where
  | scheduled (tick : Nat) (a : α)
  | popped (answer : Option (Nat × List α))

namespace Record

@[simp] def entry? : Record α → Option (Nat × α)
  | scheduled tick a => some (tick, a)
  | popped _ => none

@[simp] def due? : Record α → Option (Nat × List α)
  | scheduled .. => none
  | popped answer => answer

def pops (t : Nat) (r : Record α) : Bool := r.due?.any fun d => d.1 = t

end Record

def waitersAt (t : Nat) (es : List (Nat × α)) : List α := (es.filter fun e => e.1 = t).map Prod.snd

section History

variable (h : List (Record α))

def scheduled : List (Nat × α) := h.filterMap Record.entry?

def popped : List (Nat × List α) := h.filterMap Record.due?

def poppedTicks : List Nat := (popped h).map Prod.fst

def released : List (Nat × α) := (popped h).flatMap fun d => d.2.map fun a => (d.1, a)

/-- Everybody scheduled for a tick since it was last popped, in that order. -/
def waiting (t : Nat) : List α := waitersAt t (scheduled (h.rtakeWhile fun r => !r.pops t))

/-- Nobody is scheduled for a tick before the last popped one. -/
def InTime : Prop := ∀ earlier tick a later, h = earlier ++ .scheduled tick a :: later →
  ∀ u ∈ (poppedTicks earlier).getLast?, u ≤ tick

end History

structure Session (α : Type) where
  history : List (Record α) := []
  queue : EventQueue α := {}

def Session.play (s : Session α) : Call α → Session α
  | .schedule tick a => ⟨s.history ++ [.scheduled tick a], s.queue.schedule tick a⟩
  | .pop =>
    match s.queue.pop? with
    | none => ⟨s.history ++ [.popped none], s.queue⟩
    | some (due, rest) => ⟨s.history ++ [.popped (some due)], rest⟩

def session (calls : List (Call α)) : Session α := calls.foldl .play {}

theorem session_concat (calls : List (Call α)) (c : Call α) :
    session (calls ++ [c]) = (session calls).play c := by
  rw [session, List.foldl_append]
  rfl

/-! The waiters of a tick. -/

theorem waitersAt_append (es fs : List (Nat × α)) :
    waitersAt t (es ++ fs) = waitersAt t es ++ waitersAt t fs := by
  simp [waitersAt]

theorem waitersAt_map (as : List α) :
    waitersAt t (as.map fun a => (u, a)) = if u = t then as else [] := by
  by_cases h : u = t <;> simp [waitersAt, h, List.filter_map, Function.comp_def]

theorem waitersAt_singleton : waitersAt t [(u, a)] = if u = t then [a] else [] :=
  waitersAt_map [a]

theorem waitersAt_cons (d : Nat × List α) (l : List (Nat × List α)) :
    waitersAt t (entries ⟨d :: l⟩) =
      (if d.1 = t then d.2 else []) ++ waitersAt t (entries ⟨l⟩) := by
  rw [← waitersAt_map d.2, ← waitersAt_append]
  rfl

theorem waitersAt_eq_nil {l : List (Nat × List α)} (h : ∀ d ∈ l, d.1 ≠ t) :
    waitersAt t (entries ⟨l⟩) = [] := by
  induction l with
  | nil => rfl
  | cons d l ih =>
    rw [waitersAt_cons, if_neg (h d List.mem_cons_self), ih fun e he => h e (.tail d he)]
    rfl

theorem waitersAt_insert {l : List (Nat × List α)} (h : l.Pairwise fun d e => d.1 < e.1) :
    waitersAt t (entries ⟨insert tick a l⟩) =
      waitersAt t (entries ⟨l⟩) ++ waitersAt t [(tick, a)] := by
  rw [waitersAt_singleton]
  induction l with
  | nil => exact waitersAt_singleton
  | cons d l ih =>
    obtain ⟨hd, hl⟩ := List.pairwise_cons.mp h
    unfold insert
    split
    · next hlt =>
      rw [waitersAt_cons]
      split
      · next heq =>
        have hnone : waitersAt t (entries ⟨d :: l⟩) = [] := by
          refine waitersAt_eq_nil fun e he => ?_
          rcases List.mem_cons.mp he with rfl | he
          · omega
          · have hlater := hd e he
            omega
        rw [hnone]
        rfl
      · rw [List.append_nil]
        rfl
    · split
      · next heq =>
        rw [waitersAt_cons, waitersAt_cons, heq]
        split
        · next ht =>
          have hnone : waitersAt t (entries ⟨l⟩) = [] := by
            refine waitersAt_eq_nil fun e he => ?_
            have hlater := hd e he
            omega
          rw [hnone, List.append_nil, List.append_nil]
        · rw [List.append_nil]
      · rw [waitersAt_cons, waitersAt_cons, ih hl, List.append_assoc]

theorem ne_nil_of_mem_insert {l : List (Nat × List α)} (h : ∀ d ∈ l, d.2 ≠ []) :
    ∀ d ∈ insert tick a l, d.2 ≠ [] := by
  induction l with
  | nil => simp [insert]
  | cons d l ih =>
    obtain ⟨hd, hl⟩ := List.forall_mem_cons.mp h
    unfold insert
    split
    · exact List.forall_mem_cons.mpr ⟨by simp, h⟩
    · split
      · exact List.forall_mem_cons.mpr ⟨by simp, hl⟩
      · exact List.forall_mem_cons.mpr ⟨hd, ih hl⟩

/-! What a record adds to the history. -/

section Records

variable (h : List (Record α))

theorem scheduled_concat (r : Record α) :
    scheduled (h ++ [r]) = scheduled h ++ r.entry?.toList := by
  rw [scheduled, List.filterMap_append]
  cases r <;> rfl

theorem popped_concat (r : Record α) : popped (h ++ [r]) = popped h ++ r.due?.toList := by
  rw [popped, List.filterMap_append]
  rcases r with _ | _ | _ <;> rfl

theorem poppedTicks_concat (r : Record α) :
    poppedTicks (h ++ [r]) = poppedTicks h ++ (r.due?.map Prod.fst).toList := by
  rw [poppedTicks, popped_concat, List.map_append]
  cases r.due? <;> rfl

theorem released_concat (r : Record α) : released (h ++ [r]) =
    released h ++ r.due?.toList.flatMap fun d => d.2.map fun a => (d.1, a) := by
  rw [released, popped_concat, List.flatMap_append]
  rfl

theorem waiting_concat (r : Record α) : waiting (h ++ [r]) t =
    if r.pops t then [] else waiting h t ++ waitersAt t r.entry?.toList := by
  rw [waiting, List.rtakeWhile_concat]
  cases r.pops t with
  | true => rfl
  | false =>
    rw [Bool.not_false, if_pos rfl, scheduled_concat, waitersAt_append]
    rfl

end Records

/-! What a run of calls keeps. -/

/-- The queue holds what its history says. -/
structure Session.Sound (s : Session α) : Prop where
  sorted : s.queue.Sorted
  ne_nil : ∀ d ∈ s.queue.pending, d.2 ≠ []
  held : ∀ t, waitersAt t s.queue.entries = waiting s.history t
  conserved : released s.history ++ s.queue.entries ~ scheduled s.history

theorem play_pop_none {s : Session α} (h : s.queue.pop? = none) :
    s.play .pop = ⟨s.history ++ [.popped none], s.queue⟩ := by
  rw [Session.play, h]

theorem play_pop_some {s : Session α} {rest : EventQueue α}
    (h : s.queue.pop? = some ((tick, due), rest)) :
    s.play .pop = ⟨s.history ++ [.popped (some (tick, due))], rest⟩ := by
  rw [Session.play, h]

theorem Session.exists_history_play (s : Session α) (c : Call α) :
    ∃ r, (s.play c).history = s.history ++ [r] := by
  cases c with
  | schedule tick a => exact ⟨_, rfl⟩
  | pop =>
    cases hpop : s.queue.pop? with
    | none => exact ⟨_, by rw [play_pop_none hpop]⟩
    | some answer => exact ⟨_, by rw [play_pop_some hpop]⟩

theorem Sorted.waitersAt_of_pop? {q rest : EventQueue α} (hq : q.Sorted)
    (h : q.pop? = some ((tick, due), rest)) (t : Nat) :
    waitersAt t rest.entries = if tick = t then [] else waitersAt t q.entries := by
  rw [entries_of_pop? h, waitersAt_append, waitersAt_map]
  split
  · next ht =>
    refine waitersAt_eq_nil fun d hd => ?_
    have hlater := (hq.of_pop? h).2 d hd
    omega
  · rfl

theorem Session.Sound.schedule {s : Session α} (hs : s.Sound) (tick : Nat) (a : α) :
    (s.play (.schedule tick a)).Sound := by
  rw [Session.play]
  refine ⟨hs.sorted.schedule tick a, ne_nil_of_mem_insert hs.ne_nil, fun t => ?_, ?_⟩
  · rw [waiting_concat, ← hs.held]
    exact waitersAt_insert hs.sorted
  · have hentry := s.queue.entries_schedule tick a
    rw [released_concat, scheduled_concat]
    simp only [Record.due?, Record.entry?, Option.toList_none, Option.toList_some,
      List.flatMap_nil, List.append_nil]
    calc released s.history ++ (s.queue.schedule tick a).entries
      _ ~ released s.history ++ (tick, a) :: s.queue.entries := hentry.append_left _
      _ ~ (tick, a) :: (released s.history ++ s.queue.entries) := List.perm_middle
      _ ~ (tick, a) :: scheduled s.history := hs.conserved.cons _
      _ ~ scheduled s.history ++ [(tick, a)] := (List.perm_append_singleton ..).symm

theorem Session.Sound.pop {s : Session α} (hs : s.Sound) : (s.play .pop).Sound := by
  cases hpop : s.queue.pop? with
  | none =>
    rw [play_pop_none hpop]
    refine ⟨hs.sorted, hs.ne_nil, fun t => ?_, ?_⟩
    · rw [waiting_concat, hs.held]
      simp [Record.pops, waitersAt]
    · rw [released_concat, scheduled_concat]
      simpa using hs.conserved
  | some answer =>
    obtain ⟨⟨tick, due⟩, rest⟩ := answer
    have hpending := pending_of_pop? hpop
    have hentries := entries_of_pop? hpop
    rw [play_pop_some hpop]
    refine ⟨(hs.sorted.of_pop? hpop).1, fun d hd => ?_, fun t => ?_, ?_⟩
    · exact hs.ne_nil d (hpending ▸ .tail _ hd)
    · rw [waiting_concat, hs.sorted.waitersAt_of_pop? hpop, hs.held]
      by_cases ht : tick = t <;> simp [Record.pops, ht, waitersAt]
    · have hconserved := hs.conserved
      rw [hentries, ← List.append_assoc] at hconserved
      rw [released_concat, scheduled_concat]
      simpa using hconserved

theorem sound_session (calls : List (Call α)) : (session calls).Sound := by
  induction calls using List.reverseRecOn with
  | nil => exact ⟨.nil, by simp [session], fun t => rfl, .nil⟩
  | append_singleton calls c ih =>
    rw [session_concat]
    cases c with
    | schedule tick a => exact ih.schedule tick a
    | pop => exact ih.pop

/-! What the queue answers. -/

theorem size_eq (q : EventQueue α) : q.size = q.entries.length := by
  simp only [size, entries, List.length_flatMap, List.length_map]

structure Session.Ordered (s : Session α) : Prop where
  pop_none : s.queue.pop? = none ↔ ∀ t, waiting s.history t = []
  pop_some : ∀ tick due rest, s.queue.pop? = some ((tick, due), rest) →
    IsLeast {t | waiting s.history t ≠ []} tick ∧ due = waiting s.history tick ∧
      s.queue.entries = due.map (fun a => (tick, a)) ++ rest.entries ∧
      ∀ t, waitersAt t rest.entries = if tick = t then [] else waiting s.history t
  held : ∀ t, waitersAt t s.queue.entries = waiting s.history t
  conserved : released s.history ++ s.queue.entries ~ scheduled s.history
  size : s.queue.size = s.queue.entries.length
  isEmpty : s.queue.isEmpty ↔ ∀ t, waiting s.history t = []
  nextTick : ∀ tick, s.queue.nextTick? = some tick ↔ IsLeast {t | waiting s.history t ≠ []} tick

theorem Session.Sound.waiting_ne_nil_iff {s : Session α} (hs : s.Sound) :
    waiting s.history t ≠ [] ↔ ∃ d ∈ s.queue.pending, d.1 = t := by
  rw [← hs.held]
  constructor
  · intro hwait
    by_contra hnone
    exact hwait (waitersAt_eq_nil fun d hd ht => hnone ⟨d, hd, ht⟩)
  · rintro ⟨d, hd, rfl⟩ hnil
    obtain ⟨a, ha⟩ := List.exists_mem_of_ne_nil _ (hs.ne_nil d hd)
    have hentry : (d.1, a) ∈ s.queue.entries := mem_entries.mpr ⟨d, hd, rfl, ha⟩
    simp only [waitersAt, List.map_eq_nil_iff, List.filter_eq_nil_iff] at hnil
    exact hnil _ hentry (decide_eq_true rfl)

theorem Session.Sound.isLeast {s : Session α} (hs : s.Sound) {d : Nat × List α}
    {l : List (Nat × List α)} (h : s.queue.pending = d :: l) :
    IsLeast {t | waiting s.history t ≠ []} d.1 := by
  have hsorted := hs.sorted
  rw [Sorted, h, List.pairwise_cons] at hsorted
  constructor
  · exact hs.waiting_ne_nil_iff.mpr ⟨d, h ▸ List.mem_cons_self, rfl⟩
  · intro t ht
    obtain ⟨e, he, rfl⟩ := hs.waiting_ne_nil_iff.mp ht
    rw [h] at he
    rcases List.mem_cons.mp he with rfl | he
    · exact Nat.le_refl _
    · exact Nat.le_of_lt (hsorted.1 e he)

theorem Session.Sound.pending_eq_nil_iff {s : Session α} (hs : s.Sound) :
    s.queue.pending = [] ↔ ∀ t, waiting s.history t = [] := by
  constructor
  · intro hnil t
    by_contra hwait
    obtain ⟨d, hd, -⟩ := hs.waiting_ne_nil_iff.mp hwait
    simp [hnil] at hd
  · intro hall
    cases hpending : s.queue.pending with
    | nil => rfl
    | cons d l => exact absurd (hall d.1) (hs.isLeast hpending).1

theorem Session.Sound.nextTick?_eq_some {s : Session α} (hs : s.Sound) :
    s.queue.nextTick? = some tick ↔ IsLeast {t | waiting s.history t ≠ []} tick := by
  rw [nextTick?]
  cases hpending : s.queue.pending with
  | nil =>
    have hnone := hs.pending_eq_nil_iff.mp hpending
    simp [IsLeast, hnone]
  | cons d l =>
    have hleast := hs.isLeast hpending
    constructor
    · intro hsome
      exact Option.some.inj hsome ▸ hleast
    · intro htick
      exact congrArg some (hleast.unique htick)

theorem Session.Sound.ordered {s : Session α} (hs : s.Sound) : s.Ordered where
  pop_none := pop?_eq_none.trans hs.pending_eq_nil_iff
  pop_some tick due rest hpop := by
    have hrest := hs.sorted.waitersAt_of_pop? hpop
    have hentries := entries_of_pop? hpop
    refine ⟨hs.isLeast (pending_of_pop? hpop), ?_, hentries, fun t => ?_⟩
    · have hnone := hrest tick
      rw [if_pos rfl] at hnone
      rw [← hs.held, hentries, waitersAt_append, waitersAt_map, if_pos rfl, hnone, List.append_nil]
    · rw [hrest, hs.held]
  held := hs.held
  conserved := hs.conserved
  size := s.queue.size_eq
  isEmpty := List.isEmpty_iff.trans hs.pending_eq_nil_iff
  nextTick _ := hs.nextTick?_eq_some

/-! Time. -/

theorem inTime_concat {h : List (Record α)} {r : Record α} : InTime (h ++ [r]) ↔
    InTime h ∧ ∀ e ∈ r.entry?, ∀ u ∈ (poppedTicks h).getLast?, u ≤ e.1 := by
  constructor
  · intro hin
    constructor
    · intro earlier tick a later heq
      exact hin earlier tick a (later ++ [r]) (by rw [heq]; simp)
    · intro e he
      cases r with
      | scheduled tick a => exact Option.some.inj he ▸ hin h tick a [] rfl
      | popped answer => cases he
  · rintro ⟨hin, hlast⟩ earlier tick a later heq
    rcases List.eq_nil_or_concat later with rfl | ⟨later, r', rfl⟩
    · obtain ⟨rfl, hr⟩ := List.append_inj' heq rfl
      obtain rfl := List.singleton_inj.mp hr
      exact hlast (tick, a) rfl
    · have hsplit : h ++ [r] = (earlier ++ .scheduled tick a :: later) ++ [r'] := by simpa using heq
      exact hin earlier tick a later (List.append_inj' hsplit rfl).1

/-- What was popped, and then what is held, ascends. -/
structure Session.Ascends (s : Session α) : Prop where
  popped : (poppedTicks s.history).Pairwise (· ≤ ·)
  ahead : ∀ u ∈ poppedTicks s.history, ∀ d ∈ s.queue.pending, u ≤ d.1

theorem Session.Ascends.schedule {s : Session α} (hs : s.Ascends)
    (hin : ∀ u ∈ (poppedTicks s.history).getLast?, u ≤ tick) (a : α) :
    (s.play (.schedule tick a)).Ascends := by
  have hsame : poppedTicks (s.history ++ [.scheduled tick a]) = poppedTicks s.history := by
    simp [poppedTicks_concat]
  rw [Session.play]
  refine ⟨hsame ▸ hs.popped, fun u hu d hd => ?_⟩
  rw [hsame] at hu
  rcases mem_insert hd with htick | hd
  · have hlast := hs.popped.rel_getLast hu
    have hle := hin _ (List.getLast?_eq_getLast_of_ne_nil (List.ne_nil_of_mem hu))
    omega
  · exact hs.ahead u hu d hd

theorem Session.Ascends.pop {s : Session α} (hs : s.Ascends) (hsorted : s.queue.Sorted) :
    (s.play .pop).Ascends := by
  cases hpop : s.queue.pop? with
  | none =>
    have hsame : poppedTicks (s.history ++ [.popped none]) = poppedTicks s.history := by
      simp [poppedTicks_concat]
    rw [play_pop_none hpop]
    exact ⟨hsame ▸ hs.popped, hsame ▸ hs.ahead⟩
  | some answer =>
    obtain ⟨⟨tick, due⟩, rest⟩ := answer
    have hpending := pending_of_pop? hpop
    have hmore : poppedTicks (s.history ++ [.popped (some (tick, due))]) =
        poppedTicks s.history ++ [tick] := by simp [poppedTicks_concat]
    have hle (u : Nat) (hu : u ∈ poppedTicks s.history) : u ≤ tick :=
      hs.ahead u hu (tick, due) (hpending ▸ List.mem_cons_self)
    rw [play_pop_some hpop]
    refine ⟨?_, fun u hu d hd => ?_⟩
    · rw [hmore]
      exact List.pairwise_append.mpr ⟨hs.popped, List.pairwise_singleton .., by simpa using hle⟩
    · rw [hmore, List.mem_append, List.mem_singleton] at hu
      have hlater := (hsorted.of_pop? hpop).2 d hd
      rcases hu with hu | rfl
      · have hbefore := hle u hu
        omega
      · omega

theorem ascends_session {calls : List (Call α)} (hin : InTime (session calls).history) :
    (session calls).Ascends := by
  induction calls using List.reverseRecOn with
  | nil => exact ⟨.nil, nofun⟩
  | append_singleton calls c ih =>
    rw [session_concat] at hin ⊢
    cases c with
    | schedule tick a =>
      obtain ⟨hbefore, hlast⟩ := inTime_concat.mp hin
      exact (ih hbefore).schedule (hlast (tick, a) rfl) a
    | pop =>
      obtain ⟨r, hr⟩ := (session calls).exists_history_play .pop
      rw [hr] at hin
      exact (ih (inTime_concat.mp hin).1).pop (sound_session calls).sorted

end EventQueue

namespace VirtualClock

theorem foldlM_advance? {ticks : List Nat} (h : ticks.Pairwise (· ≤ ·)) (c : VirtualClock)
    (hc : ∀ t ∈ ticks, c.now ≤ t) :
    ticks.foldlM advance? c = some ⟨ticks.getLast?.getD c.now⟩ := by
  induction ticks generalizing c with
  | nil => rfl
  | cons t ticks ih =>
    obtain ⟨ht, hticks⟩ := List.pairwise_cons.mp h
    have hmove : c.advance? t = some ⟨t⟩ :=
      advance?_eq_some.mpr ⟨hc t List.mem_cons_self, rfl⟩
    rw [List.foldlM_cons, hmove, Option.bind_eq_bind, Option.bind_some, ih hticks ⟨t⟩ ht,
      List.getLast?_cons]
    rfl

end VirtualClock

namespace Machine

open DemandPaging.Action

variable {g : Geometry} {S : Type} [Scheduler S] {m : Machine g S} {tick : Nat}

theorem run_advance_of_past {due : List Waiter} {rest : EventQueue Waiter} (hlive : m.live ≠ 0)
    (hpop : m.queue.pop? = some ((tick, due), rest)) (hpast : tick < m.clock.now) :
    (advance : Running g S Unit).run m =
      ⟨.error (.error (.timeWarp m.clock.now tick)), { m with queue := rest }, []⟩ := by
  have hclock : m.clock.advance? tick = none := VirtualClock.advance?_eq_none.mpr hpast
  simp [advance, hlive, time, hpop, hclock]

/-- A machine whose clock is told of a tick in its past keeps the clock. -/
def KeepsClock (m : Machine g S) : Prop := ∀ now tick,
  ((advance : Running g S Unit).run m).answer = .error (.error (.timeWarp now tick)) →
    ((advance : Running g S Unit).run m).state.clock = m.clock ∧ now = m.clock.now ∧ tick < now

theorem keepsClock (m : Machine g S) : m.KeepsClock := by
  intro now tick h
  by_cases hlive : m.live = 0
  · simp [advance, hlive] at h
  · have hmoves := moves_advance (g := g) m rfl
    have hstuck : m.roster.Stuck (.error (.timeWarp now tick)) := by
      rcases hrun : (advance : Running g S Unit).run m with ⟨answer, m', events⟩
      rw [hrun] at h
      subst h
      exact hmoves.of_error hrun
    obtain ⟨past, due, rest, hpop, hpast⟩ := hstuck
    have hrun := run_advance_of_past hlive hpop hpast
    rw [hrun] at h ⊢
    obtain ⟨rfl, rfl⟩ : m.clock.now = now ∧ past = tick := by simpa using h
    exact ⟨rfl, rfl, hpast⟩

end Machine

namespace EventQueue

/-- The ticks that were popped never descend, and a clock that starts before them follows. -/
structure Session.Followed (s : Session α) : Prop where
  ascending : (poppedTicks s.history).Pairwise (· ≤ ·)
  followed : ∀ c : VirtualClock, (∀ t ∈ poppedTicks s.history, c.now ≤ t) →
    (poppedTicks s.history).foldlM VirtualClock.advance? c =
      some ⟨(poppedTicks s.history).getLast?.getD c.now⟩

/-- However the calls are interleaved, a pop takes out all who wait for the least tick, in the order
of their calls, and a clock can follow if nobody is scheduled too late. -/
theorem serves_in_tick_order {α : Type} {g : Geometry} {S : Type} [Scheduler S]
    (calls : List (Call α)) (m : Machine g S) :
    (session calls).Ordered ∧ (InTime (session calls).history → (session calls).Followed) ∧
      (∀ (c : VirtualClock) tick, c.advance? tick = none ↔ tick < c.now) ∧ m.KeepsClock := by
  refine ⟨(sound_session calls).ordered, fun hin => ?_, fun _ _ => VirtualClock.advance?_eq_none,
    m.keepsClock⟩
  have hascending := (ascends_session hin).popped
  exact ⟨hascending, VirtualClock.foldlM_advance? hascending⟩

def renewed : List (Call Char) :=
  [.schedule 3 'b', .schedule 1 'a', .schedule 3 'c', .pop, .pop, .schedule 3 'd']

def overdue : Machine Pager.oneFrame RoundRobin :=
  { Machine.new Pager.oneFrame 1 false {} [] with
    clock := ⟨5⟩, live := 1, queue := EventQueue.schedule {} 2 (.cpu 0) }

theorem serves_in_tick_order_renewed :
    popped (session renewed).history = [(1, ['a']), (3, ['b', 'c'])] ∧
      IsLeast {t | waiting (session renewed).history t ≠ []} 3 ∧
      waiting (session renewed).history 3 = ['d'] ∧
      (poppedTicks (session renewed).history).foldlM VirtualClock.advance? {} = some ⟨3⟩ ∧
      (Action.run Machine.advance overdue).state.clock = ⟨5⟩ := by
  have hin : InTime (session renewed).history := by
    have hhistory : (session renewed).history = [] ++ [.scheduled 3 'b'] ++ [.scheduled 1 'a'] ++
        [.scheduled 3 'c'] ++ [.popped (some (1, ['a']))] ++ [.popped (some (3, ['b', 'c']))] ++
        [.scheduled 3 'd'] := rfl
    rw [hhistory]
    simp only [inTime_concat]
    exact ⟨⟨⟨⟨⟨⟨by simp [InTime], by decide⟩, by decide⟩, by decide⟩, by decide⟩, by decide⟩,
      by decide⟩
  have hpop : (session renewed).queue.pop? = some ((3, ['d']), {}) := rfl
  obtain ⟨hordered, hfollowed, -, hclock⟩ := serves_in_tick_order renewed overdue
  obtain ⟨hleast, hdue, -, -⟩ := hordered.pop_some 3 ['d'] {} hpop
  exact ⟨rfl, hleast, hdue.symm, (hfollowed hin).followed {} (by decide), (hclock 5 2 rfl).1⟩

end EventQueue

end DemandPaging
