import DemandPaging.Timeline
import Mathlib.Data.List.Perm.Basic
/-!
When the clock moves, and the queue of waiters as a timetable. A waiter that is added is entered
once under its tick, and what leaves the queue are the entries of its earliest tick, all of them.
-/

namespace DemandPaging

namespace VirtualClock

theorem advance?_eq_some {c d : VirtualClock} {tick : Nat} :
    c.advance? tick = some d ↔ c.now ≤ tick ∧ d = ⟨tick⟩ := by
  unfold advance?
  split
  · next hlt => simp [Nat.not_le.mpr hlt]
  · next hle => simp [Nat.not_lt.mp hle, eq_comm]

theorem advance?_eq_none {c : VirtualClock} {tick : Nat} :
    c.advance? tick = none ↔ tick < c.now := by
  unfold advance?
  split
  · next hlt => simp [hlt]
  · next hle => simp [hle]

end VirtualClock

namespace EventQueue

variable {α : Type} {q rest : EventQueue α} {tick : Nat} {due : List α}

/-- The waiters, each with its tick, in the order in which they are released. -/
def entries (q : EventQueue α) : List (Nat × α) :=
  q.pending.flatMap fun d => d.2.map fun a => (d.1, a)

def Sorted (q : EventQueue α) : Prop := q.pending.Pairwise fun d e => d.1 < e.1

theorem mem_entries {e : Nat × α} : e ∈ q.entries ↔ ∃ d ∈ q.pending, d.1 = e.1 ∧ e.2 ∈ d.2 := by
  obtain ⟨t, a⟩ := e
  simp only [entries, List.mem_flatMap, List.mem_map, Prod.mk.injEq]
  constructor
  · rintro ⟨d, hd, b, hb, ht, rfl⟩
    exact ⟨d, hd, ht, hb⟩
  · rintro ⟨d, hd, ht, ha⟩
    exact ⟨d, hd, a, ha, ht, rfl⟩

theorem perm_entries_insert (tick : Nat) (a : α) (l : List (Nat × List α)) :
    (entries ⟨insert tick a l⟩).Perm ((tick, a) :: entries ⟨l⟩) := by
  induction l with
  | nil => exact .rfl
  | cons d l ih =>
    unfold insert
    split
    · exact .rfl
    · split
      · next heq =>
        subst heq
        simp only [entries, List.flatMap_cons, List.map_append, List.append_assoc]
        exact List.perm_middle
      · exact (ih.append_left _).trans List.perm_middle

theorem entries_schedule (q : EventQueue α) (tick : Nat) (a : α) :
    (q.schedule tick a).entries.Perm ((tick, a) :: q.entries) :=
  perm_entries_insert tick a q.pending

theorem mem_insert {d : Nat × List α} {a : α} {l : List (Nat × List α)}
    (hd : d ∈ insert tick a l) : d.1 = tick ∨ d ∈ l := by
  induction l with
  | nil => exact .inl (congrArg Prod.fst (List.mem_singleton.mp hd))
  | cons e l ih =>
    unfold insert at hd
    split at hd
    · rcases List.mem_cons.mp hd with rfl | hd
      · exact .inl rfl
      · exact .inr hd
    · split at hd
      · next heq =>
        rcases List.mem_cons.mp hd with rfl | hd
        · exact .inl heq.symm
        · exact .inr (List.mem_cons_of_mem _ hd)
      · rcases List.mem_cons.mp hd with rfl | hd
        · exact .inr List.mem_cons_self
        · exact (ih hd).imp_right (List.mem_cons_of_mem _)

theorem pairwise_insert (tick : Nat) (a : α) {l : List (Nat × List α)}
    (h : l.Pairwise fun d e => d.1 < e.1) :
    (insert tick a l).Pairwise fun d e => d.1 < e.1 := by
  induction l with
  | nil => exact List.pairwise_singleton ..
  | cons d l ih =>
    obtain ⟨hd, hl⟩ := List.pairwise_cons.mp h
    unfold insert
    split
    · next hlt =>
      refine List.pairwise_cons.mpr ⟨fun e he => ?_, h⟩
      rcases List.mem_cons.mp he with rfl | he
      · exact hlt
      · exact Nat.lt_trans hlt (hd e he)
    · next hge =>
      split
      · exact List.pairwise_cons.mpr ⟨hd, hl⟩
      · next hne =>
        refine List.pairwise_cons.mpr ⟨fun e he => ?_, ih hl⟩
        rcases mem_insert he with htick | he
        · rw [htick]
          exact Nat.lt_of_le_of_ne (Nat.not_lt.mp hge) (Ne.symm hne)
        · exact hd e he

theorem Sorted.schedule (h : q.Sorted) (tick : Nat) (a : α) : (q.schedule tick a).Sorted :=
  pairwise_insert tick a h

theorem sorted_foldl_schedule {β : Type} (tick : β → Nat) (waiter : β → α) (l : List β)
    (h : q.Sorted) : (l.foldl (fun q b => q.schedule (tick b) (waiter b)) q).Sorted := by
  induction l generalizing q with
  | nil => exact h
  | cons b l ih => exact ih (h.schedule _ _)

theorem perm_entries_foldl_schedule {β : Type} (tick : β → Nat) (waiter : β → α) (l : List β)
    (q : EventQueue α) : (l.foldl (fun q b => q.schedule (tick b) (waiter b)) q).entries.Perm
      (l.map (fun b => (tick b, waiter b)) ++ q.entries) := by
  induction l generalizing q with
  | nil => exact .rfl
  | cons b l ih =>
    refine (ih _).trans ?_
    exact ((q.entries_schedule _ _).append_left _).trans List.perm_middle

/-! What leaves the queue. -/

theorem pending_of_pop? (h : q.pop? = some ((tick, due), rest)) :
    q.pending = (tick, due) :: rest.pending := by
  unfold pop? at h
  split at h
  · simp at h
  · next d l hq =>
    obtain ⟨rfl, rfl⟩ := Prod.mk.inj (Option.some.inj h)
    exact hq

theorem pop?_eq_none : q.pop? = none ↔ q.pending = [] := by
  unfold pop?
  split <;> simp_all

theorem entries_of_pop? (h : q.pop? = some ((tick, due), rest)) :
    q.entries = due.map (fun a => (tick, a)) ++ rest.entries := by
  rw [entries, pending_of_pop? h, List.flatMap_cons]
  rfl

theorem not_mem_of_pop? (hnodup : (q.entries.map Prod.snd).Nodup)
    (h : q.pop? = some ((tick, due), rest)) {t : Nat} {a : α} (hmem : (t, a) ∈ rest.entries) :
    a ∉ due := by
  rw [entries_of_pop? h, List.map_append, List.map_map] at hnodup
  have hdisjoint := (List.nodup_append.mp hnodup).2.2
  intro ha
  exact hdisjoint a (List.mem_map.mpr ⟨a, ha, rfl⟩) a (List.mem_map.mpr ⟨_, hmem, rfl⟩) rfl

theorem Sorted.of_pop? (hq : q.Sorted) (h : q.pop? = some ((tick, due), rest)) :
    rest.Sorted ∧ ∀ d ∈ rest.pending, tick < d.1 := by
  rw [Sorted, pending_of_pop? h] at hq
  obtain ⟨hlater, hsorted⟩ := List.pairwise_cons.mp hq
  exact ⟨hsorted, hlater⟩

end EventQueue

end DemandPaging
