import DemandPaging.Proofs.Action
import DemandPaging.Proofs.PageTable
/-!
Requests for pages. A request that does not fit the address space is refused, one that meets an
allocated page fails at the lowest of them, and any other allocates its pages and no more. Only a
request that is granted changes the address space, and the sums it needs fit in 64 bits.
-/

namespace DemandPaging

theorem Number.any_add?_le {a b c : Nat} (hc : c < wordBound) :
    (Number.add? a b).any (· ≤ c) = decide (a + b ≤ c) := by
  unfold Number.add?
  split
  · rfl
  · next h => exact (decide_eq_false fun hle => h (Nat.lt_of_le_of_lt hle hc)).symm

namespace AddressSpace

variable {g : Geometry} {s : AddressSpace g} {start count : Nat}

/-- The page is the lowest one of a range that is allocated. -/
structure FirstAllocated (s : AddressSpace g) (start count : Nat) (p : PageNumber) : Prop where
  start_le : start ≤ p
  lt_end : p < start + count
  isSome : (s.state? p).isSome
  lowest : ∀ q : Nat, start ≤ q → q < p → s.state? q = none

theorem firstAllocated?_eq_some_iff {p : PageNumber} :
    s.firstAllocated? start count = some p ↔ s.FirstAllocated start count p := by
  rw [firstAllocated?, List.find?_range'_eq_some, List.mem_range'_1]
  constructor
  · rintro ⟨hs, hp, hlowest⟩
    exact ⟨hp.1, hp.2, hs, by simpa using hlowest⟩
  · rintro ⟨hle, hlt, hs, hlowest⟩
    exact ⟨hs, ⟨hle, hlt⟩, by simpa using hlowest⟩

theorem FirstAllocated.not_free {p : PageNumber} (h : s.FirstAllocated start count p) :
    ¬ ∀ q : Nat, start ≤ q → q < start + count → s.state? q = none := by
  intro hfree
  have hs := h.isSome
  rw [hfree p h.start_le h.lt_end] at hs
  exact absurd hs nofun

/-- What a request for pages comes to. -/
structure AllOrNothing (s : AddressSpace g) (start count : Nat)
    (out : Outcome Paging.Event (Failure MemoryError) (AddressSpace g) Bool) : Prop where
  refused : out.answer = .ok false ↔ g.pageCount < start + count
  occupied : ∀ e, out.answer = .error e ↔ start + count ≤ g.pageCount ∧
    ∃ p, s.FirstAllocated start count p ∧ e = .error (.alreadyAllocated s.pid p)
  granted : out.answer = .ok true ↔ start + count ≤ g.pageCount ∧
    ∀ p : Nat, start ≤ p → p < start + count → s.state? p = none
  unchanged : out.answer ≠ .ok true → out.state = s
  allocated : out.answer = .ok true → out.state.pid = s.pid ∧
    ∀ q : Nat, out.state.state? q =
      if start ≤ q ∧ q < start + count then some .unmapped else s.state? q
  events : out.events =
    if g.pageCount < start + count then [.requestExceeds s.pid start count] else []

theorem refuses (h : g.pageCount < start + count) :
    s.AllOrNothing start count ((allocate start count).run s) := by
  have hrun : (allocate start count).run s =
      ⟨.ok false, s, [.requestExceeds s.pid start count]⟩ := by
    simp [allocate, tryAllocate, h]
  rw [hrun]
  exact {
    refused := iff_of_true rfl h
    occupied := fun e => iff_of_false nofun fun h' => Nat.not_le.mpr h h'.1
    granted := iff_of_false nofun fun h' => Nat.not_le.mpr h h'.1
    unchanged := fun _ => rfl
    allocated := nofun
    events := (if_pos h).symm }

theorem meets (hle : start + count ≤ g.pageCount) {p : PageNumber}
    (h : s.firstAllocated? start count = some p) :
    s.AllOrNothing start count ((allocate start count).run s) := by
  have hlt := Nat.not_lt.mpr hle
  have hp := firstAllocated?_eq_some_iff.mp h
  have hrun : (allocate start count).run s =
      ⟨.error (.error (.alreadyAllocated s.pid p)), s, []⟩ := by
    simp [allocate, tryAllocate, hlt, h]
  rw [hrun]
  refine {
    refused := iff_of_false nofun hlt
    occupied := fun e => ⟨fun he => ⟨hle, p, hp, (Except.error.inj he).symm⟩, ?_⟩
    granted := iff_of_false nofun fun h' => hp.not_free h'.2
    unchanged := fun _ => rfl
    allocated := nofun
    events := (if_neg hlt).symm }
  rintro ⟨-, q, hq, rfl⟩
  rw [← firstAllocated?_eq_some_iff, h] at hq
  rw [Option.some.inj hq]

theorem grants (hle : start + count ≤ g.pageCount)
    (h : s.firstAllocated? start count = none) :
    s.AllOrNothing start count ((allocate start count).run s) := by
  have hlt := Nat.not_lt.mpr hle
  have hfree := firstAllocated?_eq_none_iff.mp h
  have hrun : (allocate start count).run s = ⟨.ok true, s.insertRange start count, []⟩ := by
    simp [allocate, tryAllocate, hlt, h]
  rw [hrun]
  exact {
    refused := iff_of_false nofun hlt
    occupied := fun e => iff_of_false nofun fun ⟨_, _, hq, _⟩ => hq.not_free hfree
    granted := iff_of_true rfl ⟨hle, hfree⟩
    unchanged := fun h' => absurd rfl h'
    allocated := fun _ => ⟨rfl, s.state?_insertRange hle⟩
    events := (if_neg hlt).symm }

theorem allOrNothing (s : AddressSpace g) (start count : Nat) :
    s.AllOrNothing start count ((allocate start count).run s) := by
  by_cases hlt : g.pageCount < start + count
  · exact refuses hlt
  · cases h : s.firstAllocated? start count with
    | some p => exact meets (Nat.le_of_not_lt hlt) h
    | none => exact grants (Nat.le_of_not_lt hlt) h

/-- A request for pages is granted as a whole or changes nothing, and neither the comparison that
decides on it nor the number of any page that it names leaves 64 bits. -/
theorem allocates_all_or_nothing (s : AddressSpace g) (start count : Nat) :
    s.AllOrNothing start count ((allocate start count).run s) ∧
      (Number.add? start count).any (· ≤ g.pageCount) = decide (start + count ≤ g.pageCount) ∧
      (start + count ≤ g.pageCount → ∀ i < count, Number.add? start i = some (start + i)) := by
  have hbound := g.pageCount_lt_wordBound
  refine ⟨s.allOrNothing start count, Number.any_add?_le hbound, fun hle i hi => ?_⟩
  exact Number.add?_eq_some.mpr ⟨rfl, by omega⟩

def thirtyTwoPages : Geometry where
  pageSizeLog2 := 3
  frameCountLog2 := 1
  pageCountLog2 := 5
  level1Log2 := 3
  tlbLog2 := 2
  level1_le := by decide
  word_le := by decide
  physical_le := by decide
  virtual_le := by decide
  tlb_le := by decide

theorem allocates_all_or_nothing_last :
    let s : AddressSpace thirtyTwoPages := ⟨0, (PageTable.empty.insert 5 .unmapped).2⟩
    ((allocate 3 4).run s).answer = .error (.error (.alreadyAllocated 0 5)) ∧
      30 + 2 ≤ thirtyTwoPages.pageCount ∧ ((allocate 30 2).run s).answer = .ok true ∧
      Number.add? 30 1 = some 31 := by
  intro s
  have hfree : s.state? 30 = none ∧ s.state? 31 = none := by decide +kernel
  refine ⟨?_, by decide, ?_, (s.allocates_all_or_nothing 30 2).2.2 (by decide) 1 (by decide)⟩
  · refine ((s.allocates_all_or_nothing 3 4).1.occupied _).mpr ⟨by decide, 5, ?_, rfl⟩
    refine ⟨by decide, by decide, by decide +kernel, fun q hle hlt => ?_⟩
    obtain rfl | rfl : q = 3 ∨ q = 4 := by omega
    · decide +kernel
    · decide +kernel
  · refine (s.allocates_all_or_nothing 30 2).1.granted.mpr ⟨by decide, fun p hle hlt => ?_⟩
    obtain rfl | rfl : p = 30 ∨ p = 31 := by omega
    · exact hfree.1
    · exact hfree.2

end AddressSpace

end DemandPaging
