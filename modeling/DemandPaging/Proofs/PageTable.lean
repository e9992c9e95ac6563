import DemandPaging.AddressSpace
import DemandPaging.Proofs.Geometry
/-!
Page tables as maps from pages to states: what insertion, update and allocation do to the state
of every page, and the entries as the list of that map.
-/

namespace DemandPaging

theorem PageState.bind_frame?_eq_some_iff {s : Option PageState} {f : FrameNumber} :
    s.bind frame? = some f ↔ s = some (.resident f) := by
  rcases s with _ | _ | _ | _ <;> simp [frame?]

namespace PageTable

variable {g : Geometry}

theorem state?_eq (t : PageTable g) (p : PageNumber) :
    t.state? p = (t.level1[g.level1Index p]?).bind fun b =>
      b.bind fun block => block[g.level2Index p]?.join := by
  have hlt := g.level2Index_lt p
  unfold state? walk
  rcases t.level1[g.level1Index p]? with _ | _ | block
  · rfl
  · rfl
  · simp only [Option.bind_some, Vector.getElem?_eq_getElem hlt, Option.join_some]
    cases block[g.level2Index p] <;> rfl

theorem lt_of_state?_eq_some {t : PageTable g} {p : PageNumber} {s : PageState}
    (h : t.state? p = some s) : p < g.pageCount := by
  rw [state?_eq] at h
  obtain ⟨b, hb, -⟩ := Option.bind_eq_some_iff.mp h
  obtain ⟨hp, -⟩ := Vector.getElem?_eq_some_iff.mp hb
  exact (g.level1Index_lt_iff p).mp hp

theorem walk_eq_entry_iff {t : PageTable g} {p : PageNumber} {s : PageState} :
    t.walk p = .entry s ↔ t.state? p = some s := by
  unfold state?
  cases t.walk p <;> simp

theorem state?_insert (t : PageTable g) {p : Nat} (s : PageState) (h : p < g.pageCount)
    (q : PageNumber) : (t.insert p s).2.state? q = if q = p then some s else t.state? q := by
  by_cases hq : q = p
  · rw [hq, if_pos rfl, state?, walk_insert_self t s ((g.level1Index_lt_iff p).mpr h)]
  · rw [if_neg hq, state?_insert_of_ne t s (Ne.symm hq)]

theorem state?_update (t : PageTable g) {p : PageNumber} (s : PageState)
    (h : (t.state? p).isSome) (q : PageNumber) :
    (t.update p s).state? q = if q = p then some s else t.state? q := by
  obtain ⟨old, ho⟩ := Option.isSome_iff_exists.mp h
  rw [update, if_pos h, state?_insert t s (lt_of_state?_eq_some ho)]

theorem mem_blockEntries {l₁ : Nat} {block : PageBlock g} {p : PageNumber} {s : PageState} :
    (p, s) ∈ blockEntries l₁ block ↔
      g.level1Index p = l₁ ∧ block[g.level2Index p]? = some (some s) := by
  simp only [blockEntries, List.mem_filterMap, Prod.exists, List.mk_mem_zipIdx_iff_getElem?,
    Option.map_eq_some_iff, Prod.mk.injEq, Vector.getElem?_toList]
  constructor
  · rintro ⟨e, l₂, he, s', rfl, rfl, rfl⟩
    obtain ⟨hlt, -⟩ := Vector.getElem?_eq_some_iff.mp he
    rw [g.level1Index_mul_add hlt, g.level2Index_mul_add hlt]
    exact ⟨rfl, he⟩
  · rintro ⟨rfl, hs⟩
    exact ⟨some s, g.level2Index p, hs, s, rfl, g.mul_add_indexes p, rfl⟩

theorem mem_entries {t : PageTable g} {p : PageNumber} {s : PageState} :
    (p, s) ∈ t.entries ↔ t.state? p = some s := by
  rw [state?_eq]
  simp only [entries, List.mem_flatMap, Prod.exists, List.mk_mem_zipIdx_iff_getElem?,
    Vector.getElem?_toList]
  constructor
  · rintro ⟨_ | block, l₁, hb, hm⟩
    · simp at hm
    · obtain ⟨rfl, hs⟩ := mem_blockEntries.mp hm
      simp [hb, hs]
  · intro h
    obtain ⟨b, hb, h⟩ := Option.bind_eq_some_iff.mp h
    obtain ⟨block, rfl, h⟩ := Option.bind_eq_some_iff.mp h
    exact ⟨some block, g.level1Index p, hb,
      mem_blockEntries.mpr ⟨rfl, Option.join_eq_some_iff.mp h⟩⟩

private theorem pairwise_zipIdx {α : Type} (l : List α) (k : Nat) :
    (l.zipIdx k).Pairwise fun a b => a.2 < b.2 := by
  rw [← List.pairwise_map (R := (· < ·)), List.zipIdx_map_snd]
  exact List.pairwise_lt_range'

theorem pairwise_blockEntries (l₁ : Nat) (block : PageBlock g) :
    (blockEntries l₁ block).Pairwise fun a b => a.1 < b.1 := by
  refine List.pairwise_filterMap.mpr ((pairwise_zipIdx block.toList 0).imp ?_)
  rintro ⟨e, l₂⟩ ⟨e', l₂'⟩ h a ha b hb
  obtain ⟨s, -, rfl⟩ := Option.map_eq_some_iff.mp ha
  obtain ⟨s', -, rfl⟩ := Option.map_eq_some_iff.mp hb
  exact Nat.add_lt_add_left h _

theorem pairwise_entries (t : PageTable g) : t.entries.Pairwise fun a b => a.1 < b.1 := by
  refine List.pairwise_flatMap.mpr ⟨?_, ?_⟩
  · rintro ⟨_ | block, l₁⟩ -
    · exact List.Pairwise.nil
    · exact pairwise_blockEntries l₁ block
  · refine (pairwise_zipIdx t.level1.toList 0).imp ?_
    rintro ⟨_ | block, l₁⟩ ⟨_ | block', l₁'⟩ h ⟨p, s⟩ ha ⟨q, s'⟩ hb <;> simp only at ha hb
    · simp at ha
    · simp at ha
    · simp at hb
    · obtain ⟨rfl, -⟩ := mem_blockEntries.mp ha
      obtain ⟨rfl, -⟩ := mem_blockEntries.mp hb
      rw [g.level1Index_eq, g.level1Index_eq] at h
      exact Nat.lt_of_not_le fun hle => absurd (Nat.div_le_div_right hle) (Nat.not_le.mpr h)

end PageTable

namespace AddressSpace

variable {g : Geometry}

theorem walk_eq_entry_iff {s : AddressSpace g} {p : PageNumber} {state : PageState} :
    s.walk p = .entry state ↔ s.state? p = some state :=
  PageTable.walk_eq_entry_iff

theorem state?_setState (s : AddressSpace g) {p : PageNumber} (state : PageState)
    (h : (s.state? p).isSome) (q : PageNumber) :
    (s.setState p state).state? q = if q = p then some state else s.state? q :=
  s.table.state?_update state h q

theorem state?_insertRange (s : AddressSpace g) {start count : Nat}
    (h : start + count ≤ g.pageCount) (q : Nat) :
    (s.insertRange start count).state? q =
      if start ≤ q ∧ q < start + count then some .unmapped else s.state? q := by
  simp only [insertRange, state?]
  induction count generalizing start s with
  | zero => rw [if_neg (by omega)]; rfl
  | succ count ih =>
    have step := @ih { s with table := (s.table.insert start .unmapped).2 } (start + 1) (by omega)
    rw [List.range'_succ, List.foldl_cons, step,
      PageTable.state?_insert s.table .unmapped (by omega)]
    by_cases hq : q = start
    · rw [if_neg (by omega), if_pos hq, if_pos (by omega)]
    · by_cases hr : start + 1 ≤ q ∧ q < start + 1 + count
      · rw [if_pos hr, if_pos (by omega)]
      · rw [if_neg hr, if_neg hq, if_neg (by omega)]

theorem firstAllocated?_eq_none_iff {s : AddressSpace g} {start count : Nat} :
    s.firstAllocated? start count = none ↔
      ∀ p : Nat, start ≤ p → p < start + count → s.state? p = none := by
  simp [firstAllocated?, List.find?_eq_none, List.mem_range'_1]

end AddressSpace

end DemandPaging
