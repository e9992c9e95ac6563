import DemandPaging.Proofs.PageTable
import Mathlib.Data.List.Sort
import Mathlib.Logic.Function.Basic
/-!
A page table as a finite map from the pages of an address space to their states. However a geometry
splits the page numbers, insertions and updates answer as the map does, and the walk of a page, the
entries and the holes are read off the map.
-/

namespace DemandPaging

namespace PageTable

variable {g : Geometry}

inductive Call where
  | insert (page : PageNumber) (state : PageState)
  /-- Changes the entry of a page in place, if the page has one. -/
  | update (page : PageNumber) (change : PageState → PageState)

def serve (t : PageTable g) : Call → Option PageState × PageTable g
  | .insert p s => t.insert p s
  | .update p change =>
    match t.state? p with
    | none => (none, t)
    | some s => (some s, t.update p (change s))

def replies (t : PageTable g) : List Call → List (Option PageState)
  | [] => []
  | c :: cs => (t.serve c).1 :: (t.serve c).2.replies cs

def after (t : PageTable g) : List Call → PageTable g
  | [] => t
  | c :: cs => (t.serve c).2.after cs

end PageTable

abbrev PageMap := PageNumber → Option PageState

namespace PageMap

open PageTable (Call)

variable (g : Geometry) (m : PageMap)

def empty : PageMap := fun _ => none

def serve : Call → Option PageState × PageMap
  | .insert p s => if p < g.pageCount then (m p, Function.update m p (some s)) else (none, m)
  | .update p change => (m p, Function.update m p ((m p).map change))

def replies (m : PageMap) : List Call → List (Option PageState)
  | [] => []
  | c :: cs => (m.serve g c).1 :: replies (m.serve g c).2 cs

def after (m : PageMap) : List Call → PageMap
  | [] => m
  | c :: cs => after (m.serve g c).2 cs

def Vacant (l₁ : Nat) : Prop :=
  ∀ l₂ < g.level2Entries, m (l₁ * g.level2Entries + l₂) = none

instance (l₁ : Nat) : Decidable (m.Vacant g l₁) :=
  inferInstanceAs (Decidable (∀ l₂ < g.level2Entries, m (l₁ * g.level2Entries + l₂) = none))

def walk (p : PageNumber) : Walk :=
  match m p with
  | some s => .entry s
  | none =>
    if g.pageCount ≤ p then .outOfRange
    else if m.Vacant g (p / g.level2Entries) then .missingTable (p / g.level2Entries)
    else .missingEntry (p / g.level2Entries) (p % g.level2Entries)

def entries : List (PageNumber × PageState) :=
  (List.range g.pageCount).filterMap fun p => (m p).map fun s => (p, s)

def slotHoles (l₁ : Nat) : List Hole :=
  if m.Vacant g l₁ then [.table l₁]
  else (List.range g.level2Entries).filterMap fun l₂ =>
    if (m (l₁ * g.level2Entries + l₂)).isNone then some (.entry l₁ l₂) else none

def holes : List Hole := (List.range g.level1Entries).flatMap (m.slotHoles g)

variable {g m}

theorem vacant_iff {l₁ : Nat} : m.Vacant g l₁ ↔ ∀ p, g.level1Index p = l₁ → m p = none := by
  constructor
  · rintro h p rfl
    rw [← g.mul_add_indexes p]
    exact h _ (g.level2Index_lt p)
  · exact fun h l₂ hl => h _ (g.level1Index_mul_add hl)

theorem isSome_serve (c : Call) (p : PageNumber) :
    ((m.serve g c).2 p).isSome ↔
      (m p).isSome ∨ p < g.pageCount ∧ ∃ s, c = .insert p s := by
  cases c with
  | insert q s =>
    by_cases hq : q < g.pageCount <;> by_cases hp : p = q
    · subst hp
      simp [serve, hq]
    · simp [serve, hq, hp, Ne.symm hp]
    · subst hp
      simp [serve, hq]
    · simp [serve, hq, Ne.symm hp]
  | update q change =>
    by_cases hp : p = q
    · subst hp
      simp [serve]
    · simp [serve, hp]

theorem isSome_after (calls : List Call) (p : PageNumber) :
    ((m.after g calls) p).isSome ↔
      (m p).isSome ∨ p < g.pageCount ∧ ∃ s, .insert p s ∈ calls := by
  induction calls generalizing m with
  | nil => simp [after]
  | cons c calls ih =>
    rw [after, ih, isSome_serve, or_assoc, ← and_or_left, ← exists_or]
    simp only [List.mem_cons, eq_comm (a := c)]

theorem vacant_after_iff (calls : List Call) {l₁ : Nat} (hl : l₁ < g.level1Entries) :
    (empty.after g calls).Vacant g l₁ ↔
      ∀ p s, .insert p s ∈ calls → g.level1Index p ≠ l₁ := by
  rw [vacant_iff]
  constructor
  · rintro h p s hc rfl
    have hs := (isSome_after (m := empty) calls p).mpr
      (.inr ⟨(g.level1Index_lt_iff p).mp hl, s, hc⟩)
    rw [h p rfl] at hs
    exact absurd hs nofun
  · rintro h p rfl
    rw [← Option.not_isSome_iff_eq_none, isSome_after]
    rintro (hs | ⟨-, s, hc⟩)
    · exact absurd hs nofun
    · exact h p s hc rfl

theorem walk_eq_missingTable_iff {p : Nat} {l₁ : Nat} :
    m.walk g p = .missingTable l₁ ↔
      p < g.pageCount ∧ g.level1Index p = l₁ ∧ m.Vacant g l₁ := by
  rw [walk, ← g.level1Index_eq]
  constructor
  · intro h
    split at h
    · exact absurd h nofun
    · split at h
      · exact absurd h nofun
      · next hp =>
        split at h
        · next hv =>
          cases h
          exact ⟨Nat.not_le.mp hp, rfl, hv⟩
        · exact absurd h nofun
  · rintro ⟨hp, rfl, hv⟩
    simp only [vacant_iff.mp hv p rfl, if_neg (Nat.not_le.mpr hp), if_pos hv]

theorem walk_eq_missingEntry_iff {p : Nat} {l₁ l₂ : Nat} :
    m.walk g p = .missingEntry l₁ l₂ ↔
      p < g.pageCount ∧ m p = none ∧ ¬ m.Vacant g l₁ ∧
        l₂ < g.level2Entries ∧ l₁ * g.level2Entries + l₂ = p := by
  rw [walk, ← g.level1Index_eq, ← g.level2Index_eq]
  constructor
  · intro h
    split at h
    · exact absurd h nofun
    · next hm =>
      split at h
      · exact absurd h nofun
      · next hp =>
        split at h
        · exact absurd h nofun
        · next hv =>
          cases h
          exact ⟨Nat.not_le.mp hp, hm, hv, g.level2Index_lt p, g.mul_add_indexes p⟩
  · rintro ⟨hp, hm, hv, hl, rfl⟩
    rw [g.level1Index_mul_add hl, g.level2Index_mul_add hl]
    simp only [hm, if_neg (Nat.not_le.mpr hp), if_neg hv]

theorem pairwise_entries : (m.entries g).Pairwise fun a b => a.1 < b.1 := by
  refine List.pairwise_filterMap.mpr (List.pairwise_lt_range.imp ?_)
  rintro p q h a ha b hb
  obtain ⟨_, -, rfl⟩ := Option.map_eq_some_iff.mp ha
  obtain ⟨_, -, rfl⟩ := Option.map_eq_some_iff.mp hb
  exact h

theorem mem_entries {p : PageNumber} {s : PageState} :
    (p, s) ∈ m.entries g ↔ p < g.pageCount ∧ m p = some s := by
  simp only [entries, List.mem_filterMap, List.mem_range, Option.map_eq_some_iff, Prod.mk.injEq]
  constructor
  · rintro ⟨_, hp, _, hs, rfl, rfl⟩
    exact ⟨hp, hs⟩
  · rintro ⟨hp, hs⟩
    exact ⟨p, hp, s, hs, rfl, rfl⟩

end PageMap

namespace PageTable

variable {g : Geometry} {t : PageTable g} {m : PageMap}

theorem fst_insert (t : PageTable g) {p : Nat} (s : PageState) (h : p < g.pageCount) :
    (t.insert p s).1 = t.state? p := by
  rw [insert, dif_pos ((g.level1Index_lt_iff p).mpr h)]

theorem insert_of_pageCount_le (t : PageTable g) {p : Nat} (s : PageState)
    (h : g.pageCount ≤ p) : t.insert p s = (none, t) := by
  rw [insert, dif_neg (mt (g.level1Index_lt_iff p).mp (Nat.not_lt.mpr h))]

theorem walk_eq_outOfRange_iff {p : Nat} : t.walk p = .outOfRange ↔ g.pageCount ≤ p := by
  rw [← Nat.not_lt, ← g.level1Index_lt_iff, walk]
  constructor
  · intro h
    split at h
    · next hb => exact Nat.not_lt.mpr (Vector.getElem?_eq_none_iff.mp hb)
    · cases h
    · simp only at h
      split at h <;> cases h
  · intro hl
    rw [Vector.getElem?_eq_none (Nat.not_lt.mp hl)]

theorem block_of_insert {p : PageNumber} {s : PageState} {l₁ : Nat} {block : PageBlock g}
    (h : (t.insert p s).2.level1[l₁]? = some (some block)) :
    g.level1Index p = l₁ ∨ ∃ old, t.level1[l₁]? = some (some old) := by
  rw [insert] at h
  split at h
  · rw [Vector.getElem?_set] at h
    split at h
    · next hl => exact .inl hl
    · exact .inr ⟨block, h⟩
  · exact .inr ⟨block, h⟩

private theorem zipIdx_map_snd_toList {α : Type} {n : Nat} (v : Vector α n) :
    v.toList.zipIdx.map Prod.snd = List.range n := by
  rw [List.zipIdx_map_snd, Vector.length_toList, List.range_eq_range']

/-- A table stands for a map whose states its pages have, when no block is without a page. -/
structure Represents (t : PageTable g) (m : PageMap) : Prop where
  state : ∀ p, t.state? p = m p
  block : ∀ l₁ block, t.level1[l₁]? = some (some block) →
    ∃ p, g.level1Index p = l₁ ∧ (m p).isSome

namespace Represents

theorem empty : (PageTable.empty : PageTable g).Represents PageMap.empty where
  state := state?_empty
  block l₁ block h := by
    obtain ⟨_, h⟩ := Vector.getElem?_eq_some_iff.mp h
    simp [PageTable.empty] at h

theorem insert (h : t.Represents m) {p : PageNumber} (s : PageState) (hp : p < g.pageCount) :
    (t.insert p s).2.Represents (Function.update m p (some s)) where
  state q := by rw [state?_insert t s hp, Function.update_apply, h.state]
  block l₁ block hb := by
    rcases block_of_insert hb with hl | ⟨old, ho⟩
    · exact ⟨p, hl, by rw [Function.update_self]; rfl⟩
    · obtain ⟨q, hq, hs⟩ := h.block l₁ old ho
      refine ⟨q, hq, ?_⟩
      rw [Function.update_apply]
      split
      · rfl
      · exact hs

theorem update (h : t.Represents m) {p : PageNumber} {s : PageState} (hs : m p = some s)
    (s' : PageState) : (t.update p s').Represents (Function.update m p (some s')) := by
  rw [← h.state] at hs
  rw [PageTable.update, if_pos (by rw [hs]; rfl)]
  exact h.insert s' (lt_of_state?_eq_some hs)

theorem serve (h : t.Represents m) (c : Call) :
    (t.serve c).1 = (m.serve g c).1 ∧ (t.serve c).2.Represents (m.serve g c).2 := by
  cases c with
  | insert p s =>
    simp only [PageTable.serve, PageMap.serve]
    split
    · next hp => exact ⟨by rw [fst_insert t s hp, h.state], h.insert s hp⟩
    · next hp =>
      rw [insert_of_pageCount_le t s (Nat.not_lt.mp hp)]
      exact ⟨rfl, h⟩
  | update p change =>
    simp only [PageTable.serve, PageMap.serve, h.state]
    cases hm : m p with
    | none => exact ⟨rfl, by rwa [Option.map_none, Function.update_eq_self_iff.mpr hm.symm]⟩
    | some s => exact ⟨rfl, h.update hm (change s)⟩

theorem run (h : t.Represents m) (calls : List Call) :
    t.replies calls = m.replies g calls ∧ (t.after calls).Represents (m.after g calls) := by
  induction calls generalizing t m with
  | nil => exact ⟨rfl, h⟩
  | cons c calls ih =>
    obtain ⟨hreply, hserve⟩ := h.serve c
    obtain ⟨hreplies, hafter⟩ := ih hserve
    exact ⟨congrArg₂ List.cons hreply hreplies, hafter⟩

theorem level1_eq_none_iff (h : t.Represents m) {l₁ : Nat} (hl : l₁ < g.level1Entries) :
    t.level1[l₁] = none ↔ m.Vacant g l₁ := by
  rw [PageMap.vacant_iff]
  constructor
  · rintro hb p rfl
    rw [← h.state, state?_eq, Vector.getElem?_eq_getElem hl, hb]
    rfl
  · intro hv
    refine Option.eq_none_iff_forall_ne_some.mpr fun block hb => ?_
    obtain ⟨p, hp, hs⟩ := h.block l₁ block (by rw [Vector.getElem?_eq_getElem hl, hb])
    rw [hv p hp] at hs
    exact absurd hs nofun

theorem getElem_block (h : t.Represents m) {l₁ l₂ : Nat} {block : PageBlock g}
    (hb : t.level1[l₁]? = some (some block)) (hl : l₂ < g.level2Entries) :
    block[l₂] = m (l₁ * g.level2Entries + l₂) := by
  rw [← h.state, state?_eq, g.level1Index_mul_add hl, g.level2Index_mul_add hl, hb]
  simp [hl]

theorem walk_eq (h : t.Represents m) (p : PageNumber) : t.walk p = m.walk g p := by
  rw [PageMap.walk]
  cases hm : m p with
  | some s => exact walk_eq_entry_iff.mpr ((h.state p).trans hm)
  | none =>
    simp only [← g.level1Index_eq, ← g.level2Index_eq]
    by_cases hp : g.pageCount ≤ p
    · have hl := mt (g.level1Index_lt_iff p).mp (Nat.not_lt.mpr hp)
      rw [if_pos hp]
      simp [walk, hl]
    · have hl := (g.level1Index_lt_iff p).mpr (Nat.not_le.mp hp)
      have hvacant := h.level1_eq_none_iff hl
      rw [if_neg hp]
      cases hb : t.level1[g.level1Index p] with
      | none =>
        rw [if_pos (hvacant.mp hb)]
        simp [walk, hl, hb]
      | some block =>
        have hentry := h.getElem_block (Vector.getElem?_eq_some_iff.mpr ⟨hl, hb⟩)
          (g.level2Index_lt p)
        rw [g.mul_add_indexes, hm] at hentry
        rw [if_neg (mt hvacant.mpr (by rw [hb]; exact Option.some_ne_none block))]
        simp [walk, hl, hb, hentry]

theorem entries_eq (h : t.Represents m) : t.entries = m.entries g := by
  have : Std.Irrefl fun a b : PageNumber × PageState => a.1 < b.1 := ⟨fun a => Nat.lt_irrefl a.1⟩
  refine t.pairwise_entries.eq_of_mem_iff PageMap.pairwise_entries fun (p, s) => ?_
  rw [mem_entries, PageMap.mem_entries, ← h.state]
  exact ⟨fun hs => ⟨lt_of_state?_eq_some hs, hs⟩, And.right⟩

theorem blockHoles_eq (h : t.Represents m) {l₁ : Nat} {block : PageBlock g}
    (hb : t.level1[l₁]? = some (some block)) :
    blockHoles l₁ block = (List.range g.level2Entries).filterMap fun l₂ =>
      if (m (l₁ * g.level2Entries + l₂)).isNone then some (.entry l₁ l₂) else none := by
  rw [blockHoles, ← zipIdx_map_snd_toList block, List.filterMap_map]
  refine List.filterMap_congr fun (e, l₂) he => ?_
  rw [List.mk_mem_zipIdx_iff_getElem?, Vector.getElem?_toList] at he
  obtain ⟨hl, rfl⟩ := Vector.getElem?_eq_some_iff.mp he
  rw [h.getElem_block hb hl]
  rfl

theorem holes_eq (h : t.Represents m) : t.holes = m.holes g := by
  rw [holes, PageMap.holes, ← zipIdx_map_snd_toList t.level1, List.flatMap_map]
  refine List.flatMap_congr fun (b, l₁) hb => ?_
  rw [List.mk_mem_zipIdx_iff_getElem?, Vector.getElem?_toList] at hb
  obtain ⟨hl, he⟩ := Vector.getElem?_eq_some_iff.mp hb
  have hvacant := h.level1_eq_none_iff hl
  rw [he] at hvacant
  rw [PageMap.slotHoles]
  cases b with
  | none => rw [if_pos (hvacant.mp rfl)]
  | some block => rw [if_neg (mt hvacant.mpr nofun), ← h.blockHoles_eq hb]

end Represents

/-- What a table shows that calls have filled, beside the map that they filled. -/
structure Shows (t : PageTable g) (calls : List Call) (m : PageMap) : Prop where
  inserted : ∀ p : Nat, (m p).isSome ↔ p < g.pageCount ∧ ∃ s, .insert p s ∈ calls
  state : ∀ p, t.state? p = m p
  entry : ∀ p s, t.walk p = .entry s ↔ m p = some s
  outOfRange : ∀ p : Nat, t.walk p = .outOfRange ↔ g.pageCount ≤ p
  missingTable : ∀ (p : Nat) l₁, t.walk p = .missingTable l₁ ↔
    p < g.pageCount ∧ g.level1Index p = l₁ ∧ ∀ q s, .insert q s ∈ calls → g.level1Index q ≠ l₁
  missingEntry : ∀ (p : Nat) l₁ l₂, t.walk p = .missingEntry l₁ l₂ ↔
    p < g.pageCount ∧ m p = none ∧ (∃ q s, .insert q s ∈ calls ∧ g.level1Index q = l₁) ∧
      l₂ < g.level2Entries ∧ l₁ * g.level2Entries + l₂ = p
  entries : t.entries = m.entries g
  ascending : t.entries.Pairwise fun a b => a.1 < b.1
  holes : t.holes = m.holes g
  vacant : ∀ l₁ < g.level1Entries, m.Vacant g l₁ ↔
    ∀ q s, .insert q s ∈ calls → g.level1Index q ≠ l₁
  indexes : ∀ p : Nat, g.level2Index p < g.level2Entries ∧
    (p < g.pageCount → g.level1Index p < g.level1Entries)

theorem Represents.shows {calls : List Call} (h : t.Represents (PageMap.empty.after g calls)) :
    t.Shows calls (PageMap.empty.after g calls) where
  inserted p := by simp [PageMap.isSome_after, PageMap.empty]
  state := h.state
  entry p s := by rw [walk_eq_entry_iff, h.state]
  outOfRange _ := walk_eq_outOfRange_iff
  missingTable p l₁ := by
    rw [h.walk_eq, PageMap.walk_eq_missingTable_iff]
    refine and_congr_right fun hp => and_congr_right ?_
    rintro rfl
    exact PageMap.vacant_after_iff calls ((g.level1Index_lt_iff p).mpr hp)
  missingEntry p l₁ l₂ := by
    rw [h.walk_eq, PageMap.walk_eq_missingEntry_iff]
    refine and_congr_right fun hp => and_congr_right fun _ => and_congr_left ?_
    rintro ⟨hl, rfl⟩
    have hslot := (g.level1Index_lt_iff _).mpr hp
    rw [g.level1Index_mul_add hl] at hslot
    rw [PageMap.vacant_after_iff calls hslot]
    simp only [not_forall, not_not, exists_prop]
  entries := h.entries_eq
  ascending := t.pairwise_entries
  holes := h.holes_eq
  vacant _ := PageMap.vacant_after_iff calls
  indexes p := ⟨g.level2Index_lt p, (g.level1Index_lt_iff p).mpr⟩

/-- Whatever is done to a new table, it answers as a finite map and shows that map. -/
theorem serves_as_page_map (calls : List Call) :
    (PageTable.empty : PageTable g).replies calls = PageMap.empty.replies g calls ∧
      ((PageTable.empty : PageTable g).after calls).Shows calls (PageMap.empty.after g calls) :=
  ⟨(Represents.empty.run calls).1, (Represents.empty.run calls).2.shows⟩

end PageTable

end DemandPaging
