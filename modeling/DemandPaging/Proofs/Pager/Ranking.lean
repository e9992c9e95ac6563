import DemandPaging.Proofs.Pager.Footprint
import Mathlib.Data.List.Infix
import Mathlib.Data.List.Perm.Basic
/-!
Resident pages in the order of their last uses, the latest first. A reference moves its page to the
front, and the page that a theft throws out is the last one.
-/

namespace DemandPaging.Pager

variable {g : Geometry} {m m' : Pager g} {f : FrameNumber} {o q : FrameOwner}
  {l l' : List FrameOwner} {busy : Option Nat}

def usedAt (m : Pager g) (o : FrameOwner) : Nat :=
  (((m.stateOf o).bind PageState.frame?).map m.lastUse).getD 0

theorem usedAt_of_resident (h : m.stateOf o = some (.resident f)) : m.usedAt o = m.lastUse f := by
  rw [usedAt, h]
  rfl

theorem Uses.usedAt_eq {pages : List FrameOwner} (hu : Uses busy pages m m') (ho : o ∉ pages)
    (h : m'.stateOf o = some (.resident f)) : m'.usedAt o = m.usedAt o := by
  obtain ⟨h', hk⟩ := hu.others o ho f h
  rw [usedAt_of_resident h, usedAt_of_resident h']
  exact eq_of_forall_le_iff fun k => by rw [le_lastUse, le_lastUse, hk]

theorem Uses.lt_usedAt {pages : List FrameOwner} (hu : Uses busy pages m m') (ho : o ∈ pages)
    (h : m'.stateOf o = some (.resident f)) : m.clock.current < m'.usedAt o := by
  rw [usedAt_of_resident h]
  exact le_lastUse.mpr (hu.used o ho f h)

theorem Past.usedAt_le (hp : m.Past) (h : m.stateOf o = some (.resident f)) :
    m.usedAt o ≤ m.clock.current := by
  rw [usedAt_of_resident h]
  exact hp f _ (le_lastUse.mp (Nat.le_refl _))

/-- The resident pages, the latest used first. -/
structure Ranked (m : Pager g) (l : List FrameOwner) : Prop where
  sound : m.Sound
  past : m.Past
  mem_iff : ∀ o, o ∈ l ↔ ∃ f, m.stateOf o = some (.resident f)
  sorted : l.Pairwise fun o q => m.usedAt q < m.usedAt o

namespace Ranked

variable (h : Ranked m l)

include h

theorem nodup : l.Nodup := by
  refine h.sorted.imp ?_
  rintro o _ hlt rfl
  exact Nat.lt_irrefl _ hlt

theorem length_add : l.length + m.frames.free.length = g.frameCount := by
  let frameOf (o : FrameOwner) : FrameNumber := ((m.stateOf o).bind PageState.frame?).getD 0
  have hframe {o f} (ho : m.stateOf o = some (.resident f)) : frameOf o = f := by
    simp [frameOf, ho, PageState.frame?]
  have hmem (f : FrameNumber) : f ∈ l.map frameOf ↔ ∃ o, m.frames.owner? f = some (some o) := by
    simp only [List.mem_map, h.mem_iff, h.sound.books.owner_iff f _ (Option.some_ne_none f).symm]
    constructor
    · rintro ⟨o, ⟨i, ho⟩, rfl⟩
      exact ⟨o, by rw [hframe ho, ho]⟩
    · rintro ⟨o, ho⟩
      exact ⟨o, ⟨f, ho⟩, hframe ho⟩
  have hfree (f : FrameNumber) := h.sound.books.free_iff f (Option.some_ne_none f).symm
  have hnodup : (l.map frameOf ++ m.frames.free).Nodup := by
    refine List.Nodup.append (h.nodup.map_on fun o ho q hq he => ?_) h.sound.books.free_nodup
      fun f hf hf' => ?_
    · obtain ⟨i, ho⟩ := (h.mem_iff o).mp ho
      obtain ⟨j, hq⟩ := (h.mem_iff q).mp hq
      rw [hframe ho, hframe hq] at he
      exact h.sound.books.eq_of_resident ho (he ▸ hq)
    · obtain ⟨o, ho⟩ := (hmem f).mp hf
      rw [(hfree f).mp hf'] at ho
      simp at ho
  have hperm : (l.map frameOf ++ m.frames.free).Perm (List.range g.frameCount) := by
    refine (List.perm_ext_iff_of_nodup hnodup List.nodup_range).mpr fun f => ?_
    rw [List.mem_append, List.mem_range, hmem, hfree]
    constructor
    · rintro (⟨o, ho⟩ | ho)
      · exact FrameTable.lt_of_owner?_eq_some ho
      · exact FrameTable.lt_of_owner?_eq_some ho
    · intro hlt
      obtain ⟨_ | o, ho⟩ := m.frames.exists_owner? hlt
      · exact .inr ho
      · exact .inl ⟨o, ho⟩
  have hlen := hperm.length_eq
  rwa [List.length_append, List.length_map, List.length_range] at hlen

theorem keep (hm' : m'.Sound) (hu : Uses busy [] m m') (hsub : l'.Sublist l)
    (hmem : ∀ o, o ∈ l' ↔ ∃ f, m'.stateOf o = some (.resident f)) : Ranked m' l' := by
  refine ⟨hm', hu.past h.past, hmem, (h.sorted.sublist hsub).imp_of_mem fun {o q} ho hq hlt => ?_⟩
  obtain ⟨i, ho⟩ := (hmem o).mp ho
  obtain ⟨j, hq⟩ := (hmem q).mp hq
  rwa [hu.usedAt_eq List.not_mem_nil ho, hu.usedAt_eq List.not_mem_nil hq]

theorem mark (hm' : m'.Sound) (hu : Uses busy [o] m m') (hsub : l'.Sublist l) (ho : o ∉ l')
    (hmem : ∀ q, q ∈ o :: l' ↔ ∃ f, m'.stateOf q = some (.resident f)) : Ranked m' (o :: l') := by
  have hold {q} (hq : q ∈ l') : m'.usedAt q = m.usedAt q := by
    obtain ⟨i, hi⟩ := (hmem q).mp (List.mem_cons_of_mem o hq)
    exact hu.usedAt_eq (fun he => ho (List.mem_singleton.mp he ▸ hq)) hi
  refine ⟨hm', hu.past h.past, hmem, List.pairwise_cons.mpr ⟨fun q hq => ?_, ?_⟩⟩
  · obtain ⟨i, hi⟩ := (hmem o).mp List.mem_cons_self
    obtain ⟨j, hj⟩ := (h.mem_iff q).mp (hsub.subset hq)
    rw [hold hq]
    exact Nat.lt_of_le_of_lt (h.past.usedAt_le hj) (hu.lt_usedAt List.mem_cons_self hi)
  · exact (h.sorted.sublist hsub).imp_of_mem fun ho hq hlt => by rwa [hold ho, hold hq]

theorem mem_dropLast {v : FrameOwner} (hv : v ∈ l) (hold : ∀ q ∈ l, m.usedAt v ≤ m.usedAt q) :
    q ∈ l.dropLast ↔ q ∈ l ∧ q ≠ v := by
  obtain ⟨l, x, rfl⟩ := (List.eq_nil_or_concat' l).resolve_left (List.ne_nil_of_mem hv)
  obtain ⟨-, -, hlt⟩ := List.pairwise_append.mp h.sorted
  obtain ⟨-, -, hne⟩ := List.nodup_append.mp h.nodup
  -- every other page was used later than the last one, and none before the victim
  obtain rfl : v = x := by
    rcases List.mem_append.mp hv with hv | hv
    · exact absurd (hold x (by simp)) (Nat.not_le.mpr (hlt v hv x List.mem_cons_self))
    · exact List.mem_singleton.mp hv
  rw [List.dropLast_concat, List.mem_append, List.mem_singleton]
  constructor
  · intro hq
    exact ⟨.inl hq, hne q hq v List.mem_cons_self⟩
  · rintro ⟨hq, hqv⟩
    exact hq.resolve_right hqv

end Ranked

/-- A page is used: it comes first, and of the others as many stay as fit in the other frames. -/
def promote (frames : Nat) (o : FrameOwner) (l : List FrameOwner) : List FrameOwner :=
  o :: (l.erase o).take (frames - 1)

theorem promote_isPrefix {n n' : Nat} (hn : n ≤ n') (h : l <+: l') (o : FrameOwner) :
    promote n o l <+: promote n' o l' := by
  obtain ⟨t, rfl⟩ := h
  have herase : l.erase o <+: (l ++ t).erase o := by
    by_cases ho : o ∈ l
    · rw [List.erase_append_left t ho]
      exact List.prefix_append _ t
    · rw [List.erase_append_right t ho, List.erase_of_not_mem ho]
      exact List.prefix_append _ _
  have htake := (List.IsPrefix.take herase (n - 1)).trans
    (List.take_prefix_take_left (Nat.sub_le_sub_right hn 1))
  exact List.cons_prefix_cons.mpr ⟨rfl, htake⟩

theorem promote_promote (n : Nat) (o : FrameOwner) (l : List FrameOwner) :
    promote n o (promote n o l) = promote n o l := by
  rw [promote, promote, List.erase_cons_head, List.take_take, Nat.min_self]

namespace Ranked

variable (h : Ranked m l)

include h

theorem hit (hm' : m'.Sound) (hu : Uses busy [o] m m') (hst : m'.stateOf = m.stateOf)
    (ho : m.stateOf o = some (.resident f)) : Ranked m' (promote g.frameCount o l) := by
  have hl := (h.mem_iff o).mpr ⟨f, ho⟩
  have hlen := h.length_add
  have herase := List.length_erase_of_mem hl
  rw [promote, List.take_of_length_le (by omega)]
  refine h.mark hm' hu List.erase_sublist h.nodup.not_mem_erase fun q => ?_
  rw [hst, ← h.mem_iff, (List.perm_cons_erase hl).mem_iff]

theorem fill {s : PageState} (hm' : m'.Sound) (hu : Uses busy [o] m m')
    (hs : m.stateOf o = some s) (hn : s.isResident = false)
    (hf : Taken m m' o s f ∨ ∃ v t, Stolen m m' o s f v t) :
    Ranked m' (promote g.frameCount o l) := by
  have ho : o ∉ l := by
    intro hl
    obtain ⟨i, hi⟩ := (h.mem_iff o).mp hl
    obtain rfl := Option.some.inj (hs.symm.trans hi)
    exact absurd hn nofun
  have hlen := h.length_add
  rw [promote, List.erase_of_not_mem ho]
  rcases hf with hf | ⟨v, t, hf⟩
  · rw [hf.head, List.length_cons] at hlen
    rw [List.take_of_length_le (by omega)]
    refine h.mark hm' hu (.refl l) ho fun q => ?_
    rw [hf.entries, Function.update_apply, List.mem_cons, h.mem_iff]
    by_cases hq : q = o <;> simp [hq]
  · rw [hf.none_free, List.length_nil] at hlen
    have hv := (h.mem_iff v).mpr ⟨f, hf.resident⟩
    have hold (q) (hq : q ∈ l) : m.usedAt v ≤ m.usedAt q := by
      obtain ⟨i, hi⟩ := (h.mem_iff q).mp hq
      rw [usedAt_of_resident hf.resident, usedAt_of_resident hi]
      have howner := (h.sound.books.owner_iff i q nofun).mpr hi
      exact (hf.oldest i q howner).elim Nat.le_of_lt fun he => Nat.le_of_eq he.1
    rw [← hlen, Nat.add_zero, ← List.dropLast_eq_take]
    refine h.mark hm' hu (List.dropLast_sublist l) (fun hd => ho (List.dropLast_subset l hd))
      fun q => ?_
    rw [hf.entries, Function.update_apply, List.mem_cons, h.mem_dropLast hv hold, h.mem_iff,
      Function.update_apply]
    by_cases hq : q = o
    · simp [hq]
    · by_cases hqv : q = v <;> simp [hq, hqv, hf.other]

end Ranked

end DemandPaging.Pager
