import DemandPaging.Proofs.Pager.Stack
/-!
More frames never hurt. Without buffers, the pages that a memory system has resident are the front
of those that a larger system asked the same has resident, the latest used first. So the larger
system has every page that the smaller one has, and misses no more often.
-/

namespace DemandPaging

structure Geometry.Roomier (g h : Geometry) : Prop where
  pageSize : h.pageSizeLog2 = g.pageSizeLog2
  pageCount : h.pageCountLog2 = g.pageCountLog2
  level1 : h.level1Log2 = g.level1Log2
  tlb : h.tlbLog2 = g.tlbLog2
  frames : g.frameCountLog2 ≤ h.frameCountLog2

namespace Geometry.Roomier

variable {g h : Geometry} (hg : g.Roomier h)

include hg

theorem pageOf_eq (a : VirtualAddress) : h.pageOf a = g.pageOf a := by
  rw [pageOf, hg.pageSize, pageOf]

theorem pageCount_eq : h.pageCount = g.pageCount := by
  rw [Geometry.pageCount, hg.pageCount, Geometry.pageCount]

theorem frameCount_le : g.frameCount ≤ h.frameCount := by
  rw [frameCount, frameCount, Nat.one_shiftLeft, Nat.one_shiftLeft]
  exact Nat.pow_le_pow_right Nat.two_pos hg.frames

end Geometry.Roomier

namespace LruStack

open DemandPaging.Pager

/-- The stack of a system with fewer frames is the front of that of a system with more. -/
structure Below (k k' : LruStack) : Prop where
  units : k'.units = k.units
  live : k'.live = k.live
  used : k'.used = k.used
  recent : k.recent <+: k'.recent
  misses : k'.misses ≤ k.misses

theorem Below.touch {k k' : LruStack} (hk : Below k k') {n n' : Nat} (hn : n ≤ n')
    (o : FrameOwner) : Below (k.touch n o) (k'.touch n' o) := by
  have hmisses := hk.misses
  unfold LruStack.touch
  rw [hk.used]
  split
  · refine ⟨hk.units, hk.live, rfl, promote_isPrefix hn hk.recent o, ?_⟩
    dsimp only
    -- a page that the larger system misses is missed by the smaller one
    split
    · split <;> omega
    · next ho =>
      rw [if_neg fun hs => ho (hk.recent.subset hs)]
      exact Nat.succ_le_succ hmisses
  · exact ⟨hk.units, hk.live, rfl, hk.recent, Nat.succ_le_succ hmisses⟩

theorem Below.serve {g h : Geometry} (hg : g.Roomier h) {k k' : LruStack} (hk : Below k k')
    (r : Request) : Below (k.serve g r) (k'.serve h r) := by
  cases r with
  | create pid =>
    simp only [LruStack.serve, hk.live]
    split
    · exact ⟨hk.units, rfl, hk.used, hk.recent, hk.misses⟩
    · exact hk
  | allocate pid start count =>
    simp only [LruStack.serve, hk.live, hk.used, hg.pageCount_eq]
    split
    · exact ⟨hk.units, rfl, rfl, hk.recent, hk.misses⟩
    · exact hk
  | release pid =>
    refine ⟨hk.units, ?_, ?_, hk.recent.filter _, hk.misses⟩
    · simp only [LruStack.serve, hk.live]
    · simp only [LruStack.serve, hk.used]
  | touch cpu pid a =>
    simp only [LruStack.serve, hk.units, hk.live, hg.pageOf_eq]
    split
    · exact hk.touch hg.frameCount_le _
    · exact hk

end LruStack

namespace Pager

variable {g h : Geometry} {m : Pager g} {k : LruStack}

theorem swap_size_le {n : Pager h} {k' : LruStack} (hk : Mirrors m k) (hk' : Mirrors n k')
    (hb : k.Below k') : n.swap.size ≤ m.swap.size := by
  rw [← m.swap.length_owners]
  refine hk'.sound.swap_size_le fun o t ho => ?_
  -- an image of the larger system is of a page that has an image in the smaller one too
  obtain ⟨hused, hrecent⟩ := (hk'.swapped_iff o).mp ⟨t, ho⟩
  rw [hb.used] at hused
  obtain ⟨u, hu⟩ := (hk.swapped_iff o).mpr ⟨hused, fun hmem => hrecent (hb.recent.subset hmem)⟩
  obtain ⟨p, hp, hpo⟩ := hk.sound.books.held o u hu
  exact SwapStore.mem_owners.mpr ⟨u, p, hp, hpo⟩

def after (m : Pager g) (rs : List Request) : Pager g := rs.foldl (fun m r => r.serve m) m

def Admissible (m : Pager g) : List Request → Prop
  | [] => True
  | r :: rs => r.Permitted m ∧ Admissible (r.serve m) rs

instance Request.decidablePermitted (m : Pager g) : (r : Request) → Decidable (r.Permitted m)
  | .create pid => inferInstanceAs (Decidable (m.space? pid = none))
  | .touch .. => inferInstanceAs (Decidable (m.swap.size < wordBound))
  | .allocate .. | .release _ => inferInstanceAs (Decidable True)

instance decidableAdmissible (m : Pager g) : (rs : List Request) → Decidable (Admissible m rs)
  | [] => inferInstanceAs (Decidable True)
  | r :: rs =>
    have := decidableAdmissible (r.serve m) rs
    inferInstanceAs (Decidable (r.Permitted m ∧ Admissible (r.serve m) rs))

theorem Admissible.of_isPrefix {rs ps : List Request} (hp : Admissible m rs) (hps : ps <+: rs) :
    Admissible m ps := by
  induction ps generalizing m rs with
  | nil => trivial
  | cons r ps ih =>
    obtain ⟨ts, rfl⟩ := hps
    exact ⟨hp.1, ih hp.2 (List.prefix_append ps ts)⟩

theorem below_after (hg : g.Roomier h) {n : Pager h} {k k' : LruStack} (hk : Mirrors m k)
    (hk' : Mirrors n k') (hb : k.Below k') {rs : List Request} (hp : Admissible m rs) :
    ∃ k k', Mirrors (after m rs) k ∧ Mirrors (after n rs) k' ∧ k.Below k' := by
  induction rs generalizing m n k k' with
  | nil => exact ⟨k, k', hk, hk', hb⟩
  | cons r rs ih =>
    have hp' : r.Permitted n := by
      have hp := hp.1
      cases r with
      | create pid =>
        have hlive := hk'.live pid
        rw [hb.live, ← hk.live, show m.space? pid = none from hp] at hlive
        exact Option.not_isSome_iff_eq_none.mp (by rw [hlive]; nofun)
      | touch cpu pid a => exact Nat.lt_of_le_of_lt (swap_size_le hk hk' hb) hp
      | _ => trivial
    exact ih (hk.serve r hp.1) (hk'.serve r hp') (hb.serve hg r) hp.2

/-- Two systems without buffers that differ only in their frames are asked the same, the smaller
one never with a full swap store. At every moment the larger one has every page resident that the
smaller one has, and it has missed no more often. -/
theorem more_frames_never_hurt (hg : g.Roomier h) (units : Nat) {rs : List Request}
    (hp : Admissible (new g (List.replicate units false)) rs) {ps : List Request}
    (hps : ps <+: rs) :
    (∀ pid page f,
      (after (new g (List.replicate units false)) ps).state? pid page = some (.resident f) →
      ∃ i, (after (new h (List.replicate units false)) ps).state? pid page =
        some (.resident i)) ∧
    (after (new h (List.replicate units false)) ps).missed ≤
      (after (new g (List.replicate units false)) ps).missed := by
  have hb : LruStack.Below { units } { units } := ⟨rfl, rfl, rfl, List.prefix_rfl, Nat.le_refl _⟩
  obtain ⟨k, k', hk, hk', hb⟩ :=
    below_after hg (mirrors_new g units) (mirrors_new h units) hb (hp.of_isPrefix hps)
  refine ⟨fun pid page f hf => ?_, ?_⟩
  · have hmem := (hk.mem_iff ⟨pid, page⟩).mpr ⟨f, hf⟩
    exact (hk'.mem_iff ⟨pid, page⟩).mp (hb.recent.subset hmem)
  · rw [hk.misses, hk'.misses]
    exact hb.misses

def twoFrames : Geometry := { oneFrame with frameCountLog2 := 1, physical_le := by decide }

def alternating : List Request :=
  [.create 0, .allocate 0 0 2, .touch 0 0 .zero, .touch 0 0 (.ofNat 4), .touch 0 0 .zero]

theorem more_frames_save_a_miss :
    oneFrame.Roomier twoFrames ∧ Admissible (new oneFrame (List.replicate 1 false)) alternating ∧
    (after (new oneFrame (List.replicate 1 false)) alternating).missed = 3 ∧
    (after (new twoFrames (List.replicate 1 false)) alternating).missed = 2 ∧
    (after (new twoFrames (List.replicate 1 false)) alternating).missed ≤
      (after (new oneFrame (List.replicate 1 false)) alternating).missed := by
  have hg : oneFrame.Roomier twoFrames := ⟨rfl, rfl, rfl, rfl, by decide⟩
  have hp : Admissible (new oneFrame (List.replicate 1 false)) alternating := by decide +kernel
  exact ⟨hg, hp, by decide +kernel, by decide +kernel,
    (more_frames_never_hurt hg 1 hp List.prefix_rfl).2⟩

end Pager

end DemandPaging
