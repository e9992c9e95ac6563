import DemandPaging.Geometry
import DemandPaging.PageTable
import DemandPaging.Proofs.Frames
import DemandPaging.Proofs.Swap
import Mathlib.Logic.Function.Basic
/-!
The books of the memory system: the states of all pages, the frame pool and the swap store agree.
Every step of a page fault and of a teardown changes the books in one of five ways, and between
two of them a frame may be lent: taken from its place and not yet given to a page.
-/

namespace DemandPaging

abbrev PageStates := FrameOwner → Option PageState

theorem PageStates.update_eq_some_iff {st : PageStates} {o : FrameOwner} {a b : PageState}
    (h : st o = some a) (s : PageState) (ha : s ≠ a) (hb : s ≠ b) (q : FrameOwner) :
    Function.update st o (some b) q = some s ↔ st q = some s := by
  rw [Function.update_apply]
  split
  · next hq =>
    rw [hq, h, Option.some.injEq, Option.some.injEq]
    exact ⟨fun e => absurd e.symm hb, fun e => absurd e.symm ha⟩
  · rfl

/-- Page states, frame pool and swap store agree; `lent` is a frame between two places. -/
structure Books {n : Nat} (pageSize : Nat) (st : PageStates) (frames : FrameTable n)
    (swap : SwapStore) (lent : Option FrameNumber) : Prop where
  free_nodup : frames.free.Nodup
  free_iff : ∀ f, lent ≠ some f → (f ∈ frames.free ↔ frames.owner? f = some none)
  owner_iff : ∀ f o, lent ≠ some f →
    (frames.owner? f = some (some o) ↔ st o = some (.resident f))
  lent_frame : ∀ f, lent = some f → f < n ∧ f ∉ frames.free ∧ ∀ o, st o ≠ some (.resident f)
  image_state : ∀ t p, swap.get? t = some p →
    st p.owner = some (.swapped t) ∧ p.image.size = pageSize
  held : ∀ o t, st o = some (.swapped t) → ∃ p, swap.get? t = some p ∧ p.owner = o
  token_lt : swap.nextToken < wordBound

namespace Books

variable {n k : Nat} {st st' : PageStates} {frames frames' : FrameTable n} {swap : SwapStore}
  {lent : Option FrameNumber} {f : FrameNumber} {o : FrameOwner}

theorem start (n k : Nat) :
    Books k (fun _ => none) (FrameTable.allFree n) {} none where
  free_nodup := List.nodup_range
  free_iff f _ := by
    change f ∈ List.range n ↔ _
    rw [List.mem_range]
    constructor
    · intro h
      have : f < n := h
      simp [FrameTable.owner?, FrameTable.info?, FrameTable.allFree, this]
    · exact FrameTable.lt_of_owner?_eq_some
  owner_iff f o _ := by
    simp only [reduceCtorEq, iff_false]
    intro h
    by_cases hf : f < n <;> simp [FrameTable.owner?, FrameTable.info?, FrameTable.allFree, hf] at h
  lent_frame f h := by simp at h
  image_state t p h := by simp [SwapStore.get?] at h
  held o t h := by simp at h
  token_lt := by decide

theorem resident_lt (b : Books k st frames swap none) (h : st o = some (.resident f)) : f < n :=
  FrameTable.lt_of_owner?_eq_some ((b.owner_iff f o nofun).mpr h)

theorem eq_of_resident (b : Books k st frames swap none) {q : FrameOwner}
    (ho : st o = some (.resident f)) (hq : st q = some (.resident f)) : o = q := by
  have ho := (b.owner_iff f o nofun).mpr ho
  have hq := (b.owner_iff f q nofun).mpr hq
  rw [ho] at hq
  exact Option.some.inj (Option.some.inj hq)

theorem eq_of_swapped (b : Books k st frames swap lent) {t : SwapToken} {q : FrameOwner}
    (ho : st o = some (.swapped t)) (hq : st q = some (.swapped t)) : o = q := by
  obtain ⟨p, hp, rfl⟩ := b.held o t ho
  obtain ⟨p', hp', rfl⟩ := b.held q t hq
  rw [hp] at hp'
  rw [Option.some.inj hp']

theorem congr (b : Books k st frames swap lent)
    (h : ∀ s, s ≠ PageState.unmapped → ∀ o, (st' o = some s ↔ st o = some s)) :
    Books k st' frames swap lent where
  free_nodup := b.free_nodup
  free_iff := b.free_iff
  owner_iff f o hf := by rw [b.owner_iff f o hf, h (.resident f) nofun]
  lent_frame f hf := by
    obtain ⟨hn, hfree, hres⟩ := b.lent_frame f hf
    exact ⟨hn, hfree, fun o ho => hres o ((h (.resident f) nofun o).mp ho)⟩
  image_state t p hp := by
    rw [h (.swapped t) nofun]
    exact b.image_state t p hp
  held o t ho := b.held o t ((h (.swapped t) nofun o).mp ho)
  token_lt := b.token_lt

theorem stamped (b : Books k st frames swap lent) (howner : frames'.owner? = frames.owner?)
    (hfree : frames'.free = frames.free) : Books k st frames' swap lent where
  free_nodup := hfree ▸ b.free_nodup
  free_iff f hf := by rw [howner, hfree, b.free_iff f hf]
  owner_iff f o hf := by rw [howner, b.owner_iff f o hf]
  lent_frame f hf := by rw [hfree]; exact b.lent_frame f hf
  image_state := b.image_state
  held := b.held
  token_lt := b.token_lt

theorem take (b : Books k st frames swap none) {rest : List FrameNumber}
    (h : frames.free = f :: rest) : Books k st { frames with free := rest } swap (some f) := by
  have hnodup := b.free_nodup
  rw [h, List.nodup_cons] at hnodup
  have hnone := (b.free_iff f nofun).mp (by rw [h]; exact List.mem_cons_self)
  have same : (⟨frames.info, rest⟩ : FrameTable n).owner? = frames.owner? := rfl
  refine ⟨hnodup.2, fun i hi => ?_, fun i o _ => ?_, ?_, b.image_state, b.held, b.token_lt⟩
  · have hne : i ≠ f := fun e => hi (by rw [e])
    rw [same, ← b.free_iff i nofun, h, List.mem_cons]
    exact ⟨.inr, fun hm => hm.resolve_left hne⟩
  · rw [same]
    exact b.owner_iff i o nofun
  · rintro i hi
    obtain rfl := Option.some.inj hi
    refine ⟨FrameTable.lt_of_owner?_eq_some hnone, hnodup.1, fun o ho => ?_⟩
    rw [(b.owner_iff _ o nofun).mpr ho] at hnone
    simp at hnone

theorem lend (b : Books k st frames swap none) {t : SwapToken} {image : Array UInt8}
    (hf : st o = some (.resident f)) (ht : swap.get? t = none) (hk : image.size = k)
    (time : Nat) :
    Books k (Function.update st o (some (.swapped t))) frames (swap.insert t ⟨o, time, image⟩)
      (some f) := by
  have hf' := (b.owner_iff f o nofun).mpr hf
  have other := PageStates.update_eq_some_iff (b := .swapped t) hf
  refine ⟨b.free_nodup, fun i _ => b.free_iff i nofun, fun i q hi => ?_, ?_, ?_, ?_,
    SwapStore.tokenAfter_lt t⟩
  · rw [b.owner_iff i q nofun, other (.resident i) (fun e => hi (by cases e; rfl)) nofun q]
  · rintro i hi
    obtain rfl := Option.some.inj hi
    refine ⟨FrameTable.lt_of_owner?_eq_some hf', fun hm => ?_, fun q hq => ?_⟩
    · rw [(b.free_iff _ nofun).mp hm] at hf'
      simp at hf'
    · rw [Function.update_apply] at hq
      split at hq
      · simp at hq
      · next hne => exact hne (b.eq_of_resident hq hf)
  · intro u p hp
    rw [SwapStore.get?_insert] at hp
    split at hp
    · next hu =>
      obtain rfl := Option.some.inj hp
      rw [hu] at *
      exact ⟨Function.update_self .., hk⟩
    · next hu =>
      obtain ⟨hst, hsize⟩ := b.image_state u p hp
      exact ⟨(other (.swapped u) nofun (fun e => hu (by cases e; rfl)) _).mpr hst, hsize⟩
  · intro q u hq
    rw [SwapStore.get?_insert]
    rw [Function.update_apply] at hq
    split at hq
    · next he =>
      cases hq
      exact ⟨_, if_pos rfl, he.symm⟩
    · obtain ⟨p, hp, hpo⟩ := b.held q u hq
      refine ⟨p, ?_, hpo⟩
      rw [if_neg, hp]
      rintro rfl
      rw [ht] at hp
      simp at hp

theorem consume (b : Books k st frames swap lent) {t : SwapToken}
    (h : st o = some (.swapped t)) :
    Books k (Function.update st o (some .unmapped)) frames (swap.erase t) lent := by
  have other := PageStates.update_eq_some_iff (b := .unmapped) h
  refine ⟨b.free_nodup, b.free_iff, fun f q hf => ?_, fun f hf => ?_, fun u p hp => ?_,
    fun q u hq => ?_, b.token_lt⟩
  · rw [b.owner_iff f q hf, other (.resident f) nofun nofun q]
  · obtain ⟨hn, hfree, hres⟩ := b.lent_frame f hf
    exact ⟨hn, hfree, fun q hq => hres q ((other (.resident f) nofun nofun q).mp hq)⟩
  · rw [SwapStore.get?_erase] at hp
    split at hp
    · simp at hp
    · next hu =>
      obtain ⟨hst, hsize⟩ := b.image_state u p hp
      exact ⟨(other (.swapped u) (fun e => hu (by cases e; rfl)) nofun _).mpr hst, hsize⟩
  · rw [Function.update_apply] at hq
    split at hq
    · simp at hq
    · next hne =>
      obtain ⟨p, hp, hpo⟩ := b.held q u hq
      refine ⟨p, ?_, hpo⟩
      rw [SwapStore.get?_erase, if_neg, hp]
      rintro rfl
      exact hne (b.eq_of_swapped hq h)

theorem settle (b : Books k st frames swap (some f)) (h : st o = some .unmapped) (stamp : Nat) :
    Books k (Function.update st o (some (.resident f)))
      (frames.change f fun _ => ⟨some o, stamp⟩) swap none := by
  obtain ⟨hn, hfree, hres⟩ := b.lent_frame f rfl
  have other := PageStates.update_eq_some_iff (b := .resident f) h
  have owner := frames.owner?_change_of_owned o stamp hn
  refine ⟨by rw [FrameTable.free_change]; exact b.free_nodup, fun i _ => ?_, fun i q _ => ?_,
    nofun, fun t p hp => ?_, fun q t hq => ?_, b.token_lt⟩
  · rw [owner, FrameTable.free_change]
    split
    · next hi => simpa [hi] using hfree
    · next hi => exact b.free_iff i fun e => hi (Option.some.inj e).symm
  · rw [owner]
    split
    · next hi =>
      rw [hi, Option.some.injEq, Option.some.injEq, Function.update_apply]
      constructor
      · intro hq; rw [if_pos hq.symm]
      · intro hq
        by_contra hne
        rw [if_neg (Ne.symm hne)] at hq
        exact hres q hq
    · next hi =>
      rw [b.owner_iff i q fun e => hi (Option.some.inj e).symm,
        other (.resident i) nofun (fun e => hi (by cases e; rfl)) q]
  · obtain ⟨hst, hsize⟩ := b.image_state t p hp
    exact ⟨(other (.swapped t) nofun nofun _).mpr hst, hsize⟩
  · exact b.held q t ((other (.swapped t) nofun nofun q).mp hq)

theorem reclaim (b : Books k st frames swap none) (h : st o = some (.resident f)) :
    Books k (Function.update st o (some .unmapped)) (frames.released f) swap none := by
  have hf := (b.owner_iff f o nofun).mpr h
  have other := PageStates.update_eq_some_iff (b := .unmapped) h
  have hfree : f ∉ frames.free := fun hm => by
    rw [(b.free_iff f nofun).mp hm] at hf
    simp at hf
  have owner := FrameTable.owner?_released hf
  refine ⟨?_, fun i _ => ?_, fun i q _ => ?_, nofun, fun t p hp => ?_, fun q t hq => ?_,
    b.token_lt⟩
  · rw [FrameTable.free_released]
    exact b.free_nodup.append (List.nodup_singleton f) (List.disjoint_singleton.mpr hfree)
  · rw [owner, FrameTable.free_released, List.mem_append, List.mem_singleton]
    split
    · next hi => exact ⟨fun _ => rfl, fun _ => .inr hi⟩
    · next hi =>
      rw [b.free_iff i nofun]
      exact ⟨fun e => e.resolve_right hi, .inl⟩
  · rw [owner]
    split
    · next hi =>
      simp only [hi, Option.some.injEq, reduceCtorEq, false_iff]
      rw [Function.update_apply]
      split
      · simp
      · next hne => exact fun hq => hne (b.eq_of_resident hq h)
    · next hi =>
      rw [b.owner_iff i q nofun,
        other (.resident i) (fun e => hi (by cases e; rfl)) nofun q]
  · obtain ⟨hst, hsize⟩ := b.image_state t p hp
    exact ⟨(other (.swapped t) nofun nofun _).mpr hst, hsize⟩
  · exact b.held q t ((other (.swapped t) nofun nofun q).mp hq)

theorem exists_victim (b : Books k st frames swap none) (hn : 0 < n) (h : frames.free = []) :
    ∃ v o, frames.leastRecentlyUsed = some v ∧ frames.owner? v = some (some o) := by
  obtain ⟨o, ho⟩ := frames.exists_owner? hn
  cases o with
  | some o => exact FrameTable.exists_leastRecentlyUsed ho
  | none =>
    have := (b.free_iff 0 nofun).mpr ho
    simp [h] at this

end Books

end DemandPaging
