import DemandPaging.Proofs.Action
import DemandPaging.Swap
import Mathlib.Data.List.Nodup
import Mathlib.Data.Nat.ModEq
/-!
The swap store as a map from tokens to images. A token that is issued was not held, and one is
issued unless all tokens of 64 bits are.
-/

namespace DemandPaging.SwapStore

theorem tokenAfter_lt (t : SwapToken) : tokenAfter t < wordBound :=
  Nat.mod_lt _ (by decide)

theorem contains_of_probe?_eq_some {pages : Std.TreeMap SwapToken SwappedPage} {t u : SwapToken}
    {tries : Nat} (h : probe? pages t tries = some u) : pages.contains u = false := by
  induction tries generalizing t with
  | zero => simp [probe?] at h
  | succ tries ih =>
    rw [probe?] at h
    split at h
    · exact ih h
    · next hc =>
      obtain rfl := Option.some.inj h
      exact Bool.eq_false_iff.mpr hc

theorem contains_of_probe?_eq_none {pages : Std.TreeMap SwapToken SwappedPage} {t tries : Nat}
    (h : probe? pages t tries = none) (ht : t < wordBound) {i : Nat} (hi : i < tries) :
    pages.contains ((t + i) % wordBound) = true := by
  induction tries generalizing t i with
  | zero => omega
  | succ tries ih =>
    rw [probe?] at h
    split at h
    · next hc =>
      cases i with
      | zero => rwa [Nat.add_zero, Nat.mod_eq_of_lt ht]
      | succ i =>
        have := ih h (tokenAfter_lt t) (Nat.lt_of_succ_lt_succ hi)
        rwa [tokenAfter, Nat.mod_add_mod, Nat.add_assoc, Nat.add_comm 1 i] at this
    · simp at h

theorem get?_of_freshToken?_eq_some {s : SwapStore} {t : SwapToken}
    (h : s.freshToken? = some t) : s.get? t = none := by
  have hc := contains_of_probe?_eq_some h
  rw [Std.TreeMap.contains_eq_isSome_getElem?] at hc
  exact Option.not_isSome_iff_eq_none.mp (Bool.eq_false_iff.mp hc)

theorem wordBound_le_size {s : SwapStore} (hn : s.nextToken < wordBound)
    (h : s.freshToken? = none) : wordBound ≤ s.size := by
  by_contra hs
  rw [Nat.not_le] at hs
  -- otherwise the tokens probed are one more than the images, and all different
  let probed := (List.range (s.pages.size + 1)).map fun i => (s.nextToken + i) % wordBound
  have nodup : probed.Nodup := by
    refine List.Nodup.map_on (fun i hi j hj hij => ?_) List.nodup_range
    rw [List.mem_range] at hi hj
    simp only [size] at hs
    have hd := Nat.ModEq.add_left_cancel' s.nextToken hij
    exact Nat.ModEq.eq_of_lt_of_lt hd (by omega) (by omega)
  have held : probed ⊆ s.pages.keys := by
    intro t ht
    obtain ⟨i, hi, rfl⟩ := List.mem_map.mp ht
    rw [Std.TreeMap.mem_keys, Std.TreeMap.mem_iff_contains]
    exact contains_of_probe?_eq_none h hn (List.mem_range.mp hi)
  have := nodup.length_le_of_subset held
  rw [List.length_map, List.length_range, Std.TreeMap.length_keys] at this
  omega

theorem isEmpty_of_get?_eq_none {s : SwapStore} (h : ∀ t, s.get? t = none) :
    s.isEmpty = true := by
  refine Std.TreeMap.isEmpty_iff_forall_contains.mpr fun t => ?_
  rw [Std.TreeMap.contains_eq_isSome_getElem?]
  exact congrArg Option.isSome (h t)

def owners (s : SwapStore) : List FrameOwner := s.pages.toList.map fun e => e.2.owner

theorem length_owners (s : SwapStore) : s.owners.length = s.size := by
  rw [owners, List.length_map, Std.TreeMap.length_toList, size]

theorem mem_owners {s : SwapStore} {o : FrameOwner} :
    o ∈ s.owners ↔ ∃ t p, s.get? t = some p ∧ p.owner = o := by
  simp [owners, get?, Std.TreeMap.mem_toList_iff_getElem?_eq_some]

theorem nodup_owners {s : SwapStore}
    (h : ∀ t u p q, s.get? t = some p → s.get? u = some q → p.owner = q.owner → t = u) :
    s.owners.Nodup := by
  refine List.pairwise_map.mpr (Std.TreeMap.distinct_keys_toList.imp_of_mem ?_)
  rintro ⟨t, p⟩ ⟨u, q⟩ hp hq hne he
  rw [Std.TreeMap.mem_toList_iff_getElem?_eq_some] at hp hq
  exact hne (Std.compare_eq_iff_eq.mpr (h t u p q hp hq he))

theorem run_swapOut_some {s : SwapStore} {t : SwapToken} (h : s.freshToken? = some t)
    (image : Array UInt8) (owner : FrameOwner) (time : Nat) :
    (swapOut image owner time).run s =
      ⟨.ok t, s.insert t ⟨owner, time, image⟩, [.swappedOut owner t]⟩ := by
  simp [swapOut, h]

theorem run_swapOut_none {s : SwapStore} (h : s.freshToken? = none) (image : Array UInt8)
    (owner : FrameOwner) (time : Nat) :
    (swapOut image owner time).run s = ⟨.error (.crash .noRoom), s, []⟩ := by
  simp [swapOut, h]

theorem run_swapIn {s : SwapStore} {t : SwapToken} {p : SwappedPage} (h : s.get? t = some p) :
    (swapIn t p.owner p.image.size).run s = ⟨.ok p.image, s.erase t, []⟩ := by
  simp [swapIn, take, h]

theorem run_delete {s : SwapStore} {t : SwapToken} {p : SwappedPage} (h : s.get? t = some p)
    (owner : FrameOwner) :
    (delete t owner).run s = ⟨.ok (), s.erase t, [.swapDeleted t owner]⟩ := by
  simp [delete, take, h]

end DemandPaging.SwapStore
