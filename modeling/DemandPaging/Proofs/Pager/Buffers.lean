import DemandPaging.Proofs.Pager.Books
import DemandPaging.Proofs.Tlb
import DemandPaging.Translator
/-!
Translators agree with the page states: what a buffer caches is resident for the process that the
translator serves, in the frame it says.
-/

namespace DemandPaging

namespace Translator

variable {n : Nat}

/-- Each cached mapping is one of the served process, and no page is cached twice. -/
def Coherent (st : PageStates) (u : Translator n) : Prop :=
  ∀ t, u.tlb = some t → t.Unique ∧ ∀ page frame, t.Maps page frame →
    ∃ pid, u.owner = some pid ∧ st ⟨pid, page⟩ = some (.resident frame)

variable {st st' : PageStates} {u : Translator n}

theorem coherent_new (st : PageStates) (cpu : Nat) (useTlb : Bool) :
    (new cpu useTlb : Translator n).Coherent st := by
  intro t ht
  cases useTlb with
  | false => simp [new] at ht
  | true =>
    obtain rfl : Tlb.empty n = t := by simpa [new] using ht
    exact ⟨Tlb.unique_of_valid_eq_nil Tlb.valid_empty,
      fun page frame hm => absurd hm (Tlb.not_maps_of_valid_eq_nil Tlb.valid_empty page frame)⟩

theorem Coherent.mono (h : u.Coherent st)
    (hst : ∀ pid page frame, u.owner = some pid → st ⟨pid, page⟩ = some (.resident frame) →
      st' ⟨pid, page⟩ = some (.resident frame)) : u.Coherent st' := by
  intro t ht
  obtain ⟨hu, hm⟩ := h t ht
  refine ⟨hu, fun page frame hpf => ?_⟩
  obtain ⟨pid, ho, hs⟩ := hm page frame hpf
  exact ⟨pid, ho, hst pid page frame ho hs⟩

theorem Coherent.of_tlb {v : Translator n} (h : u.Coherent st) (ho : v.owner = u.owner)
    (ht : ∀ t, v.tlb = some t → ∃ t', u.tlb = some t' ∧ (t'.Unique → t.Unique) ∧
      ∀ page frame, t.Maps page frame → t'.Maps page frame) : v.Coherent st := by
  intro t hv
  obtain ⟨t', hu, hunique, hmaps⟩ := ht t hv
  obtain ⟨hu', hm⟩ := h t' hu
  exact ⟨hunique hu', fun page frame hpf => ho ▸ hm page frame (hmaps page frame hpf)⟩

theorem coherent_of_cached_eq_nil (h : u.cached = []) : u.Coherent st := by
  intro t ht
  have hv : t.valid = [] := by simpa [cached, ht] using h
  exact ⟨Tlb.unique_of_valid_eq_nil hv,
    fun page frame hm => absurd hm (Tlb.not_maps_of_valid_eq_nil hv page frame)⟩

theorem mem_cached {s : TlbSlot} : s ∈ u.cached ↔ ∃ t, u.tlb = some t ∧ s ∈ t.valid := by
  unfold cached
  cases u.tlb <;> simp

theorem Coherent.resident_of_cached (h : u.Coherent st) {s : TlbSlot} (hs : s ∈ u.cached) :
    ∃ pid, u.owner = some pid ∧ st ⟨pid, s.page⟩ = some (.resident s.frame) := by
  obtain ⟨t, ht, hv⟩ := mem_cached.mp hs
  exact (h t ht).2 s.page s.frame (Tlb.maps_iff.mpr ⟨s, hv, rfl, rfl⟩)

theorem Coherent.cached_eq_nil_of_owner (h : u.Coherent st) (ho : u.owner = none) :
    u.cached = [] := by
  refine List.eq_nil_iff_forall_not_mem.mpr fun s hs => ?_
  obtain ⟨pid, hp, -⟩ := h.resident_of_cached hs
  rw [ho] at hp
  simp at hp

theorem cached_invalidate (u : Translator n) :
    ({ u with tlb := u.tlb.map Tlb.invalidate } : Translator n).cached = [] := by
  unfold cached
  cases u.tlb with
  | none => rfl
  | some t => exact Tlb.valid_invalidate t

theorem cached_dispatch (u : Translator n) (pid : ProcessId) :
    (u.dispatch pid).cached = if u.switches pid then [] else u.cached := by
  unfold dispatch
  split
  · exact cached_invalidate u
  · rfl

theorem cached_purge (u : Translator n) (pid : ProcessId) (page : PageNumber) :
    (u.purge pid page).2.cached =
      if u.owner = some pid then u.cached.filter fun s => s.page ≠ page else u.cached := by
  unfold purge
  cases ht : u.tlb with
  | none => simp [cached, ht]
  | some t =>
    dsimp only
    split
    · simp [cached, ht, Tlb.valid_purge]
    · rfl

theorem cached_forget (u : Translator n) (pid : ProcessId) :
    (u.forget pid).cached = if u.owner = some pid then [] else u.cached := by
  unfold forget
  split
  · exact cached_invalidate u
  · rfl

theorem Coherent.dispatch (h : u.Coherent st) (pid : ProcessId) : (u.dispatch pid).Coherent st := by
  by_cases hs : u.switches pid = true
  · exact coherent_of_cached_eq_nil (by rw [cached_dispatch, if_pos hs])
  · cases ho : u.owner with
    | none =>
      refine coherent_of_cached_eq_nil ?_
      rw [cached_dispatch, if_neg hs, h.cached_eq_nil_of_owner ho]
    | some old =>
      intro t ht
      rw [Translator.dispatch, if_neg hs] at ht ⊢
      have hold : old = pid := by
        by_contra hne
        have htlb : u.tlb = some t := ht
        exact hs (by simp [switches, htlb, ho, hne])
      exact hold ▸ ho ▸ h t ht

theorem owner_purge (u : Translator n) (pid : ProcessId) (page : PageNumber) :
    (u.purge pid page).2.owner = u.owner := by
  unfold purge
  split
  · split <;> rfl
  · rfl

theorem owner_forget (u : Translator n) (pid : ProcessId) : (u.forget pid).owner = u.owner := by
  unfold forget
  split <;> rfl

theorem Coherent.purge (h : u.Coherent st) (pid : ProcessId) (page : PageNumber) :
    (u.purge pid page).2.Coherent st := by
  refine h.of_tlb (owner_purge u pid page) fun t ht => ?_
  unfold Translator.purge at ht
  split at ht
  · next t' ht' =>
    split at ht
    · obtain rfl := Option.some.inj ht
      exact ⟨t', ht', fun hu => Tlb.unique_purge hu page, fun p f hm => (Tlb.maps_purge.mp hm).2⟩
    · exact ⟨t, ht, id, fun _ _ => id⟩
  · exact ⟨t, ht, id, fun _ _ => id⟩

theorem Coherent.forget (h : u.Coherent st) (pid : ProcessId) : (u.forget pid).Coherent st := by
  unfold Translator.forget
  split
  · exact coherent_of_cached_eq_nil (cached_invalidate u)
  · exact h

theorem not_maps_purge {pid : ProcessId} {page : PageNumber} {t : Tlb n} {frame : FrameNumber}
    (ht : (u.purge pid page).2.tlb = some t) (ho : u.owner = some pid) : ¬t.Maps page frame := by
  unfold Translator.purge at ht
  split at ht
  · rw [if_pos ho] at ht
    obtain rfl := Option.some.inj ht
    exact fun hm => (Tlb.maps_purge.mp hm).1 rfl
  · next hn => rw [hn] at ht; simp at ht

theorem Coherent.purge_update (h : u.Coherent st) (o : FrameOwner) (s : Option PageState) :
    (u.purge o.pid o.page).2.Coherent (Function.update st o s) := by
  intro t ht
  obtain ⟨hu, hm⟩ := h.purge o.pid o.page t ht
  refine ⟨hu, fun page frame hpf => ?_⟩
  obtain ⟨pid, ho, hs⟩ := hm page frame hpf
  refine ⟨pid, ho, ?_⟩
  rw [Function.update_of_ne, hs]
  rintro rfl
  rw [owner_purge] at ho
  exact not_maps_purge ht ho hpf

theorem Coherent.forget_of_eq (h : u.Coherent st) (pid : ProcessId)
    (hst : ∀ o : FrameOwner, o.pid ≠ pid → st' o = st o) : (u.forget pid).Coherent st' := by
  by_cases ho : u.owner = some pid
  · rw [Translator.forget, if_pos ho]
    exact coherent_of_cached_eq_nil (cached_invalidate u)
  · rw [Translator.forget, if_neg ho]
    refine h.mono fun q page frame hq hs => ?_
    rw [hst _ fun e => ho (e ▸ hq), hs]

theorem Coherent.update (h : u.Coherent st) {o : FrameOwner} (s : Option PageState)
    (hn : ∀ f, st o ≠ some (.resident f)) : u.Coherent (Function.update st o s) := by
  refine h.mono fun pid page frame _ hs => ?_
  rw [Function.update_of_ne, hs]
  rintro rfl
  exact hn frame hs

theorem Coherent.lookup (h : u.Coherent st) {t : Tlb n} (ht : u.tlb = some t) (page : PageNumber)
    (stamp : Nat) :
    ({ u with tlb := some (t.lookup page stamp).2 } : Translator n).Coherent st := by
  refine h.of_tlb rfl fun t' ht' => ?_
  obtain rfl := Option.some.inj ht'
  exact ⟨t, ht, fun hu => Tlb.unique_lookup hu page stamp,
    fun p f => (Tlb.maps_lookup t page stamp p f).mp⟩

theorem Coherent.install (h : u.Coherent st) {t t' : Tlb n} {pid : ProcessId} {page : PageNumber}
    {frame : FrameNumber} {stamp : Nat} {load : TlbLoad} (hn : 0 < n) (ht : u.tlb = some t)
    (ho : u.owner = some pid) (hs : st ⟨pid, page⟩ = some (.resident frame))
    (hp : ∀ f, ¬t.Maps page f) (hi : t.install? page frame stamp = some (load, t')) :
    ({ u with tlb := some t' } : Translator n).Coherent st := by
  obtain ⟨load', i, hi'⟩ := t.exists_install? page frame stamp hn
  rw [hi, Option.some.injEq, Prod.mk.injEq] at hi'
  obtain ⟨hu, hm⟩ := h t ht
  intro t'' ht''
  obtain rfl := Option.some.inj ht''
  rw [hi'.2]
  refine ⟨Tlb.unique_set hu hp i frame stamp, fun p f hpf => ?_⟩
  rcases Tlb.maps_set hpf with ⟨rfl, rfl⟩ | hold
  · exact ⟨pid, ho, hs⟩
  · exact hm p f hold

theorem coherent_countLoad (h : u.Coherent st) (load : TlbLoad) :
    (u.countLoad load).Coherent st := by
  cases load <;> exact h

theorem owner_countLoad (u : Translator n) (load : TlbLoad) :
    (u.countLoad load).owner = u.owner := by
  cases load <;> rfl

end Translator

end DemandPaging
