import DemandPaging.Tlb
/-!
What the operations on a buffer do to the mappings it caches. A buffer in which no page has two
valid slots stays one, provided that only uncached pages are installed.
-/

namespace DemandPaging

namespace Tlb

variable {n : Nat}

def Unique (t : Tlb n) : Prop :=
  ∀ i j : Fin n, (t.slots.get i).valid = true → (t.slots.get j).valid = true →
    (t.slots.get i).page = (t.slots.get j).page → i = j

def Maps (t : Tlb n) (page : PageNumber) (frame : FrameNumber) : Prop :=
  ∃ i : Fin n, (t.slots.get i).valid = true ∧ (t.slots.get i).page = page ∧
    (t.slots.get i).frame = frame

theorem mem_valid {t : Tlb n} {s : TlbSlot} :
    s ∈ t.valid ↔ s.valid = true ∧ ∃ i : Fin n, t.slots.get i = s := by
  rw [valid, List.mem_filter, and_comm, Vector.mem_toList_iff, Vector.mem_iff_getElem]
  constructor
  · rintro ⟨hs, i, hi, he⟩
    exact ⟨hs, ⟨i, hi⟩, he⟩
  · rintro ⟨hs, i, he⟩
    exact ⟨hs, i, i.isLt, he⟩

theorem maps_iff {t : Tlb n} {page : PageNumber} {frame : FrameNumber} :
    t.Maps page frame ↔ ∃ s ∈ t.valid, s.page = page ∧ s.frame = frame := by
  constructor
  · rintro ⟨i, hv, hp, hf⟩
    exact ⟨t.slots.get i, mem_valid.mpr ⟨hv, i, rfl⟩, hp, hf⟩
  · rintro ⟨s, hs, hp, hf⟩
    obtain ⟨hv, i, rfl⟩ := mem_valid.mp hs
    exact ⟨i, hv, hp, hf⟩

theorem not_maps_of_valid_eq_nil {t : Tlb n} (h : t.valid = []) (page : PageNumber)
    (frame : FrameNumber) : ¬t.Maps page frame := by
  simp [maps_iff, h]

theorem unique_of_valid_eq_nil {t : Tlb n} (h : t.valid = []) : t.Unique := by
  intro i _ hi
  have hm : t.slots.get i ∈ t.valid := mem_valid.mpr ⟨hi, i, rfl⟩
  simp [h] at hm

theorem findFinIdx?_some {α : Type} {v : Vector α n} {p : α → Bool} {i : Fin n}
    (h : v.findFinIdx? p = some i) : p (v.get i) = true := by
  have hf := v.find?_eq_map_findFinIdx?_getElem (p := p)
  rw [h] at hf
  exact Vector.find?_some hf

theorem find?_eq_some {t : Tlb n} {page : PageNumber} {i : Fin n} (h : t.find? page = some i) :
    (t.slots.get i).valid = true ∧ (t.slots.get i).page = page := by
  simpa using findFinIdx?_some h

theorem find?_eq_none_iff {t : Tlb n} {page : PageNumber} :
    t.find? page = none ↔ ∀ frame, ¬t.Maps page frame := by
  rw [find?, Vector.findFinIdx?_eq_none_iff]
  constructor
  · rintro h frame ⟨i, hv, hp, -⟩
    refine h (t.slots.get i) (Vector.getElem_mem i.isLt) ?_
    rw [Bool.and_eq_true, beq_iff_eq]
    exact ⟨hv, hp⟩
  · intro h s hs hc
    obtain ⟨i, hi, rfl⟩ := Vector.mem_iff_getElem.mp hs
    rw [Bool.and_eq_true, beq_iff_eq] at hc
    exact h _ ⟨⟨i, hi⟩, hc.1, hc.2, rfl⟩

private theorem get_set (v : Vector TlbSlot n) (i j : Fin n) (s : TlbSlot) :
    (v.set i.val s i.isLt).get j = if i = j then s else v.get j := by
  change (v.set i.val s i.isLt)[j.val] = if i = j then s else v[j.val]
  simp only [Vector.getElem_set, Fin.val_inj]

theorem maps_lookup (t : Tlb n) (page : PageNumber) (stamp : Nat) (p : PageNumber)
    (f : FrameNumber) : (t.lookup page stamp).2.Maps p f ↔ t.Maps p f := by
  unfold lookup
  split
  · rfl
  · next i hi =>
    simp only [Maps, get_set]
    constructor
    · rintro ⟨j, hj⟩
      refine ⟨j, ?_⟩
      split at hj
      · next hij => subst hij; exact hj
      · exact hj
    · rintro ⟨j, hj⟩
      refine ⟨j, ?_⟩
      split
      · next hij => subst hij; exact hj
      · exact hj

theorem unique_lookup {t : Tlb n} (h : t.Unique) (page : PageNumber) (stamp : Nat) :
    (t.lookup page stamp).2.Unique := by
  unfold lookup
  split
  · exact h
  · next i hi =>
    have same : ∀ j : Fin n,
        (if i = j then { t.slots[i] with referenced := stamp } else t.slots.get j).valid =
          (t.slots.get j).valid ∧
        (if i = j then { t.slots[i] with referenced := stamp } else t.slots.get j).page =
          (t.slots.get j).page := by
      intro j
      split
      · next hij => subst hij; exact ⟨rfl, rfl⟩
      · exact ⟨rfl, rfl⟩
    intro j k hj hk hjk
    simp only [get_set, same] at hj hk hjk
    exact h j k hj hk hjk

theorem lookup_eq_some {t : Tlb n} {page : PageNumber} {stamp : Nat} {f : FrameNumber}
    (h : (t.lookup page stamp).1 = some f) : t.Maps page f := by
  unfold lookup at h
  split at h
  · simp at h
  · next i hi =>
    obtain ⟨hv, hp⟩ := find?_eq_some hi
    exact ⟨i, hv, hp, Option.some.inj h⟩

theorem lookup_of_none {t : Tlb n} {page : PageNumber} {stamp : Nat}
    (h : (t.lookup page stamp).1 = none) : (t.lookup page stamp).2 = t := by
  unfold lookup at *
  split <;> simp_all

theorem lookup_eq_none_iff {t : Tlb n} {page : PageNumber} {stamp : Nat} :
    (t.lookup page stamp).1 = none ↔ ∀ frame, ¬t.Maps page frame := by
  rw [← find?_eq_none_iff]
  unfold lookup
  split <;> simp_all

private theorem isSome_foldl {α β : Type} {f : Option α → β → Option α}
    (hf : ∀ b i, (f b i).isSome = true) (l : List β) (best : Option α)
    (h : best.isSome = true ∨ l ≠ []) : (l.foldl f best).isSome = true := by
  induction l generalizing best with
  | nil => exact h.resolve_right fun hn => hn rfl
  | cons i l ih => exact ih (f best i) (.inl (hf best i))

theorem oldest?_isSome (t : Tlb n) (h : 0 < n) : t.oldest?.isSome = true := by
  refine isSome_foldl (fun best i => ?_) _ none (.inr ?_)
  · rcases best with _ | b
    · rfl
    · dsimp only
      split <;> rfl
  · intro hn
    have := List.length_finRange (n := n)
    rw [hn, List.length_nil] at this
    omega

private theorem le_of_foldl {α : Type} (key : α → Nat) {f : Option α → α → Option α}
    (hf : ∀ best a, ∃ r, f best a = some r ∧ (∀ b, best = some b → key r ≤ key b) ∧ key r ≤ key a)
    {l : List α} {best : Option α} {i : α} (h : l.foldl f best = some i) :
    (∀ b, best = some b → key i ≤ key b) ∧ ∀ a ∈ l, key i ≤ key a := by
  induction l generalizing best with
  | nil =>
    refine ⟨fun b hb => ?_, nofun⟩
    obtain rfl := Option.some.inj (hb.symm.trans h)
    exact Nat.le_refl _
  | cons a l ih =>
    obtain ⟨r, hr, hbest, ha⟩ := hf best a
    obtain ⟨hir, hrest⟩ := ih h
    have hle := hir r hr
    exact ⟨fun b hb => Nat.le_trans hle (hbest b hb),
      List.forall_mem_cons.mpr ⟨Nat.le_trans hle ha, hrest⟩⟩

theorem oldest?_le {t : Tlb n} {i : Fin n} (h : t.oldest? = some i) (j : Fin n) :
    (t.slots.get i).referenced ≤ (t.slots.get j).referenced := by
  unfold oldest? at h
  refine (le_of_foldl (fun i => (t.slots.get i).referenced) ?_ h).2 j (List.mem_finRange j)
  intro best a
  cases best with
  | none => exact ⟨a, rfl, nofun, Nat.le_refl _⟩
  | some b =>
    dsimp only
    split
    next hlt =>
      refine ⟨a, rfl, ?_, Nat.le_refl _⟩
      rintro _ ⟨⟩
      exact Nat.le_of_lt hlt
    next hge =>
      refine ⟨b, rfl, ?_, Nat.le_of_not_lt hge⟩
      rintro _ ⟨⟩
      exact Nat.le_refl _

theorem exists_install? (t : Tlb n) (page : PageNumber) (frame : FrameNumber) (stamp : Nat)
    (h : 0 < n) : ∃ load, ∃ i : Fin n, t.install? page frame stamp =
      some (load, ⟨t.slots.set i.val ⟨true, page, frame, stamp⟩ i.isLt⟩) := by
  unfold install?
  split
  · next i hi => exact ⟨_, i, rfl⟩
  · obtain ⟨i, hi⟩ := Option.isSome_iff_exists.mp (t.oldest?_isSome h)
    rw [hi]
    exact ⟨_, i, rfl⟩

theorem maps_set {t : Tlb n} {i : Fin n} {page p : PageNumber} {frame f : FrameNumber}
    {stamp : Nat}
    (h : (⟨t.slots.set i.val ⟨true, page, frame, stamp⟩ i.isLt⟩ : Tlb n).Maps p f) :
    p = page ∧ f = frame ∨ t.Maps p f := by
  obtain ⟨j, hv, hp, hf⟩ := h
  simp only [get_set] at hv hp hf
  by_cases hij : i = j
  · rw [if_pos hij] at hp hf
    exact .inl ⟨hp.symm, hf.symm⟩
  · rw [if_neg hij] at hv hp hf
    exact .inr ⟨j, hv, hp, hf⟩

theorem unique_set {t : Tlb n} (h : t.Unique) {page : PageNumber}
    (hp : ∀ frame, ¬t.Maps page frame) (i : Fin n) (frame : FrameNumber) (stamp : Nat) :
    (⟨t.slots.set i.val ⟨true, page, frame, stamp⟩ i.isLt⟩ : Tlb n).Unique := by
  intro j k hj hk hjk
  simp only [get_set] at hj hk hjk
  by_cases hij : i = j <;> by_cases hik : i = k
  · rw [← hij, ← hik]
  · rw [if_pos hij, if_neg hik] at hjk
    rw [if_neg hik] at hk
    exact absurd ⟨k, hk, hjk.symm, rfl⟩ (hp _)
  · rw [if_neg hij, if_pos hik] at hjk
    rw [if_neg hij] at hj
    exact absurd ⟨j, hj, hjk, rfl⟩ (hp _)
  · rw [if_neg hij, if_neg hik] at hjk
    rw [if_neg hij] at hj
    rw [if_neg hik] at hk
    exact h j k hj hk hjk

theorem maps_purge {t : Tlb n} {page p : PageNumber} {f : FrameNumber} :
    (t.purge page).2.Maps p f ↔ p ≠ page ∧ t.Maps p f := by
  simp only [maps_iff, valid_purge, List.mem_filter, decide_eq_true_eq]
  constructor
  · rintro ⟨s, ⟨hs, hne⟩, rfl, rfl⟩
    exact ⟨hne, s, hs, rfl, rfl⟩
  · rintro ⟨hne, s, hs, rfl, rfl⟩
    exact ⟨s, ⟨hs, hne⟩, rfl, rfl⟩

theorem unique_purge {t : Tlb n} (h : t.Unique) (page : PageNumber) :
    (t.purge page).2.Unique := by
  have kept : ∀ i : Fin n, ((t.purge page).2.slots.get i).valid = true →
      (t.purge page).2.slots.get i = t.slots.get i ∧ (t.slots.get i).valid = true := by
    intro i hi
    have hslot : (t.purge page).2.slots.get i = if caches page (t.slots.get i) then
        { t.slots.get i with valid := false } else t.slots.get i := Vector.getElem_map _ i.isLt
    rw [hslot] at hi ⊢
    split at hi
    · simp at hi
    · next hc => exact ⟨if_neg hc, hi⟩
  intro i j hi hj hij
  obtain ⟨ei, hi⟩ := kept i hi
  obtain ⟨ej, hj⟩ := kept j hj
  rw [ei, ej] at hij
  exact h i j hi hj hij

/-! Stamps. -/

/-- A slot of a frame has this stamp now, and no slot of another frame is lost. -/
structure Stamped (frame : FrameNumber) (stamp : Nat) (t t' : Tlb n) : Prop where
  marked : ∃ s ∈ t'.valid, s.frame = frame ∧ s.referenced = stamp
  old : ∀ s ∈ t'.valid, s ∈ t.valid ∨ s.frame = frame ∧ s.referenced = stamp
  kept : ∀ s ∈ t.valid, s.frame ≠ frame → s ∈ t'.valid

/-- A slot of a frame has this stamp now, and no slot of another frame is new. -/
structure Marked (frame : FrameNumber) (stamp : Nat) (t t' : Tlb n) : Prop where
  marked : ∃ s ∈ t'.valid, s.frame = frame ∧ s.referenced = stamp
  old : ∀ s ∈ t'.valid, s ∈ t.valid ∨ s.frame = frame ∧ s.referenced = stamp

theorem marked_set {t : Tlb n} {i : Fin n} {s : TlbSlot} (hs : s.valid = true) :
    Marked s.frame s.referenced t ⟨t.slots.set i.val s i.isLt⟩ := by
  refine ⟨⟨s, mem_valid.mpr ⟨hs, i, ?_⟩, rfl, rfl⟩, fun r hr => ?_⟩
  · rw [get_set, if_pos rfl]
  · obtain ⟨hv, j, rfl⟩ := mem_valid.mp hr
    rw [get_set] at hv ⊢
    split at hv
    · next hij => exact .inr (by rw [if_pos hij]; exact ⟨rfl, rfl⟩)
    · next hij => exact .inl (by rw [if_neg hij]; exact mem_valid.mpr ⟨hv, j, rfl⟩)

theorem stamped_set {t : Tlb n} {i : Fin n} {s : TlbSlot} (hs : s.valid = true)
    (hi : (t.slots.get i).valid = false ∨ (t.slots.get i).frame = s.frame) :
    Stamped s.frame s.referenced t ⟨t.slots.set i.val s i.isLt⟩ := by
  have hmark := marked_set (t := t) (i := i) hs
  refine ⟨hmark.marked, hmark.old, fun r hr hne => ?_⟩
  obtain ⟨hv, j, rfl⟩ := mem_valid.mp hr
  have hij : i ≠ j := by
    rintro rfl
    rcases hi with hi | hi
    · simp [hi] at hv
    · exact hne hi
  exact mem_valid.mpr ⟨hv, j, by rw [get_set, if_neg hij]⟩

theorem stamped_lookup {t : Tlb n} {page : PageNumber} {stamp : Nat} {f : FrameNumber}
    (h : (t.lookup page stamp).1 = some f) : Stamped f stamp t (t.lookup page stamp).2 := by
  unfold lookup at h ⊢
  split at h
  · simp at h
  · next i hi =>
    obtain rfl := Option.some.inj h
    exact stamped_set (s := { t.slots[i] with referenced := stamp }) (find?_eq_some hi).1
      (.inr rfl)

theorem stamped_install {t t' : Tlb n} {page : PageNumber} {frame : FrameNumber} {stamp : Nat}
    {i : Nat} (h : t.install? page frame stamp = some (.clean i, t')) :
    Stamped frame stamp t t' := by
  unfold install? at h
  split at h
  · next j hj =>
    obtain ⟨-, rfl⟩ := Prod.mk.inj (Option.some.inj h)
    exact stamped_set (s := ⟨true, page, frame, stamp⟩) rfl
      (.inl (by simpa using findFinIdx?_some hj))
  · obtain ⟨j, -, hj⟩ := Option.map_eq_some_iff.mp h
    simp at hj

theorem marked_install {t t' : Tlb n} {page : PageNumber} {frame : FrameNumber} {stamp : Nat}
    {load : TlbLoad} (h : t.install? page frame stamp = some (load, t')) :
    Marked frame stamp t t' := by
  unfold install? at h
  split at h
  · obtain ⟨-, rfl⟩ := Prod.mk.inj (Option.some.inj h)
    exact marked_set (s := ⟨true, page, frame, stamp⟩) rfl
  · obtain ⟨j, -, hj⟩ := Option.map_eq_some_iff.mp h
    obtain ⟨-, rfl⟩ := Prod.mk.inj hj
    exact marked_set (s := ⟨true, page, frame, stamp⟩) rfl

theorem valid_of_steal {t t' : Tlb n} {page p : PageNumber} {frame f : FrameNumber} {stamp i : Nat}
    (h : t.install? page frame stamp = some (.steal i p f, t')) (j : Fin n) :
    (t.slots.get j).valid = true := by
  unfold install? at h
  split at h
  · simp at h
  · next hnone =>
    have hj := Vector.findFinIdx?_eq_none_iff.mp hnone (t.slots.get j) (Vector.getElem_mem j.isLt)
    simpa using hj

end Tlb

end DemandPaging
