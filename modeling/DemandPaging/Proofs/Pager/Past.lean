import DemandPaging.Proofs.Pager.Stamps
/-!
No stamp is later than the clock. The memory system keeps this whatever it is asked, in order or
not: a stamp is read off the clock after it has moved, or copied from one that is there already.
-/

namespace DemandPaging

namespace FrameTable

variable {n : Nat} {t u : FrameTable n} {f : FrameNumber} {k : Nat}

theorem stampOf_modify?_le {c : FrameInfo → FrameInfo} (h : t.modify? f c = some u)
    (hc : ∀ i, (c i).referenced ≤ max i.referenced k) (j : FrameNumber) :
    u.stampOf j ≤ max (t.stampOf j) k := by
  rw [stampOf, stampOf, info?_modify? h]
  split
  · cases t.info? j with
    | none => exact Nat.zero_le _
    | some i => exact hc i
  · exact le_max_left _ _

theorem stampOf_assign?_le {o : FrameOwner} (h : t.assign? f o k = some u) (j : FrameNumber) :
    u.stampOf j ≤ max (t.stampOf j) k :=
  stampOf_modify?_le h (fun _ => le_max_right _ _) j

theorem stampOf_touch?_le (h : t.touch? f k = some u) (j : FrameNumber) :
    u.stampOf j ≤ max (t.stampOf j) k :=
  stampOf_modify?_le h (fun i => by split <;> simp) j

theorem stampOf_refresh?_le {stamp : Nat} (h : t.refresh? f stamp = some u) (hs : stamp ≤ k)
    (j : FrameNumber) : u.stampOf j ≤ max (t.stampOf j) k :=
  stampOf_modify?_le h (fun i => by split <;> [exact max_le_max_left _ hs; exact le_max_left _ _]) j

theorem stampOf_release?_le {old : Option FrameOwner} (h : t.release? f = some (old, u))
    (j : FrameNumber) : u.stampOf j ≤ max (t.stampOf j) k := by
  obtain ⟨i, -, h⟩ := Option.bind_eq_some_iff.mp h
  obtain ⟨v, hv, h⟩ := Option.map_eq_some_iff.mp h
  obtain ⟨-, rfl⟩ := Prod.mk.inj h
  have hle := stampOf_modify?_le (k := k) hv (fun _ => le_max_left _ _) j
  split
  · exact hle
  · exact hle

end FrameTable

theorem Tlb.referenced_lookup {n : Nat} {t : Tlb n} {page : PageNumber} {stamp : Nat} {s : TlbSlot}
    (hs : s ∈ (t.lookup page stamp).2.valid) : s ∈ t.valid ∨ s.referenced = stamp := by
  cases hl : (t.lookup page stamp).1 with
  | none =>
    rw [lookup_of_none hl] at hs
    exact .inl hs
  | some f => exact ((stamped_lookup hl).old s hs).imp_right And.right

theorem Translator.cached_countLoad {n : Nat} (u : Translator n) (load : TlbLoad) :
    (u.countLoad load).cached = u.cached := by cases load <;> rfl

namespace Pager

open DemandPaging.Action

variable {g : Geometry} {m m' : Pager g} {k : Nat} {cpu : Nat} {α : Type}

/-- No stamp is later than the clock, which has come this far. -/
def Timely (k : Nat) (m : Pager g) : Prop := m.Past ∧ k ≤ m.clock.current

theorem timely_zero : m.Timely 0 ↔ m.Past := and_iff_left (Nat.zero_le _)

theorem Timely.slot {s : TlbSlot} {c : Nat} (h : m.Timely k) (hs : s ∈ m.slotsOf c) :
    s.referenced ≤ m.clock.current := h.1 s.frame _ (.inr ⟨c, s, hs, rfl, Nat.le_refl _⟩)

/-- The stamps of the second system are those of the first and older ones, and this one. -/
structure Stamps (k : Nat) (m m' : Pager g) : Prop where
  clock : m.clock.current ≤ m'.clock.current
  frames : ∀ f, m'.frames.stampOf f ≤ max (m.frames.stampOf f) k
  slots : ∀ c, ∀ s ∈ m'.slotsOf c, s ∈ m.slotsOf c ∨ s.referenced ≤ k

theorem Stamps.timely (h : Stamps k m m') (hm : m.Timely k) : m'.Timely k := by
  refine ⟨fun f j hj => ?_, hm.2.trans h.clock⟩
  rcases hj with hj | ⟨c, s, hs, rfl, hj⟩
  · have hold := hm.1 f _ (.inl (Nat.le_refl _))
    have hbound := hj.trans (h.frames f)
    exact (hbound.trans (max_le hold hm.2)).trans h.clock
  · rcases h.slots c s hs with hs | hk
    · exact (hj.trans (hm.slot hs)).trans h.clock
    · exact ((hj.trans hk).trans hm.2).trans h.clock

theorem stamps_of_eq (hclock : m'.clock = m.clock) (hframes : m'.frames.stampOf = m.frames.stampOf)
    (hunits : m'.translators = m.translators) : Stamps k m m' :=
  ⟨by rw [hclock], fun f => by rw [hframes]; exact le_max_left _ _,
    fun c s hs => .inl (by rwa [slotsOf, hunits] at hs)⟩

theorem stamps_map (m : Pager g) {change : Translator g.tlbEntries → Translator g.tlbEntries}
    (hc : ∀ u, (change u).cached ⊆ u.cached) :
    Stamps k m { m with translators := m.translators.map change } := by
  refine ⟨Nat.le_refl _, fun _ => le_max_left _ _, fun c s hs => .inl ?_⟩
  obtain ⟨v, hv, hs⟩ := mem_slotsOf.mp hs
  rw [Array.getElem?_map] at hv
  obtain ⟨u, hu, rfl⟩ := Option.map_eq_some_iff.mp hv
  exact mem_slotsOf.mpr ⟨u, hu, hc u hs⟩

/-! The small actions. -/

theorem preserves_of_stamps {x : Paged g α} (h : ∀ m, Stamps k m (x.run m).state) :
    Preserves (Timely k) x := fun m hm => (h m).timely hm

theorem timely_modify {change : Pager g → Pager g} (hclock : ∀ m, (change m).clock = m.clock)
    (hframes : ∀ m, (change m).frames.stampOf = m.frames.stampOf)
    (hunits : ∀ m, (change m).translators = m.translators) :
    Preserves (Timely k) (modify change : Paged g Unit) :=
  preserves_of_stamps fun m => stamps_of_eq (hclock m) (hframes m) (hunits m)

theorem timely_onFrames {change : FrameTable g.frameCount → Option (FrameTable g.frameCount)}
    (hc : ∀ t u, change t = some u → ∀ f, u.stampOf f ≤ max (t.stampOf f) k) :
    Preserves (Timely k) (onFrames change) :=
  preserves_update _ fun m m' h hm => by
    obtain ⟨t, ht, rfl⟩ := Option.map_eq_some_iff.mp h
    have hs : Stamps k m { m with frames := t } :=
      ⟨Nat.le_refl _, hc _ _ ht, fun _ _ hs => .inl hs⟩
    exact hs.timely hm

theorem timely_serve {f : Translator g.tlbEntries → Paged g α}
    (hf : ∀ u j, k ≤ j → (∀ s ∈ u.cached, s.referenced ≤ j) → Preserves (Timely j) (f u)) :
    Preserves (Timely k) (translator cpu >>= f) := by
  intro m hm
  rw [run_bind]
  cases hu : m.translators[cpu]? with
  | none =>
    rw [run_translator_none m hu]
    exact hm
  | some u =>
    rw [run_translator m hu]
    have hslots (s) (hs : s ∈ u.cached) : s.referenced ≤ m.clock.current :=
      hm.slot (mem_slotsOf.mpr ⟨u, hu, hs⟩)
    have hrest := hf u m.clock.current hm.2 hslots m ⟨hm.1, Nat.le_refl _⟩
    exact ⟨hrest.1, hm.2.trans hrest.2⟩

theorem timely_frames {f : Pager g → Paged g α}
    (hf : ∀ m j, k ≤ j → (∀ i, m.frames.stampOf i ≤ j) → Preserves (Timely j) (f m)) :
    Preserves (Timely k) (get >>= f) := by
  intro m hm
  have hstamps (i) : m.frames.stampOf i ≤ m.clock.current := hm.1 i _ (.inl (Nat.le_refl _))
  have hrest := hf m m.clock.current hm.2 hstamps m ⟨hm.1, Nat.le_refl _⟩
  rw [run_bind, run_get]
  exact ⟨hrest.1, hm.2.trans hrest.2⟩

theorem timely_setTranslator {v : Translator g.tlbEntries} (hv : ∀ s ∈ v.cached, s.referenced ≤ k) :
    Preserves (Timely k) (setTranslator cpu v : Paged g Unit) := by
  refine preserves_of_stamps fun m => ⟨Nat.le_refl _, fun _ => le_max_left _ _, fun c s hs => ?_⟩
  obtain ⟨w, hw, hs⟩ := mem_slotsOf.mp hs
  rw [run_setTranslator, Array.getElem?_setIfInBounds] at hw
  split at hw
  · split at hw
    · exact .inr (hv s (Option.some.inj hw ▸ hs))
    · simp at hw
  · exact .inl (mem_slotsOf.mpr ⟨w, hw, hs⟩)

theorem timely_stamp_bind {f : Nat → Paged g α}
    (hf : ∀ now, k ≤ now → Preserves (Timely now) (f now)) :
    Preserves (Timely k) (stamp >>= f) := by
  intro m hm
  have hle := hm.2.trans (Nat.le_succ _)
  have htick : Stamps k m m.ticked :=
    ⟨Nat.le_succ _, fun _ => le_max_left _ _, fun _ _ hs => .inl hs⟩
  have hrest := hf _ hle m.ticked ⟨(htick.timely hm).1, Nat.le_refl _⟩
  rw [run_bind, run_stamp]
  exact ⟨hrest.1, hle.trans hrest.2⟩

theorem timely_space (pid : ProcessId) : Preserves (Timely k) (space pid : Paged g _) :=
  preserves_get.bind fun _ => preserves_ofOption _ _

theorem timely_page (f : FrameNumber) : Preserves (Timely k) (page f : Paged g (Page g)) :=
  preserves_get.bind fun _ => preserves_ofOption _ _

theorem timely_setPage (f : FrameNumber) (p : Page g) : Preserves (Timely k) (setPage f p) :=
  preserves_update _ fun m m' h hm => by
    obtain ⟨r, -, rfl⟩ := Option.map_eq_some_iff.mp h
    exact hm

theorem timely_setState (pid : ProcessId) (page : PageNumber) (state : PageState) :
    Preserves (Timely k) (setState pid page state : Paged g Unit) :=
  timely_modify (fun m => clock_putState m ⟨pid, page⟩ state)
    (fun m => congrArg FrameTable.stampOf (frames_putState m ⟨pid, page⟩ state))
    fun m => translators_putState m ⟨pid, page⟩ state

theorem timely_onSwap (x : SwapStore.Store α) : Preserves (Timely k) (onSwap x : Paged g α) :=
  preserves_within _ _ fun _ hm => hm

/-! Faults. -/

theorem timely_flush (cpu : Nat) : Preserves (Timely k) (flush cpu : Paged g Unit) :=
  timely_serve fun _ _ _ hs => preserves_each fun s hm =>
    timely_onFrames fun _ _ h => FrameTable.stampOf_refresh?_le h (hs s hm)

theorem timely_flushAll : Preserves (Timely k) (flushAll : Paged g Unit) :=
  preserves_get.bind fun _ => preserves_each fun _ _ => timely_flush _

theorem timely_list (on : Paging.Occasion) (f : FrameNumber) :
    Preserves (Timely k) (list on f : Paged g Unit) :=
  (timely_page f).bind fun _ => preserves_report _

theorem timely_evict (f : FrameNumber) (o : FrameOwner) :
    Preserves (Timely k) (evict f o : Paged g Unit) := by
  refine preserves_get.bind fun m => (preserves_ofOption _ _).bind fun victim => ?_
  refine (preserves_report _).bind fun _ => preserves_get.bind fun m => ?_
  have hswap : Preserves (Timely k) (do
      let image := (← page f).toArray
      report (.swappingOut image)
      let token ← onSwap (SwapStore.swapOut image victim (← get).clock.current)
      setState victim.pid victim.page (.swapped token)
      modify fun m => m.purgeAll victim.pid victim.page : Paged g Unit) := by
    refine (timely_page f).bind fun p => (preserves_report _).bind fun _ => ?_
    refine preserves_get.bind fun m => (timely_onSwap _).bind fun token => ?_
    refine (timely_setState _ _ _).bind fun _ => preserves_of_stamps fun m => ?_
    refine stamps_map m fun u s hs => ?_
    rw [Translator.cached_purge] at hs
    split at hs
    · exact List.mem_of_mem_filter hs
    · exact hs
  split
  · exact (preserves_fail _).bind fun _ => hswap
  · exact hswap

theorem timely_obtainFrame (o : FrameOwner) :
    Preserves (Timely k) (obtainFrame o : Paged g FrameNumber) := by
  refine timely_frames fun m j _ hstamps => ?_
  split
  · next f t ht =>
    have hsame : t.stampOf = m.frames.stampOf := by
      unfold FrameTable.takeFree? at ht
      split at ht
      · simp at ht
      · obtain ⟨-, rfl⟩ := Prod.mk.inj (Option.some.inj ht)
        rfl
    refine Preserves.bind (preserves_of_stamps fun m' => ?_) fun _ =>
      (preserves_report _).bind fun _ => preserves_pure f
    exact ⟨Nat.le_refl _, fun i => le_max_of_le_right (hsame ▸ hstamps i), fun _ _ hs => .inl hs⟩
  · exact preserves_get.bind fun m => (preserves_ofOption _ _).bind fun f =>
      (timely_evict f o).bind fun _ => preserves_pure f

theorem timely_claimFrame (o : FrameOwner) :
    Preserves (Timely k) (claimFrame o : Paged g FrameNumber) :=
  (timely_obtainFrame o).bind fun f => timely_stamp_bind fun _ _ =>
    (timely_onFrames fun _ _ h => FrameTable.stampOf_assign?_le h).bind fun _ => preserves_pure f

theorem timely_fill (f : FrameNumber) (o : FrameOwner) (state : PageState) :
    Preserves (Timely k) (fill f o state : Paged g Unit) := by
  cases state with
  | swapped token =>
    refine (timely_list _ f).bind fun _ => (timely_onSwap _).bind fun image => ?_
    exact (preserves_ofOption _ _).bind fun p => (timely_setPage f p).bind fun _ => timely_list _ f
  | _ =>
    exact (timely_list _ f).bind fun _ => (timely_setPage f _).bind fun _ => timely_list _ f

theorem timely_bringIn (o : FrameOwner) (state : PageState) :
    Preserves (Timely k) (bringIn o state : Paged g FrameNumber) :=
  timely_flushAll.bind fun _ => (timely_claimFrame o).bind fun f =>
    (timely_fill f o state).bind fun _ => (timely_setState _ _ _).bind fun _ => preserves_pure f

theorem timely_handleFault (pid : ProcessId) (a : VirtualAddress) (access : Access) :
    Preserves (Timely k) (handleFault pid a access : Paged g Resolution) := by
  unfold handleFault
  dsimp only
  split
  · exact (preserves_report _).bind fun _ => preserves_pure _
  · refine (timely_space pid).bind fun s => ?_
    split
    · exact (preserves_report _).bind fun _ => preserves_pure _
    · split
      · exact (preserves_report _).bind fun _ => preserves_pure _
      · exact preserves_pure _
      · exact (timely_bringIn _ _).bind fun f => preserves_pure _

theorem timely_release (pid : ProcessId) :
    Preserves (Timely k) (release pid : Paged g Unit) := by
  refine (timely_space pid).bind fun s => ?_
  refine Preserves.bind (timely_modify (fun _ => rfl) (fun _ => rfl) fun _ => rfl) fun _ => ?_
  refine Preserves.bind (preserves_each fun entry _ => ?_) fun _ => preserves_of_stamps fun m => ?_
  · obtain ⟨page, state⟩ := entry
    cases state with
    | unmapped => exact preserves_pure ()
    | resident f =>
      refine (preserves_report _).bind fun _ => timely_onFrames fun t u h => ?_
      obtain ⟨⟨old, v⟩, hv, rfl⟩ := Option.map_eq_some_iff.mp h
      exact FrameTable.stampOf_release?_le hv
    | swapped token => exact timely_onSwap _
  · refine stamps_map m fun u s hs => ?_
    rw [Translator.cached_forget] at hs
    split at hs
    · simp at hs
    · exact hs

/-! Translating. -/

theorem timely_hit (cpu : Nat) (page : PageNumber) (f : FrameNumber) :
    Preserves (Timely k) (hit cpu page f : Paged g Unit) :=
  timely_serve fun u _ _ hs =>
    (timely_setTranslator (v := u.countHit) hs).bind fun _ => preserves_report _

theorem timely_lookup {t : Tlb g.tlbEntries} (ht : ∀ s ∈ t.valid, s.referenced ≤ k)
    (page : PageNumber) :
    Preserves (Timely k) (lookup cpu t page : Paged g (Option FrameNumber)) := by
  refine timely_stamp_bind fun now hk => timely_serve fun u j hj _ => ?_
  refine (timely_setTranslator fun s hs => ?_).bind fun _ => preserves_pure _
  rcases Tlb.referenced_lookup hs with hs | rfl
  · exact ((ht s hs).trans hk).trans hj
  · exact hj

theorem timely_install (cpu : Nat) (page : PageNumber) (f : FrameNumber) :
    Preserves (Timely k) (install cpu page f : Paged g Unit) := by
  refine timely_stamp_bind fun now _ => timely_serve fun u j hj hs => ?_
  split
  · exact preserves_pure ()
  · next t ht =>
    refine preserves_ofOption_bind fun ⟨load, t'⟩ hi => ?_
    refine Preserves.bind (timely_setTranslator fun s hm => ?_) fun _ => preserves_report _
    rw [Translator.cached_countLoad] at hm
    rcases (Tlb.marked_install hi).old s hm with hm | ⟨-, rfl⟩
    · exact hs s (Translator.mem_cached.mpr ⟨t, ht, hm⟩)
    · exact hj

theorem timely_walk (cpu : Nat) (s : AddressSpace g) (page : PageNumber) :
    Preserves (Timely k) (walk cpu s page) := by
  unfold walk
  split
  · next f _ =>
    exact timely_stamp_bind fun _ _ =>
      (timely_onFrames fun _ _ h => FrameTable.stampOf_touch?_le h).bind fun _ => preserves_pure _
  · exact timely_serve fun u _ _ hs => (timely_setTranslator (v := u.countFault) hs).bind fun _ =>
      (preserves_reportAll _).bind fun _ => preserves_pure _

theorem timely_translate (cpu : Nat) (pid : ProcessId) (a : VirtualAddress) :
    Preserves (Timely k) (translate cpu pid a : Paged g (Option FrameNumber)) := by
  refine timely_serve fun u j _ hslots => preserves_get.bind fun m => ?_
  split
  · exact preserves_pure _
  · next s _ =>
    dsimp only
    split
    · refine (timely_walk cpu s _).bind ?_
      rintro (_ | f)
      · exact preserves_pure _
      · exact (timely_hit cpu _ f).bind fun _ => preserves_pure _
    · next t ht =>
      have hvalid (s) (hs : s ∈ t.valid) := hslots s (Translator.mem_cached.mpr ⟨t, ht, hs⟩)
      refine (timely_lookup hvalid _).bind ?_
      rintro (_ | f)
      · refine (timely_walk cpu s _).bind ?_
        rintro (_ | f)
        · exact preserves_pure _
        · exact (timely_install cpu _ f).bind fun _ => preserves_pure _
      · exact (timely_hit cpu _ f).bind fun _ => preserves_pure _

theorem timely_dispatch (cpu : Nat) (pid : ProcessId) :
    Preserves (Timely k) (dispatch cpu pid : Paged g Unit) := by
  have hput (u : Translator g.tlbEntries) (j : Nat) (hs : ∀ s ∈ u.cached, s.referenced ≤ j) :
      Preserves (Timely j) (setTranslator cpu (u.dispatch pid) : Paged g Unit) := by
    refine timely_setTranslator fun s hm => hs s ?_
    rw [Translator.cached_dispatch] at hm
    split at hm
    · simp at hm
    · exact hm
  refine timely_serve fun u j _ hs => ?_
  split
  · exact (preserves_report _).bind fun _ => hput u j hs
  · exact hput u j hs

theorem timely_allocate (pid : ProcessId) (start count : Nat) :
    Preserves (Timely k) (allocate pid start count : Paged g Bool) :=
  (timely_space pid).bind fun _ => preserves_within _ _ fun _ hm => hm

theorem timely_storeWord (a : PhysicalAddress) (w : Int32) :
    Preserves (Timely k) (storeWord a w : Paged g Unit) :=
  preserves_update _ fun m m' h hm => by
    obtain ⟨r, -, rfl⟩ := Option.map_eq_some_iff.mp h
    exact hm

/-! Everything that is asked of the memory system. -/

theorem preserves_loadWord {P : Pager g → Prop} (a : PhysicalAddress) :
    Preserves P (loadWord a : Paged g Int32) :=
  preserves_get.bind fun _ => preserves_ofOption _ _

theorem preserves_checkTable {P : Pager g → Prop} (pid : ProcessId) :
    Preserves P (checkTable pid : Paged g (List Hole)) := by
  refine preserves_get.bind fun m => ?_
  split
  · exact preserves_pure _
  · exact (preserves_reportAll _).bind fun _ => preserves_pure _

structure Kept (P : Pager g → Prop) : Prop where
  createSpace : ∀ m pid, P m → P (m.createSpace pid)
  allocate : ∀ pid start count, Preserves P (allocate pid start count)
  dispatch : ∀ cpu pid, Preserves P (dispatch cpu pid)
  translate : ∀ cpu pid a, Preserves P (translate cpu pid a)
  handleFault : ∀ pid a access, Preserves P (handleFault pid a access)
  flush : ∀ cpu, Preserves P (flush cpu)
  release : ∀ pid, Preserves P (release pid)
  storeWord : ∀ a w, Preserves P (storeWord a w)

theorem kept_timely (g : Geometry) (k : Nat) : Kept (g := g) (Timely k) where
  createSpace _ _ hm := hm
  allocate := timely_allocate
  dispatch := timely_dispatch
  translate := timely_translate
  handleFault := timely_handleFault
  flush := timely_flush
  release := timely_release
  storeWord := timely_storeWord

end Pager

end DemandPaging
