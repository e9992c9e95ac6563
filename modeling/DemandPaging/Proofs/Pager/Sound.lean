import DemandPaging.Proofs.Pager.Buffers
import DemandPaging.Proofs.Pager.Run
/-!
Sound memory systems: the books agree and so do the translators. The changes of state that the
actions of the memory system consist of keep this, and none of them touches the contents of a
page.
-/

namespace DemandPaging.Pager

variable {g : Geometry} {m : Pager g} {lent : Option FrameNumber} {f : FrameNumber}
  {o : FrameOwner}

/-- Books and translators agree, but for a frame that is lent. -/
structure Agrees (lent : Option FrameNumber) (m : Pager g) : Prop where
  books : Books g.pageSize m.stateOf m.frames m.swap lent
  buffers : ∀ (c : Nat) (u : Translator g.tlbEntries), m.translators[c]? = some u →
    u.Coherent m.stateOf

abbrev Sound (m : Pager g) : Prop := Agrees none m

theorem getElem?_new {useTlbs : List Bool} {c : Nat} {u : Translator g.tlbEntries}
    (h : (new g useTlbs).translators[c]? = some u) : ∃ useTlb ∈ useTlbs, u = .new c useTlb := by
  simp only [new, List.getElem?_toArray, List.getElem?_map, List.getElem?_zipIdx,
    Option.map_eq_some_iff, Nat.zero_add] at h
  obtain ⟨-, ⟨useTlb, hmem, rfl⟩, rfl⟩ := h
  exact ⟨useTlb, List.mem_of_getElem? hmem, rfl⟩

theorem sound_new (g : Geometry) (useTlbs : List Bool) : (new g useTlbs).Sound := by
  have hst : (new g useTlbs).stateOf = fun _ => none := by
    funext o
    exact stateOf_of_no_space rfl o.page
  refine ⟨hst ▸ .start g.frameCount g.pageSize, fun c u hu => ?_⟩
  obtain ⟨useTlb, -, rfl⟩ := getElem?_new hu
  exact Translator.coherent_new _ c useTlb

theorem stateOf_eq_of_spaces_eq {m m' : Pager g} (h : m'.spaces = m.spaces) :
    m'.stateOf = m.stateOf := by
  funext o
  rw [stateOf, state?, space?, h]
  rfl

theorem exists_imageOf (h : Agrees lent m) {s : PageState} (hs : m.stateOf o = some s)
    (hf : ∀ f, s = .resident f → f < g.frameCount) : ∃ p, m.imageOf s = some p := by
  cases s with
  | unmapped => exact ⟨_, rfl⟩
  | resident f => exact m.ram.exists_frame? (hf f rfl)
  | swapped t =>
    obtain ⟨p, hp, -⟩ := h.books.held o t hs
    obtain ⟨-, hk⟩ := h.books.image_state t p hp
    refine ⟨⟨p.image, hk⟩, ?_⟩
    rw [imageOf, hp, Option.bind_some]
    exact Page.ofImage?_eq_some_iff.mpr rfl

theorem Agrees.resident_lt (h : m.Sound) (hs : m.stateOf o = some (.resident f)) :
    (f : Nat) < g.frameCount :=
  h.books.resident_lt hs

theorem isSome_contents (h : m.Sound) (o : FrameOwner) :
    (m.contents o).isSome = (m.stateOf o).isSome := by
  rw [contents]
  cases hs : m.stateOf o with
  | none => rfl
  | some s =>
    obtain ⟨p, hp⟩ := exists_imageOf h hs (by rintro f rfl; exact h.resident_lt hs)
    rw [Option.bind_some, hp]
    rfl

theorem contents_of_resident (hs : m.stateOf o = some (.resident f)) :
    m.contents o = m.ram.frame? f := by
  rw [contents, hs]
  rfl

theorem stateOf_eq_none (hs : ∀ pid, m.space? pid = none) (o : FrameOwner) :
    m.stateOf o = none := stateOf_of_no_space (hs o.pid) o.page

theorem Agrees.swap_isEmpty (h : m.Sound) (hs : ∀ pid, m.space? pid = none) :
    m.swap.isEmpty = true := by
  refine SwapStore.isEmpty_of_get?_eq_none fun t => ?_
  cases hp : m.swap.get? t with
  | none => rfl
  | some p =>
    have hst := (h.books.image_state t p hp).1
    rw [stateOf_eq_none hs] at hst
    simp at hst

theorem Agrees.owner?_eq_none (h : m.Sound) {f : Nat} (hf : f < g.frameCount)
    (hst : ∀ o, m.stateOf o ≠ some (.resident f)) : m.owner? f = some none := by
  obtain ⟨o, ho⟩ := m.frames.exists_owner? hf
  cases o with
  | none => exact ho
  | some o => exact absurd ((h.books.owner_iff f o nofun).mp ho) (hst o)

theorem Agrees.nodup_owners (h : m.Sound) : m.swap.owners.Nodup := by
  refine SwapStore.nodup_owners fun t u p q hp hq he => ?_
  have ht := (h.books.image_state t p hp).1
  rw [he, (h.books.image_state u q hq).1] at ht
  exact (PageState.swapped.inj (Option.some.inj ht)).symm

theorem Agrees.swap_size_le (h : m.Sound) {l : List FrameOwner}
    (hl : ∀ o t, m.stateOf o = some (.swapped t) → o ∈ l) : m.swap.size ≤ l.length := by
  rw [← SwapStore.length_owners]
  refine h.nodup_owners.length_le_of_subset fun o ho => ?_
  obtain ⟨t, p, hp, rfl⟩ := SwapStore.mem_owners.mp ho
  exact hl p.owner t (h.books.image_state t p hp).1

/-- Only stamps, counters and cached mappings differ. -/
structure Steady (m m' : Pager g) : Prop where
  spaces : m'.spaces = m.spaces
  ram : m'.ram = m.ram
  swap : m'.swap = m.swap
  free : m'.frames.free = m.frames.free
  owners : m'.frames.owner? = m.frames.owner?

namespace Steady

variable {m' m'' : Pager g}

protected theorem refl (m : Pager g) : Steady m m := ⟨rfl, rfl, rfl, rfl, rfl⟩

protected theorem trans (h : Steady m m') (h' : Steady m' m'') : Steady m m'' :=
  ⟨h'.spaces.trans h.spaces, h'.ram.trans h.ram, h'.swap.trans h.swap, h'.free.trans h.free,
    h'.owners.trans h.owners⟩

theorem stateOf (h : Steady m m') : m'.stateOf = m.stateOf := stateOf_eq_of_spaces_eq h.spaces

theorem contents (h : Steady m m') : m'.contents = m.contents := by
  funext o
  rw [Pager.contents, h.stateOf, Pager.contents]
  congr 1
  funext s
  cases s with
  | unmapped => rfl
  | resident f => rw [imageOf, h.ram]; rfl
  | swapped t => rw [imageOf, h.swap]; rfl

theorem books (h : Steady m m') (b : Books g.pageSize m.stateOf m.frames m.swap lent) :
    Books g.pageSize m'.stateOf m'.frames m'.swap lent := by
  rw [h.stateOf, h.swap]
  exact b.stamped h.owners h.free

theorem agrees (h : Steady m m') (ha : Agrees lent m)
    (hc : ∀ (c : Nat) (u : Translator g.tlbEntries), m'.translators[c]? = some u →
      u.Coherent m.stateOf) : Agrees lent m' :=
  ⟨h.books ha.books, fun c u hu => h.stateOf ▸ hc c u hu⟩

theorem agrees_of_translators_eq (h : Steady m m') (ha : Agrees lent m)
    (hu : m'.translators = m.translators) : Agrees lent m' :=
  h.agrees ha fun c v hv => ha.buffers c v (hu ▸ hv)

end Steady

/-! Flushing: the stamps of all buffers reach the frames. -/

def refresh {n : Nat} (t : FrameTable n) (s : TlbSlot) : FrameTable n :=
  t.change s.frame (FrameTable.raise s.referenced)

theorem owner?_foldl_refresh {n : Nat} (slots : List TlbSlot) (t : FrameTable n) :
    (slots.foldl refresh t).owner? = t.owner? := by
  induction slots generalizing t with
  | nil => rfl
  | cons s slots ih =>
    rw [List.foldl_cons, ih]
    exact t.owner?_change_of_owner_eq _ (FrameTable.owner_raise s.referenced)

theorem free_foldl_refresh {n : Nat} (slots : List TlbSlot) (t : FrameTable n) :
    (slots.foldl refresh t).free = t.free := by
  induction slots generalizing t with
  | nil => rfl
  | cons s slots ih => rw [List.foldl_cons, ih, refresh, FrameTable.free_change]

def slotsOf (m : Pager g) (cpu : Nat) : List TlbSlot :=
  (m.translators[cpu]?.map Translator.cached).getD []

def slots (m : Pager g) : List TlbSlot := (List.range m.translators.size).flatMap m.slotsOf

def flushedBy (m : Pager g) (slots : List TlbSlot) : Pager g :=
  { m with frames := slots.foldl refresh m.frames }

theorem steady_flushedBy (m : Pager g) (slots : List TlbSlot) : Steady m (m.flushedBy slots) :=
  ⟨rfl, rfl, rfl, free_foldl_refresh slots m.frames, owner?_foldl_refresh slots m.frames⟩

theorem mem_slotsOf {cpu : Nat} {s : TlbSlot} :
    s ∈ m.slotsOf cpu ↔ ∃ u, m.translators[cpu]? = some u ∧ s ∈ u.cached := by
  unfold slotsOf
  cases m.translators[cpu]? <;> simp

theorem Agrees.resident_of_slot (h : Agrees lent m) {cpu : Nat} {s : TlbSlot}
    (hs : s ∈ m.slotsOf cpu) : ∃ u pid, m.translators[cpu]? = some u ∧ u.owner = some pid ∧
      m.stateOf ⟨pid, s.page⟩ = some (.resident s.frame) := by
  obtain ⟨u, hu, hs⟩ := mem_slotsOf.mp hs
  obtain ⟨pid, ho, hst⟩ := (h.buffers cpu u hu).resident_of_cached hs
  exact ⟨u, pid, hu, ho, hst⟩

theorem Agrees.slot_lt (h : m.Sound) {cpu : Nat} {s : TlbSlot} (hs : s ∈ m.slotsOf cpu) :
    (s.frame : Nat) < g.frameCount := by
  obtain ⟨_, _, _, _, hst⟩ := h.resident_of_slot hs
  exact h.resident_lt hst

/-! Evicting: a page goes to the swap store and its frame is lent. -/

def evicted (m : Pager g) (v : FrameOwner) (t : SwapToken) (p : Page g) : Pager g :=
  ({ m with swap := m.swap.insert t ⟨v, m.clock.current, p.toArray⟩ }.putState v
    (.swapped t)).purgeAll v.pid v.page

theorem stateOf_evicted {v : FrameOwner} {t : SwapToken} {p : Page g}
    (hv : (m.stateOf v).isSome) :
    (m.evicted v t p).stateOf = Function.update m.stateOf v (some (.swapped t)) :=
  stateOf_putState (.swapped t) hv

theorem frames_evicted (m : Pager g) (v : FrameOwner) (t : SwapToken) (p : Page g) :
    (m.evicted v t p).frames = m.frames := frames_putState _ _ _

theorem swap_evicted (m : Pager g) (v : FrameOwner) (t : SwapToken) (p : Page g) :
    (m.evicted v t p).swap = m.swap.insert t ⟨v, m.clock.current, p.toArray⟩ :=
  swap_putState _ _ _

theorem ram_evicted (m : Pager g) (v : FrameOwner) (t : SwapToken) (p : Page g) :
    (m.evicted v t p).ram = m.ram := ram_putState _ _ _

theorem clock_evicted (m : Pager g) (v : FrameOwner) (t : SwapToken) (p : Page g) :
    (m.evicted v t p).clock = m.clock := clock_putState _ _ _

theorem translators_evicted (m : Pager g) (v : FrameOwner) (t : SwapToken) (p : Page g) :
    (m.evicted v t p).translators = m.translators.map fun u => (u.purge v.pid v.page).2 :=
  congrArg (Array.map _) (translators_putState _ _ _)

theorem agrees_evicted (h : m.Sound) {v : FrameOwner} {t : SwapToken} {p : Page g}
    (hv : m.stateOf v = some (.resident f)) (ht : m.swap.get? t = none) :
    Agrees (some f) (m.evicted v t p) := by
  have hst := stateOf_evicted (t := t) (p := p) (by rw [hv]; rfl)
  refine ⟨?_, fun c u hu => ?_⟩
  · rw [hst, frames_evicted, swap_evicted]
    exact h.books.lend hv ht p.size_toArray _
  · rw [translators_evicted, Array.getElem?_map] at hu
    obtain ⟨u₀, hu₀, rfl⟩ := Option.map_eq_some_iff.mp hu
    rw [hst]
    exact (h.buffers c u₀ hu₀).purge_update v _

theorem contents_evicted {v : FrameOwner} {t : SwapToken} {p : Page g} (h : m.Sound)
    (hv : m.stateOf v = some (.resident f)) (ht : m.swap.get? t = none)
    (hp : m.ram.frame? f = some p) : (m.evicted v t p).contents = m.contents := by
  funext q
  rw [contents, stateOf_evicted (by rw [hv]; rfl), contents, Function.update_apply]
  split
  · next hq =>
    rw [hq, hv, Option.bind_some, Option.bind_some, imageOf, imageOf, swap_evicted,
      SwapStore.get?_insert, if_pos rfl, hp, Option.bind_some, Page.ofImage?_toArray]
  · cases hs : m.stateOf q with
    | none => rfl
    | some s =>
      cases s with
      | unmapped => rfl
      | resident i => rw [Option.bind_some, Option.bind_some, imageOf, imageOf, ram_evicted]
      | swapped u =>
        have hu : t ≠ u := by
          rintro rfl
          obtain ⟨_, hg, -⟩ := h.books.held q t hs
          rw [ht] at hg
          simp at hg
        rw [Option.bind_some, Option.bind_some, imageOf, imageOf, swap_evicted,
          SwapStore.get?_insert, if_neg hu]

/-! Settling: a page gets the lent frame with its contents. -/

def settled (m : Pager g) (f : FrameNumber) (o : FrameOwner) (s : PageState) (p : Page g) :
    Pager g :=
  { m with
    clock := m.clock.tick
    frames := m.frames.change f fun _ => ⟨some o, m.clock.current + 1⟩
    swap := m.swap.without s
    ram := m.ram.put f p }.putState o (.resident f)

variable {s : PageState} {p : Page g}

theorem stateOf_settled (hs : (m.stateOf o).isSome) :
    (m.settled f o s p).stateOf = Function.update m.stateOf o (some (.resident f)) :=
  stateOf_putState (.resident f) hs

theorem frames_settled (m : Pager g) (f : FrameNumber) (o : FrameOwner) (s : PageState)
    (p : Page g) : (m.settled f o s p).frames =
      m.frames.change f fun _ => ⟨some o, m.clock.current + 1⟩ := frames_putState _ _ _

theorem swap_settled (m : Pager g) (f : FrameNumber) (o : FrameOwner) (s : PageState)
    (p : Page g) : (m.settled f o s p).swap = m.swap.without s := swap_putState _ _ _

theorem ram_settled (m : Pager g) (f : FrameNumber) (o : FrameOwner) (s : PageState)
    (p : Page g) : (m.settled f o s p).ram = m.ram.put f p := ram_putState _ _ _

theorem clock_settled (m : Pager g) (f : FrameNumber) (o : FrameOwner) (s : PageState)
    (p : Page g) : (m.settled f o s p).clock = m.clock.tick := clock_putState _ _ _

theorem translators_settled (m : Pager g) (f : FrameNumber) (o : FrameOwner) (s : PageState)
    (p : Page g) : (m.settled f o s p).translators = m.translators := translators_putState _ _ _

theorem books_without (h : Agrees lent m) (hs : m.stateOf o = some s)
    (hn : s.isResident = false) :
    Books g.pageSize (Function.update m.stateOf o (some .unmapped)) m.frames
      (m.swap.without s) lent := by
  cases s with
  | unmapped =>
    rw [SwapStore.without_unmapped, ← hs, Function.update_eq_self]
    exact h.books
  | resident f => exact absurd hn nofun
  | swapped t => exact h.books.consume hs

theorem agrees_settled (h : Agrees (some f) m) (hs : m.stateOf o = some s)
    (hn : s.isResident = false) : Sound (m.settled f o s p) := by
  have hst := stateOf_settled (f := f) (s := s) (p := p) (by rw [hs]; rfl)
  refine ⟨?_, fun c u hu => ?_⟩
  · have b := (books_without h hs hn).settle (Function.update_self ..) (m.clock.current + 1)
    rw [Function.update_idem] at b
    rw [hst, frames_settled, swap_settled]
    exact b
  · rw [translators_settled] at hu
    rw [hst]
    refine (h.buffers c u hu).update _ fun i hi => ?_
    rw [hs] at hi
    obtain rfl := Option.some.inj hi
    exact absurd hn nofun

theorem contents_settled (h : Agrees (some f) m) (hs : m.stateOf o = some s)
    (hn : s.isResident = false) (hp : m.imageOf s = some p) :
    (m.settled f o s p).contents = m.contents := by
  obtain ⟨hf, -, hres⟩ := h.books.lent_frame f rfl
  funext q
  rw [contents, stateOf_settled (by rw [hs]; rfl), contents, Function.update_apply]
  split
  · next hq =>
    rw [hq, hs, Option.bind_some, Option.bind_some, hp, imageOf, ram_settled,
      m.ram.frame?_put p hf, if_pos rfl]
  · next hq =>
    cases hqs : m.stateOf q with
    | none => rfl
    | some r =>
      rw [Option.bind_some, Option.bind_some]
      cases r with
      | unmapped => rfl
      | resident i =>
        rw [imageOf, imageOf, ram_settled, m.ram.frame?_put p hf,
          if_neg fun e => hres q (by rw [hqs, e])]
      | swapped u =>
        rw [imageOf, imageOf, swap_settled]
        cases s with
        | unmapped => rfl
        | resident i => exact absurd hn nofun
        | swapped t =>
          rw [SwapStore.without_swapped, SwapStore.get?_erase, if_neg]
          rintro rfl
          exact hq (h.books.eq_of_swapped hqs hs)

end DemandPaging.Pager
