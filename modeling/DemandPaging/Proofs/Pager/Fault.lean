import DemandPaging.Proofs.Pager.Translate
/-!
The outcome of a page fault in a sound memory system. A frame is obtained from the free list or
from a victim and is lent until the faulting page settles in it; in between, the victim's image is
already stored and the faulting page's image still is. No page has other contents afterwards, and
the only failure left is a swap store that holds an image under every token.
-/

namespace DemandPaging

def Paging.Quiet (es : List Paging.Event) : Prop :=
  ∀ t stored requested, Paging.Event.swapMismatch t stored requested ∉ es

namespace Paging

/-- Nothing is taken from another page: no frame, no slot of a buffer, no image. -/
def Event.isPlain : Event → Bool
  | .stealing .. | .loadSteal .. | .swapMismatch .. => false
  | _ => true

def Plain (es : List Event) : Prop := ∀ e ∈ es, e.isPlain = true

theorem Plain.append {es es' : List Event} (h : Plain es) (h' : Plain es') : Plain (es ++ es') :=
  fun e he => (List.mem_append.mp he).elim (h e) (h' e)

theorem plain_nil : Plain [] := nofun

theorem Plain.quiet {es : List Event} (h : Plain es) : Quiet es :=
  fun _ _ _ he => by simpa [Event.isPlain] using h _ he

theorem Quiet.append {es es' : List Event} (h : Quiet es) (h' : Quiet es') : Quiet (es ++ es') :=
  fun t a b hm => (List.mem_append.mp hm).elim (h t a b) (h' t a b)

theorem quiet_nil : Quiet [] := fun _ _ _ => List.not_mem_nil

end Paging

namespace Pager

open DemandPaging.Action DemandPaging.Paging

variable {g : Geometry} {m m' m'' : Pager g} {f : FrameNumber} {o : FrameOwner} {s : PageState}

/-- The same pages have the same contents, the same processes have address spaces, and each
translator serves the same process. -/
structure Faithful (m m' : Pager g) : Prop where
  contents : m'.contents = m.contents
  spaces : ∀ pid, (m'.space? pid).isSome = (m.space? pid).isSome
  owners : ∀ c : Nat, m'.translators[c]?.map Translator.owner =
    m.translators[c]?.map Translator.owner

namespace Faithful

protected theorem refl (m : Pager g) : Faithful m m := ⟨rfl, fun _ => rfl, fun _ => rfl⟩

protected theorem trans (h : Faithful m m') (h' : Faithful m' m'') : Faithful m m'' :=
  ⟨h'.contents.trans h.contents, fun p => (h'.spaces p).trans (h.spaces p),
    fun c => (h'.owners c).trans (h.owners c)⟩

theorem of_steady (h : Steady m m') (ht : m'.translators = m.translators) : Faithful m m' :=
  ⟨h.contents, fun pid => by rw [space?, h.spaces, space?], fun c => by rw [ht]⟩

end Faithful

theorem Translated.faithful {cpu : Nat} {u : Translator g.tlbEntries} (h : Translated cpu u m m')
    (hu : m.translators[cpu]? = some u) : Faithful m m' := by
  refine ⟨h.steady.contents, fun pid => by rw [space?, h.steady.spaces, space?], fun c => ?_⟩
  by_cases hc : c = cpu
  · obtain ⟨v, hv, ho, -⟩ := h.own
    rw [hc, hv, hu, Option.map_some, Option.map_some, ho]
  · rw [h.others c hc]

theorem faithful_evicted (h : m.Sound) {v : FrameOwner} {t : SwapToken} {p : Page g}
    (hv : m.stateOf v = some (.resident f)) (ht : m.swap.get? t = none)
    (hp : m.ram.frame? f = some p) : Faithful m (m.evicted v t p) := by
  refine ⟨contents_evicted h hv ht hp, fun pid => isSome_space?_putState _ v (.swapped t) pid,
    fun c => ?_⟩
  rw [translators_evicted, Array.getElem?_map, Option.map_map]
  congr 1
  funext u
  exact u.owner_purge v.pid v.page

theorem faithful_settled {p : Page g} (h : Agrees (some f) m) (hs : m.stateOf o = some s)
    (hn : s.isResident = false) (hp : m.imageOf s = some p) :
    Faithful m (m.settled f o s p) :=
  ⟨contents_settled h hs hn hp, fun pid => isSome_space?_putState _ o (.resident f) pid,
    fun c => by rw [translators_settled]⟩

/-! Obtaining a frame. -/

/-- What obtaining a frame leaves: the frame is lent, and pages without a frame are as before. -/
structure Lent (f : FrameNumber) (m m' : Pager g) : Prop where
  agrees : Agrees (some f) m'
  faithful : Faithful m m'
  absent : ∀ o s, m.stateOf o = some s → s.isResident = false → m'.stateOf o = some s

theorem run_evict_some {v o : FrameOwner} {t : SwapToken} {p : Page g}
    (hv : m.frames.owner? f = some (some v)) (hs : m.stateOf v = some (.resident f))
    (hp : m.ram.frame? f = some p) (ht : m.swap.freshToken? = some t) :
    (evict f o).run m = ⟨.ok (), m.evicted v t p,
      [.stealing f v o, .swappingOut p.toArray, .swappedOut v t]⟩ := by
  have hv' : m.owner? f = some (some v) := hv
  have hs' : m.state? v.pid v.page = some (.resident f) := hs
  simp [evict, hv', hs', run_page m hp, SwapStore.run_swapOut_some ht, evicted]

theorem run_evict_none {v o : FrameOwner} {p : Page g}
    (hv : m.frames.owner? f = some (some v)) (hs : m.stateOf v = some (.resident f))
    (hp : m.ram.frame? f = some p) (ht : m.swap.freshToken? = none) :
    (evict f o).run m = ⟨.error (.crash .noRoom), m,
      [.stealing f v o, .swappingOut p.toArray]⟩ := by
  have hv' : m.owner? f = some (some v) := hv
  have hs' : m.state? v.pid v.page = some (.resident f) := hs
  simp [evict, hv', hs', run_page m hp, SwapStore.run_swapOut_none ht]

theorem lent_of_free (h : m.Sound) {rest : List FrameNumber} (hf : m.frames.free = f :: rest) :
    Lent f m { m with frames := { m.frames with free := rest } } := by
  refine ⟨⟨h.books.take hf, h.buffers⟩, ⟨rfl, fun _ => rfl, fun _ => rfl⟩, fun o s hs _ => hs⟩

theorem lent_of_evicted (h : m.Sound) {v : FrameOwner} {t : SwapToken} {p : Page g}
    (hv : m.stateOf v = some (.resident f)) (ht : m.swap.get? t = none)
    (hp : m.ram.frame? f = some p) : Lent f m (m.evicted v t p) := by
  refine ⟨agrees_evicted h hv ht, faithful_evicted h hv ht hp, fun o s hs hn => ?_⟩
  rw [stateOf_evicted (by rw [hv]; rfl), Function.update_of_ne, hs]
  rintro rfl
  rw [hv] at hs
  obtain rfl := Option.some.inj hs
  exact absurd hn nofun

inductive Obtained (m : Pager g) (o : FrameOwner) : FrameNumber → Pager g → List Event → Prop where
  | free {f : FrameNumber} {rest : List FrameNumber} (hf : m.frames.free = f :: rest) :
    Obtained m o f { m with frames := { m.frames with free := rest } } [.freeFrame f o]
  | stolen {f : FrameNumber} {v : FrameOwner} {t : SwapToken} {p : Page g}
    (hlru : m.frames.leastRecentlyUsed = some f) (hv : m.stateOf v = some (.resident f))
    (ht : m.swap.get? t = none) (hp : m.ram.frame? f = some p) :
    Obtained m o f (m.evicted v t p) [.stealing f v o, .swappingOut p.toArray, .swappedOut v t]

theorem Obtained.lent {es : List Event} (h : m.Sound) (hf : Obtained m o f m' es) :
    Lent f m m' := by
  cases hf with
  | free hf => exact lent_of_free h hf
  | stolen _ hv ht hp => exact lent_of_evicted h hv ht hp

theorem Obtained.quiet {es : List Event} (h : Obtained m o f m' es) : Quiet es := by
  cases h <;> simp [Quiet]

inductive Jammed (m : Pager g) (o : FrameOwner) : List Event → Prop where
  | mk {f : FrameNumber} {v : FrameOwner} {p : Page g}
    (hlru : m.frames.leastRecentlyUsed = some f) (hv : m.stateOf v = some (.resident f))
    (hfull : wordBound ≤ m.swap.size) : Jammed m o [.stealing f v o, .swappingOut p.toArray]

theorem run_obtainFrame_free {rest : List FrameNumber} (hf : m.frames.free = f :: rest)
    (o : FrameOwner) : (obtainFrame o).run m =
      ⟨.ok f, { m with frames := { m.frames with free := rest } }, [.freeFrame f o]⟩ := by
  have ht : m.frames.takeFree? = some (f, { m.frames with free := rest }) := by
    rw [FrameTable.takeFree?, hf]
  simp [obtainFrame, ht]

theorem run_obtainFrame (h : m.Sound) (o : FrameOwner) :
    (∃ f m' es, (obtainFrame o).run m = ⟨.ok f, m', es⟩ ∧ Obtained m o f m' es) ∨
    (∃ es, (obtainFrame o).run m = ⟨.error (.crash .noRoom), m, es⟩ ∧ Jammed m o es) := by
  cases hf : m.frames.free with
  | cons f rest => exact .inl ⟨f, _, _, run_obtainFrame_free hf o, .free hf⟩
  | nil =>
    have ht : m.frames.takeFree? = none := by rw [FrameTable.takeFree?, hf]
    obtain ⟨f, v, hlru, hv⟩ := h.books.exists_victim g.frameCount_pos hf
    have hs := (h.books.owner_iff f v nofun).mp hv
    obtain ⟨p, hp⟩ := m.ram.exists_frame? (h.resident_lt hs)
    cases hfresh : m.swap.freshToken? with
    | some t =>
      have hget := SwapStore.get?_of_freshToken?_eq_some hfresh
      refine .inl ⟨f, _, _, ?_, .stolen hlru hs hget hp⟩
      simp [obtainFrame, ht, hlru, run_evict_some hv hs hp hfresh]
    | none =>
      have hfull := SwapStore.wordBound_le_size h.books.token_lt hfresh
      refine .inr ⟨_, ?_, .mk (p := p) hlru hs hfull⟩
      simp [obtainFrame, ht, hlru, run_evict_none hv hs hp hfresh]

/-! Settling in a frame. -/

theorem run_fill (h : Agrees (some f) m) (hs : m.stateOf o = some s) (hn : s.isResident = false)
    {p : Page g} (hp : m.imageOf s = some p) (c : ReferenceClock) (t : FrameTable g.frameCount) :
    ∃ es, Plain es ∧ (fill f o s).run { m with clock := c, frames := t } =
      ⟨.ok (), { m with
        clock := c, frames := t, swap := m.swap.without s, ram := m.ram.put f p }, es⟩ := by
  obtain ⟨hf, -, -⟩ := h.books.lent_frame f rfl
  obtain ⟨old, hold⟩ := m.ram.exists_frame? hf
  have before (on : Occasion) (k : Pager g) (hk : k.ram = m.ram) :
      (list on f).run k = ⟨.ok (), k, [.listed on f old.toArray]⟩ :=
    run_list k on (by rw [hk, hold])
  have after (on : Occasion) (k : Pager g) (hk : k.ram = m.ram.put f p) :
      (list on f).run k = ⟨.ok (), k, [.listed on f p.toArray]⟩ :=
    run_list k on (by rw [hk, m.ram.frame?_put p hf, if_pos rfl])
  cases s with
  | unmapped =>
    obtain rfl : Page.zero = p := Option.some.inj hp
    refine ⟨[.listed .beforeZero f old.toArray, .listed .afterZero f (Page.zero : Page g).toArray],
      by simp [Plain, Event.isPlain], ?_⟩
    simp [fill, before, run_setPage _ _ hf, after, SwapStore.without_unmapped]
  | resident i => exact absurd hn nofun
  | swapped token =>
    obtain ⟨q, hq, rfl⟩ := h.books.held o token hs
    obtain ⟨-, hk⟩ := h.books.image_state token q hq
    rw [imageOf, hq, Option.bind_some] at hp
    have hin := SwapStore.run_swapIn hq
    rw [hk] at hin
    refine ⟨[.listed .beforeSwapIn f old.toArray, .listed .afterSwapIn f p.toArray],
      by simp [Plain, Event.isPlain], ?_⟩
    simp [fill, before, hin, hp, run_setPage _ _ hf, after, SwapStore.without_swapped]

/-- What bringing a page in comes to. Frames are chosen once all stamps are copied. -/
inductive BroughtIn (m : Pager g) (o : FrameOwner) (s : PageState) :
    Outcome Event (Failure MemoryError) (Pager g) FrameNumber → Prop where
  | settled {f : FrameNumber} {k : Pager g} {p : Page g} {es es' : List Event}
    (hf : Obtained (m.flushedBy m.slots) o f k es) (hs : k.stateOf o = some s)
    (hp : k.imageOf s = some p) (hes : Plain es') :
    BroughtIn m o s ⟨.ok f, k.settled f o s p, es ++ es'⟩
  | full {es : List Event} (hes : Jammed (m.flushedBy m.slots) o es) :
    BroughtIn m o s ⟨.error (.crash .noRoom), m.flushedBy m.slots, es⟩

theorem run_bringIn_obtained (h : m.Sound) (hs : m.stateOf o = some s) (hn : s.isResident = false)
    {k : Pager g} {es : List Event}
    (hrun : (obtainFrame o).run (m.flushedBy m.slots) = ⟨.ok f, k, es⟩)
    (hf : Obtained (m.flushedBy m.slots) o f k es) :
    ∃ p es', k.stateOf o = some s ∧ k.imageOf s = some p ∧ Plain es' ∧
      (bringIn o s).run m = ⟨.ok f, k.settled f o s p, es ++ es'⟩ := by
  have hflush := steady_flushedBy m m.slots
  -- a theft takes no page without a frame, so the page is still as it was
  have hlent := hf.lent (hflush.agrees_of_translators_eq h rfl)
  have hs' := hlent.absent o s (by rw [hflush.stateOf, hs]) hn
  obtain ⟨hlt, -, -⟩ := hlent.agrees.books.lent_frame f rfl
  obtain ⟨p, hp⟩ := exists_imageOf hlent.agrees hs' (by rintro i rfl; exact absurd hn nofun)
  have hassign := run_onFrames { k with clock := k.clock.tick }
    (c := fun t => t.assign? f o (k.clock.current + 1))
    (k.frames.assign?_eq_some o (k.clock.current + 1) hlt)
  obtain ⟨es', hes', hfill⟩ := run_fill hlent.agrees hs' hn hp k.clock.tick
    (k.frames.change f fun _ => ⟨some o, k.clock.current + 1⟩)
  refine ⟨p, es', hs', hp, hes', ?_⟩
  simp [bringIn, claimFrame, run_flushAll h, hrun, hassign, hfill, settled]

theorem broughtIn (h : m.Sound) (hs : m.stateOf o = some s) (hn : s.isResident = false) :
    BroughtIn m o s ((bringIn o s).run m) := by
  have hk := (steady_flushedBy m m.slots).agrees_of_translators_eq h rfl
  rcases run_obtainFrame hk o with ⟨f, k, es, hrun, hf⟩ | ⟨es, hrun, hes⟩
  · obtain ⟨p, es', hs', hp, hes', hbring⟩ := run_bringIn_obtained h hs hn hrun hf
    exact hbring ▸ .settled hf hs' hp hes'
  · have hbring : (bringIn o s).run m =
        ⟨.error (.crash .noRoom), m.flushedBy m.slots, es⟩ := by
      simp [bringIn, claimFrame, run_flushAll h, hrun]
    exact hbring ▸ .full hes

/-- The page that faulted gets a frame with its contents. -/
theorem run_bringIn (h : m.Sound) (hs : m.stateOf o = some s) (hn : s.isResident = false) :
    (∃ f m' es, (bringIn o s).run m = ⟨.ok f, m', es⟩ ∧ m'.Sound ∧ Faithful m m' ∧
      m'.stateOf o = some (.resident f) ∧ Quiet es) ∨
    (∃ m' es, (bringIn o s).run m = ⟨.error (.crash .noRoom), m', es⟩ ∧ m'.Sound ∧
      Faithful m m' ∧ Quiet es ∧ wordBound ≤ m.swap.size) := by
  have hflush := steady_flushedBy m m.slots
  have hk := hflush.agrees_of_translators_eq h rfl
  have hfaith := Faithful.of_steady hflush rfl
  have hrun := broughtIn h hs hn
  generalize (bringIn o s).run m = out at hrun
  cases hrun with
  | settled hf hs' hp hes' =>
    have hlent := hf.lent hk
    refine .inl ⟨_, _, _, rfl, agrees_settled hlent.agrees hs' hn,
      (hfaith.trans hlent.faithful).trans (faithful_settled hlent.agrees hs' hn hp), ?_,
      hf.quiet.append hes'.quiet⟩
    rw [stateOf_settled (by rw [hs']; rfl), Function.update_self]
  | full hes =>
    obtain ⟨-, -, hfull⟩ := hes
    exact .inr ⟨_, _, rfl, hk, hfaith, by simp [Quiet], hfull⟩

/-! Answering a fault. -/

def FaultAnswer (m m' : Pager g) (pid : ProcessId) (a : VirtualAddress) (access : Access) :
    Except (Failure MemoryError) Resolution → Prop
  | .ok (.resolved f) =>
    access.isIllegal (g.pageOf a) = false ∧ (m.stateOf ⟨pid, g.pageOf a⟩).isSome ∧
      m'.stateOf ⟨pid, g.pageOf a⟩ = some (.resident f)
  | .ok (.violation _) =>
    m' = m ∧ (access.isIllegal (g.pageOf a) = true ∨ m.stateOf ⟨pid, g.pageOf a⟩ = none)
  | .error e =>
    m.space? pid = none ∧ e = .error (.unknownProcess pid) ∨
      wordBound ≤ m.swap.size ∧ e = .crash .noRoom

theorem run_handleFault_absent {s : AddressSpace g} {a : VirtualAddress} {access : Access}
    {state : PageState} (hi : access.isIllegal (g.pageOf a) = false) (hs : m.space? pid = some s)
    (hpage : s.state? (g.pageOf a) = some state) (hn : state.isResident = false) :
    (handleFault pid a access).run m =
      ((bringIn ⟨pid, g.pageOf a⟩ state).run m).andThen fun f => pure (.resolved f) := by
  have hp : ¬g.pageCount ≤ g.pageOf a := Nat.not_le.mpr (PageTable.lt_of_state?_eq_some hpage)
  cases state with
  | resident f => simp [PageState.isResident, PageState.frame?] at hn
  | unmapped => simp [handleFault, hi, run_space_some m hs, hp, hpage]
  | swapped t => simp [handleFault, hi, run_space_some m hs, hp, hpage]

theorem run_handleFault_cases (m : Pager g) (pid : ProcessId) (a : VirtualAddress)
    (access : Access) :
    (∃ r es, (handleFault pid a access).run m = ⟨r, m, es⟩ ∧ Plain es ∧
      (∀ c, r ≠ .error (.crash c)) ∧ FaultAnswer m m pid a access r) ∨
    ∃ s, access.isIllegal (g.pageOf a) = false ∧ m.stateOf ⟨pid, g.pageOf a⟩ = some s ∧
      s.isResident = false ∧ (handleFault pid a access).run m =
        ((bringIn ⟨pid, g.pageOf a⟩ s).run m).andThen fun f => pure (.resolved f) := by
  cases hi : access.isIllegal (g.pageOf a) with
  | true =>
    refine .inl ⟨.ok (.violation (.illegalFetch (g.pageOf a))),
      [.illegalFetch pid a (g.pageOf a)], ?_, by simp [Plain, Event.isPlain], by simp, rfl,
      .inl hi⟩
    simp [handleFault, hi]
  | false =>
  cases hs : m.space? pid with
  | none =>
    refine .inl ⟨.error (.error (.unknownProcess pid)), [], ?_, plain_nil, by simp,
      .inl ⟨hs, rfl⟩⟩
    simp [handleFault, hi, run_space_none m hs]
  | some s =>
  have hst := stateOf_of_space hs (g.pageOf a)
  cases hpage : s.state? (g.pageOf a) with
  | none =>
    rw [hpage] at hst
    by_cases hp : g.pageCount ≤ g.pageOf a
    · refine .inl ⟨.ok (.violation (.outOfRange (g.pageOf a))),
        [.beyondSpace pid a (g.pageOf a) g.pageCount], ?_, by simp [Plain, Event.isPlain],
        by simp, rfl, .inr hst⟩
      simp [handleFault, hi, run_space_some m hs, hp]
    · refine .inl ⟨.ok (.violation (.unallocated (g.pageOf a))),
        [.neverAllocated pid a (g.pageOf a)], ?_, by simp [Plain, Event.isPlain], by simp, rfl,
        .inr hst⟩
      simp [handleFault, hi, run_space_some m hs, hp, hpage]
  | some state =>
  rw [hpage] at hst
  cases hn : state.isResident with
  | true =>
    obtain ⟨f, rfl⟩ : ∃ f, state = .resident f := by
      cases state with
      | resident f => exact ⟨f, rfl⟩
      | _ => simp [PageState.isResident, PageState.frame?] at hn
    have hp : ¬g.pageCount ≤ g.pageOf a := Nat.not_le.mpr (PageTable.lt_of_state?_eq_some hpage)
    refine .inl ⟨.ok (.resolved f), [], ?_, plain_nil, by simp, hi, by rw [hst]; rfl, hst⟩
    simp [handleFault, hi, run_space_some m hs, hp, hpage]
  | false => exact .inr ⟨state, rfl, hst, hn, run_handleFault_absent hi hs hpage hn⟩

theorem run_handleFault (h : m.Sound) (pid : ProcessId) (a : VirtualAddress) (access : Access) :
    ∃ r m' es, (handleFault pid a access).run m = ⟨r, m', es⟩ ∧ m'.Sound ∧ Faithful m m' ∧
      Quiet es ∧ FaultAnswer m m' pid a access r := by
  rcases run_handleFault_cases m pid a access with
    ⟨r, es, hrun, hes, -, ha⟩ | ⟨s, hi, hs, hn, hrun⟩
  · exact ⟨r, m, es, hrun, h, .refl m, hes.quiet, ha⟩
  rw [hrun]
  rcases run_bringIn h hs hn with ⟨f, m', es, hrun, hm', hf, hst', hq⟩ |
      ⟨m', es, hrun, hm', hf, hq, hfull⟩
  · exact ⟨.ok (.resolved f), m', es, by rw [hrun]; simp, hm', hf, hq, hi, by rw [hs]; rfl, hst'⟩
  · exact ⟨.error (.crash .noRoom), m', es, by rw [hrun]; rfl, hm', hf, hq, .inr ⟨hfull, rfl⟩⟩

/-! Victims. -/

theorem Obtained.victim {es : List Event} {i f : FrameNumber} {o v q : FrameOwner}
    (h : Obtained m o i m' es) (he : .stealing f v q ∈ es) :
    m.frames.leastRecentlyUsed = some f ∧ m.stateOf v = some (.resident f) := by
  cases h with
  | free _ => simp at he
  | stolen hlru hv _ _ =>
    obtain ⟨rfl, rfl, -⟩ : f = _ ∧ v = _ ∧ _ := by simpa using he
    exact ⟨hlru, hv⟩

theorem Jammed.victim {es : List Event} {f : FrameNumber} {o v q : FrameOwner}
    (h : Jammed m o es) (he : .stealing f v q ∈ es) :
    m.frames.leastRecentlyUsed = some f ∧ m.stateOf v = some (.resident f) := by
  obtain ⟨hlru, hv, -⟩ := h
  obtain ⟨rfl, rfl, -⟩ : f = _ ∧ v = _ ∧ _ := by simpa using he
  exact ⟨hlru, hv⟩

theorem victim_of_stealing (h : m.Sound) {pid : ProcessId} {a : VirtualAddress} {access : Access}
    {f : FrameNumber} {v o : FrameOwner}
    (he : .stealing f v o ∈ ((handleFault pid a access).run m).events) :
    (m.flushedBy m.slots).frames.leastRecentlyUsed = some f ∧ m.stateOf v = some (.resident f) := by
  have hst := (steady_flushedBy m m.slots).stateOf
  rcases run_handleFault_cases m pid a access with ⟨r, es, hrun, hes, -⟩ | ⟨s, -, hs, hn, hrun⟩
  · rw [hrun] at he
    exact absurd (hes _ he) nofun
  have hout := broughtIn h hs hn
  rcases hbring : (bringIn ⟨pid, g.pageOf a⟩ s).run m with ⟨r, m', es⟩
  have hevents : ((handleFault pid a access).run m).events = es := by
    rw [hrun, hbring]
    cases r with
    | error e => rfl
    | ok f => exact List.append_nil es
  rw [hevents] at he
  rw [hbring] at hout
  rw [← hst]
  cases hout with
  | settled hf _ _ hes =>
    rcases List.mem_append.mp he with he | he
    · exact hf.victim he
    · exact absurd (hes _ he) nofun
  | full hes => exact hes.victim he

end Pager

end DemandPaging
