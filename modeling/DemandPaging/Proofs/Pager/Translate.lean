import DemandPaging.Proofs.Pager.Sound
/-!
The outcome of dispatching, purging, forgetting, flushing and translating in a sound memory
system. With a buffer or without, a translation answers what the page table says.
-/

namespace DemandPaging.Pager

open DemandPaging.Action

variable {g : Geometry} {m : Pager g} {cpu : Nat} {u : Translator g.tlbEntries}

def withTranslator (m : Pager g) (cpu : Nat) (u : Translator g.tlbEntries) : Pager g :=
  { m with translators := m.translators.setIfInBounds cpu u }

theorem steady_withTranslator (m : Pager g) (cpu : Nat) (u : Translator g.tlbEntries) :
    Steady m (m.withTranslator cpu u) := ⟨rfl, rfl, rfl, rfl, rfl⟩

theorem getElem?_withTranslator (hu : m.translators[cpu]? = some u)
    (v : Translator g.tlbEntries) (c : Nat) :
    (m.withTranslator cpu v).translators[c]? = if c = cpu then some v else m.translators[c]? := by
  obtain ⟨hlt, -⟩ := Array.getElem?_eq_some_iff.mp hu
  by_cases hc : c = cpu
  · rw [hc, if_pos rfl, withTranslator, Array.getElem?_setIfInBounds_self_of_lt hlt]
  · rw [if_neg hc, withTranslator, Array.getElem?_setIfInBounds_ne (Ne.symm hc)]

theorem withTranslator_self (hu : m.translators[cpu]? = some u) : m.withTranslator cpu u = m := by
  obtain ⟨hlt, rfl⟩ := Array.getElem?_eq_some_iff.mp hu
  simp [withTranslator, Array.setIfInBounds, hlt]

theorem withTranslator_withTranslator (m : Pager g) (cpu : Nat)
    (u v : Translator g.tlbEntries) :
    (m.withTranslator cpu u).withTranslator cpu v = m.withTranslator cpu v := by
  simp [withTranslator]

theorem agrees_withTranslator {lent : Option FrameNumber} (h : Agrees lent m)
    (hu : m.translators[cpu]? = some u) {v : Translator g.tlbEntries}
    (hv : v.Coherent m.stateOf) : Agrees lent (m.withTranslator cpu v) := by
  refine (steady_withTranslator m cpu v).agrees h fun c w hw => ?_
  rw [getElem?_withTranslator hu] at hw
  split at hw
  · exact Option.some.inj hw ▸ hv
  · exact h.buffers c w hw

theorem run_dispatch (hu : m.translators[cpu]? = some u) (pid : ProcessId) :
    (dispatch cpu pid).run m = ⟨.ok (), m.withTranslator cpu (u.dispatch pid),
      if u.switches pid then [.tlbInvalidated u.cpu] else []⟩ := by
  by_cases hs : u.switches pid = true <;>
    simp [dispatch, run_translator m hu, hs, withTranslator]

theorem run_dispatch_none (hu : m.translators[cpu]? = none) (pid : ProcessId) :
    (dispatch cpu pid).run m = ⟨.error beyond, m, []⟩ := by
  simp [dispatch, run_translator_none m hu]

theorem run_purge (hu : m.translators[cpu]? = some u) (pid : ProcessId) (page : PageNumber) :
    (purge cpu pid page).run m =
      ⟨.ok (u.purge pid page).1, m.withTranslator cpu (u.purge pid page).2, []⟩ := by
  simp [purge, run_translator m hu, withTranslator]

theorem run_forget (hu : m.translators[cpu]? = some u) (pid : ProcessId) :
    (forget cpu pid).run m = ⟨.ok (), m.withTranslator cpu (u.forget pid), []⟩ := by
  simp [forget, run_translator m hu, withTranslator]

theorem run_each_refresh (slots : List TlbSlot) (hs : ∀ s ∈ slots, (s.frame : Nat) < g.frameCount)
    (m : Pager g) :
    (each (fun s : TlbSlot => onFrames fun t => t.refresh? s.frame s.referenced) slots).run m =
      ⟨.ok (), m.flushedBy slots, []⟩ := by
  induction slots generalizing m with
  | nil => rfl
  | cons s slots ih =>
    have hf := run_onFrames m (c := fun t => t.refresh? s.frame s.referenced)
      (FrameTable.refresh?_eq_some _ s.referenced (hs s List.mem_cons_self))
    rw [run_each_cons, hf, Outcome.andThen_ok, ih fun s h => hs s (List.mem_cons_of_mem _ h)]
    rfl

theorem run_flush_none (hu : m.translators[cpu]? = none) :
    (flush cpu : Paged g Unit).run m = ⟨.error beyond, m, []⟩ := by
  simp [flush, run_translator_none m hu]

theorem run_flush (h : m.Sound) (hu : m.translators[cpu]? = some u) :
    (flush cpu).run m = ⟨.ok (), m.flushedBy (m.slotsOf cpu), []⟩ := by
  have hs : m.slotsOf cpu = u.cached := by rw [slotsOf, hu]; rfl
  rw [flush, run_bind, run_translator m hu, Outcome.andThen_ok, hs,
    run_each_refresh u.cached fun s hm => h.slot_lt (hs ▸ hm)]
  rfl

theorem run_flushAll (h : m.Sound) : flushAll.run m = ⟨.ok (), m.flushedBy m.slots, []⟩ := by
  -- one pass over the CPUs flushes the slots of each in turn
  have pass : ∀ (cpus : List Nat) (k : Pager g), (∀ c ∈ cpus, c < m.translators.size) →
      k.Sound → k.translators = m.translators →
      (each flush cpus).run k = ⟨.ok (), k.flushedBy (cpus.flatMap m.slotsOf), []⟩ := by
    intro cpus
    induction cpus with
    | nil => intro k _ _ _; rfl
    | cons c cpus ih =>
      intro k hc hk ht
      have hlt := hc c List.mem_cons_self
      have hu : k.translators[c]? = some m.translators[c] := by
        rw [ht, Array.getElem?_eq_getElem hlt]
      have hslots : k.slotsOf c = m.slotsOf c := by rw [slotsOf, ht, slotsOf]
      have hk' := (steady_flushedBy k (m.slotsOf c)).agrees_of_translators_eq hk rfl
      rw [run_each_cons, run_flush hk hu, Outcome.andThen_ok, hslots,
        ih _ (fun c h => hc c (List.mem_cons_of_mem _ h)) hk' ht]
      simp [flushedBy]
  rw [flushAll, run_bind, run_get, Outcome.andThen_ok, Outcome.after_nil,
    pass _ m (fun c hc => List.mem_range.mp hc) h rfl]
  rfl

/-! Walking, hitting and installing. -/

def ticked (m : Pager g) : Pager g := { m with clock := m.clock.tick }

theorem steady_ticked (m : Pager g) : Steady m m.ticked := ⟨rfl, rfl, rfl, rfl, rfl⟩

def walked (m : Pager g) (f : FrameNumber) : Pager g :=
  { m with
    clock := m.clock.tick
    frames := m.frames.change f (FrameTable.renew (m.clock.current + 1)) }

theorem steady_walked (m : Pager g) (f : FrameNumber) : Steady m (m.walked f) :=
  ⟨rfl, rfl, rfl, FrameTable.free_change .., FrameTable.owner?_change_of_owner_eq _ _
    (FrameTable.owner_renew _)⟩

theorem run_walk_resident (cpu : Nat) {s : AddressSpace g} {page : PageNumber} {f : Nat}
    (hs : s.state? page = some (.resident f)) (hf : f < g.frameCount) :
    (walk cpu s page).run m = ⟨.ok (some f), m.walked f, []⟩ := by
  have hw : s.walk page = .entry (.resident f) := AddressSpace.walk_eq_entry_iff.mpr hs
  have ht := run_onFrames { m with clock := m.clock.tick }
    (c := fun t => t.touch? f (m.clock.current + 1))
    (FrameTable.touch?_eq_some m.frames (m.clock.current + 1) hf)
  simp [walk, hw, ht]
  rfl

theorem run_walk_absent {s : AddressSpace g} {page : PageNumber}
    (hu : m.translators[cpu]? = some u) (hs : (s.state? page).bind PageState.frame? = none) :
    (walk cpu s page).run m = ⟨.ok none, m.withTranslator cpu u.countFault,
      walkEvents u.cpu page (s.walk page)⟩ := by
  have hw : ∀ f, s.walk page ≠ .entry (.resident f) := by
    intro f hw
    rw [AddressSpace.walk_eq_entry_iff.mp hw] at hs
    simp [PageState.frame?] at hs
  unfold walk
  split
  · next f hf => exact absurd hf (hw f)
  · simp [run_translator m hu, withTranslator]

theorem run_hit (hu : m.translators[cpu]? = some u) (page : PageNumber) (f : FrameNumber) :
    (hit cpu page f).run m =
      ⟨.ok (), m.withTranslator cpu u.countHit, [.hit u.cpu page f]⟩ := by
  simp [hit, run_translator m hu, withTranslator]

theorem run_lookup (hu : m.translators[cpu]? = some u) (t : Tlb g.tlbEntries)
    (page : PageNumber) :
    (lookup cpu t page).run m = ⟨.ok (t.lookup page (m.clock.current + 1)).1,
      m.ticked.withTranslator cpu
        { u with tlb := some (t.lookup page (m.clock.current + 1)).2 }, []⟩ := by
  simp [lookup, run_translator { m with clock := m.clock.tick } hu, withTranslator, ticked]

theorem run_install {t t' : Tlb g.tlbEntries} {load : TlbLoad} {page : PageNumber}
    {f : FrameNumber} (hu : m.translators[cpu]? = some u) (ht : u.tlb = some t)
    (hi : t.install? page f (m.clock.current + 1) = some (load, t')) :
    (install cpu page f).run m = ⟨.ok (),
      m.ticked.withTranslator cpu
        (Translator.countLoad { u with tlb := some t' } load), [u.loadEvent page f load]⟩ := by
  simp [install, run_translator { m with clock := m.clock.tick } hu, ht, hi, withTranslator,
    ticked]

/-- What a translation leaves: only stamps, counters and cached mappings differ, and of the
translators only the one that was asked. -/
structure Translated (cpu : Nat) (u : Translator g.tlbEntries) (m m' : Pager g) : Prop where
  steady : Steady m m'
  own : ∃ v, m'.translators[cpu]? = some v ∧ v.owner = u.owner ∧ v.Coherent m.stateOf
  others : ∀ c, c ≠ cpu → m'.translators[c]? = m.translators[c]?

namespace Translated

variable {m' : Pager g}

theorem agrees {lent : Option FrameNumber} (h : Translated cpu u m m') (ha : Agrees lent m) :
    Agrees lent m' := by
  refine h.steady.agrees ha fun c w hw => ?_
  by_cases hc : c = cpu
  · obtain ⟨v, hv, -, hcoh⟩ := h.own
    rw [hc, hv] at hw
    exact Option.some.inj hw ▸ hcoh
  · exact ha.buffers c w (h.others c hc ▸ hw)

theorem withTranslator {k : Pager g} (hk : Steady m k) (ht : k.translators = m.translators)
    (hu : m.translators[cpu]? = some u) {v : Translator g.tlbEntries} (ho : v.owner = u.owner)
    (hc : v.Coherent m.stateOf) : Translated cpu u m (k.withTranslator cpu v) := by
  have hu' : k.translators[cpu]? = some u := by rw [ht, hu]
  refine ⟨hk.trans (steady_withTranslator k cpu v), ⟨v, ?_, ho, hc⟩, fun c hne => ?_⟩
  · rw [getElem?_withTranslator hu', if_pos rfl]
  · rw [getElem?_withTranslator hu', if_neg hne, ht]

end Translated

/-- What a translation for a page comes to: its answer, what it leaves and what it reports. -/
inductive Translating (cpu : Nat) (u : Translator g.tlbEntries) (o : FrameOwner) (m : Pager g) :
    Outcome Paging.Event (Failure MemoryError) (Pager g) (Option FrameNumber) → Prop where
  | homeless (hs : m.space? o.pid = none) : Translating cpu u o m ⟨.ok none, m, []⟩
  | absent {k : Pager g} {w : Walk} (hk : k = m ∨ k = m.ticked)
    (hn : (m.stateOf o).bind PageState.frame? = none) :
    Translating cpu u o m
      ⟨.ok none, k.withTranslator cpu u.countFault, walkEvents u.cpu o.page w⟩
  | walked {f : FrameNumber} (ht : u.tlb = none) (hr : m.stateOf o = some (.resident f)) :
    Translating cpu u o m
      ⟨.ok (some f), (m.walked f).withTranslator cpu u.countHit, [.hit u.cpu o.page f]⟩
  | known {t : Tlb g.tlbEntries} {f : FrameNumber} (ht : u.tlb = some t)
    (hf : (t.lookup o.page (m.clock.current + 1)).1 = some f) :
    Translating cpu u o m ⟨.ok (some f), m.ticked.withTranslator cpu (Translator.countHit
      { u with tlb := some (t.lookup o.page (m.clock.current + 1)).2 }), [.hit u.cpu o.page f]⟩
  | loaded {t t' : Tlb g.tlbEntries} {f : FrameNumber} {load : TlbLoad} (ht : u.tlb = some t)
    (hmiss : ∀ f, ¬t.Maps o.page f) (hr : m.stateOf o = some (.resident f))
    (hi : t.install? o.page f (m.clock.current + 3) = some (load, t')) :
    Translating cpu u o m ⟨.ok (some f), (m.ticked.walked f).ticked.withTranslator cpu
      (Translator.countLoad { u with tlb := some t' } load), [u.loadEvent o.page f load]⟩

theorem run_translate_homeless (hu : m.translators[cpu]? = some u) {pid : ProcessId}
    (hs : m.space? pid = none) (a : VirtualAddress) :
    (translate cpu pid a).run m = ⟨.ok none, m, []⟩ := by
  simp [translate, run_translator m hu, hs]

theorem run_translate_absent (hu : m.translators[cpu]? = some u) (ht : u.tlb = none)
    {pid : ProcessId} {s : AddressSpace g} (hs : m.space? pid = some s) (a : VirtualAddress)
    (hn : (m.stateOf ⟨pid, g.pageOf a⟩).bind PageState.frame? = none) :
    (translate cpu pid a).run m = ⟨.ok none, m.withTranslator cpu u.countFault,
      walkEvents u.cpu (g.pageOf a) (s.walk (g.pageOf a))⟩ := by
  rw [stateOf_of_space hs] at hn
  simp [translate, run_translator m hu, hs, ht, run_walk_absent hu hn]

theorem run_translate_walked (h : m.Sound) (hu : m.translators[cpu]? = some u)
    (ht : u.tlb = none) {pid : ProcessId} (a : VirtualAddress) {f : FrameNumber}
    (hr : m.stateOf ⟨pid, g.pageOf a⟩ = some (.resident f)) :
    (translate cpu pid a).run m = ⟨.ok (some f), (m.walked f).withTranslator cpu u.countHit,
      [.hit u.cpu (g.pageOf a) f]⟩ := by
  obtain ⟨s, hs, hr'⟩ := exists_space_of_stateOf hr
  simp [translate, run_translator m hu, hs, ht,
    run_walk_resident cpu hr' (h.resident_lt hr), run_hit (m := m.walked f) hu]

theorem translating (h : m.Sound) (hu : m.translators[cpu]? = some u) (pid : ProcessId)
    (a : VirtualAddress) :
    Translating cpu u ⟨pid, g.pageOf a⟩ m ((translate cpu pid a).run m) := by
  cases hs : m.space? pid with
  | none => exact run_translate_homeless hu hs a ▸ .homeless hs
  | some s =>
  have hst := stateOf_of_space hs (g.pageOf a)
  cases ht : u.tlb with
  | none =>
    cases hf : (m.stateOf ⟨pid, g.pageOf a⟩).bind PageState.frame? with
    | none => exact run_translate_absent hu ht hs a hf ▸ .absent (.inl rfl) hf
    | some f =>
      have hr := PageState.bind_frame?_eq_some_iff.mp hf
      exact run_translate_walked h hu ht a hr ▸ .walked ht hr
  | some t =>
    have hlook := run_lookup hu t (g.pageOf a)
    cases hl : (t.lookup (g.pageOf a) (m.clock.current + 1)).1 with
    | some f =>
      have hu' := getElem?_withTranslator (m := m.ticked) hu
        { u with tlb := some (t.lookup (g.pageOf a) (m.clock.current + 1)).2 } cpu
      rw [if_pos rfl] at hu'
      have hrun : (translate cpu pid a).run m = ⟨.ok (some f), m.ticked.withTranslator cpu
          (Translator.countHit
            { u with tlb := some (t.lookup (g.pageOf a) (m.clock.current + 1)).2 }),
          [.hit u.cpu (g.pageOf a) f]⟩ := by
        rw [hl] at hlook
        simp [translate, run_translator m hu, hs, ht, hlook, run_hit hu',
          withTranslator_withTranslator]
      exact hrun ▸ .known ht hl
    | none =>
      have same : { u with tlb := some t } = u := by rw [← ht]
      have hu₁ : m.ticked.translators[cpu]? = some u := hu
      rw [hl, Tlb.lookup_of_none hl, same, withTranslator_self hu₁] at hlook
      cases hf : (s.state? (g.pageOf a)).bind PageState.frame? with
      | none =>
        have hrun : (translate cpu pid a).run m = ⟨.ok none,
            m.ticked.withTranslator cpu u.countFault,
            walkEvents u.cpu (g.pageOf a) (s.walk (g.pageOf a))⟩ := by
          simp [translate, run_translator m hu, hs, ht, hlook, run_walk_absent hu₁ hf]
        exact hrun ▸ .absent (.inr rfl) (hst ▸ hf)
      | some f =>
        have hr := PageState.bind_frame?_eq_some_iff.mp hf
        obtain ⟨load, t', hi⟩ : ∃ load t',
            t.install? (g.pageOf a) f (m.clock.current + 3) = some (load, t') := by
          obtain ⟨load, i, hi⟩ := t.exists_install? (g.pageOf a) f _ g.tlbEntries_pos
          exact ⟨load, _, hi⟩
        have hwalk := run_walk_resident (m := m.ticked) cpu hr (h.resident_lt (hst ▸ hr))
        have hinst := run_install (m := m.ticked.walked f) hu ht hi
        have hrun : (translate cpu pid a).run m = ⟨.ok (some f),
            (m.ticked.walked f).ticked.withTranslator cpu
              (Translator.countLoad { u with tlb := some t' } load),
            [u.loadEvent (g.pageOf a) f load]⟩ := by
          simp [translate, run_translator m hu, hs, ht, hlook, hwalk, hinst]
        exact hrun ▸ .loaded ht (Tlb.lookup_eq_none_iff.mp hl) (hst ▸ hr) hi

theorem run_translate (h : m.Sound) (hu : m.translators[cpu]? = some u) {pid : ProcessId}
    (ho : u.owner = some pid) (a : VirtualAddress) :
    ∃ m' es, (translate cpu pid a).run m =
        ⟨.ok ((m.stateOf ⟨pid, g.pageOf a⟩).bind PageState.frame?), m', es⟩ ∧
      Translated cpu u m m' := by
  have hc := h.buffers cpu u hu
  have hout := translating h hu pid a
  generalize (translate cpu pid a).run m = out at hout
  cases hout with
  | homeless hs =>
    exact ⟨m, [], by rw [stateOf_of_no_space hs, Option.bind_none],
      .refl m, ⟨u, hu, rfl, hc⟩, fun _ _ => rfl⟩
  | absent hk hn =>
    rw [hn]
    rcases hk with rfl | rfl
    · exact ⟨_, _, rfl, .withTranslator (.refl _) rfl hu rfl hc⟩
    · exact ⟨_, _, rfl, .withTranslator (steady_ticked _) rfl hu rfl hc⟩
  | @walked f ht hr =>
    rw [hr]
    exact ⟨_, _, rfl, .withTranslator (steady_walked m f) rfl hu rfl hc⟩
  | known ht hf =>
    obtain ⟨q, hq, hr⟩ := (hc _ ht).2 _ _ (Tlb.lookup_eq_some hf)
    obtain rfl : pid = q := by rw [ho] at hq; exact Option.some.inj hq
    rw [hr]
    exact ⟨_, _, rfl, .withTranslator (steady_ticked m) rfl hu rfl (hc.lookup ht _ _)⟩
  | @loaded _ _ f load ht hmiss hr hi =>
    rw [hr]
    exact ⟨_, _, rfl, .withTranslator
      (((steady_ticked m).trans (steady_walked _ f)).trans (steady_ticked _)) rfl hu
      (Translator.owner_countLoad _ load) (Translator.coherent_countLoad
        (hc.install g.tlbEntries_pos ht ho hr hmiss hi) load)⟩

end DemandPaging.Pager
