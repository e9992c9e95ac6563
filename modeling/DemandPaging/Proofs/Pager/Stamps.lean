import DemandPaging.Proofs.Pager.Spaces
/-!
When frames were used last. The stamps of a frame are spread over its record and the slots that map
to it, and a flush brings them together. As long as no buffer gives up a mapping for another one,
each action leaves the latest stamp of every owned frame as it was, but for the frame of the page
that it references, whose stamp is then the latest of all.
-/

namespace DemandPaging

/-- A buffer gives a mapping up to hold another one. -/
def Paging.Event.displaces : Paging.Event → Bool
  | .loadSteal .. => true
  | _ => false

theorem Paging.Plain.displaces {es : List Paging.Event} (h : Paging.Plain es) :
    ∀ e ∈ es, e.displaces = false := by
  intro e he
  have hp := h e he
  cases e with
  | loadSteal => simp [Paging.Event.isPlain] at hp
  | _ => rfl

namespace Pager

open DemandPaging.Action DemandPaging.Paging

variable {g : Geometry} {m m' m'' : Pager g} {cpu : Nat} {u : Translator g.tlbEntries}
  {f : FrameNumber} {o : FrameOwner} {k : Nat} {busy : Option Nat}

/-- The record of a frame or a slot that maps to it has this stamp or a later one. -/
def UsedSince (m : Pager g) (f : FrameNumber) (k : Nat) : Prop :=
  k ≤ m.frames.stampOf f ∨ ∃ c, ∃ s ∈ m.slotsOf c, s.frame = f ∧ k ≤ s.referenced

theorem UsedSince.mono {j : Nat} (h : m.UsedSince f k) (hj : j ≤ k) : m.UsedSince f j := by
  rcases h with h | ⟨c, s, hs, hf, hk⟩
  · exact .inl (hj.trans h)
  · exact .inr ⟨c, s, hs, hf, hj.trans hk⟩

def Past (m : Pager g) : Prop := ∀ f k, m.UsedSince f k → k ≤ m.clock.current

theorem past_new (g : Geometry) (useTlbs : List Bool) : (new g useTlbs).Past := by
  rintro f k (hk | ⟨c, s, hs, -⟩)
  · exact hk.trans (FrameTable.stampOf_allFree g.frameCount f).le
  · obtain ⟨_, _, _, _, hst⟩ := (sound_new g useTlbs).resident_of_slot hs
    rw [stateOf_of_no_space rfl] at hst
    simp at hst

/-- The records of the frames are as late as the slots of a translator. -/
def Flushed (m : Pager g) (c : Nat) : Prop :=
  ∀ s ∈ m.slotsOf c, s.referenced ≤ m.frames.stampOf s.frame

/-- Between two systems these pages were referenced, and slots were stamped in no other translator
than this one. -/
structure Uses (busy : Option Nat) (pages : List FrameOwner) (m m' : Pager g) : Prop where
  clock : m.clock.current ≤ m'.clock.current
  past : m.Past → m'.Past
  flushed : m.Past → ∀ c, busy ≠ some c → m.Flushed c → m'.Flushed c
  used : ∀ o ∈ pages, ∀ f, m'.stateOf o = some (.resident f) →
    m'.UsedSince f (m.clock.current + 1)
  others : ∀ o ∉ pages, ∀ f, m'.stateOf o = some (.resident f) →
    m.stateOf o = some (.resident f) ∧ ∀ k, m'.UsedSince f k ↔ m.UsedSince f k

namespace Uses

variable {a b pages : List FrameOwner}

protected theorem trans (h : Uses busy a m m') (h' : Uses busy b m' m'')
    (hp : ∀ o, o ∈ pages ↔ o ∈ a ∨ o ∈ b) : Uses busy pages m m'' where
  clock := h.clock.trans h'.clock
  past hm := h'.past (h.past hm)
  flushed hm c hc hf := h'.flushed (h.past hm) c hc (h.flushed hm c hc hf)
  used o ho f hf := by
    by_cases hb : o ∈ b
    · exact (h'.used o hb f hf).mono (Nat.succ_le_succ h.clock)
    · obtain ⟨hf', hk⟩ := h'.others o hb f hf
      exact (hk _).mpr (h.used o (((hp o).mp ho).resolve_right hb) f hf')
  others o ho f hf := by
    have ho' := not_or.mp (mt (hp o).mpr ho)
    obtain ⟨hf', hk'⟩ := h'.others o ho'.2 f hf
    obtain ⟨hf'', hk⟩ := h.others o ho'.1 f hf'
    exact ⟨hf'', fun k => (hk' k).trans (hk k)⟩

theorem of_slots (hclock : m.clock.current ≤ m'.clock.current)
    (hstamp : m'.frames.stampOf = m.frames.stampOf) (hsub : ∀ c, m'.slotsOf c ⊆ m.slotsOf c)
    (hst : ∀ o f, m'.stateOf o = some (.resident f) → m.stateOf o = some (.resident f))
    (hlost : ∀ c, ∀ s ∈ m.slotsOf c, s ∈ m'.slotsOf c ∨
      s.referenced ≤ m.frames.stampOf s.frame ∨ ∀ o, m'.stateOf o ≠ some (.resident s.frame)) :
    Uses busy [] m m' := by
  have since (f k) (h : m'.UsedSince f k) : m.UsedSince f k := by
    rcases h with h | ⟨c, s, hs, hf, hk⟩
    · exact .inl (hstamp ▸ h)
    · exact .inr ⟨c, s, hsub c hs, hf, hk⟩
  refine ⟨hclock, fun hm f k h => (hm f k (since f k h)).trans hclock,
    fun _ c _ hf s hs => hstamp ▸ hf s (hsub c hs), nofun,
    fun o _ f hf => ⟨hst o f hf, fun k => ⟨since f k, ?_⟩⟩⟩
  rintro (h | ⟨c, s, hs, rfl, hk⟩)
  · exact .inl (hstamp ▸ h)
  · rcases hlost c s hs with hs' | hle | hnone
    · exact .inr ⟨c, s, hs', rfl, hk⟩
    · exact .inl (hstamp ▸ hk.trans hle)
    · exact absurd hf (hnone o)

theorem of_mark (hclock : m.clock.current + 1 ≤ m'.clock.current)
    (hstamp : ∀ i, m'.frames.stampOf i = m.frames.stampOf i ∨
      i = f ∧ m'.frames.stampOf i = m.clock.current + 1)
    (hslots : ∀ c, ∀ s ∈ m'.slotsOf c, s ∈ m.slotsOf c ∨
      busy = some c ∧ s.frame = f ∧ s.referenced = m.clock.current + 1)
    (hkept : ∀ c, ∀ s ∈ m.slotsOf c, s.frame ≠ f → s ∈ m'.slotsOf c)
    (hmark : m'.UsedSince f (m.clock.current + 1))
    (ho : ∀ i, m'.stateOf o = some (.resident i) → i = f)
    (hst : ∀ q ≠ o, ∀ i, m'.stateOf q = some (.resident i) →
      i ≠ f ∧ m.stateOf q = some (.resident i)) : Uses busy [o] m m' := by
  refine ⟨Nat.le_of_succ_le hclock, fun hm i k h => ?_, fun hm c hc hf s hs => ?_,
    fun q hq i hi => ?_, fun q hq i hi => ?_⟩
  · rcases h with h | ⟨c, s, hs, hi, hk⟩
    · rcases hstamp i with he | ⟨-, he⟩
      · exact (hm i k (.inl (he ▸ h))).trans (Nat.le_of_succ_le hclock)
      · exact (he ▸ h).trans hclock
    · rcases hslots c s hs with hs' | ⟨-, -, he⟩
      · exact (hm i k (.inr ⟨c, s, hs', hi, hk⟩)).trans (Nat.le_of_succ_le hclock)
      · exact (he ▸ hk).trans hclock
  · have hs' := (hslots c s hs).resolve_right fun h => hc h.1
    rcases hstamp s.frame with he | ⟨-, he⟩
    · exact he ▸ hf s hs'
    · exact he ▸ (hm s.frame _ (.inr ⟨c, s, hs', rfl, Nat.le_refl _⟩)).trans (Nat.le_succ _)
  · obtain rfl := List.mem_singleton.mp hq
    exact ho i hi ▸ hmark
  · obtain ⟨hne, hi'⟩ := hst q (fun he => hq (List.mem_singleton.mpr he)) i hi
    refine ⟨hi', fun k => ⟨?_, ?_⟩⟩
    · rintro (h | ⟨c, s, hs, rfl, hk⟩)
      · exact .inl (((hstamp i).resolve_right fun h => hne h.1) ▸ h)
      · exact .inr ⟨c, s, (hslots c s hs).resolve_right fun h => hne h.2.1, rfl, hk⟩
    · rintro (h | ⟨c, s, hs, rfl, hk⟩)
      · exact .inl (((hstamp i).resolve_right fun h => hne h.1).symm ▸ h)
      · exact .inr ⟨c, s, hkept c s hs hne, rfl, hk⟩

end Uses

/-! Flushing. -/

theorem le_stampOf_foldl_refresh {n : Nat} (slots : List TlbSlot) (t : FrameTable n)
    (hs : ∀ s ∈ slots, ∃ o, t.owner? s.frame = some (some o)) (f : FrameNumber) (k : Nat) :
    k ≤ (slots.foldl refresh t).stampOf f ↔
      k ≤ t.stampOf f ∨ ∃ s ∈ slots, s.frame = f ∧ k ≤ s.referenced := by
  induction slots generalizing t with
  | nil => simp
  | cons s slots ih =>
    obtain ⟨o, ho⟩ := hs s List.mem_cons_self
    have howner : (refresh t s).owner? = t.owner? :=
      t.owner?_change_of_owner_eq _ (FrameTable.owner_raise s.referenced)
    have hstamp : k ≤ (refresh t s).stampOf f ↔
        k ≤ t.stampOf f ∨ s.frame = f ∧ k ≤ s.referenced := by
      rw [refresh, FrameTable.stampOf_raise ho]
      split
      · next hf => simp [hf]
      · next hf => simp [Ne.symm hf]
    rw [List.foldl_cons, ih _ fun r hr => howner ▸ hs r (List.mem_cons_of_mem _ hr), hstamp]
    simp [or_assoc]

theorem mem_slots {s : TlbSlot} : s ∈ m.slots ↔ ∃ c, s ∈ m.slotsOf c := by
  simp only [slots, List.mem_flatMap, List.mem_range]
  refine ⟨fun ⟨c, _, hs⟩ => ⟨c, hs⟩, fun ⟨c, hs⟩ => ⟨c, ?_, hs⟩⟩
  obtain ⟨u, hu, -⟩ := mem_slotsOf.mp hs
  exact (Array.getElem?_eq_some_iff.mp hu).1

section Flush

variable {slots : List TlbSlot} (h : m.Sound) (hs : ∀ s ∈ slots, ∃ c, s ∈ m.slotsOf c)

include h hs

theorem le_stampOf_flushedBy (f : FrameNumber) (k : Nat) :
    k ≤ (m.flushedBy slots).frames.stampOf f ↔
      k ≤ m.frames.stampOf f ∨ ∃ s ∈ slots, s.frame = f ∧ k ≤ s.referenced := by
  refine le_stampOf_foldl_refresh slots m.frames (fun s hm => ?_) f k
  obtain ⟨c, hc⟩ := hs s hm
  obtain ⟨_, pid, _, _, hst⟩ := h.resident_of_slot hc
  exact ⟨_, (h.books.owner_iff s.frame _ nofun).mpr hst⟩

theorem uses_flushedBy : Uses busy [] m (m.flushedBy slots) := by
  have hle := le_stampOf_flushedBy h hs
  have since (f k) : (m.flushedBy slots).UsedSince f k ↔ m.UsedSince f k := by
    constructor
    · rintro (hk | hk)
      · rcases (hle f k).mp hk with hk | ⟨s, hm, hf, hk⟩
        · exact .inl hk
        · obtain ⟨c, hc⟩ := hs s hm
          exact .inr ⟨c, s, hc, hf, hk⟩
      · exact .inr hk
    · rintro (hk | hk)
      · exact .inl ((hle f k).mpr (.inl hk))
      · exact .inr hk
  refine ⟨Nat.le_refl _, fun hm f k hk => hm f k ((since f k).mp hk), fun _ c _ hf s hm => ?_,
    nofun, fun o _ f hf => ⟨?_, since f⟩⟩
  · exact (hle s.frame _).mpr (.inl (hf s hm))
  · rwa [(steady_flushedBy m slots).stateOf] at hf

theorem flushed_flushedBy {c : Nat} (hsub : m.slotsOf c ⊆ slots) :
    (m.flushedBy slots).Flushed c :=
  fun s hm => (le_stampOf_flushedBy h hs s.frame _).mpr (.inr ⟨s, hsub hm, rfl, Nat.le_refl _⟩)

end Flush

theorem usedSince_of_leastRecentlyUsed (h : m.Sound)
    (hf : (m.flushedBy m.slots).frames.leastRecentlyUsed = some f) {i : FrameNumber}
    (ho : m.stateOf o = some (.resident i)) (hk : m.UsedSince f k) : m.UsedSince i k := by
  have hs (s) (hm : s ∈ m.slots) := mem_slots.mp hm
  have hle := le_stampOf_flushedBy h hs
  have howner : (m.flushedBy m.slots).frames.owner? i = some (some o) := by
    rw [(steady_flushedBy m m.slots).owners]
    exact (h.books.owner_iff i o nofun).mpr ho
  have hmin := FrameTable.leastRecentlyUsed_le hf howner
  have hk' : k ≤ (m.flushedBy m.slots).frames.stampOf f := by
    refine (hle f k).mpr (hk.imp_right ?_)
    rintro ⟨c, s, hs, hf, hk⟩
    exact ⟨s, mem_slots.mpr ⟨c, hs⟩, hf, hk⟩
  refine ((hle i k).mp (hk'.trans hmin)).imp_right ?_
  rintro ⟨s, hm, hi, hk⟩
  obtain ⟨c, hc⟩ := hs s hm
  exact ⟨c, s, hc, hi, hk⟩

/-! Faulting. -/

theorem uses_evicted (h : m.Sound) {v : FrameOwner} {t : SwapToken} {p : Page g}
    (hv : m.stateOf v = some (.resident f)) (ht : m.swap.get? t = none) :
    Uses busy [] m (m.evicted v t p) := by
  have hst := stateOf_evicted (t := t) (p := p) (by rw [hv]; rfl)
  obtain ⟨-, -, hnone⟩ := (agrees_evicted (p := p) h hv ht).books.lent_frame f rfl
  have hslots (c) (s : TlbSlot) : s ∈ (m.evicted v t p).slotsOf c ↔
      ∃ u, m.translators[c]? = some u ∧ s ∈ (u.purge v.pid v.page).2.cached := by
    simp [mem_slotsOf, translators_evicted]
  refine .of_slots (by rw [clock_evicted]) (by rw [frames_evicted]) (fun c s hs => ?_)
    (fun o i hi => ?_) (fun c s hs => ?_)
  · obtain ⟨u, hu, hs⟩ := (hslots c s).mp hs
    rw [Translator.cached_purge] at hs
    refine mem_slotsOf.mpr ⟨u, hu, ?_⟩
    split at hs
    · exact List.mem_of_mem_filter hs
    · exact hs
  · rw [hst, Function.update_apply] at hi
    split at hi
    · simp at hi
    · exact hi
  · obtain ⟨u, pid, hu, ho, hr⟩ := h.resident_of_slot hs
    obtain ⟨u', hu', hs'⟩ := mem_slotsOf.mp hs
    obtain rfl := Option.some.inj (hu.symm.trans hu')
    by_cases hv' : pid = v.pid ∧ s.page = v.page
    · obtain rfl : s.frame = f := by
        rw [hv'.1, hv'.2, hv] at hr
        exact (PageState.resident.inj (Option.some.inj hr)).symm
      exact .inr (.inr hnone)
    · refine .inl ((hslots c s).mpr ⟨u, hu, ?_⟩)
      rw [Translator.cached_purge]
      split
      · next hpid =>
        have hpid' : pid = v.pid := Option.some.inj (ho.symm.trans hpid)
        exact List.mem_filter.mpr ⟨hs', by simpa using fun hp => hv' ⟨hpid', hp⟩⟩
      · exact hs'

theorem Obtained.uses {es : List Event} (h : m.Sound) (hf : Obtained m o f m' es) :
    Uses busy [] m m' := by
  cases hf with
  | free hf =>
    exact .of_slots (Nat.le_refl _) rfl (fun _ _ hs => hs) (fun _ _ hi => hi) fun _ _ hs => .inl hs
  | stolen _ hv ht _ => exact uses_evicted h hv ht

theorem uses_settled {s : PageState} {p : Page g} (h : Agrees (some f) m)
    (hs : m.stateOf o = some s) : Uses busy [o] m (m.settled f o s p) := by
  obtain ⟨hlt, -, hnone⟩ := h.books.lent_frame f rfl
  have hst := stateOf_settled (f := f) (s := s) (p := p) (by rw [hs]; rfl)
  have hstamp (i) : (m.settled f o s p).frames.stampOf i =
      if i = f then m.clock.current + 1 else m.frames.stampOf i := by
    rw [frames_settled, FrameTable.stampOf_assigned _ hlt]
  have hslots (c) : (m.settled f o s p).slotsOf c = m.slotsOf c := by
    rw [slotsOf, translators_settled, slotsOf]
  refine .of_mark (f := f) (by rw [clock_settled]; exact Nat.le_refl _) (fun i => ?_)
    (fun c s hs => .inl (hslots c ▸ hs)) (fun c s hs _ => hslots c ▸ hs)
    (.inl (by rw [hstamp, if_pos rfl])) (fun i hi => ?_) fun q hq i hi => ?_
  · rw [hstamp]
    split
    · next hi => exact .inr ⟨hi, rfl⟩
    · exact .inl rfl
  · rw [hst, Function.update_self] at hi
    exact (PageState.resident.inj (Option.some.inj hi)).symm
  · rw [hst, Function.update_of_ne hq] at hi
    refine ⟨?_, hi⟩
    rintro rfl
    exact hnone q hi

theorem BroughtIn.uses {s : PageState} (h : m.Sound)
    {out : Outcome Event (Failure MemoryError) (Pager g) FrameNumber} (hout : BroughtIn m o s out) :
    Uses busy (match out.answer with | .ok _ => [o] | .error _ => []) m out.state := by
  have hk := (steady_flushedBy m m.slots).agrees_of_translators_eq h rfl
  have hflush : Uses busy [] m (m.flushedBy m.slots) := uses_flushedBy h fun s hm => mem_slots.mp hm
  cases hout with
  | @settled f k _ _ _ hf hs _ _ =>
    have hobtain : Uses busy [] m k := hflush.trans (hf.uses hk) (by simp)
    exact hobtain.trans (uses_settled (hf.lent hk).agrees hs) (by simp)
  | full _ => exact hflush

/-! Translating. -/

theorem slotsOf_withTranslator (hu : m.translators[cpu]? = some u)
    (v : Translator g.tlbEntries) (c : Nat) :
    (m.withTranslator cpu v).slotsOf c = if c = cpu then v.cached else m.slotsOf c := by
  rw [slotsOf, getElem?_withTranslator hu]
  split
  · rfl
  · rfl

theorem slotsOf_self (hu : m.translators[cpu]? = some u) : m.slotsOf cpu = u.cached := by
  rw [slotsOf, hu]
  rfl

theorem uses_ticked (m : Pager g) : Uses busy [] m m.ticked :=
  .of_slots (Nat.le_succ _) rfl (fun _ _ hs => hs) (fun _ _ hi => hi) fun _ _ hs => .inl hs

theorem uses_withTranslator (hu : m.translators[cpu]? = some u) {v : Translator g.tlbEntries}
    (hv : v.cached = u.cached) : Uses busy [] m (m.withTranslator cpu v) := by
  have hslots (c) : (m.withTranslator cpu v).slotsOf c = m.slotsOf c := by
    rw [slotsOf_withTranslator hu]
    split
    · next hc => rw [hc, slotsOf_self hu, hv]
    · rfl
  exact .of_slots (Nat.le_refl _) rfl (fun c s hs => hslots c ▸ hs) (fun _ _ hi => hi)
    fun c s hs => .inl (hslots c ▸ hs)

theorem ne_of_resident (h : m.Sound) (ho : m.stateOf o = some (.resident f)) {q : FrameOwner}
    (hq : q ≠ o) {i : FrameNumber} (hi : m.stateOf q = some (.resident i)) : i ≠ f := by
  rintro rfl
  exact hq (h.books.eq_of_resident hi ho)

theorem uses_walked (h : m.Sound) (hr : m.stateOf o = some (.resident f)) :
    Uses busy [o] m (m.walked f) := by
  have howner := (h.books.owner_iff f o nofun).mpr hr
  have hstamp (i) : (m.walked f).frames.stampOf i =
      if i = f then m.clock.current + 1 else m.frames.stampOf i :=
    FrameTable.stampOf_renew howner _ i
  refine .of_mark (f := f) (Nat.le_refl _) (fun i => ?_) (fun _ _ hs => .inl hs)
    (fun _ _ hs _ => hs) (.inl (by rw [hstamp, if_pos rfl])) (fun i hi => ?_)
    fun q hq i hi => ⟨ne_of_resident h hr hq hi, hi⟩
  · rw [hstamp]
    split
    · next hi => exact .inr ⟨hi, rfl⟩
    · exact .inl rfl
  · exact (PageState.resident.inj (Option.some.inj (hr.symm.trans hi))).symm

theorem uses_stamped (h : m.Sound) (hu : m.translators[cpu]? = some u)
    {t t' : Tlb g.tlbEntries} (ht : u.tlb = some t) {v : Translator g.tlbEntries}
    (hv : v.tlb = some t') (hs : Tlb.Stamped f (m.clock.current + 1) t t')
    (hr : m.stateOf o = some (.resident f)) :
    Uses (some cpu) [o] m (m.ticked.withTranslator cpu v) := by
  have hold : m.slotsOf cpu = t.valid := by rw [slotsOf_self hu, Translator.cached, ht]; rfl
  have hslots (c) : (m.ticked.withTranslator cpu v).slotsOf c =
      if c = cpu then t'.valid else m.slotsOf c := by
    rw [slotsOf_withTranslator (m := m.ticked) hu, Translator.cached, hv]
    rfl
  refine .of_mark (f := f) (Nat.le_refl _) (fun _ => .inl rfl) (fun c s hm => ?_)
    (fun c s hm hne => ?_) ?_ (fun i hi => ?_) fun q hq i hi => ⟨ne_of_resident h hr hq hi, hi⟩
  · rw [hslots] at hm
    split at hm
    · next hc =>
      rw [hc, hold]
      exact (hs.old s hm).imp_right fun hf => ⟨rfl, hf⟩
    · exact .inl hm
  · rw [hslots]
    split
    · next hc =>
      rw [hc, hold] at hm
      exact hs.kept s hm hne
    · exact hm
  · obtain ⟨s, hm, hf, hk⟩ := hs.marked
    exact .inr ⟨cpu, s, by rwa [hslots, if_pos rfl], hf, hk.ge⟩
  · exact (PageState.resident.inj (Option.some.inj (hr.symm.trans hi))).symm

theorem Translating.uses (h : m.Sound) (hu : m.translators[cpu]? = some u)
    (ho : u.owner = some o.pid)
    {out : Outcome Event (Failure MemoryError) (Pager g) (Option FrameNumber)}
    (hout : Translating cpu u o m out) (hes : ∀ e ∈ out.events, e.displaces = false) :
    Uses (some cpu) (match out.answer with | .ok (some _) => [o] | _ => []) m out.state := by
  cases hout with
  | homeless hs =>
    exact .of_slots (Nat.le_refl _) rfl (fun _ _ hs => hs) (fun _ _ hi => hi) fun _ _ hs => .inl hs
  | absent hk hn =>
    rcases hk with rfl | rfl
    · exact uses_withTranslator hu rfl
    · exact (uses_ticked m).trans (uses_withTranslator (m := m.ticked) hu rfl) (by simp)
  | walked ht hr =>
    exact (uses_walked h hr).trans (uses_withTranslator (m := m.walked _) hu rfl) (by simp)
  | known ht hf =>
    obtain ⟨q, hq, hr⟩ := (h.buffers cpu u hu _ ht).2 _ _ (Tlb.lookup_eq_some hf)
    obtain rfl : o.pid = q := by rw [ho] at hq; exact Option.some.inj hq
    exact uses_stamped h hu ht rfl (Tlb.stamped_lookup hf) hr
  | @loaded t t' f load ht hmiss hr hi =>
    cases load with
    | steal i p j => exact absurd (hes _ List.mem_cons_self) nofun
    | clean i =>
      have h₁ := (steady_ticked m).agrees_of_translators_eq h rfl
      have h₂ := (steady_walked m.ticked f).agrees_of_translators_eq h₁ rfl
      have hload := uses_stamped (m := m.ticked.walked f) h₂ hu ht rfl
        (v := Translator.countLoad { u with tlb := some t' } (.clean i)) (Tlb.stamped_install hi) hr
      have hwalk : Uses (some cpu) [o] m (m.ticked.walked f) :=
        (uses_ticked m).trans (uses_walked h₁ hr) (by simp)
      exact hwalk.trans hload (by simp)

/-! Dispatching, and address spaces that come, grow and go. -/

theorem uses_dispatched (hu : m.translators[cpu]? = some u) {pid : ProcessId}
    (hf : u.switches pid = true → m.Flushed cpu) :
    Uses busy [] m (m.withTranslator cpu (u.dispatch pid)) := by
  have hcached := u.cached_dispatch pid
  by_cases hs : u.switches pid = true
  · rw [if_pos hs] at hcached
    have hslots (c) : (m.withTranslator cpu (u.dispatch pid)).slotsOf c =
        if c = cpu then [] else m.slotsOf c := by
      rw [slotsOf_withTranslator hu, hcached]
    refine .of_slots (Nat.le_refl _) rfl (fun c s hm => ?_) (fun _ _ hi => hi) fun c s hm => ?_
    · rw [hslots] at hm
      split at hm
      · simp at hm
      · exact hm
    · by_cases hc : c = cpu
      · exact .inr (.inl (hf hs s (hc ▸ hm)))
      · exact .inl (by rwa [hslots, if_neg hc])
  · exact uses_withTranslator hu (by rw [hcached, if_neg hs])

theorem uses_of_spaces (hclock : m'.clock = m.clock) (hframes : m'.frames = m.frames)
    (htrans : m'.translators = m.translators)
    (hst : ∀ o f, m'.stateOf o = some (.resident f) → m.stateOf o = some (.resident f)) :
    Uses busy [] m m' := by
  have hslots (c) : m'.slotsOf c = m.slotsOf c := by rw [slotsOf, htrans, slotsOf]
  exact .of_slots (by rw [hclock]) (by rw [hframes]) (fun c s hs => hslots c ▸ hs) hst
    fun c s hs => .inl (hslots c ▸ hs)

theorem Uses.refl {busy : Option Nat} (m : Pager g) : Uses busy [] m m :=
  uses_of_spaces rfl rfl rfl fun _ _ hi => hi

theorem Allocated.uses {pid : ProcessId} {start count : Nat}
    {out : Outcome Event (Failure MemoryError) (Pager g) Bool}
    (hout : Allocated m pid start count out) : Uses busy [] m out.state := by
  cases hout with
  | unknown hs => exact uses_of_spaces rfl rfl rfl fun _ _ hi => hi
  | beyond hs _ => exact uses_of_spaces rfl rfl rfl fun o f hi => setSpace_self hs ▸ hi
  | taken hs _ _ => exact uses_of_spaces rfl rfl rfl fun o f hi => setSpace_self hs ▸ hi
  | granted hs hle _ =>
    refine uses_of_spaces rfl rfl rfl fun o f hi => ?_
    rw [stateOf_grown hs hle] at hi
    split at hi
    · simp at hi
    · exact hi

theorem uses_vacated (h : m.Sound) (pid : ProcessId) {frames : FrameTable g.frameCount}
    (hstamp : frames.stampOf = m.frames.stampOf) (swap : SwapStore) :
    Uses busy [] m (m.vacated pid frames swap) := by
  have hslots (c) (s : TlbSlot) : s ∈ (m.vacated pid frames swap).slotsOf c ↔
      ∃ u, m.translators[c]? = some u ∧ s ∈ (u.forget pid).cached := by
    simp [mem_slotsOf, vacated, forgetAll]
  refine .of_slots (Nat.le_refl _) hstamp (fun c s hs => ?_) (fun o i hi => ?_) fun c s hs => ?_
  · obtain ⟨u, hu, hs⟩ := (hslots c s).mp hs
    rw [Translator.cached_forget] at hs
    split at hs
    · simp at hs
    · exact mem_slotsOf.mpr ⟨u, hu, hs⟩
  · rw [stateOf_vacated] at hi
    split at hi
    · simp at hi
    · exact hi
  · obtain ⟨u, q, hu, ho, hr⟩ := h.resident_of_slot hs
    by_cases hq : q = pid
    · refine .inr (.inr fun o hi => ?_)
      rw [stateOf_vacated] at hi
      split at hi
      · simp at hi
      · next hne => exact ne_of_resident h hr (fun he => hne (by rw [he, hq])) hi rfl
    · refine .inl ((hslots c s).mpr ⟨u, hu, ?_⟩)
      rw [Translator.cached_forget, if_neg fun he => hq (Option.some.inj (ho.symm.trans he)),
        ← slotsOf_self hu]
      exact hs

end Pager

end DemandPaging
