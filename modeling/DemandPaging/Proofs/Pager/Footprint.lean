import DemandPaging.Proofs.Pager.Reachable
import DemandPaging.Proofs.Pager.Stamps
/-!
The footprint of a page fault. A fault that is not answered on the spot gives the page a frame: the
head of the free list, or else the frame used longest ago, whose page goes to the swap store. Only
that frame, the page and the page that was in the frame before are touched.
-/

namespace DemandPaging.Pager

open DemandPaging.Action DemandPaging.Paging

variable {g : Geometry} {m m' k : Pager g} {f : FrameNumber} {o v : FrameOwner} {s : PageState}

/-- The latest stamp of a frame, in its record or in a valid slot that maps to it. -/
def lastUse (m : Pager g) (f : FrameNumber) : Nat :=
  ((m.slots.filter fun s => s.frame = f).map TlbSlot.referenced).foldl max (m.frames.stampOf f)

theorem le_foldl_max (l : List Nat) (a k : Nat) :
    k ≤ l.foldl max a ↔ k ≤ a ∨ ∃ b ∈ l, k ≤ b := by
  induction l generalizing a with
  | nil => simp
  | cons b l ih => rw [List.foldl_cons, ih, le_max_iff]; simp [or_assoc]

theorem usedSince_iff {k : Nat} : m.UsedSince f k ↔
    k ≤ m.frames.stampOf f ∨ ∃ s ∈ m.slots, s.frame = f ∧ k ≤ s.referenced := by
  simp only [UsedSince, mem_slots]
  refine or_congr_right ⟨?_, ?_⟩
  · rintro ⟨c, s, hs, h⟩
    exact ⟨s, ⟨c, hs⟩, h⟩
  · rintro ⟨s, ⟨c, hs⟩, h⟩
    exact ⟨c, s, hs, h⟩

theorem le_lastUse {k : Nat} : k ≤ m.lastUse f ↔ m.UsedSince f k := by
  simp [lastUse, le_foldl_max, usedSince_iff, and_assoc]

theorem stampOf_flushedBy_slots (h : m.Sound) (f : FrameNumber) :
    (m.flushedBy m.slots).frames.stampOf f = m.lastUse f := by
  refine eq_of_forall_le_iff fun k => ?_
  rw [le_stampOf_flushedBy h fun s hs => mem_slots.mp hs, le_lastUse, usedSince_iff]

/-- A page that was in state `s` got the frame `f`; no other frame got another owner or other
bytes, and the stamps of all others were brought together. -/
structure Filled (m m' : Pager g) (o : FrameOwner) (s : PageState) (f : FrameNumber) : Prop where
  owners : ∀ i, m'.owner? i = if i = f then some (some o) else m.owner? i
  stamps : ∀ i, m'.frames.stampOf i = if i = f then m.clock.current + 1 else m.lastUse i
  bytes : ∀ i, m'.ram.frame? i = if i = f then m.imageOf s else m.ram.frame? i
  clock : m'.clock = m.clock.tick
  processes : ∀ pid, (m'.space? pid).isSome = (m.space? pid).isSome

/-- The frame was free. Of the swap store only the image of the page itself is gone. -/
structure Taken (m m' : Pager g) (o : FrameOwner) (s : PageState) (f : FrameNumber) : Prop extends
    Filled m m' o s f where
  head : m.frames.free = f :: m'.frames.free
  entries : m'.stateOf = Function.update m.stateOf o (some (.resident f))
  spaces : ∀ pid, pid ≠ o.pid → m'.space? pid = m.space? pid
  images : ∀ u, m'.swap.get? u = if s = .swapped u then none else m.swap.get? u
  units : m'.translators = m.translators

/-- No frame was free, and the frame had been used longest ago. Its page `v` went to the swap store
under a token that was not in use, and out of all buffers. -/
structure Stolen (m m' : Pager g) (o : FrameOwner) (s : PageState) (f : FrameNumber)
    (v : FrameOwner) (t : SwapToken) : Prop extends Filled m m' o s f where
  none_free : m.frames.free = []
  free : m'.frames.free = []
  victim : m.owner? f = some (some v)
  resident : m.stateOf v = some (.resident f)
  oldest : ∀ i w, m.owner? i = some (some w) →
    m.lastUse f < m.lastUse i ∨ m.lastUse f = m.lastUse i ∧ f ≤ i
  other : v ≠ o
  fresh : m.swap.get? t = none
  entries : m'.stateOf =
    Function.update (Function.update m.stateOf v (some (.swapped t))) o (some (.resident f))
  spaces : ∀ pid, pid ≠ o.pid → pid ≠ v.pid → m'.space? pid = m.space? pid
  image : ∃ p, m.ram.frame? f = some p ∧
    m'.swap.get? t = some ⟨v, m.clock.current, p.toArray⟩
  images : ∀ u, u ≠ t → m'.swap.get? u = if s = .swapped u then none else m.swap.get? u
  units : ∀ c : Nat, m'.translators[c]? =
    m.translators[c]?.map fun u => (u.purge v.pid v.page).2
  slots : ∀ c, m'.slotsOf c = (m.slotsOf c).filter fun x => x.frame ≠ f
  purged : ∀ (c : Nat) (u : Translator g.tlbEntries), m'.translators[c]? = some u →
    u.owner = some v.pid → ∀ x ∈ u.cached, x.page ≠ v.page

theorem SwapStore.get?_without (w : SwapStore) (hn : s.isResident = false) (u : SwapToken) :
    (w.without s).get? u = if s = .swapped u then none else w.get? u := by
  cases s with
  | unmapped => rfl
  | resident f => exact absurd hn nofun
  | swapped t =>
    rw [SwapStore.without_swapped, SwapStore.get?_erase]
    simp

theorem filled_settled {p : Page g} (hk : Lent f (m.flushedBy m.slots) k)
    (howner : k.frames.owner? = m.frames.owner?)
    (hstamp : ∀ i, k.frames.stampOf i = m.lastUse i) (hram : k.ram = m.ram)
    (hclock : k.clock = m.clock) (hs : m.stateOf o = some s) (hks : k.stateOf o = some s)
    (hp : k.imageOf s = some p) : Filled m (k.settled f o s p) o s f := by
  have hflush := steady_flushedBy m m.slots
  obtain ⟨hlt, -, -⟩ := hk.agrees.books.lent_frame f rfl
  have himage : m.imageOf s = some p := by
    have hc := congrFun (hk.faithful.contents.trans hflush.contents) o
    rw [contents, hks, contents, hs] at hc
    exact hc.symm.trans hp
  refine ⟨fun i => ?_, fun i => ?_, fun i => ?_, ?_, fun pid => ?_⟩
  · change (k.settled f o s p).frames.owner? i = if i = f then _ else m.frames.owner? i
    rw [frames_settled, FrameTable.owner?_change_of_owned _ _ _ hlt, howner]
  · rw [frames_settled, FrameTable.stampOf_assigned _ hlt, hstamp, hclock]
  · rw [ram_settled, k.ram.frame?_put p hlt, hram, himage]
  · rw [clock_settled, hclock]
  · exact (isSome_space?_putState _ o (.resident f) pid).trans (hk.faithful.spaces pid)

theorem taken_of_free (h : m.Sound) {rest : List FrameNumber} (hf : m.frames.free = f :: rest)
    (hs : m.stateOf o = some s) (hn : s.isResident = false) :
    ∃ m' es, (bringIn o s).run m = ⟨.ok f, m', es⟩ ∧ Taken m m' o s f := by
  have hflush := steady_flushedBy m m.slots
  have hfree : (m.flushedBy m.slots).frames.free = f :: rest := by rw [hflush.free, hf]
  have hob := Obtained.free (o := o) hfree
  obtain ⟨p, es, hks, hp, -, hrun⟩ :=
    run_bringIn_obtained h hs hn (run_obtainFrame_free hfree o) hob
  have hlent := hob.lent (hflush.agrees_of_translators_eq h rfl)
  refine ⟨_, _, hrun, filled_settled hlent hflush.owners (stampOf_flushedBy_slots h) rfl rfl hs hks
    hp, ?_, ?_, fun pid hpid => ?_, fun u => ?_, translators_settled ..⟩
  · rw [frames_settled, FrameTable.free_change, hf]
  · rw [stateOf_settled (by rw [hks]; rfl)]
    rfl
  · exact space?_putState_of_ne _ o _ hpid
  · rw [swap_settled, SwapStore.get?_without _ hn]
    rfl

theorem slotsOf_evicted (h : m.Sound) (hv : m.stateOf v = some (.resident f)) (t : SwapToken)
    (p : Page g) (c : Nat) :
    (m.evicted v t p).slotsOf c = (m.slotsOf c).filter fun x => x.frame ≠ f := by
  rw [slotsOf, translators_evicted, Array.getElem?_map, slotsOf]
  cases hu : m.translators[c]? with
  | none => rfl
  | some u =>
    have same {x : TlbSlot} (hx : x ∈ u.cached) :
        x.frame = f ↔ u.owner = some v.pid ∧ x.page = v.page := by
      obtain ⟨pid, ho, hr⟩ := (h.buffers c u hu).resident_of_cached hx
      constructor
      · rintro rfl
        obtain rfl := h.books.eq_of_resident hr hv
        exact ⟨ho, rfl⟩
      · rintro ⟨ho', hp⟩
        obtain rfl := Option.some.inj (ho.symm.trans ho')
        rw [hp, hv] at hr
        exact (PageState.resident.inj (Option.some.inj hr)).symm
    simp only [Option.map_some, Option.getD_some, Translator.cached_purge]
    split
    · next ho => exact List.filter_congr fun x hx => by simp [same hx, ho]
    · next ho => exact (List.filter_eq_self.mpr fun x hx => by simp [same hx, ho]).symm

theorem Agrees.ne_swapped (h : m.Sound) (hs : m.stateOf o = some s) {t : SwapToken}
    (ht : m.swap.get? t = none) : s ≠ .swapped t := by
  rintro rfl
  obtain ⟨_, hp, -⟩ := h.books.held o t hs
  rw [ht] at hp
  simp at hp

section Steal

variable {t : SwapToken} {p p₀ : Page g} (h : m.Sound) (hf : m.frames.free = [])
  (hlru : (m.flushedBy m.slots).frames.leastRecentlyUsed = some f)
  (hv : m.stateOf v = some (.resident f)) (ht : m.swap.get? t = none)
  (hp₀ : m.ram.frame? f = some p₀) (hs : m.stateOf o = some s) (hn : s.isResident = false)
  (hp : ((m.flushedBy m.slots).evicted v t p₀).imageOf s = some p)

include h hf hlru hv ht hp₀ hs hn hp

theorem stolen_settled :
    Stolen m (((m.flushedBy m.slots).evicted v t p₀).settled f o s p) o s f v t := by
  have hflush := steady_flushedBy m m.slots
  have hm := hflush.agrees_of_translators_eq h rfl
  have hv' : (m.flushedBy m.slots).stateOf v = some (.resident f) := hflush.stateOf ▸ hv
  have hlent := lent_of_evicted hm hv' ht hp₀
  have hne : v ≠ o := by
    rintro rfl
    obtain rfl := Option.some.inj (hs.symm.trans hv)
    exact absurd hn nofun
  have hks := hlent.absent o s (hflush.stateOf ▸ hs) hn
  have hfilled := filled_settled hlent (by rw [frames_evicted]; exact hflush.owners)
    (fun i => by rw [frames_evicted]; exact stampOf_flushedBy_slots h i)
    (ram_evicted ..) (clock_evicted ..) hs hks hp
  have hunits (c : Nat) : (((m.flushedBy m.slots).evicted v t p₀).settled f o s p).translators[c]? =
      m.translators[c]?.map fun u => (u.purge v.pid v.page).2 := by
    rw [translators_settled, translators_evicted, Array.getElem?_map]
    rfl
  refine ⟨hfilled, hf, ?_, (h.books.owner_iff f v nofun).mpr hv, hv, ?_, hne, ht, ?_,
    fun pid ho hpid => ?_, ⟨p₀, hp₀, ?_⟩, fun u hu => ?_, hunits, fun c => ?_,
    fun c u hu ho x hx => ?_⟩
  · rw [frames_settled, FrameTable.free_change, frames_evicted, hflush.free, hf]
  · intro i w hw
    rw [← stampOf_flushedBy_slots h, ← stampOf_flushedBy_slots h]
    exact FrameTable.leastRecentlyUsed_first hlru (by rw [hflush.owners]; exact hw)
  · rw [stateOf_settled (by rw [hks]; rfl), stateOf_evicted (by rw [hv']; rfl), hflush.stateOf]
  · exact (space?_putState_of_ne _ o _ ho).trans (space?_putState_of_ne _ v _ hpid)
  · rw [swap_settled, SwapStore.get?_without _ hn, if_neg (h.ne_swapped hs ht), swap_evicted,
      SwapStore.get?_insert, if_pos rfl]
    rfl
  · rw [swap_settled, SwapStore.get?_without _ hn, swap_evicted, SwapStore.get?_insert,
      if_neg (Ne.symm hu)]
    rfl
  · rw [slotsOf, translators_settled]
    exact slotsOf_evicted hm hv' t p₀ c
  · rw [hunits] at hu
    obtain ⟨w, -, rfl⟩ := Option.map_eq_some_iff.mp hu
    rw [Translator.owner_purge] at ho
    rw [Translator.cached_purge, if_pos ho] at hx
    simpa using (List.mem_filter.mp hx).2

end Steal

theorem stolen_of_full (h : m.Sound) (hf : m.frames.free = []) (hs : m.stateOf o = some s)
    (hn : s.isResident = false) :
    (∃ f m' es v t, (bringIn o s).run m = ⟨.ok f, m', es⟩ ∧ Stolen m m' o s f v t) ∨
    ∃ m' es, (bringIn o s).run m = ⟨.error (.crash .noRoom), m', es⟩ ∧
      wordBound ≤ m.swap.size := by
  have hflush := steady_flushedBy m m.slots
  have hrun := broughtIn h hs hn
  generalize (bringIn o s).run m = out at hrun
  cases hrun with
  | full hes =>
    obtain ⟨-, -, hfull⟩ := hes
    exact .inr ⟨_, _, rfl, hfull⟩
  | settled hob _ hp _ =>
    cases hob with
    | free hfree =>
      rw [hflush.free, hf] at hfree
      simp at hfree
    | stolen hlru hv ht hp₀ =>
      rw [hflush.stateOf] at hv
      exact .inl ⟨_, _, _, _, _, rfl, stolen_settled h hf hlru hv ht hp₀ hs hn hp⟩

/-- A page that is brought in gets a frame, unless no frame is free and all tokens are held. -/
theorem bringIn_footprint (h : m.Sound) (hs : m.stateOf o = some s) (hn : s.isResident = false) :
    (∃ f m' es, (bringIn o s).run m = ⟨.ok f, m', es⟩ ∧
      (Taken m m' o s f ∨ ∃ v t, Stolen m m' o s f v t)) ∨
    ∃ m' es, (bringIn o s).run m = ⟨.error (.crash .noRoom), m', es⟩ ∧
      m.frames.free = [] ∧ wordBound ≤ m.swap.size := by
  cases hf : m.frames.free with
  | cons f rest =>
    obtain ⟨m', es, hrun, htaken⟩ := taken_of_free h hf hs hn
    exact .inl ⟨f, m', es, hrun, .inl htaken⟩
  | nil =>
    rcases stolen_of_full h hf hs hn with ⟨f, m', es, v, t, hrun, hstolen⟩ | ⟨m', es, hrun, hfull⟩
    · exact .inl ⟨f, m', es, hrun, .inr ⟨v, t, hstolen⟩⟩
    · exact .inr ⟨m', es, hrun, rfl, hfull⟩

theorem sound_bringIn (h : m.Sound) (hs : m.stateOf o = some s) (hn : s.isResident = false) :
    ((bringIn o s).run m).state.Sound := by
  rcases run_bringIn h hs hn with ⟨f, m', es, hrun, hm', -⟩ | ⟨m', es, hrun, hm', -⟩
  · rw [hrun]
    exact hm'
  · rw [hrun]
    exact hm'

def Idle (m : Pager g) (o : FrameOwner) (answer : Except (Failure MemoryError) Resolution) : Prop :=
  (∃ v, answer = .ok (.violation v)) ∨ answer = .error (.error (.unknownProcess o.pid)) ∨
    ∃ f, m.stateOf o = some (.resident f)

structure Footprint (m : Pager g) (o : FrameOwner)
    (out : Outcome Event (Failure MemoryError) (Pager g) Resolution) : Prop where
  idle : m.Idle o out.answer → out.state = m
  filled : ¬m.Idle o out.answer →
    (∃ f s, out.answer = .ok (.resolved f) ∧ m.stateOf o = some s ∧ s.isResident = false ∧
      (Taken m out.state o s f ∨ ∃ v t, Stolen m out.state o s f v t)) ∨
    out.answer = .error (.crash .noRoom) ∧ m.frames.free = [] ∧ wordBound ≤ m.swap.size

theorem footprint_handleFault (h : m.Sound) (pid : ProcessId) (a : VirtualAddress)
    (access : Access) : Footprint m ⟨pid, g.pageOf a⟩ ((handleFault pid a access).run m) := by
  rcases run_handleFault_cases m pid a access with
    ⟨r, es, hrun, -, hc, ha⟩ | ⟨s, -, hs, hn, hrun⟩
  · rw [hrun]
    refine ⟨fun _ => rfl, fun hidle => absurd ?_ hidle⟩
    match r, ha with
    | .ok (.resolved f), ha => exact .inr (.inr ⟨f, ha.2.2⟩)
    | .ok (.violation v), _ => exact .inl ⟨v, rfl⟩
    | .error (.crash c), _ => exact absurd rfl (hc c)
    | .error (.error e), ha => exact .inr (.inl (congrArg _ (ha.resolve_right nofun).2))
  have hbusy (r : Except (Failure MemoryError) Resolution) (hv : ∀ v, r ≠ .ok (.violation v))
      (he : ∀ e, r ≠ .error (.error e)) : ¬m.Idle ⟨pid, g.pageOf a⟩ r := by
    rintro (⟨v, h⟩ | h | ⟨f, hf⟩)
    · exact hv v h
    · exact he _ h
    · obtain rfl := Option.some.inj (hs.symm.trans hf)
      exact absurd hn nofun
  rcases bringIn_footprint h hs hn with ⟨f, m', es, hbring, hm'⟩ | ⟨m', es, hbring, hfree, hfull⟩
  · rw [hrun, hbring]
    exact ⟨fun hi => absurd hi (hbusy _ nofun nofun), fun _ => .inl ⟨f, s, rfl, hs, hn, hm'⟩⟩
  · rw [hrun, hbring]
    exact ⟨fun hi => absurd hi (hbusy _ nofun nofun), fun _ => .inr ⟨rfl, hfree, hfull⟩⟩

/-- In every reachable state a fault changes nothing or gives the page a frame, and a frame that
was free or else used longest ago; nothing changes beside that frame, its page and its former
page. -/
theorem fault_footprint {useTlbs : List Bool} (h : Reachable useTlbs m) (pid : ProcessId)
    (a : VirtualAddress) (access : Access) :
    Footprint m ⟨pid, g.pageOf a⟩ ((handleFault pid a access).run m) :=
  footprint_handleFault h.sound pid a access

theorem fault_footprint_stolen : ∃ m : Pager oneFrame, Reachable [true] m ∧
    m.frames.free = [] ∧ m.stateOf ⟨0, 0⟩ = some (.resident 0) ∧
    m.stateOf ⟨0, 1⟩ = some .unmapped ∧
    ((handleFault 0 (.ofNat 4) .data).run m).answer = .ok (.resolved 0) ∧
    Footprint m ⟨0, oneFrame.pageOf (.ofNat 4)⟩ ((handleFault 0 (.ofNat 4) .data).run m) := by
  have hstart : Reachable [true] (new oneFrame [true]) := .start
  have hcreated := hstart.call (.create 0) rfl
  have hallocated := hcreated.call (.allocate 0 0 2) trivial
  have hfirst := hallocated.call (.fault 0 .zero .data) trivial
  exact ⟨_, hfirst, by decide +kernel, by decide +kernel, by decide +kernel, by decide +kernel,
    fault_footprint hfirst 0 (.ofNat 4) .data⟩

end DemandPaging.Pager
