import DemandPaging.Proofs.Pager.Fault
/-!
Address spaces come, grow and go. A new one has no pages, allocation adds pages of zeros, and a
teardown takes the pages of its process away and nobody else's.
-/

namespace DemandPaging.Pager

open DemandPaging.Action DemandPaging.Paging

variable {g : Geometry} {m : Pager g} {pid : ProcessId} {s : AddressSpace g}

theorem stateOf_setSpace (m : Pager g) (pid : ProcessId) (s : AddressSpace g) (o : FrameOwner) :
    (m.setSpace pid s).stateOf o = if o.pid = pid then s.state? o.page else m.stateOf o := by
  rw [stateOf, state?, space?_setSpace]
  by_cases h : pid = o.pid
  · rw [if_pos h, if_pos h.symm, Option.bind_some]
  · rw [if_neg h, if_neg (Ne.symm h)]
    rfl

theorem setSpace_self (hs : m.space? pid = some s) : (m.setSpace pid s).stateOf = m.stateOf := by
  funext o
  rw [stateOf_setSpace]
  split
  · next h => rw [← stateOf_of_space hs, ← h]
  · rfl

theorem isSome_space?_setSpace (hs : m.space? pid = some s) (t : AddressSpace g) (q : ProcessId) :
    ((m.setSpace pid t).space? q).isSome = (m.space? q).isSome := by
  rw [space?_setSpace]
  split
  · next h => rw [← h, hs]; rfl
  · rfl

theorem run_create (m : Pager g) (pid : ProcessId) : (create pid).run m =
    if pid < maxSpaces then ⟨.ok (), m.createSpace pid, []⟩
    else ⟨.error (.crash .noRoom), m, []⟩ := by
  split
  · next h => exact run_update_some (if_pos h)
  · next h => exact run_update_none (if_neg h)

theorem stateOf_createSpace (hs : m.space? pid = none) :
    (m.createSpace pid).stateOf = m.stateOf := by
  funext o
  by_cases h : pid = o.pid
  · rw [h] at hs
    rw [stateOf, state?, space?_createSpace, if_pos h, stateOf, state?, hs]
    exact PageTable.state?_empty o.page
  · rw [stateOf, state?, space?_createSpace, if_neg h]
    rfl

theorem contents_congr {m' : Pager g} (o : FrameOwner) (hst : m'.stateOf o = m.stateOf o)
    (hram : m'.ram = m.ram)
    (hswap : ∀ t, m.stateOf o = some (.swapped t) → m'.swap.get? t = m.swap.get? t) :
    m'.contents o = m.contents o := by
  rw [contents, hst, contents]
  cases hs : m.stateOf o with
  | none => rfl
  | some s =>
    cases s with
    | unmapped => rfl
    | resident f => rw [Option.bind_some, Option.bind_some, imageOf, hram]; rfl
    | swapped t => rw [Option.bind_some, Option.bind_some, imageOf, hswap t hs]; rfl

theorem sound_createSpace (h : m.Sound) (hs : m.space? pid = none) : (m.createSpace pid).Sound := by
  have hst := stateOf_createSpace hs
  exact ⟨hst ▸ h.books, fun c u hu => hst ▸ h.buffers c u hu⟩

theorem contents_createSpace (hs : m.space? pid = none) :
    (m.createSpace pid).contents = m.contents := by
  funext o
  exact contents_congr o (by rw [stateOf_createSpace hs]) rfl fun _ _ => rfl

/-! Allocation. -/

theorem sound_setSpace (h : m.Sound)
    (hst : ∀ o, (m.setSpace pid s).stateOf o = m.stateOf o ∨
      m.stateOf o = none ∧ (m.setSpace pid s).stateOf o = some .unmapped) :
    (m.setSpace pid s).Sound := by
  refine ⟨h.books.congr fun state hstate o => ?_, fun c u hu => ?_⟩
  · rcases hst o with he | ⟨hold, hnew⟩
    · rw [he]
    · rw [hold, hnew]
      simp [hstate.symm]
  · refine (h.buffers c u hu).mono fun q page f _ hr => ?_
    rcases hst ⟨q, page⟩ with he | ⟨hold, -⟩
    · rw [he, hr]
    · rw [hold] at hr
      simp at hr

def grown (m : Pager g) (pid : ProcessId) (s : AddressSpace g) (start count : Nat) : Pager g :=
  m.setSpace pid (s.insertRange start count)

theorem stateOf_grown (hs : m.space? pid = some s) {start count : Nat}
    (hle : start + count ≤ g.pageCount) (o : FrameOwner) :
    (m.grown pid s start count).stateOf o =
      if o.pid = pid ∧ start ≤ o.page ∧ o.page < start + count then some .unmapped
      else m.stateOf o := by
  rw [grown, stateOf_setSpace, s.state?_insertRange hle]
  by_cases hp : o.pid = pid
  · simp only [hp, if_pos, true_and]
    split
    · rfl
    · rw [← stateOf_of_space hs, ← hp]
  · rw [if_neg hp, if_neg fun h => hp h.1]

theorem sound_grown (h : m.Sound) (hs : m.space? pid = some s) {start count : Nat}
    (hle : start + count ≤ g.pageCount)
    (hfree : ∀ p : Nat, start ≤ p → p < start + count → s.state? p = none) :
    (m.grown pid s start count).Sound := by
  refine sound_setSpace h fun o => ?_
  change (m.grown pid s start count).stateOf o = _ ∨ _ ∧ (m.grown pid s start count).stateOf o = _
  rw [stateOf_grown hs hle]
  split
  · next hr =>
    refine .inr ⟨?_, rfl⟩
    rw [← hfree o.page hr.2.1 hr.2.2, ← stateOf_of_space hs, ← hr.1]
  · exact .inl rfl

theorem contents_grown (hs : m.space? pid = some s) {start count : Nat}
    (hle : start + count ≤ g.pageCount) (o : FrameOwner) :
    (m.grown pid s start count).contents o =
      if o.pid = pid ∧ start ≤ o.page ∧ o.page < start + count then some .zero
      else m.contents o := by
  have hst := stateOf_grown hs hle o
  split
  · next hr =>
    rw [if_pos hr] at hst
    rw [contents, hst]
    rfl
  · next hr =>
    rw [if_neg hr] at hst
    exact contents_congr o hst rfl fun _ _ => rfl

def AllocateAnswer (m m' : Pager g) (pid : ProcessId) (start count : Nat) :
    Except (Failure MemoryError) Bool → Prop
  | .ok true => (m.space? pid).isSome ∧ start + count ≤ g.pageCount ∧
      (∀ p : Nat, start ≤ p → p < start + count → m.contents ⟨pid, p⟩ = none) ∧
      ∀ o, m'.contents o =
        if o.pid = pid ∧ start ≤ o.page ∧ o.page < start + count then some .zero
        else m.contents o
  | .ok false => g.pageCount < start + count ∧ m'.contents = m.contents
  | .error e => m'.contents = m.contents ∧
      (m.space? pid = none ∧ e = .error (.unknownProcess pid) ∨
        ∃ p q : Nat, start ≤ p ∧ p < start + count ∧ (m.contents ⟨pid, p⟩).isSome ∧
          e = .error (.alreadyAllocated q p))

/-- What a request for pages comes to. Nothing outside the address space changes. -/
inductive Allocated (m : Pager g) (pid : ProcessId) (start count : Nat) :
    Outcome Event (Failure MemoryError) (Pager g) Bool → Prop where
  | unknown (hs : m.space? pid = none) :
    Allocated m pid start count ⟨.error (.error (.unknownProcess pid)), m, []⟩
  | beyond {s : AddressSpace g} (hs : m.space? pid = some s)
    (hlt : g.pageCount < start + count) : Allocated m pid start count
      ⟨.ok false, m.setSpace pid s, [.requestExceeds s.pid start count]⟩
  | taken {s : AddressSpace g} {p : PageNumber} (hs : m.space? pid = some s)
    (hp : start ≤ p ∧ p < start + count) (ha : (s.state? p).isSome) :
    Allocated m pid start count ⟨.error (.error (.alreadyAllocated s.pid p)), m.setSpace pid s, []⟩
  | granted {s : AddressSpace g} (hs : m.space? pid = some s) (hle : start + count ≤ g.pageCount)
    (hfree : ∀ p : Nat, start ≤ p → p < start + count → s.state? p = none) :
    Allocated m pid start count ⟨.ok true, m.grown pid s start count, []⟩

theorem allocated (m : Pager g) (pid : ProcessId) (start count : Nat) :
    Allocated m pid start count ((allocate pid start count).run m) := by
  cases hs : m.space? pid with
  | none =>
    have hrun : (allocate pid start count).run m =
        ⟨.error (.error (.unknownProcess pid)), m, []⟩ := by
      simp [allocate, onSpace, run_space_none m hs]
    exact hrun ▸ .unknown hs
  | some s =>
  by_cases hlt : g.pageCount < start + count
  · have hrun : (allocate pid start count).run m =
        ⟨.ok false, m.setSpace pid s, [.requestExceeds s.pid start count]⟩ := by
      simp [allocate, onSpace, run_space_some m hs, AddressSpace.allocate,
        AddressSpace.tryAllocate, hlt]
    exact hrun ▸ .beyond hs hlt
  cases ha : s.firstAllocated? start count with
  | some p =>
    have hp := List.mem_of_find?_eq_some ha
    have hsome := List.find?_some ha
    rw [List.mem_range'_1] at hp
    have hrun : (allocate pid start count).run m =
        ⟨.error (.error (.alreadyAllocated s.pid p)), m.setSpace pid s, []⟩ := by
      simp [allocate, onSpace, run_space_some m hs, AddressSpace.allocate,
        AddressSpace.tryAllocate, hlt, ha]
    exact hrun ▸ .taken hs hp hsome
  | none =>
    have hrun : (allocate pid start count).run m = ⟨.ok true, m.grown pid s start count, []⟩ := by
      simp [allocate, onSpace, run_space_some m hs, AddressSpace.allocate,
        AddressSpace.tryAllocate, hlt, ha, grown]
    exact hrun ▸ .granted hs (Nat.le_of_not_lt hlt) (AddressSpace.firstAllocated?_eq_none_iff.mp ha)

theorem stateOf_allocate (m : Pager g) (pid : ProcessId) (start count : Nat) (o : FrameOwner) :
    ((allocate pid start count).run m).state.stateOf o =
      if (m.space? pid).isSome ∧ start + count ≤ g.pageCount ∧
          (∀ p ∈ List.range' start count, m.stateOf ⟨pid, p⟩ = none) ∧
          o.pid = pid ∧ start ≤ o.page ∧ o.page < start + count then some .unmapped
      else m.stateOf o := by
  have hout := allocated m pid start count
  generalize (allocate pid start count).run m = out at hout
  cases hout with
  | unknown hs => exact (if_neg fun hc => by simp [hs] at hc).symm
  | beyond hs hlt =>
    rw [if_neg fun hc => Nat.not_le.mpr hlt hc.2.1]
    exact congrFun (setSpace_self hs) o
  | @taken s p hs hp ha =>
    rw [if_neg fun hc => ?_]
    · exact congrFun (setSpace_self hs) o
    · have hnone := hc.2.2.1 p (List.mem_range'_1.mpr hp)
      rw [stateOf_of_space hs] at hnone
      simp [hnone] at ha
  | @granted s hs hle hfree =>
    have hnone (p) (hp : p ∈ List.range' start count) : m.stateOf ⟨pid, p⟩ = none := by
      rw [List.mem_range'_1] at hp
      rw [stateOf_of_space hs, hfree p hp.1 hp.2]
    rw [stateOf_grown hs hle]
    refine if_congr ⟨fun ho => ⟨by rw [hs]; rfl, hle, hnone, ho⟩, fun hc => hc.2.2.2⟩ rfl rfl

theorem run_allocate (h : m.Sound) (pid : ProcessId) (start count : Nat) :
    ∃ r m' es, (allocate pid start count).run m = ⟨r, m', es⟩ ∧ m'.Sound ∧
      (∀ q, (m'.space? q).isSome = (m.space? q).isSome) ∧ m'.translators = m.translators ∧
      AllocateAnswer m m' pid start count r := by
  have same {s : AddressSpace g} (hs : m.space? pid = some s) : (m.setSpace pid s).Sound ∧
      (m.setSpace pid s).contents = m.contents := by
    have hst := setSpace_self hs
    exact ⟨sound_setSpace h fun o => .inl (congrFun hst o),
      funext fun o => contents_congr o (congrFun hst o) rfl fun _ _ => rfl⟩
  have hout := allocated m pid start count
  generalize (allocate pid start count).run m = out at hout
  cases hout with
  | unknown hs => exact ⟨_, _, _, rfl, h, fun _ => rfl, rfl, rfl, .inl ⟨hs, rfl⟩⟩
  | @beyond s hs hlt =>
    exact ⟨_, _, _, rfl, (same hs).1, isSome_space?_setSpace hs s, rfl, hlt, (same hs).2⟩
  | @taken s p hs hp ha =>
    refine ⟨_, _, _, rfl, (same hs).1, isSome_space?_setSpace hs s, rfl, (same hs).2,
      .inr ⟨p, s.pid, hp.1, hp.2, ?_, rfl⟩⟩
    rw [isSome_contents h, stateOf_of_space hs]
    exact ha
  | @granted s hs hle hfree =>
    refine ⟨_, _, _, rfl, sound_grown h hs hle hfree, isSome_space?_setSpace hs _, rfl,
      by rw [hs]; rfl, hle, fun p hp hp' => ?_, contents_grown hs hle⟩
    rw [contents, stateOf_of_space hs, hfree p hp hp']
    rfl

/-! Teardown. -/

def givenUp (st : PageStates) (pid : ProcessId) (pages : List PageNumber) : PageStates :=
  fun o => if o.pid = pid ∧ o.page ∈ pages then some .unmapped else st o

theorem givenUp_nil (st : PageStates) (pid : ProcessId) : givenUp st pid [] = st := by
  funext o
  simp [givenUp]

theorem givenUp_update (st : PageStates) (pid : ProcessId) (page : PageNumber)
    (pages : List PageNumber) :
    givenUp (Function.update st ⟨pid, page⟩ (some .unmapped)) pid pages =
      givenUp st pid (page :: pages) := by
  funext ⟨q, p⟩
  simp only [givenUp, Function.update_apply, List.mem_cons, FrameOwner.mk.injEq]
  by_cases hq : q = pid <;> by_cases hp : p = page <;> simp [hq, hp]

/-- What it does to pool and store to give up pages in these states: their frames join the tail of
the free list in this order, and no image is new. -/
structure GivesUp {n : Nat} (states : List PageState) (t t' : FrameTable n) (w w' : SwapStore) :
    Prop where
  free : t'.free = t.free ++ states.filterMap PageState.frame?
  stamps : t'.stampOf = t.stampOf
  images : ∀ k p, w'.get? k = some p → w.get? k = some p
  next : w'.nextToken = w.nextToken

namespace GivesUp

variable {n : Nat} {t t' t'' : FrameTable n} {w w' w'' : SwapStore}
  {states states' : List PageState}

protected theorem nil (t : FrameTable n) (w : SwapStore) : GivesUp [] t t w w :=
  ⟨(List.append_nil t.free).symm, rfl, fun _ _ => id, rfl⟩

protected theorem trans (h : GivesUp states t t' w w') (h' : GivesUp states' t' t'' w' w'') :
    GivesUp (states ++ states') t t'' w w'' where
  free := by rw [h'.free, h.free, List.append_assoc, List.filterMap_append]
  stamps := h'.stamps.trans h.stamps
  images k p hp := h.images k p (h'.images k p hp)
  next := h'.next.trans h.next

end GivesUp

theorem run_releaseEntry {st : PageStates} {page : PageNumber} {state : PageState}
    (b : Books g.pageSize st m.frames m.swap none) (hs : st ⟨pid, page⟩ = some state) :
    ∃ frames swap es, (releaseEntry pid page state).run m =
        ⟨.ok (), { m with frames, swap }, es⟩ ∧ Plain es ∧
      Books g.pageSize (Function.update st ⟨pid, page⟩ (some .unmapped)) frames swap none ∧
      GivesUp [state] m.frames frames m.swap swap := by
  cases state with
  | unmapped =>
    refine ⟨m.frames, m.swap, [], rfl, plain_nil, ?_,
      ⟨(List.append_nil m.frames.free).symm, rfl, fun _ _ => id, rfl⟩⟩
    rw [← hs, Function.update_eq_self]
    exact b
  | resident f =>
    have hf := (b.owner_iff f _ nofun).mpr hs
    refine ⟨m.frames.released f, m.swap, [.reclaimed f pid (g.pageStart page)], ?_,
      by simp [Plain, Event.isPlain], b.reclaim hs,
      ⟨m.frames.free_released f, m.frames.stampOf_released f, fun _ _ => id, rfl⟩⟩
    have hrel := run_onFrames m (c := fun t => (t.release? f).map Prod.snd)
      (congrArg (Option.map Prod.snd) (FrameTable.release?_eq_some hf))
    simp [releaseEntry, hrel]
  | swapped t =>
    obtain ⟨p, hp, -⟩ := b.held _ t hs
    refine ⟨m.frames, m.swap.erase t, [.swapDeleted t ⟨pid, page⟩], ?_,
      by simp [Plain, Event.isPlain], b.consume hs,
      ⟨(List.append_nil _).symm, rfl, fun u q hu => ?_, rfl⟩⟩
    · simp [releaseEntry, SwapStore.run_delete hp]
    · rw [SwapStore.get?_erase] at hu
      split at hu
      · simp at hu
      · exact hu

theorem run_each_releaseEntry (entries : List (PageNumber × PageState)) (st : PageStates)
    (m : Pager g) (b : Books g.pageSize st m.frames m.swap none)
    (hst : ∀ x ∈ entries, st ⟨pid, x.1⟩ = some x.2)
    (hd : entries.Pairwise fun x y => x.1 < y.1) :
    ∃ frames swap es,
      (each (fun (page, state) => releaseEntry pid page state) entries).run m =
        ⟨.ok (), { m with frames, swap }, es⟩ ∧ Plain es ∧
      Books g.pageSize (givenUp st pid (entries.map Prod.fst)) frames swap none ∧
      GivesUp (entries.map Prod.snd) m.frames frames m.swap swap := by
  -- the books are kept for the states with the pages given up so far, not for the table
  induction entries generalizing st m with
  | nil =>
    refine ⟨m.frames, m.swap, [], rfl, plain_nil, ?_, .nil m.frames m.swap⟩
    rw [List.map_nil, givenUp_nil]
    exact b
  | cons x entries ih =>
    obtain ⟨page, state⟩ := x
    rw [List.pairwise_cons] at hd
    obtain ⟨frames, swap, es, hrun, hes, b', hgive⟩ :=
      run_releaseEntry (m := m) b (hst _ List.mem_cons_self)
    have hst' : ∀ y ∈ entries,
        Function.update st ⟨pid, page⟩ (some .unmapped) ⟨pid, y.1⟩ = some y.2 := by
      intro y hy
      rw [Function.update_of_ne, hst y (List.mem_cons_of_mem _ hy)]
      intro he
      exact absurd (hd.1 y hy) (by rw [(FrameOwner.mk.inj he).2]; exact Nat.lt_irrefl _)
    obtain ⟨frames', swap', es', hrun', hes', b'', hgive'⟩ :=
      ih _ { m with frames, swap } b' hst' hd.2
    rw [givenUp_update] at b''
    refine ⟨frames', swap', es ++ es', ?_, hes.append hes', b'', hgive.trans hgive'⟩
    rw [run_each_cons, hrun, Outcome.andThen_ok, hrun', Outcome.after_mk]

theorem run_release_none (hs : m.space? pid = none) :
    (release pid).run m = ⟨.error (.error (.unknownProcess pid)), m, []⟩ := by
  simp [release, run_space_none m hs]

def vacated (m : Pager g) (pid : ProcessId) (frames : FrameTable g.frameCount) (swap : SwapStore) :
    Pager g :=
  ({ m with spaces := m.spaces.erase pid, frames, swap } : Pager g).forgetAll pid

section Vacated

variable (m pid) (frames : FrameTable g.frameCount) (swap : SwapStore)

theorem space?_vacated (q : ProcessId) :
    (m.vacated pid frames swap).space? q = if q = pid then none else m.space? q := by
  by_cases h : q = pid
  · simp [vacated, forgetAll, space?, h]
  · simp [vacated, forgetAll, space?, Std.TreeMap.getElem?_erase, h, Ne.symm h]

theorem stateOf_vacated (o : FrameOwner) :
    (m.vacated pid frames swap).stateOf o = if o.pid = pid then none else m.stateOf o := by
  rw [stateOf, state?, space?_vacated]
  split <;> rfl

theorem owner_vacated (c : Nat) :
    (m.vacated pid frames swap).translators[c]?.map Translator.owner =
      m.translators[c]?.map Translator.owner := by
  change (m.translators.map fun u => u.forget pid)[c]?.map Translator.owner = _
  rw [Array.getElem?_map, Option.map_map]
  congr 1
  funext u
  exact u.owner_forget pid

variable {m pid frames swap}

theorem sound_vacated (h : m.Sound) (hs : m.space? pid = some s)
    (b : Books g.pageSize (givenUp m.stateOf pid (s.entries.map Prod.fst)) frames swap none) :
    (m.vacated pid frames swap).Sound := by
  have hst := stateOf_vacated m pid frames swap
  refine ⟨b.congr fun state hstate o => ?_, fun c u hu => ?_⟩
  · rw [hst, givenUp]
    by_cases ho : o.pid = pid
    · simp only [ho, true_and, if_true, reduceCtorEq, false_iff]
      split
      · exact fun he => hstate (Option.some.inj he).symm
      · next hp =>
        intro he
        refine hp (List.mem_map.mpr ⟨(o.page, state), PageTable.mem_entries.mpr ?_, rfl⟩)
        change s.state? o.page = some state
        rw [← he, ← stateOf_of_space hs, ← ho]
    · rw [if_neg ho, if_neg fun hc => ho hc.1]
  · obtain ⟨v, hv, rfl⟩ := Option.map_eq_some_iff.mp
      (Array.getElem?_map (f := fun u => Translator.forget u pid) ▸ hu)
    exact (h.buffers c v hv).forget_of_eq pid fun o ho => by rw [hst, if_neg ho]

theorem contents_vacated
    (b : Books g.pageSize (givenUp m.stateOf pid (s.entries.map Prod.fst)) frames swap none)
    (hsub : ∀ t p, swap.get? t = some p → m.swap.get? t = some p) (o : FrameOwner) :
    (m.vacated pid frames swap).contents o = if o.pid = pid then none else m.contents o := by
  have hst := stateOf_vacated m pid frames swap o
  split
  · next ho => rw [contents, hst, if_pos ho]; rfl
  · next ho =>
    rw [if_neg ho] at hst
    refine contents_congr o hst rfl fun t ht => ?_
    have hgu : givenUp m.stateOf pid (s.entries.map Prod.fst) o = some (.swapped t) := by
      rw [givenUp, if_neg fun hc => ho hc.1, ht]
    obtain ⟨p, hp, -⟩ := b.held o t hgu
    exact hp.trans (hsub t p hp).symm

end Vacated

theorem run_release_some (h : m.Sound) (hs : m.space? pid = some s) :
    ∃ frames swap es, (release pid).run m = ⟨.ok (), m.vacated pid frames swap, es⟩ ∧ Plain es ∧
      Books g.pageSize (givenUp m.stateOf pid (s.entries.map Prod.fst)) frames swap none ∧
      GivesUp (s.entries.map Prod.snd) m.frames frames m.swap swap := by
  obtain ⟨frames, swap, es, hrun, hes, b, hgive⟩ := run_each_releaseEntry s.entries
    m.stateOf { m with spaces := m.spaces.erase pid } h.books
    (fun x hx => (stateOf_of_space hs _).trans (PageTable.mem_entries.mp hx))
    (PageTable.pairwise_entries s.table)
  refine ⟨frames, swap, es, ?_, hes, b, hgive⟩
  simp [release, run_space_some m hs, hrun, vacated]

theorem run_release (h : m.Sound) (hs : m.space? pid = some s) :
    ∃ m' es, (release pid).run m = ⟨.ok (), m', es⟩ ∧ m'.Sound ∧ Quiet es ∧
      (∀ q, m'.space? q = if q = pid then none else m.space? q) ∧
      (∀ o, m'.contents o = if o.pid = pid then none else m.contents o) ∧
      ∀ c : Nat, m'.translators[c]?.map Translator.owner =
        m.translators[c]?.map Translator.owner := by
  obtain ⟨frames, swap, es, hrun, hes, b, hgive⟩ := run_release_some h hs
  exact ⟨m.vacated pid frames swap, es, hrun, sound_vacated h hs b, hes.quiet,
    space?_vacated m pid frames swap, contents_vacated b hgive.images,
    owner_vacated m pid frames swap⟩

end DemandPaging.Pager
