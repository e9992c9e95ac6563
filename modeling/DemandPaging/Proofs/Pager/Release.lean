import DemandPaging.Proofs.Pager.Reachable
/-!
The teardown of a process to the last frame. What the process held goes back: its frames to the
tail of the free list in the order of their pages, its images out of the swap store, its mappings
out of all buffers. Nothing that another process holds changes.
-/

namespace DemandPaging

namespace AddressSpace

variable {g : Geometry}

def residents (s : AddressSpace g) : List (PageNumber × FrameNumber) :=
  s.entries.filterMap fun x => x.2.frame?.map fun f => (x.1, f)

theorem mem_residents {s : AddressSpace g} {p : PageNumber} {f : FrameNumber} :
    (p, f) ∈ s.residents ↔ s.state? p = some (.resident f) := by
  simp only [residents, List.mem_filterMap, Option.map_eq_some_iff, Prod.mk.injEq, Prod.exists]
  constructor
  · rintro ⟨p, state, hp, f, hf, rfl, rfl⟩
    have hstate := PageTable.mem_entries.mp hp
    rwa [← PageState.bind_frame?_eq_some_iff, state?, hstate]
  · intro h
    exact ⟨p, .resident f, PageTable.mem_entries.mpr h, f, rfl, rfl, rfl⟩

theorem pairwise_residents (s : AddressSpace g) : s.residents.Pairwise fun x y => x.1 < y.1 := by
  apply List.pairwise_filterMap.mpr
  apply (PageTable.pairwise_entries s.table).imp
  intro x y hxy a ha b hb
  obtain ⟨f, -, rfl⟩ := Option.map_eq_some_iff.mp ha
  obtain ⟨f', -, rfl⟩ := Option.map_eq_some_iff.mp hb
  exact hxy

theorem map_snd_residents (s : AddressSpace g) :
    s.residents.map Prod.snd = (s.entries.map Prod.snd).filterMap PageState.frame? := by
  rw [residents, List.map_filterMap, List.filterMap_map]
  congr 1
  funext x
  simp [Function.comp_def]

end AddressSpace

namespace Translator

variable {n : Nat} {u : Translator n}

structure Forgets (pid : ProcessId) (u u' : Translator n) : Prop where
  cpu : u'.cpu = u.cpu
  owner : u'.owner = u.owner
  counts : u'.counts = u.counts
  buffered : u'.tlb.isSome = u.tlb.isSome
  dropped : u.owner = some pid → u'.cached = []
  kept : u.owner ≠ some pid → u' = u

theorem forgets_forget (u : Translator n) (pid : ProcessId) : Forgets pid u (u.forget pid) := by
  by_cases ho : u.owner = some pid
  · refine ⟨?_, u.owner_forget pid, ?_, ?_, fun _ => ?_, fun hne => absurd ho hne⟩
    · rw [forget, if_pos ho]
    · rw [forget, if_pos ho]
    · rw [forget, if_pos ho, Option.isSome_map]
    · rw [cached_forget, if_pos ho]
  · have heq : u.forget pid = u := if_neg ho
    rw [heq]
    exact ⟨rfl, rfl, rfl, rfl, fun h => absurd h ho, fun _ => rfl⟩

end Translator

namespace Pager

open DemandPaging.Action DemandPaging.Paging

variable {g : Geometry} {m m' : Pager g} {pid : ProcessId}

theorem owner?_congr (h : m.Sound) (h' : m'.Sound) (f : FrameNumber)
    (hst : ∀ o, m'.stateOf o = some (.resident f) ↔ m.stateOf o = some (.resident f)) :
    m'.owner? f = m.owner? f := by
  have hsome (o) : m'.owner? f = some (some o) ↔ m.owner? f = some (some o) := by
    change m'.frames.owner? f = _ ↔ m.frames.owner? f = _
    rw [h'.books.owner_iff f o nofun, hst, h.books.owner_iff f o nofun]
  by_cases hf : (f : Nat) < g.frameCount
  · obtain ⟨o, ho⟩ : ∃ o, m.owner? f = some o := m.frames.exists_owner? hf
    rw [ho]
    cases o with
    | some o => exact (hsome o).mpr ho
    | none =>
      apply h'.owner?_eq_none hf
      intro o hres
      rw [(hsome o).mp ((h'.books.owner_iff f o nofun).mpr hres)] at ho
      simp at ho
  · have hnone (k : Pager g) : k.owner? f = none := by
      rw [owner?, FrameTable.info?_eq_none_iff.mpr (Nat.le_of_not_lt hf)]
      rfl
    rw [hnone, hnone]

/-- What the teardown of a process leaves. -/
structure Vacates (m m' : Pager g) (pid : ProcessId) : Prop where
  space : m'.space? pid = none
  others : ∀ q, q ≠ pid → m'.space? q = m.space? q
  free : ∃ held : List (PageNumber × FrameNumber), held.Pairwise (fun x y => x.1 < y.1) ∧
    (∀ page f, (page, f) ∈ held ↔ m.stateOf ⟨pid, page⟩ = some (.resident f)) ∧
    m'.frames.free = m.frames.free ++ held.map Prod.snd
  freed : ∀ page f, m.stateOf ⟨pid, page⟩ = some (.resident f) → m'.owner? f = some none
  owners : ∀ f, (∀ page, m.stateOf ⟨pid, page⟩ ≠ some (.resident f)) → m'.owner? f = m.owner? f
  owned : ∀ f o, o.pid ≠ pid → m.owner? f = some (some o) → m'.owner? f = some (some o)
  stamps : m'.frames.stampOf = m.frames.stampOf
  deleted : ∀ page t, m.stateOf ⟨pid, page⟩ = some (.swapped t) → m'.swap.get? t = none
  images : ∀ t, (∀ page, m.stateOf ⟨pid, page⟩ ≠ some (.swapped t)) →
    m'.swap.get? t = m.swap.get? t
  held : ∀ t p, p.owner.pid ≠ pid → m.swap.get? t = some p → m'.swap.get? t = some p
  next : m'.swap.nextToken = m.swap.nextToken
  bytes : m'.ram = m.ram
  clock : m'.clock = m.clock
  size : m'.translators.size = m.translators.size
  units : ∀ (c : Nat) (u : Translator g.tlbEntries), m.translators[c]? = some u →
    ∃ u', m'.translators[c]? = some u' ∧ u.Forgets pid u'
  slots : ∀ c, ∀ x ∈ m'.slotsOf c, ∀ page, m.stateOf ⟨pid, page⟩ ≠ some (.resident x.frame)

section Vacated

variable {frames : FrameTable g.frameCount} {swap : SwapStore}

theorem stateOf_of_vacated {o : FrameOwner} {state : PageState}
    (ho : (m.vacated pid frames swap).stateOf o = some state) :
    o.pid ≠ pid ∧ m.stateOf o = some state := by
  rw [stateOf_vacated] at ho
  split at ho
  · simp at ho
  · next hpid => exact ⟨hpid, ho⟩

variable (h : m.Sound) (h' : (m.vacated pid frames swap).Sound)

include h h'

theorem owner?_vacated_of_resident {page : PageNumber} {f : FrameNumber}
    (hs : m.stateOf ⟨pid, page⟩ = some (.resident f)) :
    (m.vacated pid frames swap).owner? f = some none := by
  apply h'.owner?_eq_none (h.resident_lt hs)
  intro o ho
  obtain ⟨hpid, ho⟩ := stateOf_of_vacated ho
  exact hpid (congrArg FrameOwner.pid (h.books.eq_of_resident ho hs))

theorem owner?_vacated_of_ne {f : FrameNumber}
    (hf : ∀ page, m.stateOf ⟨pid, page⟩ ≠ some (.resident f)) :
    (m.vacated pid frames swap).owner? f = m.owner? f := by
  apply owner?_congr h h' f
  intro o
  rw [stateOf_vacated]
  split
  · next hpid =>
    subst hpid
    exact ⟨nofun, fun ho => absurd ho (hf o.page)⟩
  · rfl

theorem get?_vacated_of_swapped {page : PageNumber} {t : SwapToken}
    (hs : m.stateOf ⟨pid, page⟩ = some (.swapped t)) : swap.get? t = none := by
  cases hp : swap.get? t with
  | none => rfl
  | some p =>
    obtain ⟨hpid, hst⟩ := stateOf_of_vacated (h'.books.image_state t p hp).1
    exact absurd (congrArg FrameOwner.pid (h.books.eq_of_swapped hst hs)) hpid

theorem get?_vacated_of_held (hsub : ∀ t p, swap.get? t = some p → m.swap.get? t = some p)
    {t : SwapToken} {p : SwappedPage} (hpid : p.owner.pid ≠ pid)
    (hp : m.swap.get? t = some p) : swap.get? t = some p := by
  have hst := (h.books.image_state t p hp).1
  have hst' : (m.vacated pid frames swap).stateOf p.owner = some (.swapped t) := by
    rw [stateOf_vacated, if_neg hpid, hst]
  obtain ⟨p', hp', -⟩ := h'.books.held _ t hst'
  obtain rfl : p' = p := Option.some.inj ((hsub t p' hp').symm.trans hp)
  exact hp'

theorem get?_vacated_of_ne (hsub : ∀ t p, swap.get? t = some p → m.swap.get? t = some p)
    {t : SwapToken} (ht : ∀ page, m.stateOf ⟨pid, page⟩ ≠ some (.swapped t)) :
    swap.get? t = m.swap.get? t := by
  cases hp : m.swap.get? t with
  | some p =>
    apply get?_vacated_of_held h h' hsub _ hp
    intro hpid
    subst hpid
    exact ht p.owner.page (h.books.image_state t p hp).1
  | none =>
    cases hp' : swap.get? t with
    | none => rfl
    | some p => exact absurd (hp.symm.trans (hsub t p hp')) nofun

theorem slots_vacated (c : Nat) {x : TlbSlot}
    (hx : x ∈ (m.vacated pid frames swap).slotsOf c) (page : PageNumber) :
    m.stateOf ⟨pid, page⟩ ≠ some (.resident x.frame) := by
  intro hs
  obtain ⟨u, q, -, -, hst⟩ := h'.resident_of_slot hx
  obtain ⟨hq, hst⟩ := stateOf_of_vacated hst
  exact hq (congrArg FrameOwner.pid (h.books.eq_of_resident hst hs))

theorem vacates_vacated {s : AddressSpace g} (hs : m.space? pid = some s)
    (hgive : GivesUp (s.entries.map Prod.snd) m.frames frames m.swap swap) :
    Vacates m (m.vacated pid frames swap) pid where
  space := (space?_vacated m pid frames swap pid).trans (if_pos rfl)
  others q hq := (space?_vacated m pid frames swap q).trans (if_neg hq)
  free := by
    refine ⟨s.residents, s.pairwise_residents, fun page f => ?_, ?_⟩
    · rw [AddressSpace.mem_residents, stateOf_of_space hs]
    · rw [s.map_snd_residents]
      exact hgive.free
  freed page f hr := owner?_vacated_of_resident h h' hr
  owners f hf := owner?_vacated_of_ne h h' hf
  owned f o hpid ho := by
    have hst := (h.books.owner_iff f o nofun).mp ho
    refine (h'.books.owner_iff f o nofun).mpr ?_
    rw [stateOf_vacated, if_neg hpid, hst]
  stamps := hgive.stamps
  deleted page t ht := get?_vacated_of_swapped h h' ht
  images t ht := get?_vacated_of_ne h h' hgive.images ht
  held t p hpid hp := get?_vacated_of_held h h' hgive.images hpid hp
  next := hgive.next
  bytes := rfl
  clock := rfl
  size := Array.size_map
  units c u hu := by
    refine ⟨u.forget pid, ?_, u.forgets_forget pid⟩
    change (m.translators.map fun u => u.forget pid)[c]? = _
    rw [Array.getElem?_map, hu]
    rfl
  slots c x hx page := slots_vacated h h' c hx page

end Vacated

structure TornDown (m : Pager g) (pid : ProcessId)
    (out : Outcome Event (Failure MemoryError) (Pager g) Unit) : Prop where
  succeeds : out.answer = .ok () ↔ (m.space? pid).isSome
  refused : m.space? pid = none → out = ⟨.error (.error (.unknownProcess pid)), m, []⟩
  vacates : (m.space? pid).isSome → Vacates m out.state pid

/-- In every reachable state a process that has an address space is torn down without a trace and
at no other process's expense; for any other process nothing changes. -/
theorem teardown_exact {useTlbs : List Bool} (h : Reachable useTlbs m) (pid : ProcessId) :
    TornDown m pid ((release pid).run m) := by
  cases hs : m.space? pid with
  | none =>
    have hrun := run_release_none hs
    refine ⟨?_, fun _ => hrun, fun hsome => ?_⟩
    · rw [hrun, hs]
      simp
    · rw [hs] at hsome
      simp at hsome
  | some s =>
    obtain ⟨frames, swap, es, hrun, -, hb, hgive⟩ := run_release_some h.sound hs
    have hstate : ((release pid).run m).state = m.vacated pid frames swap := by rw [hrun]
    refine ⟨?_, fun hnone => ?_, fun _ => ?_⟩
    · rw [hrun, hs]
      simp
    · rw [hs] at hnone
      simp at hnone
    · rw [hstate]
      exact vacates_vacated h.sound (sound_vacated h.sound hs hb) hs hgive

theorem teardown_exact_shared : ∃ m : Pager fourFrames, Reachable [true] m ∧
    m.stateOf ⟨0, 0⟩ = some (.swapped 0) ∧ m.stateOf ⟨0, 1⟩ = some (.resident 1) ∧
    m.stateOf ⟨0, 2⟩ = some (.resident 0) ∧ m.stateOf ⟨1, 0⟩ = some (.resident 2) ∧
    m.slotsOf 0 ≠ [] ∧ ((release 0).run m).state.frames.free = [1, 0] ∧
    TornDown m 0 ((release 0).run m) := by
  have hstart : Reachable [true] (new fourFrames [true]) := .start
  have hcreated := (hstart.call (.create 0) rfl).call (.create 1) rfl
  have hallocated := (hcreated.call (.allocate 0 0 3) trivial).call (.allocate 1 0 2) trivial
  have hfirst := (hallocated.call (.fault 0 (.ofNat 0) .data) trivial).call
    (.fault 0 (.ofNat 16) .data) trivial
  have hsecond := (hfirst.call (.fault 1 (.ofNat 0) .data) trivial).call
    (.fault 1 (.ofNat 16) .data) trivial
  have hstolen := hsecond.call (.fault 0 (.ofNat 32) .data) trivial
  have hcached := (hstolen.call (.dispatch 0 0) trivial).call (.translate 0 0 (.ofNat 32))
    (Option.map_eq_some_iff (f := Translator.owner).mp (by decide +kernel))
  exact ⟨_, hcached, by decide +kernel, by decide +kernel, by decide +kernel, by decide +kernel,
    by decide +kernel, by decide +kernel, teardown_exact hcached 0⟩

end Pager

end DemandPaging
