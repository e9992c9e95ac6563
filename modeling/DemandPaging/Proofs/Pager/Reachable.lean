import DemandPaging.Proofs.Pager.Flat
/-!
The memory system in use. Every call keeps books and buffers in agreement and does to the flat
memories of the processes what its name says, so the bookkeeping invariant holds in every state
that calls can reach.
-/

namespace DemandPaging.Pager

open DemandPaging.Action DemandPaging.Paging

variable {g : Geometry} {m : Pager g}

inductive Operation where
  | create (pid : ProcessId)
  | allocate (pid : ProcessId) (start count : Nat)
  | dispatch (cpu : Nat) (pid : ProcessId)
  | translate (cpu : Nat) (pid : ProcessId) (a : VirtualAddress)
  | fault (pid : ProcessId) (a : VirtualAddress) (access : Access)
  | flush (cpu : Nat)
  | purge (cpu : Nat) (pid : ProcessId) (page : PageNumber)
  | forget (cpu : Nat) (pid : ProcessId)
  | release (pid : ProcessId)

inductive Reply where
  | done
  | granted (yes : Bool)
  | frame (f : Option FrameNumber)
  | resolution (r : Resolution)
  | found (yes : Bool)
deriving DecidableEq

namespace Operation

def call : Operation → Paged g Reply
  | .create pid => do
    Pager.create pid
    return .done
  | .allocate pid start count => do return .granted (← Pager.allocate pid start count)
  | .dispatch cpu pid => do
    Pager.dispatch cpu pid
    return .done
  | .translate cpu pid a => do return .frame (← Pager.translate cpu pid a)
  | .fault pid a access => do return .resolution (← Pager.handleFault pid a access)
  | .flush cpu => do
    Pager.flush cpu
    return .done
  | .purge cpu pid page => do return .found (← Pager.purge cpu pid page)
  | .forget cpu pid => do
    Pager.forget cpu pid
    return .done
  | .release pid => do
    Pager.release pid
    return .done

/-- What callers promise: a process gets an address space only while it has none, and a translator
is asked only for the process that it serves. -/
def Permitted (m : Pager g) : Operation → Prop
  | .create pid => m.space? pid = none
  | .translate cpu pid _ => ∃ u, m.translators[cpu]? = some u ∧ u.owner = some pid
  | _ => True

def effect (op : Operation) (mems : FlatMemories g) : FlatMemories g :=
  match op with
  | .create pid => if pid < maxSpaces then Function.update mems pid (some .empty) else mems
  | .allocate pid start count =>
    match mems pid with
    | some mem =>
      if mem.grants start count then
        Function.update mems pid (some (mem.allocate start count))
      else mems
    | none => mems
  | .release pid => Function.update mems pid none
  | _ => mems

def Answered (op : Operation) (m m' : Pager g) (r : Except (Failure MemoryError) Reply) : Prop :=
  match op with
  | .allocate pid start count =>
    r = .ok (.granted true) ↔ ∃ mem, m.flat pid = some mem ∧ mem.grants start count
  | .translate _ pid a =>
    r = .ok (.frame ((m.stateOf ⟨pid, g.pageOf a⟩).bind PageState.frame?)) ∧
      m'.stateOf = m.stateOf
  | .fault pid a _ => ∀ f, r = .ok (.resolution (.resolved f)) →
    m'.stateOf ⟨pid, g.pageOf a⟩ = some (.resident f)
  | _ => True

end Operation

theorem Steady.flat {m' : Pager g} (h : Steady m m') : m'.flat = m.flat :=
  flat_congr (fun pid => by rw [space?, h.spaces, space?]) h.contents

def Served (op : Operation) (m : Pager g) : Prop :=
  ∃ r m' es, (op.call).run m = ⟨r, m', es⟩ ∧ m'.Sound ∧ m'.flat = op.effect m.flat ∧
    op.Answered m m' r

variable {pid : ProcessId}

theorem served_create (h : m.Sound) (hs : m.space? pid = none) : Served (.create pid) m := by
  have hrun := run_create m pid
  by_cases hp : pid < maxSpaces
  · rw [if_pos hp] at hrun
    refine ⟨_, m.createSpace pid, [], run_bind_pure hrun _, sound_createSpace h hs, ?_, trivial⟩
    rw [flat_createSpace hs, Operation.effect, if_pos hp]
  · rw [if_neg hp] at hrun
    exact ⟨_, m, [], run_bind_pure hrun _, h, by rw [Operation.effect, if_neg hp], trivial⟩

theorem served_allocate (h : m.Sound) (start count : Nat) :
    Served (.allocate pid start count) m := by
  obtain ⟨r, m', es, hrun, hm', hs, -, ha⟩ := run_allocate h pid start count
  obtain ⟨hgrant, hflat⟩ := flat_of_allocateAnswer hs ha
  refine ⟨r.map .granted, m', es, run_bind_pure hrun _, hm', ?_, ?_⟩
  · rw [hflat, Operation.effect]
    split
    · next hr =>
      obtain ⟨mem, hmem, hg⟩ := hgrant.mp hr
      simp only [hmem, if_pos hg, (flat_eq_some_iff.mp hmem).2]
    · next hr =>
      cases hmem : m.flat pid with
      | none => rfl
      | some mem => exact (if_neg fun hg => hr (hgrant.mpr ⟨mem, hmem, hg⟩)).symm
  · rw [Operation.Answered, ← hgrant]
    cases r with
    | error e => simp [Except.map]
    | ok b => simp [Except.map]

theorem served_of_steady {op : Operation} {r : Except (Failure MemoryError) Reply} {m' : Pager g}
    {es : List Event} (hrun : (op.call).run m = ⟨r, m', es⟩) (h : m'.Sound) (hs : Steady m m')
    (heffect : op.effect m.flat = m.flat) (ha : op.Answered m m' r) : Served op m :=
  ⟨r, m', es, hrun, h, by rw [hs.flat, heffect], ha⟩

theorem served_beyond {op : Operation} (hrun : (op.call).run m = ⟨.error beyond, m, []⟩)
    (h : m.Sound) (heffect : op.effect m.flat = m.flat)
    (ha : op.Answered m m (.error beyond)) : Served op m :=
  served_of_steady hrun h (.refl m) heffect ha

theorem served_dispatch (h : m.Sound) (cpu : Nat) : Served (.dispatch cpu pid) m := by
  cases hu : m.translators[cpu]? with
  | none =>
    exact served_beyond (run_bind_pure (run_dispatch_none hu pid) _) h rfl trivial
  | some u =>
    exact served_of_steady (run_bind_pure (run_dispatch hu pid) _)
      (agrees_withTranslator h hu ((h.buffers cpu u hu).dispatch pid))
      (steady_withTranslator m cpu _) rfl trivial

theorem served_purge (h : m.Sound) (cpu : Nat) (page : PageNumber) :
    Served (.purge cpu pid page) m := by
  cases hu : m.translators[cpu]? with
  | none =>
    have hrun : (Operation.call (.purge cpu pid page)).run m = ⟨.error beyond, m, []⟩ := by
      simp [Operation.call, purge, run_translator_none m hu]
    exact served_beyond hrun h rfl trivial
  | some u =>
    exact served_of_steady (run_bind_pure (run_purge hu pid page) _)
      (agrees_withTranslator h hu ((h.buffers cpu u hu).purge pid page))
      (steady_withTranslator m cpu _) rfl trivial

theorem served_forget (h : m.Sound) (cpu : Nat) : Served (.forget cpu pid) m := by
  cases hu : m.translators[cpu]? with
  | none =>
    have hrun : (Operation.call (.forget cpu pid)).run m = ⟨.error beyond, m, []⟩ := by
      simp [Operation.call, forget, run_translator_none m hu]
    exact served_beyond hrun h rfl trivial
  | some u =>
    exact served_of_steady (run_bind_pure (run_forget hu pid) _)
      (agrees_withTranslator h hu ((h.buffers cpu u hu).forget pid))
      (steady_withTranslator m cpu _) rfl trivial

theorem served_flush (h : m.Sound) (cpu : Nat) : Served (.flush cpu) m := by
  cases hu : m.translators[cpu]? with
  | none =>
    exact served_beyond (run_bind_pure (run_flush_none hu) _) h rfl trivial
  | some u =>
    have hs := steady_flushedBy m (m.slotsOf cpu)
    exact served_of_steady (run_bind_pure (run_flush h hu) _)
      (hs.agrees_of_translators_eq h rfl) hs rfl trivial

theorem served_translate (h : m.Sound) {cpu : Nat} {u : Translator g.tlbEntries}
    (hu : m.translators[cpu]? = some u) (ho : u.owner = some pid) (a : VirtualAddress) :
    Served (.translate cpu pid a) m := by
  obtain ⟨m', es, hrun, hm'⟩ := run_translate h hu ho a
  exact served_of_steady (run_bind_pure hrun _) (hm'.agrees h) hm'.steady rfl
    ⟨rfl, hm'.steady.stateOf⟩

theorem served_fault (h : m.Sound) (a : VirtualAddress) (access : Access) :
    Served (.fault pid a access) m := by
  obtain ⟨r, m', es, hrun, hm', hf, -, ha⟩ := run_handleFault h pid a access
  refine ⟨r.map .resolution, m', es, run_bind_pure hrun _, hm', hf.flat, fun f hr => ?_⟩
  match r, ha with
  | .ok (.resolved i), ha =>
    obtain rfl : i = f := by simpa [Except.map] using hr
    exact ha.2.2
  | .ok (.violation v), _ => simp [Except.map] at hr
  | .error e, _ => simp [Except.map] at hr

theorem served_release (h : m.Sound) : Served (.release pid) m := by
  cases hs : m.space? pid with
  | none =>
    refine ⟨_, m, [], run_bind_pure (run_release_none hs) _, h, ?_, trivial⟩
    rw [Operation.effect, Function.update_eq_self_iff.mpr]
    rw [flat_eq, hs]
    rfl
  | some s =>
    obtain ⟨m', es, hrun, hm', -, hspace, hc, -⟩ := run_release h hs
    exact ⟨_, m', es, run_bind_pure hrun _, hm', flat_of_released hspace hc, trivial⟩

/-- A permitted call is served in every sound state. -/
theorem served (h : m.Sound) (op : Operation) (hp : op.Permitted m) : Served op m := by
  cases op with
  | create pid => exact served_create h hp
  | allocate pid start count => exact served_allocate h start count
  | dispatch cpu pid => exact served_dispatch h cpu
  | translate cpu pid a =>
    obtain ⟨u, hu, ho⟩ := hp
    exact served_translate h hu ho a
  | fault pid a access => exact served_fault h a access
  | flush cpu => exact served_flush h cpu
  | purge cpu pid page => exact served_purge h cpu page
  | forget cpu pid => exact served_forget h cpu
  | release pid => exact served_release h

/-! Reachable states. -/

/-- The states that permitted calls and word stores reach from a system at rest. -/
inductive Reachable (useTlbs : List Bool) : Pager g → Prop where
  | start : Reachable useTlbs (new g useTlbs)
  | call {m : Pager g} (h : Reachable useTlbs m) (op : Operation) (hp : op.Permitted m) :
    Reachable useTlbs ((op.call).run m).state
  | store {m : Pager g} (h : Reachable useTlbs m) (a : PhysicalAddress) (w : Int32)
    (ha : a.toNat < g.memorySize) : Reachable useTlbs ((storeWord a w).run m).state

theorem sound_call (h : m.Sound) (op : Operation) (hp : op.Permitted m) :
    ((op.call).run m).state.Sound := by
  obtain ⟨r, m', es, hrun, hm', -, -⟩ := served h op hp
  rw [hrun]
  exact hm'

theorem exists_state_storeWord (m : Pager g) (a : PhysicalAddress) (w : Int32) :
    ∃ ram, ((storeWord a w).run m).state = { m with ram } := by
  cases hr : m.ram.store? a w with
  | none => exact ⟨m.ram, by rw [storeWord, run_update_none (by rw [hr]; rfl)]⟩
  | some ram =>
    exact ⟨ram, by rw [storeWord, run_update_some (t := { m with ram }) (by rw [hr]; rfl)]⟩

theorem sound_storeWord (h : m.Sound) (a : PhysicalAddress) (w : Int32) :
    ((storeWord a w).run m).state.Sound := by
  obtain ⟨ram, hm⟩ := exists_state_storeWord m a w
  rw [hm]
  exact ⟨h.books, h.buffers⟩

theorem Reachable.sound {useTlbs : List Bool} (h : Reachable useTlbs m) : m.Sound := by
  induction h with
  | start => exact sound_new g useTlbs
  | call _ op hp ih => exact sound_call ih op hp
  | store _ a w _ ih => exact sound_storeWord ih a w

/-- The bookkeeping invariant: free list, frame owners, page tables and swap store agree. -/
structure Balanced (m : Pager g) : Prop where
  free_or_owned : ∀ f : Nat, f < g.frameCount →
    m.frames.free.count f = 1 ∧ m.owner? f = some none ∨
      m.frames.free.count f = 0 ∧ ∃ o, m.owner? f = some (some o)
  free_lt : ∀ f ∈ m.frames.free, f < g.frameCount
  owned_iff : ∀ f pid page, m.owner? f = some (some ⟨pid, page⟩) ↔
    m.state? pid page = some (.resident f)
  swapped_iff : ∀ t pid page, m.state? pid page = some (.swapped t) ↔
    ∃ p, m.swap.get? t = some p ∧ p.owner = ⟨pid, page⟩
  image_size : ∀ t p, m.swap.get? t = some p → p.image.size = g.pageSize
  token_inj : ∀ t (o q : FrameOwner), m.state? o.pid o.page = some (.swapped t) →
    m.state? q.pid q.page = some (.swapped t) → o = q

theorem Agrees.balanced (h : m.Sound) : m.Balanced where
  free_or_owned f hf := by
    obtain ⟨o, ho⟩ := m.frames.exists_owner? hf
    have hfree := h.books.free_iff f nofun
    cases o with
    | none => exact .inl ⟨List.count_eq_one_of_mem h.books.free_nodup (hfree.mpr ho), ho⟩
    | some o =>
      refine .inr ⟨List.count_eq_zero_of_not_mem fun hm => ?_, o, ho⟩
      rw [hfree.mp hm] at ho
      simp at ho
  free_lt f hm := FrameTable.lt_of_owner?_eq_some ((h.books.free_iff f nofun).mp hm)
  owned_iff f pid page := h.books.owner_iff f ⟨pid, page⟩ nofun
  swapped_iff t pid page := by
    refine ⟨h.books.held ⟨pid, page⟩ t, ?_⟩
    rintro ⟨p, hp, ho⟩
    have hst := (h.books.image_state t p hp).1
    rwa [ho] at hst
  image_size t p hp := (h.books.image_state t p hp).2
  token_inj t o q ho hq := h.books.eq_of_swapped ho hq

theorem fault_in_order (h : m.Sound) (pid : ProcessId) (a : VirtualAddress) (access : Access) :
    Quiet ((handleFault pid a access).run m).events ∧
      ∀ e, ((handleFault pid a access).run m).answer = .error e →
        m.space? pid = none ∧ e = .error (.unknownProcess pid) ∨
          wordBound ≤ m.swap.size ∧ e = .crash .noRoom := by
  obtain ⟨r, m', es, hrun, -, -, hq, ha⟩ := run_handleFault h pid a access
  rw [hrun]
  refine ⟨hq, ?_⟩
  rintro e rfl
  exact ha

theorem release_in_order (h : m.Sound) (pid : ProcessId) :
    Quiet ((release pid).run m).events ∧
      ∀ e, ((release pid).run m).answer = .error e →
        m.space? pid = none ∧ e = .error (.unknownProcess pid) := by
  cases hs : m.space? pid with
  | none =>
    rw [run_release_none hs]
    refine ⟨quiet_nil, ?_⟩
    rintro e ⟨⟩
    exact ⟨rfl, rfl⟩
  | some s =>
    obtain ⟨m', es, hrun, -, hq, -⟩ := run_release h hs
    rw [hrun]
    exact ⟨hq, nofun⟩

/-- In every reachable state the books balance, and faults and teardowns find them in order. -/
theorem reachable_balanced {useTlbs : List Bool} (h : Reachable useTlbs m) :
    m.Balanced ∧
    (∀ pid a access, Quiet ((handleFault pid a access).run m).events ∧
      ∀ e, ((handleFault pid a access).run m).answer = .error e →
        m.space? pid = none ∧ e = .error (.unknownProcess pid) ∨
          wordBound ≤ m.swap.size ∧ e = .crash .noRoom) ∧
    (∀ pid, Quiet ((release pid).run m).events ∧
      ∀ e, ((release pid).run m).answer = .error e →
        m.space? pid = none ∧ e = .error (.unknownProcess pid)) :=
  ⟨h.sound.balanced, fault_in_order h.sound, release_in_order h.sound⟩

def oneFrame : Geometry where
  pageSizeLog2 := 2
  frameCountLog2 := 0
  pageCountLog2 := 2
  level1Log2 := 1
  tlbLog2 := 0
  level1_le := by decide
  word_le := by decide
  physical_le := by decide
  virtual_le := by decide
  tlb_le := by decide

def fourFrames : Geometry where
  pageSizeLog2 := 4
  frameCountLog2 := 2
  pageCountLog2 := 4
  level1Log2 := 2
  tlbLog2 := 1
  level1_le := by decide
  word_le := by decide
  physical_le := by decide
  virtual_le := by decide
  tlb_le := by decide

theorem reachable_balanced_stolen : ∃ m : Pager oneFrame, Reachable [true] m ∧
    m.state? 0 0 = some (.swapped 0) ∧ m.state? 0 1 = some (.resident 0) ∧ m.Balanced := by
  have hstart : Reachable [true] (new oneFrame [true]) := .start
  have hcreated := hstart.call (.create 0) rfl
  have hallocated := hcreated.call (.allocate 0 0 2) trivial
  have hfirst := hallocated.call (.fault 0 .zero .data) trivial
  have hsecond := hfirst.call (.fault 0 (.ofNat 4) .data) trivial
  exact ⟨_, hsecond, by decide +kernel, by decide +kernel, (reachable_balanced hsecond).1⟩

end DemandPaging.Pager
