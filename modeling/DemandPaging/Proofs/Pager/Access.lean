import DemandPaging.Proofs.Pager.Reachable
/-!
Accesses to allocated pages. A page stays allocated until its process is torn down, whatever else
is asked of the memory system, and as long as it is, an access to it ends at a frame.
-/

namespace DemandPaging.Pager

open DemandPaging.Action DemandPaging.Paging

variable {g : Geometry} {m m' : Pager g} {o : FrameOwner} {pid : ProcessId}

theorem isSome_stateOf_iff (h : m.Sound) :
    (m.stateOf o).isSome ↔ ∃ mem, m.flat o.pid = some mem ∧ (mem o.page).isSome := by
  rw [← isSome_contents h]
  constructor
  · intro hs
    obtain ⟨p, hp⟩ := Option.isSome_iff_exists.mp hs
    obtain ⟨state, hstate, -⟩ := Option.bind_eq_some_iff.mp hp
    obtain ⟨s, hspace, -⟩ := exists_space_of_stateOf hstate
    refine ⟨m.memory o.pid, flat_eq_some_iff.mpr ⟨by rw [hspace]; rfl, rfl⟩, ?_⟩
    rw [memory, hp]
    rfl
  · rintro ⟨mem, hmem, hs⟩
    obtain ⟨-, rfl⟩ := flat_eq_some_iff.mp hmem
    rwa [memory, Option.isSome_map] at hs

theorem isSome_allocate {mem : FlatMemory g} {start count : Nat} {page : PageNumber}
    (h : (mem page).isSome) : (mem.allocate start count page).isSome := by
  rw [FlatMemory.allocate]
  split
  · rfl
  · exact h

theorem Operation.exists_effect {mems : FlatMemories g} {mem : FlatMemory g} {op : Operation}
    (hmem : mems pid = some mem) (hcreate : op ≠ .create pid) (hrelease : op ≠ .release pid) :
    ∃ mem', op.effect mems pid = some mem' ∧ ∀ page, (mem page).isSome → (mem' page).isSome := by
  cases op with
  | create q =>
    have hne : pid ≠ q := fun he => hcreate (by rw [he])
    refine ⟨mem, ?_, fun _ => id⟩
    rw [effect]
    split
    · rw [Function.update_of_ne hne, hmem]
    · exact hmem
  | allocate q start count =>
    cases hq : mems q with
    | none => exact ⟨mem, by simp only [effect, hq, hmem], fun _ => id⟩
    | some old =>
      simp only [effect, hq]
      split
      · by_cases hne : pid = q
        · subst hne
          obtain rfl := Option.some.inj (hmem.symm.trans hq)
          exact ⟨_, Function.update_self .., fun _ => isSome_allocate⟩
        · exact ⟨mem, by rw [Function.update_of_ne hne, hmem], fun _ => id⟩
      · exact ⟨mem, hmem, fun _ => id⟩
  | release q =>
    have hne : pid ≠ q := fun he => hrelease (by rw [he])
    exact ⟨mem, by rw [effect, Function.update_of_ne hne, hmem], fun _ => id⟩
  | dispatch | translate | fault | flush | purge | forget => exact ⟨mem, hmem, fun _ => id⟩

theorem isSome_stateOf_call (h : m.Sound) {op : Operation} (hp : op.Permitted m)
    (hop : op ≠ .release o.pid) (ho : (m.stateOf o).isSome) :
    (((op.call).run m).state.stateOf o).isSome := by
  obtain ⟨r, m', es, hrun, hm', hflat, -⟩ := served h op hp
  obtain ⟨mem, hmem, hpage⟩ := (isSome_stateOf_iff h).mp ho
  have hcreate : op ≠ .create o.pid := by
    rintro rfl
    rw [flat_eq, show m.space? o.pid = none from hp] at hmem
    exact absurd hmem nofun
  obtain ⟨mem', hmem', hkept⟩ := Operation.exists_effect hmem hcreate hop
  rw [hrun, isSome_stateOf_iff hm', hflat]
  exact ⟨mem', hmem', hkept _ hpage⟩

theorem stateOf_storeWord (m : Pager g) (a : PhysicalAddress) (w : Int32) :
    ((storeWord a w).run m).state.stateOf = m.stateOf := by
  obtain ⟨ram, hm⟩ := exists_state_storeWord m a w
  rw [hm]
  exact stateOf_eq_of_spaces_eq rfl

/-- The states that a memory system goes through in which a process is not torn down: permitted
calls are served and words stored. -/
inductive Outlives (pid : ProcessId) (m : Pager g) : Pager g → Prop where
  | now : Outlives pid m m
  | call {k : Pager g} (h : Outlives pid m k) (op : Operation) (hp : op.Permitted k)
    (hop : op ≠ .release pid) : Outlives pid m ((op.call).run k).state
  | store {k : Pager g} (h : Outlives pid m k) (a : PhysicalAddress) (w : Int32) :
    Outlives pid m ((storeWord a w).run k).state

namespace Outlives

theorem sound (h : Outlives pid m m') (hm : m.Sound) : m'.Sound := by
  induction h with
  | now => exact hm
  | call _ op hp _ ih => exact sound_call ih op hp
  | store _ a w ih => exact sound_storeWord ih a w

theorem isSome_stateOf (h : Outlives pid m m') (hm : m.Sound) {page : PageNumber}
    (hpage : (m.stateOf ⟨pid, page⟩).isSome) : (m'.stateOf ⟨pid, page⟩).isSome := by
  induction h with
  | now => exact hpage
  | call h _ hp hop ih => exact isSome_stateOf_call (h.sound hm) hp hop ih
  | store _ a w ih => rwa [stateOf_storeWord]

end Outlives

/-- What an access to an allocated page comes to. It fails only where the swap store is full. -/
structure Resolves (m : Pager g) (pid : ProcessId) (a : VirtualAddress) : Prop where
  violation : ∀ v, ((handleFault pid a .data).run m).answer ≠ .ok (.violation v)
  fault : m.swap.size < wordBound → ∃ f,
    ((handleFault pid a .data).run m).answer = .ok (.resolved f) ∧
    ((handleFault pid a .data).run m).state.stateOf ⟨pid, g.pageOf a⟩ = some (.resident f)
  touch : m.swap.size < wordBound → ∀ (cpu : Nat) u, m.translators[cpu]? = some u →
    u.owner = some pid → ∃ f,
      (((touch cpu pid a).run m).answer = .ok (.hit f) ∨
        ((touch cpu pid a).run m).answer = .ok (.faulted (some f))) ∧
      ((touch cpu pid a).run m).state.stateOf ⟨pid, g.pageOf a⟩ = some (.resident f)

theorem stateOf_eq_none_of_violation {a : VirtualAddress} {v : Violation}
    (h : FaultAnswer m m' pid a .data (.ok (.violation v))) :
    m.stateOf ⟨pid, g.pageOf a⟩ = none :=
  h.2.resolve_left nofun

theorem space?_ne_none {page : PageNumber} (hs : (m.stateOf ⟨pid, page⟩).isSome) :
    m.space? pid ≠ none := by
  intro hnone
  rw [stateOf_of_no_space hnone] at hs
  exact absurd hs nofun

theorem run_handleFault_allocated (h : m.Sound) {a : VirtualAddress}
    (hs : (m.stateOf ⟨pid, g.pageOf a⟩).isSome) (hroom : m.swap.size < wordBound) :
    ∃ f m' es, (handleFault pid a .data).run m = ⟨.ok (.resolved f), m', es⟩ ∧ m'.Sound ∧
      Faithful m m' ∧ m'.stateOf ⟨pid, g.pageOf a⟩ = some (.resident f) := by
  obtain ⟨r, m', es, hrun, hm', hf, -, ha⟩ := run_handleFault h pid a .data
  match r, ha with
  | .ok (.resolved f), ha => exact ⟨f, m', es, hrun, hm', hf, ha.2.2⟩
  | .ok (.violation v), ha =>
    rw [stateOf_eq_none_of_violation ha] at hs
    exact absurd hs nofun
  | .error e, ha =>
    rcases ha with ⟨hn, -⟩ | ⟨hfull, -⟩
    · exact absurd hn (space?_ne_none hs)
    · exact absurd hroom (Nat.not_lt.mpr hfull)

theorem run_touch_allocated (h : m.Sound) {cpu : Nat} {u : Translator g.tlbEntries}
    (hu : m.translators[cpu]? = some u) (ho : u.owner = some pid) {a : VirtualAddress}
    (hs : (m.stateOf ⟨pid, g.pageOf a⟩).isSome) (hroom : m.swap.size < wordBound) :
    ∃ f r m' es, (touch cpu pid a).run m = ⟨.ok r, m', es⟩ ∧ (r = .hit f ∨ r = .faulted (some f)) ∧
      m'.stateOf ⟨pid, g.pageOf a⟩ = some (.resident f) := by
  obtain ⟨m₁, es₁, hrun₁, ht₁⟩ := run_translate h hu ho a
  have hst₁ := ht₁.steady.stateOf
  cases hf : (m.stateOf ⟨pid, g.pageOf a⟩).bind PageState.frame? with
  | some f =>
    rw [hf] at hrun₁
    refine ⟨f, .hit f, m₁, es₁, by simp [touch, hrun₁], .inl rfl, ?_⟩
    rw [hst₁]
    exact PageState.bind_frame?_eq_some_iff.mp hf
  | none =>
    rw [hf] at hrun₁
    obtain ⟨f, m₂, es₂, hrun₂, hm₂, hfaith, hst₂⟩ := run_handleFault_allocated (ht₁.agrees h)
      (hst₁ ▸ hs) (ht₁.steady.swap ▸ hroom)
    obtain ⟨v, hv, hov⟩ : ∃ v, m₂.translators[cpu]? = some v ∧ v.owner = some pid := by
      have howner := (hfaith.owners cpu).trans ((ht₁.faithful hu).owners cpu)
      rw [hu, Option.map_some, ho] at howner
      exact Option.map_eq_some_iff.mp howner
    obtain ⟨m₃, es₃, hrun₃, ht₃⟩ := run_translate hm₂ hv hov a
    rw [hst₂] at hrun₃
    refine ⟨f, .faulted (some f), m₃, es₁ ++ (es₂ ++ es₃), ?_, .inr rfl, ?_⟩
    · simp [touch, hrun₁, hrun₂, hrun₃, PageState.frame?]
    · rw [ht₃.steady.stateOf, hst₂]

theorem resolves (h : m.Sound) {a : VirtualAddress}
    (hs : (m.stateOf ⟨pid, g.pageOf a⟩).isSome) : m.Resolves pid a where
  violation v hv := by
    obtain ⟨r, m', es, hrun, -, -, -, ha⟩ := run_handleFault h pid a .data
    rw [hrun] at hv
    obtain rfl : r = .ok (.violation v) := hv
    rw [stateOf_eq_none_of_violation ha] at hs
    exact absurd hs nofun
  fault hroom := by
    obtain ⟨f, m', es, hrun, -, -, hst⟩ := run_handleFault_allocated h hs hroom
    rw [hrun]
    exact ⟨f, rfl, hst⟩
  touch hroom cpu u hu ho := by
    obtain ⟨f, r, m', es, hrun, hr, hst⟩ := run_touch_allocated h hu ho hs hroom
    rw [hrun]
    exact ⟨f, hr.imp (congrArg Except.ok) (congrArg Except.ok), hst⟩

end DemandPaging.Pager
