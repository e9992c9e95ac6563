import DemandPaging.Proofs.Pager.Reachable
/-!
Creating an address space for a process that has one. The new space is put in place of the old
one, whose frames and images stay where they are and are no page's any more. The books stay in
order exactly if the old space holds neither a frame nor an image.
-/

namespace DemandPaging

/-- The error says that the books disagree, and not that a caller asked for the wrong thing. -/
def MemoryError.isDamage : MemoryError → Bool
  | .unknownSwapToken .. | .missingOwnerEntry .. | .noEvictableFrame _ => true
  | .alreadyAllocated .. | .unknownProcess _ => false

namespace Pager

open DemandPaging.Action DemandPaging.Paging

variable {g : Geometry} {m n : Pager g} {pid : ProcessId} {useTlbs : List Bool}

def Bare (m : Pager g) (pid : ProcessId) : Prop :=
  ∀ page s, m.state? pid page = some s → s = .unmapped

theorem bare_of_space?_eq_none (h : m.space? pid = none) : m.Bare pid := by
  intro page s hs
  rw [state?, h] at hs
  simp at hs

theorem bare_createSpace (m : Pager g) (pid : ProcessId) : (m.createSpace pid).Bare pid := by
  intro page s hs
  rw [state?, space?_createSpace, if_pos rfl, Option.bind_some] at hs
  exact absurd ((PageTable.state?_empty page).symm.trans hs) (Option.some_ne_none s).symm

theorem Bare.allocate (hb : m.Bare pid) (q : ProcessId) (start count : Nat) :
    ((Pager.allocate q start count).run m).state.Bare pid := by
  intro page s hs
  change Pager.stateOf _ ⟨pid, page⟩ = some s at hs
  rw [stateOf_allocate] at hs
  split at hs
  · exact (Option.some.inj hs).symm
  · exact hb page s hs

/-- An owned frame is resident for its owner, and an image belongs to a page that is swapped out
under its token. -/
structure InOrder (m : Pager g) : Prop where
  owned : ∀ f pid page, m.owner? f = some (some ⟨pid, page⟩) →
    m.state? pid page = some (.resident f)
  imaged : ∀ t p, m.swap.get? t = some p → m.state? p.owner.pid p.owner.page = some (.swapped t)

theorem Agrees.inOrder (h : m.Sound) : m.InOrder where
  owned f pid page := (h.books.owner_iff f ⟨pid, page⟩ nofun).mp
  imaged t p hp := (h.books.image_state t p hp).1

theorem stateOf_replaced (m : Pager g) (pid : ProcessId) (o : FrameOwner) :
    (m.createSpace pid).stateOf o = if o.pid = pid then none else m.stateOf o := by
  rw [stateOf, state?, space?_createSpace]
  by_cases h : pid = o.pid
  · rw [if_pos h, if_pos h.symm]
    exact PageTable.state?_empty o.page
  · rw [if_neg h, if_neg (Ne.symm h)]
    rfl

theorem Bare.stateOf_replaced (hb : m.Bare pid) {s : PageState} (hs : s ≠ .unmapped)
    (o : FrameOwner) : (m.createSpace pid).stateOf o = some s ↔ m.stateOf o = some s := by
  rw [Pager.stateOf_replaced]
  split
  · next ho =>
    refine ⟨nofun, fun h => absurd (hb o.page s ?_) hs⟩
    rw [← ho]
    exact h
  · rfl

theorem Bare.sound_replaced (hb : m.Bare pid) (h : m.Sound) : (m.createSpace pid).Sound := by
  refine ⟨h.books.congr fun s hs o => hb.stateOf_replaced hs o, fun c u hu => ?_⟩
  exact (h.buffers c u hu).mono fun q page f _ hr =>
    (hb.stateOf_replaced (s := .resident f) nofun ⟨q, page⟩).mpr hr

theorem inOrder_replaced_iff (h : m.Sound) : (m.createSpace pid).InOrder ↔ m.Bare pid := by
  refine ⟨fun hin page s hs => ?_, fun hb => (hb.sound_replaced h).inOrder⟩
  have hnone : (m.createSpace pid).stateOf ⟨pid, page⟩ = none := by
    rw [stateOf_replaced, if_pos rfl]
  cases s with
  | unmapped => rfl
  | resident f =>
    -- the frame still says that it is the old page's
    have hf := (h.books.owner_iff f ⟨pid, page⟩ nofun).mpr hs
    exact absurd (hnone.symm.trans (hin.owned f pid page hf)) nofun
  | swapped t =>
    obtain ⟨p, hp, ho⟩ := h.books.held ⟨pid, page⟩ t hs
    have hst := hin.imaged t p hp
    rw [ho] at hst
    exact absurd (hnone.symm.trans hst) nofun

theorem inOrder_create_iff (h : m.Sound) :
    ((create pid).run m).state.InOrder ↔ maxSpaces ≤ pid ∨ m.Bare pid := by
  rw [run_create]
  split
  · next hp => rw [inOrder_replaced_iff h, or_iff_right (Nat.not_le.mpr hp)]
  · next hp => exact iff_of_true h.inOrder (.inl (Nat.le_of_not_lt hp))

theorem sound_create (h : m.Sound) (hp : maxSpaces ≤ pid ∨ m.Bare pid) :
    ((create pid).run m).state.Sound := by
  rw [run_create]
  split
  · next hlt => exact (hp.resolve_left (Nat.not_le.mpr hlt)).sound_replaced h
  · exact h

/-! What follows. -/

/-- As callers promise, but the new address space may replace one that holds nothing. -/
def Operation.Harmless (m : Pager g) : Operation → Prop
  | .create pid => m.Bare pid
  | op => op.Permitted m

/-- What harmless calls and word stores make of a memory system. -/
inductive Continues (m : Pager g) : Pager g → Prop where
  | refl : Continues m m
  | call {n : Pager g} (h : Continues m n) (op : Operation) (hp : op.Harmless n) :
    Continues m ((op.call).run n).state
  | store {n : Pager g} (h : Continues m n) (a : PhysicalAddress) (w : Int32)
    (ha : a.toNat < g.memorySize) : Continues m ((storeWord a w).run n).state

theorem sound_harmless (h : m.Sound) (op : Operation) (hp : op.Harmless m) :
    ((op.call).run m).state.Sound := by
  cases op with
  | create pid =>
    have hm := sound_create h (.inr hp)
    rwa [← state_bind_pure (create pid) fun _ => Reply.done] at hm
  | _ => exact sound_call h _ hp

theorem Continues.sound (h : Continues m n) (hm : m.Sound) : n.Sound := by
  induction h with
  | refl => exact hm
  | call _ op hp ih => exact sound_harmless ih op hp
  | store _ a w _ ih => exact sound_storeWord ih a w

theorem isDamage_eq_false (h : m.Sound) (op : Operation) (hp : op.Harmless m) {e : MemoryError}
    (he : ((op.call).run m).answer = .error (.error e)) : e.isDamage = false := by
  cases op with
  | create pid =>
    rw [Operation.call, answer_bind_pure_eq_error, run_create] at he
    split at he <;> cases he
  | allocate pid start count =>
    rw [Operation.call, answer_bind_pure_eq_error] at he
    have hout := allocated m pid start count
    generalize (allocate pid start count).run m = out at hout he
    cases hout <;> cases he <;> rfl
  | dispatch cpu pid =>
    rw [Operation.call, answer_bind_pure_eq_error] at he
    cases hu : m.translators[cpu]? with
    | none => rw [run_dispatch_none hu] at he; cases he
    | some u => rw [run_dispatch hu] at he; cases he
  | translate cpu pid a =>
    obtain ⟨u, hu, ho⟩ := hp
    obtain ⟨m', es, hrun, -⟩ := run_translate h hu ho a
    rw [Operation.call, answer_bind_pure_eq_error, hrun] at he
    cases he
  | fault pid a access =>
    rw [Operation.call, answer_bind_pure_eq_error] at he
    obtain ⟨-, he⟩ | ⟨-, he⟩ := (fault_in_order h pid a access).2 _ he
    · cases he; rfl
    · cases he
  | flush cpu =>
    rw [Operation.call, answer_bind_pure_eq_error] at he
    cases hu : m.translators[cpu]? with
    | none => rw [run_flush_none hu] at he; cases he
    | some u => rw [run_flush h hu] at he; cases he
  | purge cpu pid page =>
    rw [Operation.call, answer_bind_pure_eq_error] at he
    cases hu : m.translators[cpu]? with
    | none => simp [purge, run_translator_none m hu, beyond] at he
    | some u => rw [run_purge hu] at he; cases he
  | forget cpu pid =>
    rw [Operation.call, answer_bind_pure_eq_error] at he
    cases hu : m.translators[cpu]? with
    | none => simp [forget, run_translator_none m hu, beyond] at he
    | some u => rw [run_forget hu] at he; cases he
  | release pid =>
    rw [Operation.call, answer_bind_pure_eq_error] at he
    obtain ⟨-, he⟩ := (release_in_order h pid).2 _ he
    cases he
    rfl

/-- A new address space in place of an old one leaves the books in order exactly if no page of the
old one has a frame or an image, and then no later call finds them out of order, and nothing is
left in the swap store once no process has an address space. -/
theorem replacement_in_order (h : Continues (new g useTlbs) m) (pid : ProcessId) :
    (((create pid).run m).state.InOrder ↔ maxSpaces ≤ pid ∨ m.Bare pid) ∧
    (maxSpaces ≤ pid ∨ m.Bare pid → ∀ n, Continues ((create pid).run m).state n →
      (∀ (op : Operation) (e : MemoryError), op.Harmless n →
        ((op.call).run n).answer = .error (.error e) → e.isDamage = false) ∧
      ((∀ q, n.space? q = none) → n.swap.isEmpty = true)) := by
  have hm := h.sound (sound_new g useTlbs)
  refine ⟨inOrder_create_iff hm, fun hp n hn => ?_⟩
  have hn := hn.sound (sound_create hm hp)
  exact ⟨fun op e hop => isDamage_eq_false hn op hop, hn.swap_isEmpty⟩

theorem replacement_in_order_unused : ∃ m : Pager oneFrame, Continues (new oneFrame [true]) m ∧
    m.state? 0 0 = some .unmapped ∧ m.state? 1 0 = some (.resident 0) ∧
    ((create 0).run m).state.InOrder := by
  have hstart : Continues (new oneFrame [true]) (new oneFrame [true]) := .refl
  have hother := hstart.call (.create 1) (bare_of_space?_eq_none rfl)
  have hallocated := hother.call (.allocate 1 0 1) trivial
  have hfaulted := hallocated.call (.fault 1 .zero .data) trivial
  have hcreated := hfaulted.call (.create 0) (bare_of_space?_eq_none (by decide +kernel))
  have hunused := hcreated.call (.allocate 0 0 1) trivial
  refine ⟨_, hunused, by decide +kernel, by decide +kernel,
    (replacement_in_order hunused 0).1.mpr (.inr ?_)⟩
  simp only [Operation.call, state_bind_pure]
  refine Bare.allocate ?_ 0 0 1
  rw [run_create, if_pos (by decide)]
  exact bare_createSpace _ 0

/-- A process that starts afresh with a page in the only frame and a page swapped out. The frame
cannot be taken away from a page that is gone, and the image outlives the process. -/
theorem replacement_out_of_order : ∃ m : Pager oneFrame, Reachable [true] m ∧
    m.state? 0 0 = some (.swapped 0) ∧ m.state? 0 1 = some (.resident 0) ∧
    ¬ ((create 0).run m).state.InOrder ∧
    ((do create 0; let _ ← allocate 0 0 1; handleFault 0 .zero .data).run m).answer =
      .error (.error (.missingOwnerEntry 0 0 1)) ∧
    ((do create 0; release 0; return (← get).spaces.isEmpty).run m).answer = .ok true ∧
    ((do create 0; release 0; return (← get).swap.isEmpty).run m).answer = .ok false := by
  have hstart : Reachable [true] (new oneFrame [true]) := .start
  have hcreated := hstart.call (.create 0) rfl
  have hallocated := hcreated.call (.allocate 0 0 2) trivial
  have hfirst := hallocated.call (.fault 0 .zero .data) trivial
  have hsecond := hfirst.call (.fault 0 (.ofNat 4) .data) trivial
  refine ⟨_, hsecond, by decide +kernel, by decide +kernel, fun hin => ?_, by decide +kernel,
    by decide +kernel, by decide +kernel⟩
  have hgone := hin.owned 0 0 1 (by decide +kernel)
  revert hgone
  decide +kernel

end Pager

end DemandPaging
