import DemandPaging.Pager.Fault
import DemandPaging.Proofs.Action
import DemandPaging.Proofs.Frames
import DemandPaging.Proofs.PageTable
import DemandPaging.Proofs.Ram
import DemandPaging.Proofs.Swap
import Mathlib.Logic.Function.Basic
/-!
The states of all pages as one map, the contents of a page in each state, and the outcome of
every small action of the memory system as an equation.
-/

namespace DemandPaging

namespace Page

variable {g : Geometry}

theorem ofImage?_eq_some_iff {image : Array UInt8} {p : Page g} :
    ofImage? image = some p ↔ image = p.toArray := by
  constructor
  · intro h
    unfold ofImage? at h
    split at h
    · rw [← Option.some.inj h]
    · simp at h
  · rintro rfl
    exact ofImage?_toArray p

end Page

namespace SwapStore

def without (s : SwapStore) : PageState → SwapStore
  | .swapped t => s.erase t
  | _ => s

theorem without_unmapped (s : SwapStore) : s.without .unmapped = s := rfl

theorem without_swapped (s : SwapStore) (t : SwapToken) : s.without (.swapped t) = s.erase t := rfl

end SwapStore

namespace Pager

open DemandPaging.Action

variable {g : Geometry}

def stateOf (m : Pager g) (o : FrameOwner) : Option PageState := m.state? o.pid o.page

def imageOf (m : Pager g) : PageState → Option (Page g)
  | .unmapped => some .zero
  | .resident f => m.ram.frame? f
  | .swapped t => (m.swap.get? t).bind fun p => Page.ofImage? p.image

def contents (m : Pager g) (o : FrameOwner) : Option (Page g) := (m.stateOf o).bind m.imageOf

def putState (m : Pager g) (o : FrameOwner) (state : PageState) : Pager g :=
  match m.space? o.pid with
  | some s => m.setSpace o.pid (s.setState o.page state)
  | none => m

section PutState

variable (m : Pager g) (o : FrameOwner) (state : PageState)

@[simp] theorem frames_putState : (m.putState o state).frames = m.frames := by
  unfold putState; split <;> rfl

@[simp] theorem swap_putState : (m.putState o state).swap = m.swap := by
  unfold putState; split <;> rfl

@[simp] theorem ram_putState : (m.putState o state).ram = m.ram := by
  unfold putState; split <;> rfl

@[simp] theorem translators_putState : (m.putState o state).translators = m.translators := by
  unfold putState; split <;> rfl

@[simp] theorem clock_putState : (m.putState o state).clock = m.clock := by
  unfold putState; split <;> rfl

theorem isSome_space?_putState (pid : ProcessId) :
    ((m.putState o state).space? pid).isSome = (m.space? pid).isSome := by
  unfold putState
  split
  · next s hs =>
    rw [space?_setSpace]
    split
    · next h => rw [← h, hs]; rfl
    · rfl
  · rfl

theorem space?_putState_of_ne {pid : ProcessId} (h : pid ≠ o.pid) :
    (m.putState o state).space? pid = m.space? pid := by
  unfold putState
  split
  · rw [space?_setSpace, if_neg (Ne.symm h)]
  · rfl

variable {m o}

theorem stateOf_putState (h : (m.stateOf o).isSome) :
    (m.putState o state).stateOf = Function.update m.stateOf o (some state) := by
  funext q
  obtain ⟨old, ho⟩ := Option.isSome_iff_exists.mp h
  obtain ⟨s, hs, ho⟩ := Option.bind_eq_some_iff.mp ho
  rw [Function.update_apply, putState, hs]
  simp only [stateOf, state?, space?_setSpace]
  by_cases hp : o.pid = q.pid
  · rw [if_pos hp, ← hp, hs, Option.bind_some, Option.bind_some,
      s.state?_setState state (by rw [ho]; rfl)]
    refine if_congr ⟨fun hq => ?_, fun hq => by rw [hq]⟩ rfl rfl
    rcases o with ⟨_, _⟩
    rcases q with ⟨_, _⟩
    simp_all
  · rw [if_neg hp, if_neg fun hq => hp (by rw [hq])]

end PutState

theorem exists_space_of_stateOf {m : Pager g} {o : FrameOwner} {state : PageState}
    (h : m.stateOf o = some state) : ∃ s, m.space? o.pid = some s ∧ s.state? o.page = some state :=
  Option.bind_eq_some_iff.mp h

theorem stateOf_of_space {m : Pager g} {pid : ProcessId} {s : AddressSpace g}
    (h : m.space? pid = some s) (page : PageNumber) : m.stateOf ⟨pid, page⟩ = s.state? page := by
  rw [stateOf, state?, h, Option.bind_some]

theorem stateOf_of_no_space {m : Pager g} {pid : ProcessId} (h : m.space? pid = none)
    (page : PageNumber) : m.stateOf ⟨pid, page⟩ = none := by
  rw [stateOf, state?, h, Option.bind_none]

section Run

variable (m : Pager g)

theorem run_space_some {pid : ProcessId} {s : AddressSpace g} (h : m.space? pid = some s) :
    (space pid).run m = ⟨.ok s, m, []⟩ := by
  simp [space, h]

theorem run_space_none {pid : ProcessId} (h : m.space? pid = none) :
    (space pid : Paged g _).run m = ⟨.error (.error (.unknownProcess pid)), m, []⟩ := by
  simp [space, h]

@[simp] theorem run_setState (pid : ProcessId) (page : PageNumber) (state : PageState) :
    (setState pid page state).run m = ⟨.ok (), m.putState ⟨pid, page⟩ state, []⟩ := rfl

@[simp] theorem run_onSwap {α : Type} (x : SwapStore.Store α) :
    (onSwap x).run m = (x.run m.swap).place m (fun s m => { m with swap := s }) id id := rfl

theorem run_translator {cpu : Nat} {u : Translator g.tlbEntries}
    (h : m.translators[cpu]? = some u) : (translator cpu).run m = ⟨.ok u, m, []⟩ := by
  simp [translator, h]

theorem run_translator_none {cpu : Nat} (h : m.translators[cpu]? = none) :
    (translator cpu : Paged g _).run m = ⟨.error beyond, m, []⟩ := by
  simp [translator, h]

@[simp] theorem run_setTranslator (cpu : Nat) (u : Translator g.tlbEntries) :
    (setTranslator cpu u).run m =
      ⟨.ok (), { m with translators := m.translators.setIfInBounds cpu u }, []⟩ := rfl

@[simp] theorem run_stamp :
    (stamp : Paged g Nat).run m =
      ⟨.ok (m.clock.current + 1), { m with clock := m.clock.tick }, []⟩ := rfl

theorem run_page {f : FrameNumber} {p : Page g} (h : m.ram.frame? f = some p) :
    (page f).run m = ⟨.ok p, m, []⟩ := by
  simp [page, h]

theorem run_setPage {f : Nat} (p : Page g) (h : f < g.frameCount) :
    (setPage f p).run m = ⟨.ok (), { m with ram := m.ram.put f p }, []⟩ := by
  rw [setPage, run_update_some]
  rw [m.ram.setFrame?_eq_some p h]
  rfl

theorem run_onFrames {c : FrameTable g.frameCount → Option (FrameTable g.frameCount)}
    {t : FrameTable g.frameCount} (h : c m.frames = some t) :
    (onFrames c).run m = ⟨.ok (), { m with frames := t }, []⟩ := by
  rw [onFrames, run_update_some]
  rw [h]
  rfl

theorem run_list {f : FrameNumber} {p : Page g} (on : Paging.Occasion)
    (h : m.ram.frame? f = some p) :
    (list on f).run m = ⟨.ok (), m, [.listed on f p.toArray]⟩ := by
  simp [list, run_page m h]

end Run

end Pager

end DemandPaging
