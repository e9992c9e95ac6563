import DemandPaging.Proofs.FlatMemory
import DemandPaging.Proofs.Pager.Spaces
/-!
A sound memory system seen as the flat memories of its processes. Frames, tokens and buffers do
not show in this view; reading and writing a word through a frame that a page is resident in reads
and writes the flat memory of the page's process.
-/

namespace DemandPaging

abbrev FlatMemories (g : Geometry) := ProcessId → Option (FlatMemory g)

namespace Pager

open DemandPaging.Action DemandPaging.Paging

variable {g : Geometry} {m m' : Pager g} {pid : ProcessId} {s : AddressSpace g}

def memory (m : Pager g) (pid : ProcessId) : FlatMemory g := fun page =>
  (m.contents ⟨pid, page⟩).map Page.bytes

def flat (m : Pager g) : FlatMemories g := fun pid => (m.space? pid).map fun _ => m.memory pid

theorem flat_eq (m : Pager g) (pid : ProcessId) :
    m.flat pid = if (m.space? pid).isSome then some (m.memory pid) else none := by
  rw [flat]
  cases m.space? pid <;> rfl

theorem flat_eq_some_iff {mem : FlatMemory g} :
    m.flat pid = some mem ↔ (m.space? pid).isSome ∧ m.memory pid = mem := by
  rw [flat_eq]
  split
  · next h => simp [h]
  · next h => simp [h]

theorem memory_congr (hc : ∀ page, m'.contents ⟨pid, page⟩ = m.contents ⟨pid, page⟩) :
    m'.memory pid = m.memory pid := by
  funext page
  rw [memory, hc, memory]

theorem flat_congr (hs : ∀ pid, (m'.space? pid).isSome = (m.space? pid).isSome)
    (hc : m'.contents = m.contents) : m'.flat = m.flat := by
  funext pid
  rw [flat_eq, flat_eq, hs, memory_congr fun page => congrFun hc ⟨pid, page⟩]

theorem Faithful.flat (h : Faithful m m') : m'.flat = m.flat := flat_congr h.spaces h.contents

theorem flat_new (g : Geometry) (useTlbs : List Bool) : (new g useTlbs).flat = fun _ => none := by
  funext pid
  rfl

theorem flat_eq_update (mem : FlatMemory g) (hlive : (m'.space? pid).isSome)
    (hs : ∀ q, q ≠ pid → (m'.space? q).isSome = (m.space? q).isSome)
    (hown : m'.memory pid = mem)
    (hc : ∀ o : FrameOwner, o.pid ≠ pid → m'.contents o = m.contents o) :
    m'.flat = Function.update m.flat pid (some mem) := by
  funext q
  rw [Function.update_apply]
  split
  · next hq => rw [hq, flat_eq, if_pos hlive, hown]
  · next hq =>
    rw [flat_eq, flat_eq, hs q hq, memory_congr fun page => hc ⟨q, page⟩ hq]

theorem memory_of_no_space (hs : m.space? pid = none) : m.memory pid = .empty := by
  funext page
  rw [memory, contents, stateOf_of_no_space hs]
  rfl

theorem space?_createSpace_of_ne {q : ProcessId} (h : q ≠ pid) :
    (m.createSpace pid).space? q = m.space? q := by
  rw [space?_createSpace, if_neg (Ne.symm h)]

theorem flat_createSpace (hs : m.space? pid = none) :
    (m.createSpace pid).flat = Function.update m.flat pid (some .empty) := by
  refine flat_eq_update _ (by rw [space?_createSpace, if_pos rfl]; rfl)
    (fun q hq => by rw [space?_createSpace_of_ne hq]) ?_ fun o _ => by rw [contents_createSpace hs]
  rw [← memory_of_no_space hs]
  exact memory_congr fun page => by rw [contents_createSpace hs]

theorem grants_iff {start count : Nat} : (m.memory pid).grants start count ↔
    start + count ≤ g.pageCount ∧
      ∀ p : Nat, start ≤ p → p < start + count → m.contents ⟨pid, p⟩ = none := by
  simp only [FlatMemory.grants, Bool.and_eq_true, decide_eq_true_eq, List.all_eq_true,
    List.mem_range'_1, memory, Option.isNone_iff_eq_none, Option.map_eq_none_iff, and_imp]

theorem flat_of_allocateAnswer {start count : Nat} {r : Except (Failure MemoryError) Bool}
    (hs : ∀ q, (m'.space? q).isSome = (m.space? q).isSome)
    (h : AllocateAnswer m m' pid start count r) :
    (r = .ok true ↔ ∃ mem, m.flat pid = some mem ∧ mem.grants start count) ∧
      m'.flat = if r = .ok true then
        Function.update m.flat pid (some ((m.memory pid).allocate start count)) else m.flat := by
  match r, h with
  | .ok true, ⟨hlive, hle, hfree, hc⟩ =>
    have hmem := flat_eq_some_iff.mpr ⟨hlive, rfl⟩
    refine ⟨⟨fun _ => ⟨m.memory pid, hmem, grants_iff.mpr ⟨hle, hfree⟩⟩, fun _ => rfl⟩, ?_⟩
    rw [if_pos rfl]
    refine flat_eq_update _ (by rw [hs, hlive]) (fun q _ => hs q) ?_ fun o ho => ?_
    · funext page
      rw [memory, hc, FlatMemory.allocate, memory]
      simp only [true_and]
      split
      · rw [Option.map_some, Page.bytes_zero]
      · rfl
    · rw [hc, if_neg fun hr => ho hr.1]
  | .ok false, ⟨hexceeds, hc⟩ =>
    refine ⟨⟨nofun, ?_⟩, by rw [if_neg nofun, flat_congr hs hc]⟩
    rintro ⟨mem, hmem, hg⟩
    obtain ⟨-, rfl⟩ := flat_eq_some_iff.mp hmem
    exact absurd (grants_iff.mp hg).1 (Nat.not_le.mpr hexceeds)
  | .error e, ⟨hc, hwhy⟩ =>
    refine ⟨⟨nofun, ?_⟩, by rw [if_neg nofun, flat_congr hs hc]⟩
    rintro ⟨mem, hmem, hg⟩
    obtain ⟨hlive, rfl⟩ := flat_eq_some_iff.mp hmem
    obtain ⟨-, hfree⟩ := grants_iff.mp hg
    rcases hwhy with ⟨hdead, -⟩ | ⟨p, q, hp, hp', hsome, -⟩
    · rw [hdead] at hlive
      simp at hlive
    · rw [hfree p hp hp'] at hsome
      simp at hsome

theorem flat_of_released (hs : ∀ q, m'.space? q = if q = pid then none else m.space? q)
    (hc : ∀ o, m'.contents o = if o.pid = pid then none else m.contents o) :
    m'.flat = Function.update m.flat pid none := by
  funext q
  rw [Function.update_apply, flat_eq, hs]
  split
  · rfl
  · next hq =>
    have hmem : m'.memory q = m.memory q := memory_congr fun page => by rw [hc, if_neg hq]
    rw [hmem, flat_eq]

/-! Words. -/

def wrote (m : Pager g) (f : FrameNumber) (p : Page g) : Pager g := { m with ram := m.ram.put f p }

theorem sound_wrote (h : m.Sound) (f : FrameNumber) (p : Page g) : (m.wrote f p).Sound :=
  ⟨h.books, h.buffers⟩

theorem contents_wrote (h : m.Sound) {o : FrameOwner} {f : FrameNumber}
    (ho : m.stateOf o = some (.resident f)) (p : Page g) :
    (m.wrote f p).contents = Function.update m.contents o (some p) := by
  have hlt := h.resident_lt ho
  funext q
  rw [Function.update_apply]
  split
  · next hq =>
    rw [hq, contents_of_resident (m := m.wrote f p) ho]
    exact (m.ram.frame?_put p hlt f).trans (if_pos rfl)
  · next hq =>
    rw [contents, contents]
    change (m.stateOf q).bind _ = _
    cases hs : m.stateOf q with
    | none => rfl
    | some state =>
      cases state with
      | resident i =>
        have hi : i ≠ f := by
          rintro rfl
          exact hq (h.books.eq_of_resident hs ho)
        exact (m.ram.frame?_put p hlt i).trans (if_neg hi)
      | _ => rfl

theorem run_loadWord (h : m.Sound) {pid : ProcessId} {a : VirtualAddress} {f : FrameNumber}
    (ho : m.stateOf ⟨pid, g.pageOf a⟩ = some (.resident f)) :
    ∃ w, (m.memory pid).load? a = some w ∧
      (loadWord (g.physicalAddress f a)).run m = ⟨.ok w, m, []⟩ := by
  have hlt := h.resident_lt ho
  obtain ⟨p, hp⟩ := m.ram.exists_frame? hlt
  have hc := (contents_of_resident ho).trans hp
  refine ⟨p.load (g.pageOffset a), ?_, ?_⟩
  · rw [FlatMemory.load?, memory, hc, Page.load_eq]
    rfl
  · simp [loadWord, Ram.load?, g.frameOf_physicalAddress hlt, hp,
      g.pageOffset_physicalAddress hlt]

theorem run_storeWord (h : m.Sound) {pid : ProcessId} {a : VirtualAddress} {f : FrameNumber}
    (ho : m.stateOf ⟨pid, g.pageOf a⟩ = some (.resident f)) (w : Int32) :
    ∃ m' mem, (storeWord (g.physicalAddress f a) w).run m = ⟨.ok (), m', []⟩ ∧
      (m.memory pid).store? a w = some mem ∧ m'.Sound ∧ m'.stateOf = m.stateOf ∧
      m'.memory pid = mem ∧ (∀ o : FrameOwner, o.pid ≠ pid → m'.contents o = m.contents o) ∧
      m'.spaces = m.spaces ∧ m'.translators = m.translators := by
  have hlt := h.resident_lt ho
  obtain ⟨p, hp⟩ := m.ram.exists_frame? hlt
  have hc := (contents_of_resident ho).trans hp
  have hwrote := contents_wrote h ho (p.store (g.pageOffset a) w)
  have hmem : m.memory pid (g.pageOf a) = some p.bytes := by rw [memory, hc]; rfl
  refine ⟨m.wrote f (p.store (g.pageOffset a) w), _, ?_,
    by rw [FlatMemory.store?, hmem, Option.map_some], sound_wrote h _ _, rfl, ?_, ?_, rfl, rfl⟩
  · rw [storeWord, run_update_some]
    simp [Ram.store?, g.frameOf_physicalAddress hlt, hp, g.pageOffset_physicalAddress hlt,
      m.ram.setFrame?_eq_some _ hlt, wrote]
  · funext page
    rw [memory, hwrote, Function.update_apply, Function.update_apply]
    by_cases hpage : page = g.pageOf a
    · rw [if_pos (by rw [hpage]), if_pos hpage, Option.map_some, Page.bytes_store]
    · rw [if_neg fun he => hpage (FrameOwner.mk.inj he).2, if_neg hpage, memory]
  · intro o hpid
    rw [hwrote, Function.update_of_ne]
    rintro rfl
    exact hpid rfl

end Pager

end DemandPaging
