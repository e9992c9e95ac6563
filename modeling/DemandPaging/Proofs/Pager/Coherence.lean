import DemandPaging.Proofs.Pager.Reachable
/-!
Buffers in a system in use. Whatever a translator has cached is what the page table of its process
says, so translating with a buffer or without one makes no difference.
-/

namespace DemandPaging.Pager

variable {g : Geometry} {m : Pager g} {u : Translator g.tlbEntries} {c : Nat} {pid : ProcessId}

/-- The buffers know what the page tables say and nothing else. -/
structure Coherent (m : Pager g) : Prop where
  slots : ∀ (c : Nat) (u : Translator g.tlbEntries) (t : Tlb g.tlbEntries),
    m.translators[c]? = some u → u.tlb = some t →
      ∀ i, (t.slots.get i).valid = true → ∃ pid, u.owner = some pid ∧ (m.space? pid).isSome ∧
        m.state? pid (t.slots.get i).page = some (.resident (t.slots.get i).frame)
  unique : ∀ (c : Nat) (u : Translator g.tlbEntries) (t : Tlb g.tlbEntries),
    m.translators[c]? = some u → u.tlb = some t → t.Unique
  translates : ∀ (c : Nat) (u : Translator g.tlbEntries) (pid : ProcessId) (a : VirtualAddress),
    m.translators[c]? = some u → u.owner = some pid →
      ∃ r, ((translate c pid a).run m).answer = .ok r ∧
        ∀ f, r = some f ↔ m.state? pid (g.pageOf a) = some (.resident f)
  unbuffered : ∀ (c : Nat) (u : Translator g.tlbEntries) (pid : ProcessId) (a : VirtualAddress),
    m.translators[c]? = some u → u.owner = some pid →
      ((translate c pid a).run (m.withTranslator c { u with tlb := none })).answer =
        ((translate c pid a).run m).answer
  resolved : ∀ (pid : ProcessId) (a : VirtualAddress) (access : Access) (f : FrameNumber),
    ((handleFault pid a access).run m).answer = .ok (.resolved f) →
      ∀ (c : Nat) (u : Translator g.tlbEntries),
        ((handleFault pid a access).run m).state.translators[c]? = some u → u.owner = some pid →
          ((translate c pid a).run ((handleFault pid a access).run m).state).answer = .ok (some f)

theorem isSome_space?_of_state? {page : PageNumber} {s : PageState}
    (h : m.state? pid page = some s) : (m.space? pid).isSome := by
  obtain ⟨space, hspace, -⟩ := Option.bind_eq_some_iff.mp h
  rw [hspace]
  rfl

theorem answer_translate (h : m.Sound) (hu : m.translators[c]? = some u)
    (ho : u.owner = some pid) (a : VirtualAddress) :
    ((translate c pid a).run m).answer =
      .ok ((m.stateOf ⟨pid, g.pageOf a⟩).bind PageState.frame?) := by
  obtain ⟨m', es, hrun, -⟩ := run_translate h hu ho a
  rw [hrun]

theorem answer_translate_unbuffered (h : m.Sound) (hu : m.translators[c]? = some u)
    (ho : u.owner = some pid) (a : VirtualAddress) :
    ((translate c pid a).run (m.withTranslator c { u with tlb := none })).answer =
      ((translate c pid a).run m).answer := by
  have hm : (m.withTranslator c { u with tlb := none }).Sound := agrees_withTranslator h hu nofun
  have hu' : (m.withTranslator c { u with tlb := none }).translators[c]? =
      some { u with tlb := none } := by
    rw [getElem?_withTranslator hu, if_pos rfl]
  rw [answer_translate hm hu' ho, answer_translate h hu ho, (steady_withTranslator m c _).stateOf]

theorem answer_translate_of_resolved (h : m.Sound) {a : VirtualAddress} {access : Access}
    {f : FrameNumber} (hr : ((handleFault pid a access).run m).answer = .ok (.resolved f))
    (hu : ((handleFault pid a access).run m).state.translators[c]? = some u)
    (ho : u.owner = some pid) :
    ((translate c pid a).run ((handleFault pid a access).run m).state).answer = .ok (some f) := by
  obtain ⟨r, m', es, hrun, hm', -, -, ha⟩ := run_handleFault h pid a access
  rw [hrun] at hr hu ⊢
  obtain rfl : r = .ok (.resolved f) := hr
  rw [answer_translate hm' hu ho, ha.2.2]
  rfl

theorem Agrees.coherent (h : m.Sound) : m.Coherent where
  slots c u t hu ht i hi := by
    obtain ⟨pid, ho, hst⟩ := (h.buffers c u hu t ht).2 _ _ ⟨i, hi, rfl, rfl⟩
    exact ⟨pid, ho, isSome_space?_of_state? hst, hst⟩
  unique c u t hu ht := (h.buffers c u hu t ht).1
  translates c u pid a hu ho :=
    ⟨_, answer_translate h hu ho a, fun _ => PageState.bind_frame?_eq_some_iff⟩
  unbuffered c u pid a hu ho := answer_translate_unbuffered h hu ho a
  resolved pid a access f hr c u hu ho := answer_translate_of_resolved h hr hu ho

end DemandPaging.Pager
