import DemandPaging.Proofs.Pager.Recency
import Mathlib.Data.Fintype.Card
/-!
Systems in which no mapping is ever displaced: those without buffers, and those whose buffers have
an entry for every frame. There faults always steal the frame of the page referenced least recently.
-/

namespace DemandPaging

namespace Pager

open DemandPaging.Action DemandPaging.Paging

variable {g : Geometry} {m m' : Pager g} {useTlbs : List Bool} {cpu : Nat}
  {u : Translator g.tlbEntries} {f : FrameNumber} {o : FrameOwner}

theorem lt_of_steal (h : m.Sound) (hu : m.translators[cpu]? = some u) {t t' : Tlb g.tlbEntries}
    (ht : u.tlb = some t) (ho : u.owner = some o.pid) (hmiss : ∀ f, ¬t.Maps o.page f)
    (hr : m.stateOf o = some (.resident f)) {stamp i : Nat} {p : PageNumber} {j : FrameNumber}
    (hi : t.install? o.page f stamp = some (.steal i p j, t')) : g.tlbEntries < g.frameCount := by
  have hfull := Tlb.valid_of_steal hi
  obtain ⟨hunique, hmaps⟩ := h.buffers cpu u hu t ht
  have hres (k : Fin g.tlbEntries) :
      m.stateOf ⟨o.pid, (t.slots.get k).page⟩ = some (.resident (t.slots.get k).frame) := by
    obtain ⟨q, hq, hst⟩ := hmaps _ _ ⟨k, hfull k, rfl, rfl⟩
    rwa [← Option.some.inj (ho.symm.trans hq)] at hst
  let frame (k : Fin g.tlbEntries) : Fin g.frameCount :=
    ⟨(t.slots.get k).frame, h.resident_lt (hres k)⟩
  have hinj : Function.Injective frame := by
    intro k l hkl
    have hframe : (t.slots.get k).frame = (t.slots.get l).frame := Fin.val_eq_of_eq hkl
    have hpage := h.books.eq_of_resident (hres k) (hframe ▸ hres l)
    exact hunique k l (hfull k) (hfull l) (FrameOwner.mk.inj hpage).2
  -- the frame of the page that comes in has no slot
  have hnew : (⟨f, h.resident_lt hr⟩ : Fin g.frameCount) ∉ Set.range frame := by
    rintro ⟨k, hk⟩
    have hframe : (t.slots.get k).frame = f := Fin.val_eq_of_eq hk
    have hpage := h.books.eq_of_resident hr (hframe ▸ hres k)
    exact hmiss f ⟨k, hfull k, by rw [hpage], hframe⟩
  simpa using Fintype.card_lt_of_injective_of_notMem frame hinj hnew

/-- There are no buffers, or each has an entry for every frame. -/
def Roomy (m : Pager g) : Prop :=
  g.frameCount ≤ g.tlbEntries ∨ ∀ (c : Nat) (u : Translator g.tlbEntries),
    m.translators[c]? = some u → u.tlb = none

theorem Roomy.of_translators_eq (h : m.Roomy) (ht : m'.translators = m.translators) : m'.Roomy :=
  h.imp_right fun hnone c u hu => hnone c u (ht ▸ hu)

theorem Roomy.withTranslator (h : m.Roomy) (hu : m.translators[cpu]? = some u)
    {v : Translator g.tlbEntries} (hv : u.tlb = none → v.tlb = none) :
    (m.withTranslator cpu v).Roomy := by
  refine h.imp_right fun hnone c w hw => ?_
  rw [getElem?_withTranslator hu] at hw
  split at hw
  · exact Option.some.inj hw ▸ hv (hnone cpu u hu)
  · exact hnone c w hw

theorem Roomy.map (h : m.Roomy) {change : Translator g.tlbEntries → Translator g.tlbEntries}
    (ht : m'.translators = m.translators.map change)
    (hc : ∀ u, u.tlb = none → (change u).tlb = none) : m'.Roomy := by
  refine h.imp_right fun hnone c u hu => ?_
  rw [ht, Array.getElem?_map] at hu
  obtain ⟨v, hv, rfl⟩ := Option.map_eq_some_iff.mp hu
  exact hc v (hnone c v hv)

theorem roomy_new (h : g.frameCount ≤ g.tlbEntries ∨ ∀ b ∈ useTlbs, b = false) :
    (new g useTlbs).Roomy := by
  refine h.imp_right fun hnone c u hu => ?_
  obtain ⟨useTlb, hmem, rfl⟩ := getElem?_new hu
  rw [hnone useTlb hmem]
  rfl

/-- What is left is as roomy as before, and nothing was displaced. -/
def Spares {α : Type} (out : Outcome Event (Failure MemoryError) (Pager g) α) : Prop :=
  out.state.Roomy ∧ ∀ e ∈ out.events, e.displaces = false

theorem spares_of_eq {α : Type} (h : m.Roomy) (r : Except (Failure MemoryError) α) :
    Spares ⟨r, m, []⟩ := ⟨h, nofun⟩

theorem Allocated.spares {pid : ProcessId} {start count : Nat}
    {out : Outcome Event (Failure MemoryError) (Pager g) Bool} (h : m.Roomy)
    (hout : Allocated m pid start count out) : Spares out := by
  cases hout with
  | beyond _ _ => exact ⟨h.of_translators_eq rfl, by simp [Event.displaces]⟩
  | _ => exact ⟨h.of_translators_eq rfl, nofun⟩

theorem displaces_walkEvents (cpu : Nat) (page : PageNumber) (w : Walk) :
    ∀ e ∈ walkEvents cpu page w, e.displaces = false := by
  cases w <;> simp [walkEvents, Event.displaces]

theorem Translating.spares (hm : m.Sound) (h : m.Roomy) (hu : m.translators[cpu]? = some u)
    (ho : u.owner = some o.pid)
    {out : Outcome Event (Failure MemoryError) (Pager g) (Option FrameNumber)}
    (hout : Translating cpu u o m out) : Spares out := by
  cases hout with
  | homeless _ => exact spares_of_eq h _
  | absent hk _ =>
    rcases hk with rfl | rfl
    · exact ⟨h.withTranslator hu id, displaces_walkEvents _ _ _⟩
    · exact ⟨(h.of_translators_eq rfl).withTranslator hu id, displaces_walkEvents _ _ _⟩
  | walked _ _ => exact ⟨(h.of_translators_eq rfl).withTranslator hu id, by simp [Event.displaces]⟩
  | known ht _ =>
    exact ⟨(h.of_translators_eq rfl).withTranslator hu (by simp [ht]), by simp [Event.displaces]⟩
  | @loaded t t' f load ht hmiss hr hi =>
    refine ⟨(h.of_translators_eq rfl).withTranslator hu (by simp [ht]), ?_⟩
    cases load with
    | clean i => simp [Translator.loadEvent, Event.displaces]
    | steal i p j =>
      have hlt := lt_of_steal hm hu ht ho hmiss hr hi
      rcases h with h | h
      · omega
      · simp [h cpu u hu] at ht

theorem Obtained.spares {es : List Event} (h : m.Roomy) (hf : Obtained m o f m' es) :
    m'.Roomy ∧ ∀ e ∈ es, e.displaces = false := by
  cases hf with
  | free _ => exact ⟨h.of_translators_eq rfl, by simp [Event.displaces]⟩
  | stolen _ _ _ _ =>
    refine ⟨h.map (translators_evicted ..) fun u hu => ?_, by simp [Event.displaces]⟩
    rw [Translator.purge, hu]
    exact hu

theorem BroughtIn.spares {s : PageState} (h : m.Roomy)
    {out : Outcome Event (Failure MemoryError) (Pager g) FrameNumber} (hout : BroughtIn m o s out) :
    Spares out := by
  have hk : (m.flushedBy m.slots).Roomy := h.of_translators_eq rfl
  cases hout with
  | settled hf _ _ hes =>
    obtain ⟨hk', hes'⟩ := hf.spares hk
    refine ⟨hk'.of_translators_eq (translators_settled ..), fun e he => ?_⟩
    exact (List.mem_append.mp he).elim (hes' e) (hes.displaces e)
  | full hes =>
    cases hes with
    | mk _ _ _ => exact ⟨hk, by simp [Event.displaces]⟩

theorem spares_bind_pure {α β : Type} {x : Paged g α} {f : α → β} (h : Spares (x.run m)) :
    Spares ((x >>= fun a => pure (f a)).run m) := by
  rcases hrun : x.run m with ⟨r, m', es⟩
  rw [hrun] at h
  rw [run_bind_pure hrun]
  exact h

theorem spares_handleFault (hm : m.Sound) (h : m.Roomy) (pid : ProcessId) (a : VirtualAddress)
    (access : Access) : Spares ((handleFault pid a access).run m) := by
  rcases run_handleFault_cases m pid a access with ⟨r, es, hrun, hes, -⟩ | ⟨s, -, hs, hn, hrun⟩
  · exact hrun ▸ ⟨h, hes.displaces⟩
  · rw [hrun]
    have hout := (broughtIn hm hs hn).spares h
    rcases hbring : (bringIn ⟨pid, g.pageOf a⟩ s).run m with ⟨r, m', es⟩
    rw [hbring] at hout
    cases r with
    | error e => exact hout
    | ok f => exact ⟨hout.1, fun e he => hout.2 e (List.append_nil es ▸ he)⟩

theorem spares_call (hm : m.Sound) (h : m.Roomy) {flushed : Nat → Bool} (op : Operation)
    (hp : op.Permitted m) (hc : op.Careful flushed m) : Spares ((op.call).run m) := by
  cases op with
  | create pid =>
    refine spares_bind_pure ?_
    rw [run_create]
    split
    · exact ⟨h.of_translators_eq rfl, List.forall_mem_nil _⟩
    · exact spares_of_eq h _
  | allocate pid start count => exact spares_bind_pure ((allocated m pid start count).spares h)
  | dispatch cpu pid =>
    refine spares_bind_pure ?_
    cases hu : m.translators[cpu]? with
    | none =>
      rw [run_dispatch_none hu]
      exact spares_of_eq h _
    | some u =>
      rw [run_dispatch hu]
      refine ⟨h.withTranslator hu fun ht => ?_, fun e he => ?_⟩
      · simp [Translator.dispatch, Translator.switches, ht]
      · dsimp only at he
        split at he
        · obtain rfl := List.mem_singleton.mp he
          rfl
        · simp at he
  | translate cpu pid a =>
    obtain ⟨u, hu, ho⟩ := hp
    exact spares_bind_pure ((translating hm hu pid a).spares hm h hu ho)
  | fault pid a access => exact spares_bind_pure (spares_handleFault hm h pid a access)
  | flush cpu =>
    refine spares_bind_pure ?_
    cases hu : m.translators[cpu]? with
    | none =>
      rw [run_flush_none hu]
      exact spares_of_eq h _
    | some u =>
      rw [run_flush hm hu]
      exact ⟨h.of_translators_eq rfl, List.forall_mem_nil _⟩
  | purge cpu pid page => exact hc.elim
  | forget cpu pid => exact hc.elim
  | release pid =>
    refine spares_bind_pure ?_
    cases hs : m.space? pid with
    | none =>
      rw [run_release_none hs]
      exact spares_of_eq h _
    | some s =>
      obtain ⟨frames, swap, es, hrun, hes, -⟩ := run_release_some hm hs
      have htrans : (m.vacated pid frames swap).translators =
          m.translators.map fun u => u.forget pid := rfl
      rw [hrun]
      refine ⟨h.map htrans fun u hu => ?_, hes.displaces⟩
      rw [Translator.forget, hu]
      split
      · rfl
      · exact hu

theorem Recorded.sound {l : History} (h : Recorded useTlbs l m) : m.Sound := by
  induction h with
  | start => exact sound_new g useTlbs
  | call _ op hp _ ih => exact sound_call ih op hp
  | store _ a w ih => exact sound_storeWord ih a w

theorem Recorded.spares {l : History} (h : Recorded useTlbs l m)
    (hr : g.frameCount ≤ g.tlbEntries ∨ ∀ b ∈ useTlbs, b = false) :
    m.Roomy ∧ ∀ e ∈ l.events, e.displaces = false := by
  induction h with
  | start => exact ⟨roomy_new hr, nofun⟩
  | call h op hp hc ih =>
    obtain ⟨hroomy, hes⟩ := spares_call h.sound ih.1 op hp hc
    exact ⟨hroomy, fun e he => (List.mem_append.mp he).elim (ih.2 e) (hes e)⟩
  | @store l m _ a w ih =>
    obtain ⟨ram, hm⟩ := exists_state_storeWord m a w
    rw [hm]
    exact ⟨ih.1.of_translators_eq rfl, ih.2⟩

theorem roomy_steals_least_recent {l : History} (h : Recorded useTlbs l m)
    (hr : g.frameCount ≤ g.tlbEntries ∨ ∀ b ∈ useTlbs, b = false) {pid : ProcessId}
    {a : VirtualAddress} {access : Access} {f : FrameNumber} {v o : FrameOwner}
    (he : .stealing f v o ∈ ((handleFault pid a access).run m).events) :
    m.stateOf v = some (.resident f) ∧ v ∈ l.refs ∧
      ∀ q i, m.stateOf q = some (.resident i) → q ≠ v → l.refs.idxOf q < l.refs.idxOf v :=
  (h.ordered (h.spares hr).2).victim he

end Pager

end DemandPaging
