import DemandPaging.Proofs.Pager.Missed
import DemandPaging.Proofs.Pager.Ranking
/-!
A memory system without buffers as a stack of pages. What is resident are the pages used latest, as
many as there are frames for; frames, stamps and tokens play no part.
-/

namespace DemandPaging

namespace Pager

open DemandPaging.Action DemandPaging.Paging

/-- What is asked of a memory system whose translators have no buffers. -/
inductive Request where
  | create (pid : ProcessId)
  | allocate (pid : ProcessId) (start count : Nat)
  | release (pid : ProcessId)
  | touch (cpu : Nat) (pid : ProcessId) (a : VirtualAddress)

variable {g : Geometry}

def Request.serve (m : Pager g) : Request → Pager g
  | .create pid => ((Pager.create pid).run m).state
  | .allocate pid start count => ((Pager.allocate pid start count).run m).state
  | .release pid => ((Pager.release pid).run m).state
  | .touch cpu pid a => ((Pager.touch cpu pid a).run m).state

/-- A process gets an address space only while it has none, and no page is touched while the swap
store holds an image under every token. -/
def Request.Permitted (m : Pager g) : Request → Prop
  | .create pid => m.space? pid = none
  | .touch .. => m.swap.size < wordBound
  | _ => True

end Pager

theorem Translator.tlb_forget {n : Nat} {u : Translator n} (h : u.tlb = none) (pid : ProcessId) :
    (u.forget pid).tlb = none := by
  unfold forget
  split
  · rw [h]; rfl
  · exact h

theorem Translator.purge_unbuffered {n : Nat} {u : Translator n} (h : u.tlb = none)
    (pid : ProcessId) (page : PageNumber) : (u.purge pid page).2 = u := by
  rw [purge, h]

def PageState.isUsed (s : PageState) : Bool := s ≠ .unmapped

/-- A memory system without its frames: which processes there are, which of their pages were ever
used, and which are resident, the latest used first. -/
structure LruStack where
  units : Nat
  live : ProcessId → Bool := fun _ => false
  used : FrameOwner → Option Bool := fun _ => none
  recent : List FrameOwner := []
  misses : Nat := 0

namespace LruStack

open DemandPaging.Pager

/-- A page is used. One that is not allocated is only missed. -/
def touch (k : LruStack) (frames : Nat) (o : FrameOwner) : LruStack :=
  if (k.used o).isSome then
    { k with
      used := Function.update k.used o (some true)
      recent := promote frames o k.recent
      misses := if o ∈ k.recent then k.misses else k.misses + 1 }
  else { k with misses := k.misses + 1 }

def serve (g : Geometry) (k : LruStack) : Request → LruStack
  | .create pid => if pid < maxSpaces then { k with live := Function.update k.live pid true } else k
  | .allocate pid start count =>
    if k.live pid ∧ start + count ≤ g.pageCount ∧
        ∀ p ∈ List.range' start count, k.used ⟨pid, p⟩ = none then
      { k with
        used := fun o =>
          if o.pid = pid ∧ start ≤ o.page ∧ o.page < start + count then some false else k.used o }
    else k
  | .release pid =>
    { k with
      live := Function.update k.live pid false
      used := fun o => if o.pid = pid then none else k.used o
      recent := k.recent.filter fun o => o.pid ≠ pid }
  | .touch cpu pid a =>
    if cpu < k.units ∧ k.live pid then k.touch g.frameCount ⟨pid, g.pageOf a⟩ else k

end LruStack

namespace Pager

open DemandPaging.Action DemandPaging.Paging

variable {g : Geometry} {m m' : Pager g} {k : LruStack} {cpu : Nat}
  {u : Translator g.tlbEntries} {pid : ProcessId} {o : FrameOwner} {f : FrameNumber}

def Unbuffered (m : Pager g) : Prop :=
  ∀ (c : Nat) (u : Translator g.tlbEntries), m.translators[c]? = some u → u.tlb = none

theorem Unbuffered.withTranslator (h : Unbuffered m) (hu : m.translators[cpu]? = some u)
    {v : Translator g.tlbEntries} (hv : v.tlb = none) : Unbuffered (m.withTranslator cpu v) := by
  intro c w hw
  rw [getElem?_withTranslator hu] at hw
  split at hw
  · exact Option.some.inj hw ▸ hv
  · exact h c w hw

structure Mirrors (m : Pager g) (k : LruStack) : Prop extends Ranked m k.recent where
  unbuffered : m.Unbuffered
  units : m.translators.size = k.units
  live : ∀ pid, (m.space? pid).isSome = k.live pid
  used : ∀ o, (m.stateOf o).map PageState.isUsed = k.used o
  misses : m.missed = k.misses

theorem mirrors_new (g : Geometry) (units : Nat) :
    Mirrors (new g (List.replicate units false)) { units } := by
  have hst (o) : (new g (List.replicate units false)).stateOf o = none :=
    stateOf_of_no_space rfl o.page
  refine ⟨⟨sound_new g _, past_new g _, fun o => by simp [hst], .nil⟩, fun c u hu => ?_, ?_,
    fun _ => rfl, fun o => by simp [hst], missed_new g _⟩
  · obtain ⟨useTlb, hmem, rfl⟩ := getElem?_new hu
    obtain rfl := List.eq_of_mem_replicate hmem
    rfl
  · simp [new]

theorem Mirrors.create (hk : Mirrors m k) (hs : m.space? pid = none) :
    Mirrors ((Request.create pid).serve m) (k.serve g (.create pid)) := by
  have hst := stateOf_createSpace hs
  simp only [Request.serve, run_create, LruStack.serve]
  split
  · have huses : Uses none [] m (m.createSpace pid) :=
      uses_of_spaces rfl rfl rfl fun o f ho => hst ▸ ho
    refine ⟨hk.keep (sound_createSpace hk.sound hs) huses (.refl _)
      fun o => by rw [hst]; exact hk.mem_iff o, hk.unbuffered, hk.units, fun q => ?_,
      fun o => by rw [hst]; exact hk.used o, hk.misses⟩
    dsimp only
    rw [space?_createSpace, Function.update_apply]
    by_cases hq : pid = q
    · rw [if_pos hq, if_pos hq.symm]; rfl
    · rw [if_neg hq, if_neg (Ne.symm hq)]; exact hk.live q
  · exact hk

theorem Mirrors.allocate (hk : Mirrors m k) (start count : Nat) :
    Mirrors ((Request.allocate pid start count).serve m)
      (k.serve g (.allocate pid start count)) := by
  have hst := stateOf_allocate m pid start count
  have huses : Uses none [] m _ := (allocated m pid start count).uses
  obtain ⟨r, m', es, hrun, hm', hspaces, htrans, -⟩ := run_allocate hk.sound pid start count
  have hserve : (Request.allocate pid start count).serve m = m' := congrArg Outcome.state hrun
  rw [hrun] at hst huses
  rw [hserve]
  have hmem (o) : o ∈ k.recent ↔ ∃ f, m'.stateOf o = some (.resident f) := by
    rw [hk.mem_iff, hst]
    split
    · next hc =>
      obtain ⟨-, -, hnone, rfl, hp⟩ := hc
      simp [hnone o.page (List.mem_range'_1.mpr hp)]
    · rfl
  have hgrant : (k.live pid ∧ start + count ≤ g.pageCount ∧
      ∀ p ∈ List.range' start count, k.used ⟨pid, p⟩ = none) ↔
      (m.space? pid).isSome ∧ start + count ≤ g.pageCount ∧
        ∀ p ∈ List.range' start count, m.stateOf ⟨pid, p⟩ = none := by
    simp only [← hk.live, ← hk.used, Option.map_eq_none_iff]
  have hkept := hk.keep hm' huses (.refl _) hmem
  have hbare : m'.Unbuffered := fun c u hu => hk.unbuffered c u (htrans ▸ hu)
  have hunits : m'.translators.size = k.units := by rw [htrans, hk.units]
  have hlive (q) : (m'.space? q).isSome = k.live q := by rw [hspaces, hk.live]
  have hmisses : m'.missed = k.misses := by rw [missed_congr htrans, hk.misses]
  simp only [LruStack.serve, hgrant]
  split
  · next hg =>
    refine ⟨hkept, hbare, hunits, hlive, fun o => ?_, hmisses⟩
    dsimp only
    rw [hst, ← hk.used]
    by_cases ho : o.pid = pid ∧ start ≤ o.page ∧ o.page < start + count
    · rw [if_pos ⟨hg.1, hg.2.1, hg.2.2, ho⟩, if_pos ho]
      rfl
    · rw [if_neg fun hc => ho hc.2.2.2, if_neg ho]
  · next hg =>
    refine ⟨hkept, hbare, hunits, hlive, fun o => ?_, hmisses⟩
    rw [hst, if_neg fun hc => hg ⟨hc.1, hc.2.1, hc.2.2.1⟩]
    exact hk.used o

theorem release_vacates (h : m.Sound) (pid : ProcessId) :
    ∃ m', ((release pid).run m).state = m' ∧ m'.Sound ∧ Uses none [] m m' ∧
      (∀ q, m'.space? q = if q = pid then none else m.space? q) ∧
      (m'.translators = m.translators ∨ m'.translators = m.translators.map (·.forget pid)) := by
  cases hs : m.space? pid with
  | none =>
    refine ⟨m, congrArg Outcome.state (run_release_none hs), h, .refl m, fun q => ?_, .inl rfl⟩
    split
    · next hq => rw [hq, hs]
    · rfl
  | some s =>
    obtain ⟨frames, swap, es, hrun, -, hb, hgive⟩ := run_release_some h hs
    exact ⟨_, congrArg Outcome.state hrun, sound_vacated h hs hb,
      uses_vacated h pid hgive.stamps swap, space?_vacated m pid frames swap, .inr rfl⟩

theorem Mirrors.release (hk : Mirrors m k) :
    Mirrors ((Request.release pid).serve m) (k.serve g (.release pid)) := by
  obtain ⟨m', hserve, hm', huses, hspace, htrans⟩ := release_vacates hk.sound pid
  have hst (o : FrameOwner) : m'.stateOf o = if o.pid = pid then none else m.stateOf o := by
    rw [stateOf, state?, hspace]
    split <;> rfl
  have hmisses : m'.missed = m.missed := hserve ▸ leaves_missed_release pid m
  rw [show (Request.release pid).serve m = m' from hserve]
  refine ⟨hk.keep hm' huses List.filter_sublist fun o => ?_, fun c u hu => ?_, ?_, fun q => ?_,
    fun o => ?_, hmisses.trans hk.misses⟩
  · simp only [LruStack.serve, List.mem_filter, hk.mem_iff, hst]
    by_cases ho : o.pid = pid <;> simp [ho]
  · rcases htrans with htrans | htrans
    · exact hk.unbuffered c u (htrans ▸ hu)
    · rw [htrans, Array.getElem?_map] at hu
      obtain ⟨w, hw, rfl⟩ := Option.map_eq_some_iff.mp hu
      exact Translator.tlb_forget (hk.unbuffered c w hw) pid
  · rcases htrans with htrans | htrans
    · rw [htrans]
      exact hk.units
    · rw [htrans, Array.size_map]
      exact hk.units
  · rw [hspace]
    simp only [LruStack.serve, Function.update_apply]
    split
    · rfl
    · exact hk.live q
  · rw [hst]
    simp only [LruStack.serve]
    split
    · rfl
    · exact hk.used o

/-! Touching a page. -/

theorem uses_touched (h : m.Sound) (hu : m.translators[cpu]? = some u)
    (hr : m.stateOf o = some (.resident f)) :
    Uses none [o] m ((m.walked f).withTranslator cpu u.countHit) :=
  (uses_walked h hr).trans (uses_withTranslator (m := m.walked f) hu rfl) (by simp)

theorem sound_touched (h : m.Sound) (hu : m.translators[cpu]? = some u) (ht : u.tlb = none)
    (f : FrameNumber) : ((m.walked f).withTranslator cpu u.countHit).Sound := by
  have hw := (steady_walked m f).agrees_of_translators_eq h rfl
  refine agrees_withTranslator hw hu (Translator.coherent_of_cached_eq_nil ?_)
  simp [Translator.cached, Translator.countHit, ht]

theorem touch_homeless (hu : m.translators[cpu]? = some u) (hs : m.space? pid = none)
    (a : VirtualAddress) : ((touch cpu pid a).run m).state = m := by
  simp [touch, run_translate_homeless hu hs a, handleFault, Access.isIllegal, run_space_none m hs]

theorem touch_hit (h : m.Sound) (hu : m.translators[cpu]? = some u) (ht : u.tlb = none)
    {a : VirtualAddress} (hr : m.stateOf ⟨pid, g.pageOf a⟩ = some (.resident f)) :
    ((touch cpu pid a).run m).state = (m.walked f).withTranslator cpu u.countHit := by
  simp [touch, run_translate_walked h hu ht a hr]

theorem touch_unallocated (hu : m.translators[cpu]? = some u) (ht : u.tlb = none)
    {s : AddressSpace g} (hs : m.space? pid = some s) {a : VirtualAddress}
    (hn : m.stateOf ⟨pid, g.pageOf a⟩ = none) :
    ((touch cpu pid a).run m).state = m.withTranslator cpu u.countFault := by
  have htrans := run_translate_absent hu ht hs a (by rw [hn]; rfl)
  rcases run_handleFault_cases (m.withTranslator cpu u.countFault) pid a .data with
    ⟨r, es, hrun, -, -, ha⟩ | ⟨s, -, hst, -⟩
  · match r, ha with
    | .error e, _ => simp [touch, htrans, hrun]
    | .ok (.violation v), _ => simp [touch, htrans, hrun]
    | .ok (.resolved f), ha => exact absurd (hn.symm.trans ha.2.2) nofun
  · exact absurd (hn.symm.trans hst) nofun

theorem Unbuffered.translators_filled (hm : m.Unbuffered) {s : PageState}
    (hf : Taken m m' o s f ∨ ∃ v t, Stolen m m' o s f v t) : m'.translators = m.translators := by
  rcases hf with hf | ⟨v, t, hf⟩
  · exact hf.units
  · refine Array.ext_getElem? fun c => ?_
    rw [hf.units]
    cases hu : m.translators[c]? with
    | none => rfl
    | some u => exact congrArg some (Translator.purge_unbuffered (hm c u hu) v.pid v.page)

theorem resident_filled {s : PageState} (hf : Taken m m' o s f ∨ ∃ v t, Stolen m m' o s f v t) :
    m'.stateOf o = some (.resident f) := by
  rcases hf with hf | ⟨v, t, hf⟩
  · rw [hf.entries, Function.update_self]
  · rw [hf.entries, Function.update_self]

theorem used_filled {s : PageState} (hf : Taken m m' o s f ∨ ∃ v t, Stolen m m' o s f v t)
    (q : FrameOwner) : (m'.stateOf q).map PageState.isUsed =
      if q = o then some true else (m.stateOf q).map PageState.isUsed := by
  rcases hf with hf | ⟨v, t, hf⟩
  · rw [hf.entries, Function.update_apply]
    split <;> rfl
  · rw [hf.entries, Function.update_apply, Function.update_apply]
    split
    · rfl
    · split
      · next hq => rw [hq, hf.resident]; rfl
      · rfl

theorem filled_of_fill {s : PageState} (hf : Taken m m' o s f ∨ ∃ v t, Stolen m m' o s f v t) :
    Filled m m' o s f := by
  rcases hf with hf | ⟨v, t, hf⟩
  · exact hf.toFilled
  · exact hf.toFilled

theorem touch_fill (h : m.Sound) (hm : m.Unbuffered) (hu : m.translators[cpu]? = some u)
    (hroom : m.swap.size < wordBound) {a : VirtualAddress} {s : PageState}
    (hs : m.stateOf ⟨pid, g.pageOf a⟩ = some s) (hn : s.isResident = false) :
    ∃ f m₂ es, (bringIn ⟨pid, g.pageOf a⟩ s).run (m.withTranslator cpu u.countFault) =
        ⟨.ok f, m₂, es⟩ ∧
      (Taken (m.withTranslator cpu u.countFault) m₂ ⟨pid, g.pageOf a⟩ s f ∨
        ∃ v t, Stolen (m.withTranslator cpu u.countFault) m₂ ⟨pid, g.pageOf a⟩ s f v t) ∧
      m₂.Sound ∧ m₂.translators[cpu]? = some u.countFault ∧
      ((touch cpu pid a).run m).state = (m₂.walked f).withTranslator cpu u.countFault.countHit := by
  have ht := hm cpu u hu
  obtain ⟨t, hspace, hpage⟩ := exists_space_of_stateOf hs
  have htrans := run_translate_absent hu ht hspace a (by
    rw [hs]
    cases s with
    | resident f => exact absurd hn nofun
    | _ => rfl)
  have hsound : (m.withTranslator cpu u.countFault).Sound :=
    agrees_withTranslator h hu (v := u.countFault) (h.buffers cpu u hu)
  have hfault : (handleFault pid a .data).run (m.withTranslator cpu u.countFault) =
      ((bringIn ⟨pid, g.pageOf a⟩ s).run (m.withTranslator cpu u.countFault)).andThen
        fun f => pure (.resolved f) :=
    run_handleFault_absent rfl hspace hpage hn
  rcases bringIn_footprint hsound hs hn with ⟨f, m₂, es, hbring, hf⟩ | ⟨_, _, -, -, hfull⟩
  · have hm₂ : m₂.Sound := by
      have hm₂ := sound_bringIn hsound hs hn
      rwa [hbring] at hm₂
    have hu₂ : m₂.translators[cpu]? = some u.countFault := by
      rw [(hm.withTranslator hu (v := u.countFault) ht).translators_filled hf,
        getElem?_withTranslator hu, if_pos rfl]
    refine ⟨f, m₂, es, hbring, hf, hm₂, hu₂, ?_⟩
    rw [hbring] at hfault
    have hagain := run_translate_walked hm₂ hu₂ ht a (resident_filled hf)
    simp [touch, htrans, hfault, hagain]
  · exact absurd hroom (Nat.not_lt.mpr hfull)

section Touch

variable (hk : Mirrors m k) (hu : m.translators[cpu]? = some u)

include hk hu

theorem Mirrors.counted : Ranked (m.withTranslator cpu u.countFault) k.recent :=
  have huses : Uses none [] m (m.withTranslator cpu u.countFault) := uses_withTranslator hu rfl
  hk.keep (agrees_withTranslator hk.sound hu (v := u.countFault) (hk.sound.buffers cpu u hu)) huses
    (.refl _) hk.mem_iff

theorem Mirrors.missed_counted :
    (m.withTranslator cpu u.countFault).missed = k.misses + 1 := by
  have hmissed := missed_withTranslator hu u.countFault
  simp only [Translator.countFault, ← hk.misses] at hmissed ⊢
  omega

theorem Mirrors.pass (ho : m.stateOf o = none) :
    Mirrors (m.withTranslator cpu u.countFault) (k.touch g.frameCount o) := by
  have hused : ¬(k.used o).isSome := by simp [← hk.used, ho]
  rw [LruStack.touch, if_neg hused]
  refine ⟨hk.counted hu, hk.unbuffered.withTranslator hu (hk.unbuffered cpu u hu), ?_, hk.live,
    hk.used, hk.missed_counted hu⟩
  rw [withTranslator, Array.size_setIfInBounds]
  exact hk.units

theorem Mirrors.hit (ho : m.stateOf o = some (.resident f)) :
    Mirrors ((m.walked f).withTranslator cpu u.countHit) (k.touch g.frameCount o) := by
  have ht := hk.unbuffered cpu u hu
  have hused : k.used o = some true := by rw [← hk.used, ho]; rfl
  have hmem : o ∈ k.recent := (hk.mem_iff o).mpr ⟨f, ho⟩
  have hwalked : (m.walked f).Unbuffered := hk.unbuffered
  rw [LruStack.touch, if_pos (by rw [hused]; rfl), if_pos hmem]
  refine ⟨hk.toRanked.hit (sound_touched hk.sound hu ht f) (uses_touched hk.sound hu ho) rfl ho,
    hwalked.withTranslator hu ht, ?_, hk.live, fun q => ?_, ?_⟩
  · rw [withTranslator, Array.size_setIfInBounds]
    exact hk.units
  · rw [← hused, Function.update_eq_self]
    exact hk.used q
  · exact (missed_withTranslator_of_eq (m := m.walked f) hu (v := u.countHit) rfl).trans hk.misses

end Touch

theorem Mirrors.fill (hk : Mirrors m k) (hu : m.translators[cpu]? = some u) {s : PageState}
    (hs : m.stateOf o = some s) (hn : s.isResident = false) {m₂ : Pager g} {es : List Event}
    (hbring : (bringIn o s).run (m.withTranslator cpu u.countFault) = ⟨.ok f, m₂, es⟩)
    (hf : Taken (m.withTranslator cpu u.countFault) m₂ o s f ∨
      ∃ v t, Stolen (m.withTranslator cpu u.countFault) m₂ o s f v t) (hm₂ : m₂.Sound)
    (hu₂ : m₂.translators[cpu]? = some u.countFault) :
    Mirrors ((m₂.walked f).withTranslator cpu u.countFault.countHit)
      (k.touch g.frameCount o) := by
  have ht := hk.unbuffered cpu u hu
  have hused : (k.used o).isSome := by simp [← hk.used, hs]
  have hmem : o ∉ k.recent := by
    intro ho
    obtain ⟨i, hi⟩ := (hk.mem_iff o).mp ho
    obtain rfl := Option.some.inj (hs.symm.trans hi)
    exact absurd hn nofun
  have hfirst := hk.counted hu
  have huses : Uses none [o] (m.withTranslator cpu u.countFault) m₂ := by
    have huses : Uses none _ _ _ := (broughtIn hfirst.sound hs hn).uses hfirst.sound
    rwa [hbring] at huses
  have hbare := hk.unbuffered.withTranslator hu (v := u.countFault) ht
  have htrans := hbare.translators_filled hf
  have hbare₂ : (m₂.walked f).Unbuffered := fun c w hw => hbare c w (htrans ▸ hw)
  have hranked := (hfirst.fill hm₂ huses hs hn hf).hit (sound_touched hm₂ hu₂ ht f)
    (uses_touched hm₂ hu₂ (resident_filled hf)) rfl (resident_filled hf)
  rw [promote_promote] at hranked
  rw [LruStack.touch, if_pos hused, if_neg hmem]
  refine ⟨hranked, hbare₂.withTranslator hu₂ ht, ?_, fun q => ?_, fun q => ?_, ?_⟩
  · rw [withTranslator, Array.size_setIfInBounds]
    change m₂.translators.size = _
    rw [htrans, withTranslator, Array.size_setIfInBounds]
    exact hk.units
  · exact ((filled_of_fill hf).processes q).trans (hk.live q)
  · dsimp only
    rw [Function.update_apply, ← hk.used]
    exact used_filled hf q
  · rw [missed_withTranslator_of_eq (m := m₂.walked f) hu₂ (v := u.countFault.countHit) rfl]
    exact (missed_congr htrans).trans (hk.missed_counted hu)

theorem Mirrors.touch (hk : Mirrors m k) (hroom : m.swap.size < wordBound) (a : VirtualAddress) :
    Mirrors ((Request.touch cpu pid a).serve m) (k.serve g (.touch cpu pid a)) := by
  simp only [Request.serve, LruStack.serve]
  cases hu : m.translators[cpu]? with
  | none =>
    have hcpu : ¬cpu < k.units := by
      rw [← hk.units]
      simpa using hu
    have hrun : ((Pager.touch cpu pid a).run m).state = m := by
      simp [Pager.touch, translate, run_translator_none m hu]
    rw [hrun, if_neg fun hc => hcpu hc.1]
    exact hk
  | some u =>
  have hcpu : cpu < k.units := by
    rw [← hk.units]
    exact (Array.getElem?_eq_some_iff.mp hu).1
  have ht := hk.unbuffered cpu u hu
  cases hspace : m.space? pid with
  | none =>
    rw [touch_homeless hu hspace a, if_neg fun hc => by simp [← hk.live, hspace] at hc]
    exact hk
  | some _ =>
  rw [if_pos ⟨hcpu, by rw [← hk.live, hspace]; rfl⟩]
  cases hs : m.stateOf ⟨pid, g.pageOf a⟩ with
  | none => exact touch_unallocated hu ht hspace hs ▸ hk.pass hu hs
  | some s =>
    cases hn : s.isResident with
    | false =>
      obtain ⟨f, m₂, es, hbring, hf, hm₂, hu₂, hrun⟩ :=
        touch_fill hk.sound hk.unbuffered hu hroom hs hn
      exact hrun ▸ hk.fill hu hs hn hbring hf hm₂ hu₂
    | true =>
      cases s with
      | resident f => exact touch_hit hk.sound hu ht hs ▸ hk.hit hu hs
      | _ => simp [PageState.isResident, PageState.frame?] at hn

theorem Mirrors.serve (hk : Mirrors m k) (r : Request) (hp : r.Permitted m) :
    Mirrors (r.serve m) (k.serve g r) := by
  cases r with
  | create pid => exact hk.create hp
  | allocate pid start count => exact hk.allocate start count
  | release pid => exact hk.release
  | touch cpu pid a => exact hk.touch hp a

theorem Mirrors.swapped_iff (hk : Mirrors m k) (o : FrameOwner) :
    (∃ t, m.stateOf o = some (.swapped t)) ↔ k.used o = some true ∧ o ∉ k.recent := by
  rw [hk.mem_iff, ← hk.used]
  cases hs : m.stateOf o with
  | none => simp
  | some s => cases s <;> simp [PageState.isUsed]

end Pager

end DemandPaging
