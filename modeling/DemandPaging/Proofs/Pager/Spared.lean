import DemandPaging.Proofs.Pager.Footprint
import DemandPaging.Proofs.Pager.Past
/-!
The page used last is spared. After a translation no other frame has a stamp as late as that of the
page translated, wherever the stamps are kept and whatever mapping the buffer gave up. So the next
fault takes the frame of another page, if there is another frame.
-/

namespace DemandPaging.Pager

open DemandPaging.Action DemandPaging.Paging

variable {g : Geometry} {m m' : Pager g} {cpu : Nat} {u v : Translator g.tlbEntries}
  {f : FrameNumber} {o : FrameOwner} {busy : Option Nat}

/-- The page is resident and has been used since no other page was. -/
def Latest (m : Pager g) (o : FrameOwner) : Prop :=
  ∃ f k, m.stateOf o = some (.resident f) ∧ m.UsedSince f k ∧
    ∀ q i, q ≠ o → m.stateOf q = some (.resident i) → ¬m.UsedSince i k

theorem Uses.latest (h : Uses busy [o] m m') (hm : m.Past)
    (hr : m'.stateOf o = some (.resident f)) : m'.Latest o := by
  refine ⟨f, m.clock.current + 1, hr, h.used o List.mem_cons_self f hr, fun q i hq hi hk => ?_⟩
  obtain ⟨-, hiff⟩ := h.others q (fun hmem => hq (List.mem_singleton.mp hmem)) i hi
  exact absurd (hm i _ ((hiff _).mp hk)) (Nat.not_succ_le_self _)

theorem Latest.of_uses (hl : m.Latest o) (h : Uses busy [] m m')
    (hst : m'.stateOf = m.stateOf) : m'.Latest o := by
  obtain ⟨f, k, hr, hk, hno⟩ := hl
  rw [← hst] at hr hno
  refine ⟨f, k, hr, ((h.others o nofun f hr).2 k).mpr hk, fun q i hq hi hk => ?_⟩
  exact hno q i hq hi (((h.others q nofun i hi).2 k).mp hk)

theorem latest_marked (h : m.Sound) (hm : m.Past) (hu : m.translators[cpu]? = some u)
    {t t' : Tlb g.tlbEntries} (ht : u.tlb = some t) (hv : v.tlb = some t')
    (hs : Tlb.Marked f (m.clock.current + 1) t t') (hr : m.stateOf o = some (.resident f)) :
    (m.ticked.withTranslator cpu v).Latest o := by
  have hslots (c) : (m.ticked.withTranslator cpu v).slotsOf c =
      if c = cpu then t'.valid else m.slotsOf c := by
    rw [slotsOf_withTranslator (m := m.ticked) hu, Translator.cached, hv]
    rfl
  have hold (i) (hk : m.UsedSince i (m.clock.current + 1)) : False :=
    Nat.not_succ_le_self _ (hm i _ hk)
  refine ⟨f, m.clock.current + 1, hr, ?_, fun q i hq hi hk => ?_⟩
  · obtain ⟨s, hs, hf, hk⟩ := hs.marked
    exact .inr ⟨cpu, s, by rwa [hslots, if_pos rfl], hf, hk.ge⟩
  · have hi : m.stateOf q = some (.resident i) := hi
    rcases hk with hk | ⟨c, s, hm', rfl, hk⟩
    · exact hold i (.inl hk)
    · rw [hslots] at hm'
      split at hm'
      · rcases hs.old s hm' with hmem | ⟨hf, -⟩
        · have hmem : s ∈ m.slotsOf cpu := by rwa [slotsOf_self hu, Translator.cached, ht]
          exact hold s.frame (.inr ⟨cpu, s, hmem, rfl, hk⟩)
        · exact ne_of_resident h hr hq hi hf
      · exact hold s.frame (.inr ⟨c, s, hm', rfl, hk⟩)

theorem Translating.latest (h : m.Sound) (hm : m.Past) (hu : m.translators[cpu]? = some u)
    (ho : u.owner = some o.pid)
    {out : Outcome Event (Failure MemoryError) (Pager g) (Option FrameNumber)}
    (hout : Translating cpu u o m out) (hf : out.answer = .ok (some f)) : out.state.Latest o := by
  cases hout with
  | homeless hs => simp at hf
  | absent hk hn => simp at hf
  | @walked i ht hr =>
    have huses : Uses none [o] m ((m.walked i).withTranslator cpu u.countHit) :=
      (uses_walked h hr).trans (uses_withTranslator (m := m.walked i) hu rfl) (by simp)
    exact huses.latest hm ((steady_walked m i).stateOf ▸ hr)
  | known ht hl =>
    obtain ⟨q, hq, hr⟩ := (h.buffers cpu u hu _ ht).2 _ _ (Tlb.lookup_eq_some hl)
    obtain rfl : o.pid = q := by rw [ho] at hq; exact Option.some.inj hq
    have hs := Tlb.stamped_lookup hl
    exact latest_marked h hm hu ht rfl ⟨hs.marked, hs.old⟩ hr
  | @loaded t t' i load ht hmiss hr hi =>
    have h₁ := (steady_ticked m).agrees_of_translators_eq h rfl
    have h₂ := (steady_walked m.ticked i).agrees_of_translators_eq h₁ rfl
    have huses : Uses none [o] m (m.ticked.walked i) :=
      (uses_ticked m).trans (uses_walked h₁ hr) (by simp)
    have hr' : (m.ticked.walked i).stateOf o = some (.resident i) :=
      (steady_walked m.ticked i).stateOf ▸ hr
    exact latest_marked h₂ (huses.past hm) hu ht (by cases load <;> rfl) (Tlb.marked_install hi) hr'

theorem Translating.latest_of_none {q : FrameOwner} (h : m.Sound)
    (hu : m.translators[cpu]? = some u) (ho : u.owner = some o.pid)
    {out : Outcome Event (Failure MemoryError) (Pager g) (Option FrameNumber)}
    (hout : Translating cpu u o m out) (hf : out.answer = .ok none) (hl : m.Latest q) :
    out.state.Latest q := by
  have hes : ∀ e ∈ out.events, e.displaces = false := by
    cases hout with
    | homeless hs => nofun
    | @absent k w hk hn =>
      intro e he
      cases w <;> simp [walkEvents] at he <;> grind [Event.displaces]
    | _ => simp at hf
  have huses := hout.uses h hu ho hes
  rw [hf] at huses
  refine hl.of_uses huses ?_
  cases hout with
  | homeless hs => rfl
  | absent hk hn => rcases hk with rfl | rfl <;> rfl
  | _ => simp at hf

theorem Latest.ne_victim (hl : m.Latest o) (h : m.Sound) (hg : 2 ≤ g.frameCount) {q w : FrameOwner}
    {s : PageState} {t : SwapToken} (hs : Stolen m m' q s f w t) : w ≠ o := by
  rintro rfl
  obtain ⟨i, k, hi, hk, hno⟩ := hl
  obtain rfl := PageState.resident.inj (Option.some.inj (hi.symm.trans hs.resident))
  obtain ⟨j, hj, hne⟩ : ∃ j, j < g.frameCount ∧ j ≠ i := by
    rcases Nat.eq_zero_or_pos i with rfl | hpos
    · exact ⟨1, hg, Nat.one_ne_zero⟩
    · exact ⟨0, Nat.lt_of_lt_of_le Nat.two_pos hg, hpos.ne⟩
  obtain ⟨owner, howner⟩ := m.frames.exists_owner? hj
  cases owner with
  | none =>
    have hfree := (h.books.free_iff j nofun).mpr howner
    rw [hs.none_free] at hfree
    simp at hfree
  | some p =>
    have hp := (h.books.owner_iff j p nofun).mp howner
    have hle : m.lastUse i ≤ m.lastUse j := (hs.oldest j p howner).elim Nat.le_of_lt
      fun he => Nat.le_of_eq he.1
    refine hno p j ?_ hp (le_lastUse.mp ((le_lastUse.mpr hk).trans hle))
    rintro rfl
    exact hne (PageState.resident.inj (Option.some.inj (hp.symm.trans hs.resident)))

/-- A fault takes no frame from the page used last. -/
theorem Latest.spared (hl : m.Latest o) (h : m.Sound) (hg : 2 ≤ g.frameCount) {pid : ProcessId}
    {a : VirtualAddress} {access : Access} {r : Resolution}
    (hok : ((handleFault pid a access).run m).answer = .ok r) :
    ((handleFault pid a access).run m).state.stateOf o = m.stateOf o := by
  have hprint := footprint_handleFault h pid a access
  by_cases hidle : m.Idle ⟨pid, g.pageOf a⟩ ((handleFault pid a access).run m).answer
  · rw [hprint.idle hidle]
  · obtain ⟨f, s, -, hs, hn, hm'⟩ | ⟨herror, -⟩ := hprint.filled hidle
    · have hne : o ≠ ⟨pid, g.pageOf a⟩ := by
        rintro rfl
        obtain ⟨i, -, hi, -⟩ := hl
        obtain rfl := Option.some.inj (hs.symm.trans hi)
        exact absurd hn nofun
      rcases hm' with htaken | ⟨w, t, hstolen⟩
      · rw [htaken.entries, Function.update_of_ne hne]
      · rw [hstolen.entries, Function.update_of_ne hne,
          Function.update_of_ne (hl.ne_victim h hg hstolen).symm]
    · rw [hok] at herror
      simp at herror

/-- The processes have at least as many pages as there are tokens for images. -/
def Crowded (mems : FlatMemories g) : Prop :=
  ∀ l : List FrameOwner, (∀ pid mem page, mems pid = some mem → (mem page).isSome →
    ⟨pid, page⟩ ∈ l) → wordBound ≤ l.length

theorem crowded_of_full (h : m.Sound) (hfull : wordBound ≤ m.swap.size) : Crowded m.flat := by
  refine fun l hl => hfull.trans (h.swap_size_le fun o t ho => ?_)
  obtain ⟨s, hs, -⟩ := exists_space_of_stateOf ho
  refine hl o.pid (m.memory o.pid) o.page (by rw [flat, hs]; rfl) ?_
  rw [memory, Option.isSome_map, isSome_contents h, ho]
  rfl

end DemandPaging.Pager
