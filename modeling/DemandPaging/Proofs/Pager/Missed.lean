import DemandPaging.Proofs.Pager.Translate
/-!
The misses that the translators have counted. Translating an address of a process with an address
space counts one where it finds no frame. Nothing else that the memory system does counts any.
-/

namespace DemandPaging

theorem sum_map_set {α : Type} {l : List α} {i : Nat} {a : α} (h : l[i]? = some a) (b : α)
    (f : α → Nat) : ((l.set i b).map f).sum + f a = (l.map f).sum + f b := by
  induction l generalizing i with
  | nil => simp at h
  | cons d l ih =>
    cases i with
    | zero =>
      obtain rfl : d = a := by simpa using h
      simp only [List.set_cons_zero, List.map_cons, List.sum_cons]
      omega
    | succ i =>
      have hrest := ih (i := i) (by simpa using h)
      simp only [List.set_cons_succ, List.map_cons, List.sum_cons]
      omega

namespace Translator

variable {n : Nat}

theorem faults_dispatch (u : Translator n) (pid : ProcessId) :
    (u.dispatch pid).counts.faults = u.counts.faults := by
  unfold dispatch
  split <;> rfl

theorem counts_purge (u : Translator n) (pid : ProcessId) (page : PageNumber) :
    (u.purge pid page).2.counts = u.counts := by
  unfold purge
  split
  · split <;> rfl
  · rfl

theorem counts_forget (u : Translator n) (pid : ProcessId) : (u.forget pid).counts = u.counts := by
  unfold forget
  split <;> rfl

theorem faults_countLoad (u : Translator n) (load : TlbLoad) :
    (u.countLoad load).counts.faults = u.counts.faults := by
  cases load <;> rfl

end Translator

namespace Pager

open DemandPaging.Action

variable {g : Geometry} {m m' : Pager g} {cpu : Nat} {u v : Translator g.tlbEntries}

def missed (m : Pager g) : Nat := (m.translators.toList.map fun u => u.counts.faults).sum

theorem missed_new (g : Geometry) (useTlbs : List Bool) : (new g useTlbs).missed = 0 := by
  simp [missed, new, Translator.new, Function.comp_def]

theorem missed_congr (h : m'.translators = m.translators) : m'.missed = m.missed := by
  rw [missed, missed, h]

theorem missed_withTranslator (hu : m.translators[cpu]? = some u) (v : Translator g.tlbEntries) :
    (m.withTranslator cpu v).missed + u.counts.faults = m.missed + v.counts.faults := by
  rw [missed, withTranslator, Array.toList_setIfInBounds]
  exact sum_map_set (by simpa using hu) v _

theorem missed_withTranslator_of_eq (hu : m.translators[cpu]? = some u)
    (hv : v.counts.faults = u.counts.faults) : (m.withTranslator cpu v).missed = m.missed := by
  have hsum := missed_withTranslator hu v
  omega

theorem missed_map (m : Pager g) {change : Translator g.tlbEntries → Translator g.tlbEntries}
    (hc : ∀ u, (change u).counts = u.counts) :
    ({ m with translators := m.translators.map change } : Pager g).missed = m.missed := by
  have hsame : (fun u => u.counts.faults) ∘ change = fun u => u.counts.faults :=
    funext fun u => congrArg TranslatorCounts.faults (hc u)
  rw [missed, missed, Array.toList_map, List.map_map, hsame]

/-! What does not translate. -/

section Leaves

variable {α : Type}

theorem leaves_fail_if {r : Failure MemoryError} {c : Prop} [Decidable c] {x : Paged g α}
    (hx : Leaves missed x) : Leaves missed (if c then fail r >>= fun _ : Unit => x else x) := by
  split
  · exact (leaves_fail r).bind fun _ => hx
  · exact hx

theorem leaves_missed_modify {change : Pager g → Pager g}
    (h : ∀ m, (change m).translators = m.translators) :
    Leaves missed (modify change : Paged g Unit) :=
  leaves_modify fun m => missed_congr (h m)

theorem leaves_missed_translator (cpu : Nat) : Leaves missed (translator cpu : Paged g _) :=
  leaves_get.bind fun _ => leaves_ofOption _ _

theorem leaves_missed_serve {f : Translator g.tlbEntries → Paged g α}
    (hf : ∀ m u, m.translators[cpu]? = some u → missed ((f u).run m).state = m.missed) :
    Leaves missed (translator cpu >>= f) := by
  intro m
  cases hu : m.translators[cpu]? with
  | none =>
    rw [run_bind, run_translator_none m hu]
    rfl
  | some u =>
    rw [run_bind, run_translator m hu]
    exact hf m u hu

theorem leaves_missed_space (pid : ProcessId) : Leaves missed (space pid : Paged g _) :=
  leaves_get.bind fun _ => leaves_ofOption _ _

theorem leaves_missed_onFrames
    (change : FrameTable g.frameCount → Option (FrameTable g.frameCount)) :
    Leaves missed (onFrames change) :=
  leaves_update _ fun m m' h => by
    obtain ⟨t, -, rfl⟩ := Option.map_eq_some_iff.mp h
    rfl

theorem leaves_missed_setPage (f : FrameNumber) (p : Page g) : Leaves missed (setPage f p) :=
  leaves_update _ fun m m' h => by
    obtain ⟨r, -, rfl⟩ := Option.map_eq_some_iff.mp h
    rfl

theorem leaves_missed_setState (pid : ProcessId) (page : PageNumber) (state : PageState) :
    Leaves missed (setState pid page state : Paged g Unit) :=
  leaves_missed_modify fun m => translators_putState m ⟨pid, page⟩ state

theorem leaves_missed_onSwap (x : SwapStore.Store α) : Leaves missed (onSwap x : Paged g α) :=
  leaves_within _ _ fun _ => rfl

theorem leaves_missed_stamp : Leaves missed (stamp : Paged g Nat) :=
  Leaves.bind (leaves_missed_modify fun _ => rfl) fun _ => leaves_get.bind fun _ => leaves_pure _

theorem leaves_missed_page (f : FrameNumber) : Leaves missed (page f : Paged g (Page g)) :=
  leaves_get.bind fun _ => leaves_ofOption _ _

theorem leaves_missed_allocate (pid : ProcessId) (start count : Nat) :
    Leaves missed (allocate pid start count : Paged g Bool) :=
  (leaves_missed_space pid).bind fun _ => leaves_within _ _ fun _ => rfl

theorem leaves_missed_loadWord (a : PhysicalAddress) : Leaves missed (loadWord a : Paged g Int32) :=
  leaves_get.bind fun _ => leaves_ofOption _ _

theorem leaves_missed_storeWord (a : PhysicalAddress) (w : Int32) :
    Leaves missed (storeWord a w : Paged g Unit) :=
  leaves_update _ fun m m' h => by
    obtain ⟨r, -, rfl⟩ := Option.map_eq_some_iff.mp h
    rfl

theorem leaves_missed_checkTable (pid : ProcessId) :
    Leaves missed (checkTable pid : Paged g (List Hole)) := by
  refine leaves_get.bind fun m => ?_
  split
  · exact leaves_pure _
  · exact (leaves_reportAll _).bind fun _ => leaves_pure _

theorem leaves_missed_dispatch (cpu : Nat) (pid : ProcessId) :
    Leaves missed (dispatch cpu pid : Paged g Unit) := by
  intro m
  cases hu : m.translators[cpu]? with
  | none => rw [run_dispatch_none hu]
  | some u =>
    rw [run_dispatch hu]
    exact missed_withTranslator_of_eq hu (u.faults_dispatch pid)

theorem leaves_missed_flush (cpu : Nat) : Leaves missed (flush cpu : Paged g Unit) :=
  (leaves_missed_translator cpu).bind fun _ => leaves_each (fun _ => leaves_missed_onFrames _) _

theorem leaves_missed_flushAll : Leaves missed (flushAll : Paged g Unit) :=
  leaves_get.bind fun _ => leaves_each leaves_missed_flush _

/-! Faults. -/

theorem leaves_missed_list (on : Paging.Occasion) (f : FrameNumber) :
    Leaves missed (list on f : Paged g Unit) :=
  (leaves_missed_page f).bind fun _ => leaves_report _

theorem leaves_missed_evict (f : FrameNumber) (o : FrameOwner) :
    Leaves missed (evict f o : Paged g Unit) := by
  refine leaves_get.bind fun m => (leaves_ofOption _ _).bind fun victim => ?_
  refine (leaves_report _).bind fun _ => leaves_get.bind fun m => leaves_fail_if ?_
  refine (leaves_missed_page f).bind fun p => (leaves_report _).bind fun _ => ?_
  refine leaves_get.bind fun m => (leaves_missed_onSwap _).bind fun token => ?_
  refine (leaves_missed_setState _ _ _).bind fun _ => ?_
  exact leaves_modify fun m => m.missed_map fun u => u.counts_purge _ _

theorem leaves_missed_claimFrame (o : FrameOwner) :
    Leaves missed (claimFrame o : Paged g FrameNumber) := by
  refine Leaves.bind ?_ fun f => leaves_missed_stamp.bind fun now =>
    (leaves_missed_onFrames _).bind fun _ => leaves_pure f
  refine leaves_get.bind fun m => ?_
  split
  · exact Leaves.bind (leaves_missed_modify fun _ => rfl) fun _ => (leaves_report _).bind fun _ =>
      leaves_pure _
  · exact leaves_get.bind fun m => (leaves_ofOption _ _).bind fun f =>
      (leaves_missed_evict f o).bind fun _ => leaves_pure f

theorem leaves_missed_fill (f : FrameNumber) (o : FrameOwner) (state : PageState) :
    Leaves missed (fill f o state : Paged g Unit) := by
  cases state with
  | swapped token =>
    refine (leaves_missed_list _ f).bind fun _ => (leaves_missed_onSwap _).bind fun image => ?_
    exact (leaves_ofOption _ _).bind fun p => (leaves_missed_setPage f p).bind fun _ =>
      leaves_missed_list _ f
  | _ =>
    exact (leaves_missed_list _ f).bind fun _ => (leaves_missed_setPage f _).bind fun _ =>
      leaves_missed_list _ f

theorem leaves_missed_bringIn (o : FrameOwner) (state : PageState) :
    Leaves missed (bringIn o state : Paged g FrameNumber) :=
  leaves_missed_flushAll.bind fun _ => (leaves_missed_claimFrame o).bind fun f =>
    (leaves_missed_fill f o state).bind fun _ => (leaves_missed_setState _ _ _).bind fun _ =>
      leaves_pure f

theorem leaves_missed_handleFault (pid : ProcessId) (a : VirtualAddress) (access : Access) :
    Leaves missed (handleFault pid a access : Paged g Resolution) := by
  unfold handleFault
  dsimp only
  split
  · exact (leaves_report _).bind fun _ => leaves_pure _
  · refine (leaves_missed_space pid).bind fun s => ?_
    split
    · exact (leaves_report _).bind fun _ => leaves_pure _
    · split
      · exact (leaves_report _).bind fun _ => leaves_pure _
      · exact leaves_pure _
      · exact (leaves_missed_bringIn _ _).bind fun f => leaves_pure _

theorem leaves_missed_release (pid : ProcessId) : Leaves missed (release pid : Paged g Unit) := by
  refine (leaves_missed_space pid).bind fun s => ?_
  refine Leaves.bind (leaves_missed_modify fun _ => rfl) fun _ => ?_
  refine Leaves.bind (leaves_each (fun entry => ?_) _) fun _ =>
    leaves_modify fun m => m.missed_map fun u => u.counts_forget pid
  obtain ⟨page, state⟩ := entry
  cases state with
  | unmapped => exact leaves_pure ()
  | resident f => exact (leaves_report _).bind fun _ => leaves_missed_onFrames _
  | swapped token => exact leaves_missed_onSwap _

end Leaves

/-! Translating. -/

theorem leaves_missed_hit (cpu : Nat) (page : PageNumber) (f : FrameNumber) :
    Leaves missed (hit cpu page f : Paged g Unit) :=
  leaves_missed_serve fun m u hu => by
    rw [run_bind, run_setTranslator]
    exact missed_withTranslator_of_eq hu rfl

theorem leaves_missed_lookup (cpu : Nat) (t : Tlb g.tlbEntries) (page : PageNumber) :
    Leaves missed (lookup cpu t page : Paged g (Option FrameNumber)) :=
  leaves_missed_stamp.bind fun now => leaves_missed_serve fun m u hu => by
    rw [run_bind, run_setTranslator]
    exact missed_withTranslator_of_eq hu rfl

theorem leaves_missed_install (cpu : Nat) (page : PageNumber) (f : FrameNumber) :
    Leaves missed (install cpu page f : Paged g Unit) := by
  refine leaves_missed_stamp.bind fun now => leaves_missed_serve fun m u hu => ?_
  split
  · rfl
  · next t ht =>
    cases hi : t.install? page f now with
    | none => rfl
    | some out =>
      obtain ⟨load, t'⟩ := out
      rw [run_bind, run_ofOption_some, Outcome.andThen_ok, run_bind, run_setTranslator]
      exact missed_withTranslator_of_eq hu (Translator.faults_countLoad _ load)

theorem meets_walk (m : Pager g) (cpu : Nat) (s : AddressSpace g) (page : PageNumber) :
    (walk cpu s page).Meets m (fun _ => True) fun r m' _ =>
      m'.missed = m.missed + r.isNone.toNat := by
  cases hst : (s.state? page).bind PageState.frame? with
  | some f =>
    have hwalk := AddressSpace.walk_eq_entry_iff.mpr (PageState.bind_frame?_eq_some_iff.mp hst)
    unfold walk
    rw [hwalk]
    refine Meets.bind (leaves_missed_stamp.meets m) fun now m₁ _ h₁ => ?_
    refine Meets.bind ((leaves_missed_onFrames _).meets m₁) fun _ m₂ _ h₂ => ?_
    exact meets_pure (h₂.trans h₁)
  | none =>
    cases hu : m.translators[cpu]? with
    | some u =>
      refine meets_of_run_ok (run_walk_absent hu hst) ?_
      have hsum := missed_withTranslator hu u.countFault
      have hcount : u.countFault.counts.faults = u.counts.faults + 1 := rfl
      change _ = m.missed + 1
      omega
    | none =>
      have hw (f : FrameNumber) : s.walk page ≠ .entry (.resident f) := fun hf => by
        simp [AddressSpace.walk_eq_entry_iff.mp hf, PageState.frame?] at hst
      refine meets_of_run_error (r := beyond) (e := []) (t := m) ?_ trivial
      unfold walk
      split
      · next f hf => exact absurd hf (hw f)
      · rw [run_bind, run_translator_none m hu]
        rfl

theorem meets_walk_bind (m : Pager g) (cpu : Nat) (s : AddressSpace g) (page : PageNumber)
    {x : FrameNumber → Paged g Unit} (hx : ∀ f, Leaves missed (x f)) :
    (do
      match ← walk cpu s page with
      | none => return none
      | some f =>
        x f
        return some f : Paged g (Option FrameNumber)).Meets m (fun _ => True) fun r m' _ =>
      m'.missed = m.missed + r.isNone.toNat := by
  refine Meets.bind (meets_walk m cpu s page) ?_
  rintro (_ | f) m₁ _ h₁
  · exact meets_pure h₁
  · exact Meets.bind ((hx f).meets m₁) fun _ m₂ _ h₂ => meets_pure (h₂.trans h₁)

theorem meets_translate (m : Pager g) (cpu : Nat) (pid : ProcessId) (a : VirtualAddress) :
    (translate cpu pid a).Meets m (fun _ => True) fun r m' _ =>
      m'.missed = m.missed + r.isNone.toNat ∨ r = none ∧ m' = m ∧ m.space? pid = none := by
  cases hu : m.translators[cpu]? with
  | none =>
    refine meets_of_run_error (r := beyond) (e := []) (t := m) ?_ trivial
    rw [translate, run_bind, run_translator_none m hu]
    rfl
  | some u =>
    refine Meets.bind (P := fun v m₁ _ => v = u ∧ m₁ = m)
      (meets_of_run_ok (run_translator m hu) ⟨rfl, rfl⟩) ?_
    rintro u m _ ⟨rfl, rfl⟩
    refine Meets.bind (meets_get (Q := fun a m₁ _ => a = m ∧ m₁ = m) ⟨rfl, rfl⟩) ?_
    rintro _ m _ ⟨rfl, rfl⟩
    split
    · next hs => exact meets_pure (.inr ⟨rfl, rfl, hs⟩)
    · next s hs =>
      refine Meets.mono (P := fun r m' _ => m'.missed = m.missed + r.isNone.toNat) ?_
        fun _ _ _ h => .inl h
      dsimp only
      split
      · exact meets_walk_bind m cpu s _ fun f => leaves_missed_hit cpu _ f
      · next t ht =>
        refine Meets.bind ((leaves_missed_lookup cpu t _).meets m) ?_
        rintro (_ | f) m₁ _ h₁
        · rw [← h₁]
          exact meets_walk_bind m₁ cpu s _ fun f => leaves_missed_install cpu _ f
        · exact Meets.bind ((leaves_missed_hit cpu _ f).meets m₁) fun _ m₂ _ h₂ =>
            meets_pure (h₂.trans h₁)

theorem meets_handleFault_homeless {pid : ProcessId} (hs : m.space? pid = none)
    (a : VirtualAddress) (access : Access) :
    (handleFault pid a access).Meets m (fun _ => True) fun r m' _ =>
      m' = m ∧ ∃ violation, r = .violation violation := by
  unfold handleFault
  dsimp only
  split
  · refine Meets.bind (P := fun _ m' _ => m' = m) rfl ?_
    rintro _ _ _ rfl
    exact meets_pure ⟨rfl, _, rfl⟩
  · refine Meets.bind (P := fun _ _ _ => False) ?_ fun _ _ _ hf => hf.elim
    exact meets_of_run_error (run_space_none m hs) trivial

end Pager

end DemandPaging
