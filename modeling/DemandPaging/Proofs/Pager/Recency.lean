import DemandPaging.Proofs.Pager.Reachable
import DemandPaging.Proofs.Pager.Stamps
/-!
Which page is stolen. In a run in which translators serve their own processes and are flushed before
they are given to others, a fault steals the frame of the page that was referenced least recently,
unless a buffer displaced a mapping on the way: the stamp that the displaced slot had then reaches
no frame, and the page seems older than it is.
-/

namespace DemandPaging.Pager

open DemandPaging.Action DemandPaging.Paging

variable {g : Geometry} {m m' : Pager g} {useTlbs : List Bool}

namespace Operation

/-- The page that a call references: a translation that gives a frame references its page, a fault
the page that it brings in. -/
def references (op : Operation) (m : Pager g) (r : Except (Failure MemoryError) Reply) :
    List FrameOwner :=
  match op, r with
  | .translate _ pid a, .ok (.frame (some _)) => [⟨pid, g.pageOf a⟩]
  | .fault pid a _, .ok (.resolution (.resolved _)) =>
    match (m.stateOf ⟨pid, g.pageOf a⟩).bind PageState.frame? with
    | some _ => []
    | none => [⟨pid, g.pageOf a⟩]
  | _, _ => []

def busy? : Operation → Option Nat
  | .translate cpu _ _ => some cpu
  | _ => none

/-- The translators that were flushed and have not translated since. -/
def flushes (op : Operation) (flushed : Nat → Bool) : Nat → Bool :=
  match op with
  | .flush cpu => Function.update flushed cpu true
  | .translate cpu _ _ => Function.update flushed cpu false
  | _ => flushed

/-- What callers promise for the order of references: a translator is flushed before it drops the
mappings of a process to serve another one, and nobody drops mappings otherwise. -/
def Careful (flushed : Nat → Bool) (m : Pager g) : Operation → Prop
  | .dispatch cpu pid =>
    ∀ u, m.translators[cpu]? = some u → u.switches pid = true → flushed cpu = true
  | .purge .. => False
  | .forget .. => False
  | _ => True

end Operation

structure History where
  refs : List FrameOwner := []
  flushed : Nat → Bool := fun _ => false
  events : List Event := []

def History.after (l : History) (op : Operation) (m : Pager g)
    (out : Outcome Event (Failure MemoryError) (Pager g) Reply) : History :=
  ⟨op.references m out.answer ++ l.refs, op.flushes l.flushed, l.events ++ out.events⟩

inductive Recorded (useTlbs : List Bool) : History → Pager g → Prop where
  | start : Recorded useTlbs {} (new g useTlbs)
  | call {l : History} {m : Pager g} (h : Recorded useTlbs l m) (op : Operation)
    (hp : op.Permitted m) (hc : op.Careful l.flushed m) :
    Recorded useTlbs (l.after op m ((op.call).run m)) ((op.call).run m).state
  | store {l : History} {m : Pager g} (h : Recorded useTlbs l m) (a : PhysicalAddress) (w : Int32) :
    Recorded useTlbs l ((storeWord a w).run m).state

theorem uses_handleFault {busy : Option Nat} (h : m.Sound) (pid : ProcessId) (a : VirtualAddress)
    (access : Access) : Uses busy
      ((Operation.fault pid a access).references m
        (((Operation.fault pid a access).call).run m).answer)
      m (((Operation.fault pid a access).call).run m).state := by
  rcases run_handleFault_cases m pid a access with
    ⟨r, es, hrun, -, -, ha⟩ | ⟨s, -, hs, hn, hrun⟩
  · have hcall : ((Operation.fault pid a access).call).run m = ⟨r.map .resolution, m, es⟩ :=
      run_bind_pure hrun _
    rw [hcall]
    cases r with
    | error e => exact .refl m
    | ok r =>
      cases r with
      | violation v => exact .refl m
      | resolved f =>
        have hf := PageState.bind_frame?_eq_some_iff.mpr ha.2.2
        simp only [Except.map, Operation.references, hf]
        exact .refl m
  · have hbring := broughtIn h hs hn
    have huses : Uses busy _ m _ := hbring.uses h
    generalize (bringIn ⟨pid, g.pageOf a⟩ s).run m = out at hrun huses
    rcases out with ⟨r, m', es⟩
    cases r with
    | error e =>
      have hcall : ((Operation.fault pid a access).call).run m = ⟨.error e, m', es⟩ :=
        run_bind_pure hrun _
      rw [hcall]
      exact huses
    | ok f =>
      have hfault : (handleFault pid a access).run m = ⟨.ok (.resolved f), m', es⟩ := by
        rw [hrun]
        simp
      have hcall : ((Operation.fault pid a access).call).run m =
          ⟨.ok (.resolution (.resolved f)), m', es⟩ := run_bind_pure hfault _
      have hnone : (m.stateOf ⟨pid, g.pageOf a⟩).bind PageState.frame? = none := by
        rw [hs, Option.bind_some]
        simpa [PageState.isResident] using hn
      rw [hcall]
      simp only [Operation.references, hnone]
      exact huses

theorem uses_call {l : History} (h : m.Sound)
    (hf : ∀ c, l.flushed c = true → m.Flushed c) (op : Operation) (hp : op.Permitted m)
    (hc : op.Careful l.flushed m)
    (hes : ∀ e ∈ ((op.call).run m).events, e.displaces = false) :
    Uses op.busy? (op.references m ((op.call).run m).answer) m ((op.call).run m).state := by
  cases op with
  | create pid =>
    change Uses none [] m _
    rw [Operation.call, state_bind_pure, run_create]
    split
    · exact uses_of_spaces rfl rfl rfl fun o f hi => stateOf_createSpace hp ▸ hi
    · exact .refl m
  | allocate pid start count =>
    change Uses none [] m _
    rw [Operation.call, state_bind_pure]
    exact (allocated m pid start count).uses
  | dispatch cpu pid =>
    change Uses none [] m _
    rw [Operation.call, state_bind_pure]
    cases hu : m.translators[cpu]? with
    | none =>
      rw [run_dispatch_none hu]
      exact .refl m
    | some u =>
      rw [run_dispatch hu]
      exact uses_dispatched hu fun hs => hf cpu (hc u hu hs)
  | translate cpu pid a =>
    obtain ⟨u, hu, ho⟩ := hp
    have hout := translating h hu pid a
    rcases hrun : (translate cpu pid a).run m with ⟨r, m', es⟩
    rw [hrun] at hout
    rw [Operation.call, run_bind_pure hrun] at hes ⊢
    have huses := hout.uses h hu ho hes
    rcases r with e | _ | f <;> exact huses
  | fault pid a access => exact uses_handleFault h pid a access
  | flush cpu =>
    change Uses none [] m _
    rw [Operation.call, state_bind_pure]
    cases hu : m.translators[cpu]? with
    | none =>
      rw [run_flush_none hu]
      exact .refl m
    | some u =>
      rw [run_flush h hu]
      exact uses_flushedBy h fun s hs => ⟨cpu, hs⟩
  | purge cpu pid page => exact hc.elim
  | forget cpu pid => exact hc.elim
  | release pid =>
    change Uses none [] m _
    rw [Operation.call, state_bind_pure]
    cases hs : m.space? pid with
    | none =>
      rw [run_release_none hs]
      exact .refl m
    | some s =>
      obtain ⟨frames, swap, es, hrun, -, -, hgive⟩ := run_release_some h hs
      rw [hrun]
      exact uses_vacated h pid hgive.stamps swap

/-- What careful runs keep as long as no mapping is displaced: the order of references is the order
of the latest stamps. -/
structure Ordered (l : History) (m : Pager g) : Prop where
  sound : m.Sound
  past : m.Past
  flushed : ∀ c, l.flushed c = true → m.Flushed c
  known : ∀ o f, m.stateOf o = some (.resident f) → o ∈ l.refs
  newer : ∀ o q i j, m.stateOf o = some (.resident i) → m.stateOf q = some (.resident j) →
    l.refs.idxOf o < l.refs.idxOf q → ∃ k, m.UsedSince i k ∧ ¬m.UsedSince j k

theorem ordered_new (g : Geometry) (useTlbs : List Bool) : Ordered {} (new g useTlbs) := by
  have hnone (o) : (new g useTlbs).stateOf o = none := stateOf_of_no_space rfl o.page
  refine ⟨sound_new g useTlbs, past_new g useTlbs, nofun, fun o f hf => ?_, fun o q i j hi => ?_⟩
  · simp [hnone] at hf
  · simp [hnone] at hi

/-- References of one call come before all others. -/
theorem Ordered.of_uses {l : History} (h : Ordered l m) {busy : Option Nat}
    {pages : List FrameOwner} (hu : Uses busy pages m m') (hpages : pages.length ≤ 1)
    (hm : m'.Sound) {flushed : Nat → Bool} (hf : ∀ c, flushed c = true → m'.Flushed c)
    (events : List Event) : Ordered ⟨pages ++ l.refs, flushed, events⟩ m' := by
  refine ⟨hm, hu.past h.past, hf, fun o f ho => ?_, fun o q i j hi hj hlt => ?_⟩
  · by_cases hp : o ∈ pages
    · exact List.mem_append_left _ hp
    · exact List.mem_append_right _ (h.known o f (hu.others o hp f ho).1)
  · by_cases hq : q ∈ pages
    · match pages, hpages with
      | [p], _ =>
        obtain rfl := List.mem_singleton.mp hq
        simp at hlt
    obtain ⟨hj', hjk⟩ := hu.others q hq j hj
    by_cases ho : o ∈ pages
    · refine ⟨_, hu.used o ho i hi, fun hk => ?_⟩
      exact absurd (h.past j _ ((hjk _).mp hk)) (Nat.not_succ_le_self _)
    · obtain ⟨hi', hik⟩ := hu.others o ho i hi
      rw [List.idxOf_append_of_notMem ho, List.idxOf_append_of_notMem hq] at hlt
      obtain ⟨k, hk, hnk⟩ := h.newer o q i j hi' hj' (Nat.lt_of_add_lt_add_left hlt)
      exact ⟨k, (hik k).mpr hk, mt (hjk k).mp hnk⟩

theorem length_references_le (op : Operation) (m : Pager g)
    (r : Except (Failure MemoryError) Reply) : (op.references m r).length ≤ 1 := by
  unfold Operation.references
  split
  · exact Nat.le_refl _
  · split
    · exact Nat.zero_le _
    · exact Nat.le_refl _
  · exact Nat.zero_le _

theorem flushed_of_flushes {op : Operation} {flushed : Nat → Bool} {c : Nat}
    (h : op.flushes flushed c = true) : op.busy? ≠ some c ∧ flushed c = true ∨ op = .flush c := by
  cases op with
  | flush cpu =>
    rw [Operation.flushes, Function.update_apply] at h
    split at h
    · next hc => exact .inr (by rw [hc])
    · exact .inl ⟨nofun, h⟩
  | translate cpu pid a =>
    rw [Operation.flushes, Function.update_apply] at h
    split at h
    · simp at h
    · next hc => exact .inl ⟨fun he => hc (Option.some.inj he).symm, h⟩
  | _ => exact .inl ⟨nofun, h⟩

theorem flushed_flush (h : m.Sound) (cpu : Nat) :
    (((Operation.flush cpu).call).run m).state.Flushed cpu := by
  rw [Operation.call, state_bind_pure]
  cases hu : m.translators[cpu]? with
  | none =>
    rw [run_flush_none hu]
    intro s hs
    obtain ⟨u, hu', -⟩ := mem_slotsOf.mp hs
    simp [hu] at hu'
  | some u =>
    rw [run_flush h hu]
    exact flushed_flushedBy h (fun s hs => ⟨cpu, hs⟩) fun _ hs => hs

theorem Ordered.call {l : History} (h : Ordered l m) (op : Operation) (hp : op.Permitted m)
    (hc : op.Careful l.flushed m) (hes : ∀ e ∈ ((op.call).run m).events, e.displaces = false) :
    Ordered (l.after op m ((op.call).run m)) ((op.call).run m).state := by
  have huses := uses_call h.sound h.flushed op hp hc hes
  refine h.of_uses huses (length_references_le op m _) (sound_call h.sound op hp)
    (fun c hfl => ?_) _
  rcases flushed_of_flushes hfl with ⟨hbusy, hfl⟩ | rfl
  · exact huses.flushed h.past c hbusy (h.flushed c hfl)
  · exact flushed_flush h.sound c

theorem Ordered.store {l : History} (h : Ordered l m) (a : PhysicalAddress) (w : Int32) :
    Ordered l ((storeWord a w).run m).state := by
  have hsound := sound_storeWord h.sound a w
  obtain ⟨ram, hm⟩ := exists_state_storeWord m a w
  rw [hm] at hsound ⊢
  exact ⟨hsound, h.past, h.flushed, h.known, h.newer⟩

theorem Recorded.ordered {l : History} (h : Recorded useTlbs l m)
    (hl : ∀ e ∈ l.events, e.displaces = false) : Ordered l m := by
  induction h with
  | start => exact ordered_new g useTlbs
  | call _ op hp hc ih =>
    exact (ih fun e he => hl e (List.mem_append_left _ he)).call op hp hc
      fun e he => hl e (List.mem_append_right _ he)
  | store _ a w ih => exact (ih hl).store a w

theorem Ordered.victim {l : History} (h : Ordered l m) {pid : ProcessId} {a : VirtualAddress}
    {access : Access} {f : FrameNumber} {v o : FrameOwner}
    (he : .stealing f v o ∈ ((handleFault pid a access).run m).events) :
    m.stateOf v = some (.resident f) ∧ v ∈ l.refs ∧
      ∀ q i, m.stateOf q = some (.resident i) → q ≠ v → l.refs.idxOf q < l.refs.idxOf v := by
  obtain ⟨hlru, hv⟩ := victim_of_stealing h.sound he
  have hmem := h.known v f hv
  refine ⟨hv, hmem, fun q i hq hne => Nat.lt_of_not_le fun hle => ?_⟩
  have hlt : l.refs.idxOf v < l.refs.idxOf q :=
    lt_of_le_of_ne hle fun heq => hne ((List.idxOf_inj hmem).mp heq).symm
  -- the victim's latest stamp is not later than that of any owned frame
  obtain ⟨k, hk, hnk⟩ := h.newer v q f i hv hq hlt
  exact hnk (usedSince_of_leastRecentlyUsed h.sound hlru hq hk)

/-! Runs of given calls. -/

instance (op : Operation) (m : Pager g) : Decidable (op.Permitted m) :=
  match op with
  | .create pid => inferInstanceAs (Decidable (m.space? pid = none))
  | .translate cpu pid _ => decidable_of_iff (m.translators[cpu]?.bind Translator.owner = some pid)
      Option.bind_eq_some_iff
  | .allocate .. | .dispatch .. | .fault .. | .flush .. | .purge .. | .forget .. | .release .. =>
    inferInstanceAs (Decidable True)

instance (op : Operation) (flushed : Nat → Bool) (m : Pager g) :
    Decidable (op.Careful flushed m) :=
  match op with
  | .dispatch cpu pid => inferInstanceAs (Decidable
      (∀ u ∈ m.translators[cpu]?, u.switches pid = true → flushed cpu = true))
  | .purge .. | .forget .. => inferInstanceAs (Decidable False)
  | .create .. | .allocate .. | .translate .. | .fault .. | .flush .. | .release .. =>
    inferInstanceAs (Decidable True)

def play (l : History) (m : Pager g) : List Operation → History × Pager g
  | [] => (l, m)
  | op :: ops => play (l.after op m ((op.call).run m)) ((op.call).run m).state ops

def Playable (l : History) (m : Pager g) : List Operation → Prop
  | [] => True
  | op :: ops => op.Permitted m ∧ op.Careful l.flushed m ∧
    Playable (l.after op m ((op.call).run m)) ((op.call).run m).state ops

instance decidablePlayable (l : History) (m : Pager g) : (ops : List Operation) →
    Decidable (Playable l m ops)
  | [] => inferInstanceAs (Decidable True)
  | op :: ops =>
    have := decidablePlayable (l.after op m ((op.call).run m)) ((op.call).run m).state ops
    inferInstanceAs (Decidable (op.Permitted m ∧ op.Careful l.flushed m ∧ _))

theorem Recorded.play {l : History} (h : Recorded useTlbs l m) (ops : List Operation)
    (hp : Playable l m ops) :
    Recorded useTlbs (Pager.play l m ops).1 (Pager.play l m ops).2 := by
  induction ops generalizing l m with
  | nil => exact h
  | cons op ops ih => exact ih (h.call op hp.1 hp.2.1) hp.2.2

/-- As long as no buffer displaced a mapping, a fault steals the frame of the page that was
referenced least recently of all pages in frames. -/
theorem steals_least_recent {l : History} (h : Recorded useTlbs l m)
    (hl : ∀ e ∈ l.events, e.displaces = false) {pid : ProcessId} {a : VirtualAddress}
    {access : Access} {f : FrameNumber} {v o : FrameOwner}
    (he : .stealing f v o ∈ ((handleFault pid a access).run m).events) :
    m.stateOf v = some (.resident f) ∧ v ∈ l.refs ∧
      ∀ q i, m.stateOf q = some (.resident i) → q ≠ v → l.refs.idxOf q < l.refs.idxOf v :=
  (h.ordered hl).victim he

def reusing : List Operation :=
  [.dispatch 0 0, .create 0, .allocate 0 0 5, .fault 0 .zero .data, .translate 0 0 .zero,
    .fault 0 (.ofNat 16) .data, .fault 0 (.ofNat 32) .data, .fault 0 (.ofNat 48) .data,
    .translate 0 0 .zero]

theorem steals_least_recent_buffered : ∃ l, ∃ m : Pager fourFrames, Recorded [true] l m ∧
    (∀ e ∈ l.events, e.displaces = false) ∧
    .stealing 1 ⟨0, 1⟩ ⟨0, 4⟩ ∈ ((handleFault 0 (.ofNat 64) .data).run m).events ∧
    m.stateOf ⟨0, 0⟩ = some (.resident 0) ∧ l.refs.idxOf ⟨0, 0⟩ < l.refs.idxOf ⟨0, 1⟩ := by
  have hstart : Recorded [true] {} (new fourFrames [true]) := .start
  have hrun := hstart.play reusing (by decide +kernel)
  have hkept : ∀ e ∈ (play {} (new fourFrames [true]) reusing).1.events, e.displaces = false := by
    decide +kernel
  have hsteals : .stealing 1 ⟨0, 1⟩ ⟨0, 4⟩ ∈ ((handleFault 0 (.ofNat 64) .data).run
      (play {} (new fourFrames [true]) reusing).2).events := by decide +kernel
  have hfirst : (play {} (new fourFrames [true]) reusing).2.stateOf ⟨0, 0⟩ =
      some (.resident 0) := by decide +kernel
  obtain ⟨-, -, hold⟩ := steals_least_recent hrun hkept hsteals
  exact ⟨_, _, hrun, hkept, hsteals, hfirst, hold ⟨0, 0⟩ 0 hfirst (by decide)⟩

def displacing : List Operation :=
  [.dispatch 0 0, .create 0, .allocate 0 0 5, .fault 0 .zero .data, .fault 0 (.ofNat 16) .data,
    .fault 0 (.ofNat 32) .data, .fault 0 (.ofNat 48) .data, .translate 0 0 .zero,
    .translate 0 0 (.ofNat 16), .translate 0 0 .zero, .translate 0 0 (.ofNat 32),
    .translate 0 0 (.ofNat 48)]

/-- A stamp that is displaced is lost: the first page is stolen, though it was referenced after the
second. -/
theorem steals_displaced : ∃ l, ∃ m : Pager fourFrames, Recorded [true] l m ∧
    .stealing 0 ⟨0, 0⟩ ⟨0, 4⟩ ∈ ((handleFault 0 (.ofNat 64) .data).run m).events ∧
    m.stateOf ⟨0, 1⟩ = some (.resident 1) ∧ l.refs.idxOf ⟨0, 0⟩ < l.refs.idxOf ⟨0, 1⟩ := by
  have hstart : Recorded [true] {} (new fourFrames [true]) := .start
  exact ⟨_, _, hstart.play displacing (by decide +kernel), by decide +kernel, by decide +kernel,
    by decide +kernel⟩

end DemandPaging.Pager
