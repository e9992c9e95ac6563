import DemandPaging.Proofs.Machine.Held
import DemandPaging.Proofs.Machine.Kept
import DemandPaging.Proofs.Pager.Spared
/-!
How often an instruction starts over. Each restart has brought in a page of the instruction that
was missing, and with two frames or more the page of the instruction pointer, which was translated
just before, is not the one that makes room for the data. So two restarts do. With one frame the
two pages keep evicting each other.
-/

namespace DemandPaging.Machine

open DemandPaging.Action

variable {g : Geometry} {S : Type} {m : Machine g S} {v : View g} {h : History} {c : Nat} {x : Cpu}
  {b : Burst} {p : Process} {t : Task} {mem : FlatMemory g} {i : Instruction} {pid : ProcessId}
  {addr : VirtualAddress} {access : Access}

/-- The swap store has no token left, so many pages there are. -/
def Exhausted (v : View g) (r : Failure RunError) : Prop :=
  r = .crash .noRoom ∧ Pager.Crowded v.memories

def Resident (m : Machine g S) (pid : ProcessId) (addr : VirtualAddress) : Prop :=
  ∃ f, m.pager.stateOf ⟨pid, g.pageOf addr⟩ = some (.resident f)

def Latest (m : Machine g S) (pid : ProcessId) (addr : VirtualAddress) : Prop :=
  m.pager.Latest ⟨pid, g.pageOf addr⟩

theorem Latest.resident (hl : m.Latest pid addr) : m.Resident pid addr := by
  obtain ⟨f, -, hf, -⟩ := hl
  exact ⟨f, hf⟩

/-- The machine looks like this, and no stamp is later than the clock of its memory system. -/
structure Dated (m : Machine g S) (v : View g) : Prop extends m.Shows v where
  past : m.pager.Past

/-! Single calls. -/

def Translated (m m' : Machine g S) (pid : ProcessId) (addr : VirtualAddress) :
    Option FrameNumber → Prop
  | some f => m'.pager.stateOf ⟨pid, g.pageOf addr⟩ = some (.resident f) ∧ m'.Latest pid addr
  | none => ¬m.Resident pid addr ∧ ∀ a, m.Latest pid a → m'.Latest pid a

theorem meets_translate (hm : m.Dated v) (ho : v.owners c = some (some pid))
    (addr : VirtualAddress) :
    (onPager (Pager.translate c pid addr)).Meets m (fun _ => False) fun r m' _ => m'.Dated v ∧
      m'.pager.stateOf = m.pager.stateOf ∧ m.Translated m' pid addr r := by
  obtain ⟨u, hu, hown⟩ := hm.owner ho
  obtain ⟨q, es, hrun, hq⟩ := Pager.run_translate hm.sound hu hown addr
  have hpast : q.Past := by
    have htimely := Pager.timely_translate c pid addr m.pager (Pager.timely_zero.mpr hm.past)
    rw [hrun] at htimely
    exact Pager.timely_zero.mp htimely
  have hout := Pager.translating hm.sound hu pid addr
  rw [hrun] at hout
  refine meets_of_run_ok (run_onPager hrun)
    ⟨⟨hm.of_pager (hq.agrees hm.sound) (hq.faithful hu), hpast⟩, hq.steady.stateOf, ?_⟩
  cases hr : (m.pager.stateOf ⟨pid, g.pageOf addr⟩).bind PageState.frame? with
  | some f =>
    rw [hr] at hout
    refine ⟨?_, hout.latest hm.sound hm.past hu hown rfl⟩
    exact (congrFun hq.steady.stateOf _).trans (PageState.bind_frame?_eq_some_iff.mp hr)
  | none =>
    rw [hr] at hout
    refine ⟨?_, fun a hl => hout.latest_of_none hm.sound hu hown rfl hl⟩
    rintro ⟨f, hf⟩
    rw [PageState.bind_frame?_eq_some_iff.mpr hf] at hr
    simp at hr

theorem meets_handleFault (hm : m.Dated v) (hmem : v.memories pid = some mem)
    (addr : VirtualAddress) (access : Access) :
    (onPager (Pager.handleFault pid addr access)).Meets m (Exhausted v) fun r m' _ => m'.Dated v ∧
      match r with
      | .resolved _ => m'.Resident pid addr ∧
          ∀ a, m.Latest pid a → 2 ≤ g.frameCount → m'.Resident pid a
      | .violation _ => Astray v pid addr access := by
  obtain ⟨r, q, es, hrun, -, -, -, hanswer⟩ := Pager.run_handleFault hm.sound pid addr access
  cases r with
  | ok r =>
    have hquiet := ((quietly_handleFault hm.toShows pid addr access).of_ok (run_onPager hrun)).2
    have hpast : q.Past := by
      have htimely := Pager.timely_handleFault pid addr access m.pager
        (Pager.timely_zero.mpr hm.past)
      rw [hrun] at htimely
      exact Pager.timely_zero.mp htimely
    refine meets_of_run_ok (run_onPager hrun) ⟨⟨hquiet.1, hpast⟩, ?_⟩
    cases r with
    | violation _ => exact hquiet.2
    | resolved f =>
      refine ⟨⟨f, hquiet.2⟩, fun a hl hg => ?_⟩
      have hspared := Pager.Latest.spared hl hm.sound hg (congrArg Outcome.answer hrun)
      rw [hrun] at hspared
      obtain ⟨i, hi⟩ := hl.resident
      exact ⟨i, hspared.trans hi⟩
  | error e =>
    refine meets_of_run_error (e := es.map .paging) (t := { m with pager := q })
      (r := e.map (.memory m.clock.now)) (by simp [onPager, time, hrun]) ?_
    have hflat : m.pager.flat pid = some mem := by rw [← hmem, ← hm.view]; rfl
    rcases hanswer with ⟨hspace, -⟩ | ⟨hfull, rfl⟩
    · have hlive := (Pager.flat_eq_some_iff.mp hflat).1
      rw [hspace] at hlive
      simp at hlive
    · have hmemories : v.memories = m.pager.flat := by rw [← hm.view]; rfl
      exact ⟨rfl, hmemories ▸ Pager.crowded_of_full hm.sound hfull⟩

variable [Scheduler S]

def Fetched (m : Machine g S) (v : View g) (m' : Machine g S) (c : Nat) (regs : Registers)
    (pid : ProcessId) (addr : VirtualAddress) (access : Access) : Fetch → Prop
  | .ready f => m'.Dated v ∧ m'.pager.stateOf = m.pager.stateOf ∧
      m'.pager.stateOf ⟨pid, g.pageOf addr⟩ = some (.resident f) ∧ m'.Latest pid addr
  | .restart => m'.Dated v ∧ ¬m.Resident pid addr ∧ m'.Resident pid addr ∧
      ∀ a, m.Latest pid a → 2 ≤ g.frameCount → m'.Resident pid a
  | .terminated => m'.Shows (v.exited c pid regs) ∧ Astray v pid addr access

theorem meets_fetch (hexit : HearsExits S) (hm : m.Dated v) (hr : v.Runs h c x b.pid t mem)
    (addr : VirtualAddress) (access : Access) :
    (fetch c b addr access).Meets m (Exhausted v) fun r m' _ =>
      m.Fetched v m' c x.regs b.pid addr access r := by
  refine Meets.bind ((meets_translate hm hr.owner addr).weaken fun _ => False.elim) ?_
  rintro (_ | f) m₁ _ ⟨hm₁, hst, htranslated⟩
  · obtain ⟨hmissing, hlatest⟩ := htranslated
    refine Meets.bind (P := fun _ m₂ _ => m₂.Dated v ∧ m₂.pager = m₁.pager) ?_ ?_
    · refine meets_modify ⟨⟨?_, hm₁.past⟩, rfl⟩
      exact ((quietly_changeAccount hm₁.toShows b.pid (f := fun a => countFault a access)
        fun a => by cases access <;> rfl).of_ok rfl).2
    rintro _ m₂ _ ⟨hm₂, hpager⟩
    obtain ⟨p, hp⟩ := hm₂.process hr.task
    refine meets_bind_of_run (run_process hp) ?_
    refine meets_bind_of_run (run_report _ _) ?_
    refine Meets.bind (meets_handleFault hm₂ hr.memory addr access) ?_
    rintro (f | violation) m₃ _ ⟨hm₃, hanswer⟩
    · obtain ⟨hres, hspared⟩ := hanswer
      refine Meets.bind ((meets_translate hm₃ hr.owner addr).weaken fun _ => False.elim) ?_
      rintro (_ | f) m₄ _ ⟨hm₄, hst₄, htranslated⟩
      · exact absurd hres htranslated.1
      refine meets_bind_of_run (run_report _ _) ?_
      refine meets_pure ⟨hm₄, hmissing, ⟨f, htranslated.1⟩, fun a hl hg => ?_⟩
      have hl₂ : m₂.Latest b.pid a := by
        have hl₁ := hlatest a hl
        rwa [Latest, ← hpager] at hl₁
      obtain ⟨i, hi⟩ := hspared a hl₂ hg
      exact ⟨i, (congrFun hst₄ _).trans hi⟩
    · refine meets_bind_of_run (run_report _ _) ?_
      refine (surely_exitProcess hexit hm₃.toShows hr.cpu b hr.owner hr.task hr.memory).bind_meets
        (quietly_exitProcess hm₃.toShows hr.cpu b) ?_
      intro _ m₄ hm₄
      exact meets_pure ⟨hm₄, hanswer⟩
  · exact meets_pure ⟨hm₁, hst, htranslated.1, htranslated.2⟩

/-! Attempts. -/

/-- So many restarts may still be needed: none where both pages of the instruction are resident, and
one where that of the instruction pointer is. -/
def Lacks (m : Machine g S) (pid : ProcessId) (ip : VirtualAddress) (data : Option VirtualAddress) :
    Nat → Prop
  | 0 => m.Resident pid ip ∧ ∀ a, data = some a → m.Resident pid a
  | 1 => m.Resident pid ip
  | _ + 2 => True

omit [Scheduler S] in
theorem lacks_succ {ip : VirtualAddress} (hip : m.Resident pid ip) (data : Option VirtualAddress)
    (k : Nat) : m.Lacks pid ip data (k + 1) := by
  cases k with
  | zero => exact hip
  | succ k => trivial

def Apart (v : View g) (pid : ProcessId) (ip : VirtualAddress) (data : Option VirtualAddress) :
    Prop :=
  ∃ a mem, data = some a ∧ v.memories pid = some mem ∧ (mem (g.pageOf a)).isSome = true ∧
    g.pageOf a ≠ g.pageOf ip

/-- How an attempt leaves the machine. A restart has brought in a page that is not lost again. -/
def Attempted (v : View g) (m' : Machine g S) (c : Nat) (regs : Registers) (pid : ProcessId)
    (textPages : Nat) (data : Option VirtualAddress) (k : Nat) : Attempt → Prop
  | .restart => m'.Dated v ∧ ((Apart v pid regs.ip data → 2 ≤ g.frameCount) →
      ∃ j, k = j + 1 ∧ m'.Lacks pid regs.ip data j)
  | r => AttemptEnd v m' c regs pid textPages data r

theorem meets_fetchData (hexit : HearsExits S) (hm : m.Dated v) (hr : v.Runs h c x b.pid t mem)
    {frame : FrameNumber}
    (hframe : m.pager.stateOf ⟨b.pid, g.pageOf x.regs.ip⟩ = some (.resident frame))
    (hl : m.Latest b.pid x.regs.ip) {data : Option VirtualAddress} {k : Nat}
    (hk : m.Lacks b.pid x.regs.ip data k) (textPages : Nat) :
    (fetchData c b frame data).Meets m (Exhausted v) fun r m' _ =>
      Attempted v m' c x.regs b.pid textPages data k r := by
  cases data with
  | none => exact meets_pure ⟨hm.toShows, hframe, rfl, nofun⟩
  | some a =>
    refine meets_bind_of_run (run_report _ _) ?_
    refine Meets.bind (meets_fetch hexit hm hr a .data) ?_
    rintro (f | _ | _) m₁ _ hfetched
    · obtain ⟨hm₁, hst, hdata, -⟩ := hfetched
      refine meets_pure ⟨hm₁.toShows, (congrFun hst _).trans hframe, rfl, ?_⟩
      rintro _ _ ⟨⟩
      exact hdata
    · obtain ⟨hm₁, hmissing, hres, hspared⟩ := hfetched
      refine meets_pure ⟨hm₁, fun hroom => ?_⟩
      have hg : 2 ≤ g.frameCount := by
        obtain ⟨f, hf⟩ := hres
        refine hroom ⟨a, mem, rfl, hr.memory, hm₁.isSome_of_resident hr.memory hf, fun hpage => ?_⟩
        exact hmissing ⟨frame, by rw [hpage]; exact hframe⟩
      have hip := hspared x.regs.ip hl hg
      cases k with
      | zero => exact absurd (hk.2 a rfl) hmissing
      | succ j =>
        refine ⟨j, rfl, ?_⟩
        cases j with
        | zero =>
          refine ⟨hip, ?_⟩
          rintro _ ⟨⟩
          exact hres
        | succ j => exact lacks_succ hip _ j
    · exact meets_pure ⟨hfetched.1, .inr ⟨a, rfl, hfetched.2⟩⟩

theorem meets_attempt (hexit : HearsExits S) (hm : m.Dated v) (hr : v.Runs h c x b.pid t mem)
    {k : Nat} (hk : m.Lacks b.pid x.regs.ip (i.dataAddress? x.regs t.dataBase) k) :
    (attempt c b i).Meets m (Exhausted v) fun r m' _ =>
      Attempted v m' c x.regs b.pid t.textPages (i.dataAddress? x.regs t.dataBase) k r := by
  obtain ⟨p, hp⟩ := hm.process hr.task
  obtain rfl : p.task = t := Option.some.inj ((hm.task hp).symm.trans hr.task)
  refine meets_bind_of_run (run_process hp) ?_
  refine meets_bind_of_run (run_cpu (hm.cpus hr.cpu)) ?_
  refine meets_bind_of_run (run_report _ _) ?_
  refine Meets.bind (meets_fetch hexit hm hr x.regs.ip (.fetch p.textPages)) ?_
  rintro (f | _ | _) m₁ _ hfetched
  · obtain ⟨hm₁, hst, hip, hl⟩ := hfetched
    refine meets_bind_of_run (run_report _ _) ?_
    have hk₁ : m₁.Lacks b.pid x.regs.ip (i.dataAddress? x.regs p.dataBase) k := by
      cases k with
      | zero =>
        refine ⟨hl.resident, fun a ha => ?_⟩
        obtain ⟨f, hf⟩ := hk.2 a ha
        exact ⟨f, (congrFun hst _).trans hf⟩
      | succ k => exact lacks_succ hl.resident _ k
    exact meets_fetchData hexit hm₁ hr hip hl hk₁ p.textPages
  · obtain ⟨hm₁, hmissing, hres, -⟩ := hfetched
    refine meets_pure ⟨hm₁, fun _ => ?_⟩
    match k, hk with
    | 0, hk => exact absurd hk.1 hmissing
    | 1, hk => exact absurd hk hmissing
    | k + 2, _ => exact ⟨k + 1, rfl, lacks_succ hres _ k⟩
  · exact meets_pure ⟨hfetched.1, .inl hfetched.2⟩

theorem run_resolveWithin (hexit : HearsExits S) (hm : m.Dated v) (hr : v.Runs h c x b.pid t mem)
    (hroom : Apart v b.pid x.regs.ip (i.dataAddress? x.regs t.dataBase) → 2 ≤ g.frameCount)
    {k n : Nat} (hk : m.Lacks b.pid x.regs.ip (i.dataAddress? x.regs t.dataBase) k) (hn : k < n) :
    (resolveWithin c b i n).run m = (resolveWithin c b i (k + 1)).run m ∧
      (resolveWithin c b i n).Meets m (Exhausted v) fun _ _ _ => True := by
  induction n generalizing m k with
  | zero => exact absurd hn (Nat.not_lt_zero k)
  | succ n ih =>
    have hattempt := meets_attempt (i := i) hexit hm hr hk
    rcases hrun : (attempt c b i).run m with ⟨r | a, m₁, es⟩
    · have hfails (n : Nat) : (resolveWithin c b i (n + 1)).run m = ⟨.error r, m₁, es⟩ := by
        simp [resolveWithin, hrun]
      exact ⟨by rw [hfails, hfails], meets_of_run_error (hfails n) (hattempt.of_error hrun)⟩
    have hend := hattempt.of_ok hrun
    cases a with
    | ready frames =>
      have hready (n : Nat) :
          (resolveWithin c b i (n + 1)).run m = ⟨.ok (some frames), m₁, es⟩ := by
        simp [resolveWithin, hrun]
      exact ⟨by rw [hready, hready], meets_of_run_ok (hready n) trivial⟩
    | terminated =>
      have hgone (n : Nat) : (resolveWithin c b i (n + 1)).run m = ⟨.ok none, m₁, es⟩ := by
        simp [resolveWithin, hrun]
      exact ⟨by rw [hgone, hgone], meets_of_run_ok (hgone n) trivial⟩
    | restart =>
      obtain ⟨hm₁, hlacks⟩ := hend
      obtain ⟨j, rfl, hj⟩ := hlacks hroom
      obtain ⟨heq, hmeets⟩ := ih hm₁ hj (Nat.lt_of_succ_lt_succ hn)
      have hrestart (n : Nat) : (resolveWithin c b i (n + 1)).run m =
          ((resolveWithin c b i n).run m₁).after es := by
        simp [resolveWithin, hrun]
      refine ⟨by rw [hrestart, hrestart, heq], ?_⟩
      exact meets_bind_of_run hrun hmeets

theorem meets_resolveWithin_apart (hexit : HearsExits S) (hm : m.Dated v)
    (hr : v.Runs h c x b.pid t mem) (hone : g.frameCount = 1)
    (hip : Allowed v b.pid x.regs.ip (.fetch t.textPages))
    (hapart : Apart v b.pid x.regs.ip (i.dataAddress? x.regs t.dataBase)) (n : Nat) :
    (resolveWithin c b i n).Meets m (fun r => Exhausted v r ∨
      ∃ time, r = .error (.thrashing time b.pid x.regs.ip g.frameCount)) fun _ _ _ => False := by
  induction n generalizing m with
  | zero =>
    refine meets_of_run_error (r := .error (.thrashing m.clock.now b.pid x.regs.ip g.frameCount))
      (t := m) (e := []) ?_ (.inr ⟨_, rfl⟩)
    simp [resolveWithin, time, run_cpu (hm.cpus hr.cpu)]
  | succ n ih =>
    refine Meets.bind ((meets_attempt (k := 2) hexit hm hr trivial).weaken fun _ => .inl) ?_
    rintro (frames | _ | _) m₁ _ hattempted
    · obtain ⟨hm₁, hframe, hdata, hframes⟩ := hattempted
      obtain ⟨a, mem', ha, -, -, hne⟩ := hapart
      rw [ha] at hdata
      obtain ⟨⟨a, f⟩, hsome, rfl⟩ := Option.map_eq_some_iff.mp hdata
      have hf := hframes a f hsome
      have hlt := hm₁.sound.resident_lt hf
      have hlt' := hm₁.sound.resident_lt hframe
      rw [hone, Nat.lt_one_iff] at hlt hlt'
      obtain rfl : f = frames.instruction := hlt.trans hlt'.symm
      exact absurd (congrArg FrameOwner.page (hm₁.sound.books.eq_of_resident hf hframe)) hne
    · exact ih hattempted.1
    · obtain ⟨-, hastray | ⟨a, ha, hastray⟩⟩ := hattempted
      · exact absurd hastray hip.not_astray
      · obtain ⟨a', mem', ha', hmem', hsome, -⟩ := hapart
        obtain rfl := Option.some.inj (ha.symm.trans ha')
        exact absurd hastray (Allowed.not_astray ⟨rfl, mem', hmem', hsome⟩)

/-! In every state of a run. -/

def Thrashes (b : Burst) (x : Cpu)
    (o : Outcome Event (Failure RunError) (Machine g S) (Option InstructionFrames)) : Prop :=
  ∃ time, o.answer = .error (.error (.thrashing time b.pid x.regs.ip g.frameCount))

/-- How bringing in the pages of an instruction ends. -/
structure Settles (m : Machine g S) (c : Nat) (x : Cpu) (b : Burst) (p : Process) (i : Instruction)
    (o : Outcome Event (Failure RunError) (Machine g S) (Option InstructionFrames)) : Prop where
  answers : (∃ r, o.answer = .ok r) ∨ Thrashes b x o ∨
    ∃ r, o.answer = .error r ∧ Exhausted m.view r
  roomy : 2 ≤ g.frameCount → ¬Thrashes b x o ∧ o = (resolveWithin c b i 3).run m
  tight : g.frameCount = 1 → (∃ r, o.answer = .error r ∧ Exhausted m.view r) ∨
    (Thrashes b x o ↔ g.pageOf x.regs.ip < p.textPages ∧
      ∃ a, i.dataAddress? x.regs p.dataBase = some a ∧
        (m.pager.state? b.pid (g.pageOf a)).isSome = true ∧ g.pageOf a ≠ g.pageOf x.regs.ip)
  ready : ∀ frames, o.answer = .ok (some frames) →
    o.state.pager.Holds b.pid x.regs.ip frames.instruction (i.dataAddress? x.regs p.dataBase)
      (frames.data.map fun (a, f) => g.physicalAddress f a)
  gone : o.answer = .ok none → o.state.processes[b.pid]?.map Process.status = some .exited

omit [Scheduler S] in
theorem apart_iff (hm : m.Shows v) {ip : VirtualAddress} {data : Option VirtualAddress}
    (hmem : v.memories pid = some mem) : Apart v pid ip data ↔
      ∃ a, data = some a ∧ (m.pager.state? pid (g.pageOf a)).isSome = true ∧
        g.pageOf a ≠ g.pageOf ip := by
  have hsome (a : VirtualAddress) :
      (m.pager.state? pid (g.pageOf a)).isSome = (mem (g.pageOf a)).isSome := by
    rw [← hm.memories hmem, Pager.memory, Option.isSome_map, Pager.isSome_contents hm.sound]
    rfl
  constructor
  · rintro ⟨a, mem', ha, hmem', hs, hne⟩
    obtain rfl := Option.some.inj (hmem.symm.trans hmem')
    exact ⟨a, ha, (hsome a).trans hs, hne⟩
  · rintro ⟨a, ha, hs, hne⟩
    exact ⟨a, mem, ha, hmem, (hsome a).symm.trans hs, hne⟩

theorem inside_of_dataAddress? (hr : v.Runs h c x pid p.task mem) {a : VirtualAddress}
    (ha : (Instruction.decode (p.trace.textAt x.regs.ip)).dataAddress? x.regs p.dataBase = some a) :
    g.pageOf x.regs.ip < p.textPages := by
  by_contra hout
  have htext : p.textPages = p.trace.textPages g := hr.textPages
  have hsize := p.trace.size_le_of_outside (g := g) (htext ▸ Nat.not_lt.mp hout)
  obtain ⟨s, hs⟩ := Instruction.decode_textAt p.trace hsize
  rw [hs] at ha
  cases ha

section Settles

variable (hm : m.Dated v) (hr : v.Runs h c x b.pid t mem)
include hm hr

theorem resolve_together (hexit : HearsExits S)
    (hroom : Apart v b.pid x.regs.ip (i.dataAddress? x.regs t.dataBase) → 2 ≤ g.frameCount) :
    (resolve c b i).run m = (resolveWithin c b i 3).run m ∧
      ¬Thrashes b x ((resolve c b i).run m) ∧ ((∃ r, ((resolve c b i).run m).answer = .ok r) ∨
        ∃ r, ((resolve c b i).run m).answer = .error r ∧ Exhausted v r) := by
  obtain ⟨hrun, hmeets⟩ := run_resolveWithin (i := i) (k := 2) (n := maxRestarts + 1) hexit hm hr
    hroom trivial (by decide)
  refine ⟨hrun, ?_, ?_⟩
  · rintro ⟨time, htime⟩
    rcases hmeets.answer with ⟨r, hok⟩ | ⟨r, herror, rfl, -⟩
    · exact absurd (hok.symm.trans htime) nofun
    · exact absurd (herror.symm.trans htime) nofun
  · exact hmeets.answer

theorem resolve_apart (hexit : HearsExits S) (hone : g.frameCount = 1)
    (hin : g.pageOf x.regs.ip < t.textPages)
    (hapart : Apart v b.pid x.regs.ip (i.dataAddress? x.regs t.dataBase)) :
    (∃ r, ((resolve c b i).run m).answer = .error r ∧ Exhausted v r) ∨
      Thrashes b x ((resolve c b i).run m) := by
  have hip : Allowed v b.pid x.regs.ip (.fetch t.textPages) :=
    ⟨decide_eq_false (Nat.not_le.mpr hin), mem, hr.memory, hr.reaches.text _ (hr.textPages ▸ hin)⟩
  have hmeets := meets_resolveWithin_apart (i := i) hexit hm hr hone hip hapart (maxRestarts + 1)
  rcases hrun : (resolveWithin c b i (maxRestarts + 1)).run m with ⟨r | a, m', es⟩
  · have hrun' : (resolve c b i).run m = ⟨.error r, m', es⟩ := hrun
    rw [hrun', Thrashes]
    rcases hmeets.of_error hrun with hfull | ⟨time, rfl⟩
    · exact .inl ⟨r, rfl, hfull⟩
    · exact .inr ⟨time, rfl⟩
  · exact (hmeets.of_ok hrun).elim

theorem resolve_ready {frames : InstructionFrames}
    (hok : ((resolve c b i).run m).answer = .ok (some frames)) :
    ((resolve c b i).run m).state.pager.Holds b.pid x.regs.ip frames.instruction
      (i.dataAddress? x.regs t.dataBase)
      (frames.data.map fun (a, f) => g.physicalAddress f a) := by
  have hend := quietly_resolve hm.toShows hr.cpu b hr.task hr.owner i
  rcases hrun : (resolve c b i).run m with ⟨r, m', es⟩
  rw [hrun] at hok
  obtain rfl : r = .ok (some frames) := hok
  obtain ⟨-, hm', hip, hdata, hframes⟩ := hend.of_ok hrun
  exact Pager.holds_of_resident hm'.sound hip hdata hframes

theorem resolve_gone (hok : ((resolve c b i).run m).answer = .ok none) :
    ((resolve c b i).run m).state.processes[b.pid]?.map Process.status = some .exited := by
  have hend := quietly_resolve hm.toShows hr.cpu b hr.task hr.owner i
  rcases hrun : (resolve c b i).run m with ⟨r, m', es⟩
  rw [hrun] at hok
  obtain rfl : r = .ok none := hok
  obtain ⟨-, hm', -⟩ := hend.of_ok hrun
  have htask := View.tasks_setStatus_undispatched (c := c) hr.task x.regs .exited
  obtain ⟨q, hq⟩ := hm'.process htask
  rw [hq, Option.map_some]
  exact congrArg (Option.map Task.status) ((hm'.task hq).symm.trans htask)

end Settles

theorem settles_of_runs (hexit : HearsExits S) (hm : m.Dated m.view)
    (hr : m.view.Runs h c x b.pid p.task mem)
    (hi : i = .decode (p.trace.textAt x.regs.ip)) :
    m.Settles c x b p i ((resolve c b i).run m) := by
  have hiff : Apart m.view b.pid x.regs.ip (i.dataAddress? x.regs p.dataBase) ↔ _ :=
    apart_iff hm.toShows hr.memory
  have hin (hapart : Apart m.view b.pid x.regs.ip (i.dataAddress? x.regs p.dataBase)) :
      g.pageOf x.regs.ip < p.textPages := by
    obtain ⟨a, -, ha, -⟩ := hapart
    exact inside_of_dataAddress? hr (hi ▸ ha)
  refine ⟨?_, fun hg => ?_, fun hone => ?_, fun frames => resolve_ready hm hr,
    resolve_gone hm hr⟩
  · by_cases hroom : Apart m.view b.pid x.regs.ip (i.dataAddress? x.regs p.dataBase) →
        2 ≤ g.frameCount
    · exact (resolve_together hm hr hexit hroom).2.2.imp_right .inr
    · obtain ⟨hapart, hless⟩ := not_forall.mp hroom
      have hone : g.frameCount = 1 := by
        have hpos := g.frameCount_pos
        omega
      exact .inr (resolve_apart hm hr hexit hone (hin hapart) hapart).symm
  · have htogether := resolve_together (i := i) hm hr hexit fun _ => hg
    exact ⟨htogether.2.1, htogether.1⟩
  · by_cases hapart : Apart m.view b.pid x.regs.ip (i.dataAddress? x.regs p.dataBase)
    · exact (resolve_apart hm hr hexit hone (hin hapart) hapart).imp_right fun hthrash =>
        iff_of_true hthrash ⟨hin hapart, hiff.mp hapart⟩
    · have htogether := resolve_together (i := i) hm hr hexit fun ha => absurd ha hapart
      exact .inr (iff_of_false htogether.2.1 fun hc => hapart (hiff.mpr hc.2))

/-- Bringing in the pages of an instruction ends, in every state of a run and before and after the
tick of the instruction is entered. With two frames or more there are at most two restarts. With
one frame the machine stops exactly where the instruction has its data on another page than its
own. What is brought in is there all at once. Only a swap store that is full may be in the way. -/
theorem resolution_settles (hexit : HearsExits S) (cpus : Nat) (useTlb : Bool) (policy : S)
    (specs : List ProcessSpec) (n : Nat) (hm : (new g cpus useTlb policy specs).stepN n = m)
    (hrun : m.isRunning = true) (hx : m.cpus[c]? = some x) (hcur : x.current? = some b.pid)
    (hp : m.processes[b.pid]? = some p) {m₀ : Machine g S} (hm₀ : m₀ = m ∨ m₀ = m.entered b.pid) :
    m₀.Settles c x b p (.decode (p.trace.textAt x.regs.ip))
      ((resolve c b (.decode (p.trace.textAt x.regs.ip))).run m₀) := by
  have hok : ∀ e, ((new g cpus useTlb policy specs).stepN n).status ≠ .aborted e := by
    intro e he
    rw [isRunning, ← hm, he] at hrun
    simp at hrun
  have hstands := (stands_new cpus useTlb policy specs).stepN n hok
  have hpast := past_stepN (m := new g cpus useTlb policy specs) (Pager.past_new g _) n
  rw [hm] at hstands hpast
  have hshows : m.Shows m.view := ⟨hstands.sound, rfl⟩
  obtain ⟨t, mem, hr⟩ := hstands.inv.runs (hshows.cpu hx) hcur
  obtain rfl : t = p.task := Option.some.inj (hr.task.symm.trans (hshows.task hp))
  rcases hm₀ with rfl | rfl
  · exact settles_of_runs hexit ⟨hshows, hpast⟩ hr rfl
  · have hentered := shows_entered hshows b.pid
    rw [← hentered.view] at hr
    exact settles_of_runs hexit ⟨⟨hentered.sound, rfl⟩, hpast⟩ hr rfl

def cramped : Machine Pager.oneFrame RoundRobin :=
  new Pager.oneFrame 1 true {}
    [{ name := "stores", quantum := 10
       trace := ⟨#["loadReg1Immediate 1", "Syscall_Alloc", "storeReg0Indirect 1"]⟩ }]

theorem resolution_settles_cramped : ∃ x p, (cramped.stepN 9).cpus[0]? = some x ∧
    x.phase = .bursting ⟨0, 2⟩ ∧
    (cramped.stepN 9).Settles 0 x ⟨0, 2⟩ p (.decode "storeReg0Indirect 1")
      ((resolve 0 ⟨0, 2⟩ (.decode "storeReg0Indirect 1")).run (cramped.stepN 9)) ∧
    Thrashes ⟨0, 2⟩ x
      ((resolve 0 ⟨0, 2⟩ (.decode "storeReg0Indirect 1")).run (cramped.stepN 9)) := by
  have hstate : (fun m : Machine Pager.oneFrame RoundRobin => (m.isRunning,
      m.cpus[0]?.map (fun x => (x.phase, x.regs.ip)),
      m.processes[0]?.map (fun p => p.trace.textAt (.ofNat 8)),
      ((resolve 0 ⟨0, 2⟩ (.decode "storeReg0Indirect 1")).run m).answer)) (cramped.stepN 9) =
        (true, some (.bursting ⟨0, 2⟩, .ofNat 8), some "storeReg0Indirect 1",
          .error (.error (.thrashing 2 0 (.ofNat 8) 1))) := by decide +kernel
  obtain ⟨hrun, hrest⟩ := Prod.mk.inj hstate
  obtain ⟨hcpu, hrest⟩ := Prod.mk.inj hrest
  obtain ⟨hprocess, hanswer⟩ := Prod.mk.inj hrest
  obtain ⟨x, hx, hpair⟩ := Option.map_eq_some_iff.mp hcpu
  obtain ⟨hphase, hip⟩ := Prod.mk.inj hpair
  obtain ⟨p, hp, htext⟩ := Option.map_eq_some_iff.mp hprocess
  have hsettles := resolution_settles (b := ⟨0, 2⟩) hearsExits_roundRobin 1 true ({} : RoundRobin)
    _ 9 rfl hrun hx (Cpu.current?_of_bursting hphase) hp (.inl rfl)
  rw [hip, htext] at hsettles
  exact ⟨x, p, hx, hphase, hsettles, 2, by rw [hanswer, hip]; rfl⟩

end DemandPaging.Machine
