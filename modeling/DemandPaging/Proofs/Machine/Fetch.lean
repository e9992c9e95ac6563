import DemandPaging.Proofs.Machine.Quiet
/-!
Translating the addresses of an instruction. Hits, resolved faults and restarts leave the view of
the machine as it is; a violation ends the process and means that the address lies outside the text
or on a page that the process does not have.
-/

namespace DemandPaging.Machine

open DemandPaging.Action

variable {g : Geometry} {S : Type} {m : Machine g S} {v : View g} {c : Nat} {x : Cpu}

/-- Whether an access has no place to go to: a fetch from outside the text, or a page that the
process does not have. -/
def Astray (v : View g) (pid : ProcessId) (addr : VirtualAddress) (access : Access) : Prop :=
  access.isIllegal (g.pageOf addr) = true ∨
    ∀ mem, v.memories pid = some mem → mem (g.pageOf addr) = none

theorem Shows.memories (h : m.Shows v) {pid : ProcessId} {mem : FlatMemory g}
    (hmem : v.memories pid = some mem) : m.pager.memory pid = mem := by
  have hflat : m.pager.flat pid = some mem := by rw [← hmem, ← h.view]; rfl
  exact (Pager.flat_eq_some_iff.mp hflat).2

theorem Shows.isSome_of_resident (h : m.Shows v) {pid : ProcessId} {mem : FlatMemory g}
    (hmem : v.memories pid = some mem) {page : PageNumber} {f : FrameNumber}
    (hst : m.pager.stateOf ⟨pid, page⟩ = some (.resident f)) : (mem page).isSome = true := by
  obtain ⟨p, hp⟩ := m.pager.ram.exists_frame? (h.sound.resident_lt hst)
  rw [← h.memories hmem, Pager.memory, Pager.contents_of_resident hst, hp]
  rfl

theorem Shows.owner (h : m.Shows v) {pid : ProcessId} (ho : v.owners c = some (some pid)) :
    ∃ u, m.pager.translators[c]? = some u ∧ u.owner = some pid := by
  rw [← h.view] at ho
  exact Option.map_eq_some_iff.mp ho

theorem quietly_translate (h : m.Shows v) {pid : ProcessId} (ho : v.owners c = some (some pid))
    (a : VirtualAddress) :
    Quietly (onPager (Pager.translate c pid a)) m fun r m' => m'.Shows v ∧
      r = (m.pager.stateOf ⟨pid, g.pageOf a⟩).bind PageState.frame? ∧
      m'.pager.stateOf = m.pager.stateOf := by
  refine quietly_onPager ?_
  obtain ⟨u, hu, hown⟩ := h.owner ho
  obtain ⟨p, es, hrun, hp⟩ := Pager.run_translate h.sound hu hown a
  exact meets_of_run_ok hrun
    ⟨h.of_pager (hp.agrees h.sound) (hp.faithful hu), rfl, hp.steady.stateOf⟩

theorem quietly_handleFault (h : m.Shows v) (pid : ProcessId) (a : VirtualAddress)
    (access : Access) :
    Quietly (onPager (Pager.handleFault pid a access)) m fun r m' => m'.Shows v ∧
      match r with
      | .resolved f => m'.pager.stateOf ⟨pid, g.pageOf a⟩ = some (.resident f)
      | .violation _ => Astray v pid a access := by
  refine quietly_onPager ?_
  obtain ⟨r, p, es, hrun, hp, hf, -, ha⟩ := Pager.run_handleFault h.sound pid a access
  match r, ha with
  | .ok (.resolved f), ha => exact meets_of_run_ok hrun ⟨h.of_pager hp hf, ha.2.2⟩
  | .ok (.violation _), ha =>
    refine meets_of_run_ok hrun ⟨h.of_pager hp hf, ha.2.imp id fun hnone mem hmem => ?_⟩
    rw [← h.memories hmem, Pager.memory, Pager.contents, hnone]
    rfl
  | .error e, _ => exact meets_of_run_error hrun trivial

variable [Scheduler S]

def FetchEnd (m : Machine g S) (v : View g) (m' : Machine g S) (c : Nat) (regs : Registers)
    (pid : ProcessId) (addr : VirtualAddress) (access : Access) : Fetch → Prop
  | .ready f => m'.Shows v ∧ m'.pager.stateOf = m.pager.stateOf ∧
      m'.pager.stateOf ⟨pid, g.pageOf addr⟩ = some (.resident f)
  | .restart => m'.Shows v
  | .terminated => m'.Shows (v.exited c pid regs) ∧ Astray v pid addr access

theorem quietly_fetch (h : m.Shows v) (hx : v.cpus c = some x) (b : Burst)
    (ho : v.owners c = some (some b.pid)) (addr : VirtualAddress) (access : Access) :
    Quietly (fetch c b addr access) m fun r m' =>
      FetchEnd m v m' c x.regs b.pid addr access r := by
  refine (quietly_translate h ho addr).bind ?_
  rintro r m₁ ⟨h₁, hr, hst⟩
  cases r with
  | some f =>
    refine quietly_pure ⟨h₁, hst, ?_⟩
    rw [hst]
    exact PageState.bind_frame?_eq_some_iff.mp hr.symm
  | none =>
    refine (quietly_changeAccount h₁ b.pid (f := fun a => countFault a access)
      fun a => by cases access <;> rfl).bind ?_
    intro _ m₂ h₂
    refine (quietly_process b.pid).bind ?_
    rintro p _ ⟨-, rfl⟩
    refine quietly_report_bind rfl ?_
    refine (quietly_handleFault h₂ b.pid addr access).bind ?_
    rintro (f | violation) m₃ ⟨h₃, hend⟩
    · refine (quietly_translate h₃ ho addr).bind ?_
      rintro _ m₄ ⟨h₄, rfl, -⟩
      rw [PageState.bind_frame?_eq_some_iff.mpr hend]
      refine quietly_report_bind rfl ?_
      exact quietly_pure h₄
    · refine quietly_report_bind rfl ?_
      refine (quietly_exitProcess h₃ hx b).bind ?_
      intro _ m₄ h₄
      exact quietly_pure ⟨h₄, hend⟩

/-- How translating the addresses of an instruction leaves the machine. It is done only where the
pages of both are resident at once. -/
def AttemptEnd (v : View g) (m' : Machine g S) (c : Nat) (regs : Registers) (pid : ProcessId)
    (textPages : Nat) (data : Option VirtualAddress) : Attempt → Prop
  | .ready frames => m'.Shows v ∧
      m'.pager.stateOf ⟨pid, g.pageOf regs.ip⟩ = some (.resident frames.instruction) ∧
      frames.data.map Prod.fst = data ∧ ∀ a f, frames.data = some (a, f) →
        m'.pager.stateOf ⟨pid, g.pageOf a⟩ = some (.resident f)
  | .restart => m'.Shows v
  | .terminated => m'.Shows (v.exited c pid regs) ∧
      (Astray v pid regs.ip (.fetch textPages) ∨ ∃ a, data = some a ∧ Astray v pid a .data)

theorem quietly_fetchData (h : m.Shows v) (hx : v.cpus c = some x) (b : Burst)
    (ho : v.owners c = some (some b.pid)) {frame : FrameNumber}
    (hframe : m.pager.stateOf ⟨b.pid, g.pageOf x.regs.ip⟩ = some (.resident frame))
    (textPages : Nat) (addr : Option VirtualAddress) :
    Quietly (fetchData c b frame addr) m fun r m' =>
      AttemptEnd v m' c x.regs b.pid textPages addr r := by
  cases addr with
  | none => exact quietly_pure ⟨h, hframe, rfl, nofun⟩
  | some a =>
    refine quietly_report_bind rfl ?_
    refine (quietly_fetch h hx b ho a .data).bind ?_
    rintro (f | _ | _) m₁ hend
    · obtain ⟨hm₁, hkept, hst⟩ := hend
      refine quietly_pure ⟨hm₁, by rw [hkept, hframe], rfl, ?_⟩
      rintro _ _ ⟨⟩
      exact hst
    · exact quietly_pure hend
    · exact quietly_pure ⟨hend.1, .inr ⟨a, rfl, hend.2⟩⟩

theorem quietly_attempt (h : m.Shows v) (hx : v.cpus c = some x) (b : Burst) {t : Task}
    (ht : v.tasks b.pid = some t) (ho : v.owners c = some (some b.pid)) (i : Instruction) :
    Quietly (attempt c b i) m fun r m' =>
      AttemptEnd v m' c x.regs b.pid t.textPages (i.dataAddress? x.regs t.dataBase) r := by
  refine (quietly_task h ht).bind ?_
  rintro p _ ⟨rfl, rfl⟩
  refine (quietly_cpu_eq h hx).bind ?_
  rintro x _ ⟨rfl, rfl⟩
  refine quietly_report_bind rfl ?_
  refine (quietly_fetch h hx b ho x.regs.ip (.fetch p.textPages)).bind ?_
  rintro (f | _ | _) m₁ hend
  · refine quietly_report_bind rfl ?_
    exact quietly_fetchData hend.1 hx b ho hend.2.2 _ _
  · exact quietly_pure hend
  · exact quietly_pure ⟨hend.1, .inl hend.2⟩

def ResolveEnd (v : View g) (m' : Machine g S) (c : Nat) (regs : Registers) (pid : ProcessId)
    (textPages : Nat) (data : Option VirtualAddress) : Option InstructionFrames → Prop
  | some frames => AttemptEnd v m' c regs pid textPages data (.ready frames)
  | none => AttemptEnd v m' c regs pid textPages data .terminated

theorem quietly_resolveWithin (h : m.Shows v) (hx : v.cpus c = some x) (b : Burst) {t : Task}
    (ht : v.tasks b.pid = some t) (ho : v.owners c = some (some b.pid)) (i : Instruction)
    (attempts : Nat) :
    Quietly (resolveWithin c b i attempts) m fun r m' =>
      ResolveEnd v m' c x.regs b.pid t.textPages (i.dataAddress? x.regs t.dataBase) r := by
  induction attempts generalizing m with
  | zero =>
    refine quietly_time_bind fun now => ?_
    refine (quietly_cpu c).bind ?_
    rintro y _ ⟨-, rfl⟩
    exact quietly_fail nofun
  | succ attempts ih =>
    refine (quietly_attempt h hx b ht ho i).bind ?_
    rintro (frames | _ | _) m₁ hend
    · exact quietly_pure hend
    · exact ih hend
    · exact quietly_pure hend

theorem quietly_resolve (h : m.Shows v) (hx : v.cpus c = some x) (b : Burst) {t : Task}
    (ht : v.tasks b.pid = some t) (ho : v.owners c = some (some b.pid)) (i : Instruction) :
    Quietly (resolve c b i) m fun r m' =>
      ResolveEnd v m' c x.regs b.pid t.textPages (i.dataAddress? x.regs t.dataBase) r :=
  quietly_resolveWithin h hx b ht ho i _

end DemandPaging.Machine
