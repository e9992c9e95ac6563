import DemandPaging.Proofs.Pager.Flat
import DemandPaging.Proofs.Reference
/-!
Executing an instruction on frames that hold its pages does to registers, flat memory and output
what the reference interpreter does.
-/

namespace DemandPaging.Execution

open DemandPaging.Action

variable {g : Geometry}

def Completed (regs : Registers) (s : Solo g) : Completion → Prop
  | .next ip => s.regs = { regs with ip } ∧ s.ended = false
  | .block ip _ => s.regs = { regs with ip } ∧ s.ended = false
  | .signal _ => s.regs = regs ∧ s.ended = true

/-- What an execution leaves agrees with an outcome of the reference interpreter. -/
structure Executed (pid : ProcessId) (e e' : Execution g) (done : Completion) (s : Solo g)
    (lines : List String) : Prop where
  sound : e'.pager.Sound
  memory : e'.pager.flat = Function.update e.pager.flat pid (some s.memory)
  owners : e'.pager.translators = e.pager.translators
  output : e'.output.toList = e.output.toList ++ lines
  completed : Completed e'.regs s done

variable {pid : ProcessId} {e : Execution g} {mem : FlatMemory g}

/-- The program on a CPU as the reference interpreter has it. -/
def solo (e : Execution g) (mem : FlatMemory g) : Solo g := { regs := e.regs, memory := mem }

theorem executed_of_pager_eq (h : e.pager.Sound) (hmem : e.pager.flat pid = some mem)
    {e' : Execution g} {done : Completion} {s : Solo g} {lines : List String}
    (hp : e'.pager = e.pager) (hs : s.memory = mem)
    (hout : e'.output.toList = e.output.toList ++ lines) (hdone : Completed e'.regs s done) :
    Executed pid e e' done s lines := by
  refine ⟨hp ▸ h, ?_, by rw [hp], hout, hdone⟩
  rw [hp, hs, ← hmem, Function.update_eq_self]

def Follows (pid : ProcessId) (base : VirtualAddress) (data : Option PhysicalAddress)
    (i : Instruction) (e : Execution g) (mem : FlatMemory g) : Prop :=
  (execute pid base data i).Meets e (fun _ => True) fun done e' _ =>
    ∃ s lines, (e.solo mem).execute? base i = some (s, lines) ∧ Executed pid e e' done s lines

theorem follows_of_run {base : VirtualAddress} {data : Option PhysicalAddress} {i : Instruction}
    {done : Completion} {e' : Execution g} {es : List Event} {s : Solo g} {lines : List String}
    (hrun : (execute pid base data i).run e = ⟨.ok done, e', es⟩)
    (hsolo : (e.solo mem).execute? base i = some (s, lines))
    (hx : Executed pid e e' done s lines) : Follows pid base data i e mem :=
  meets_of_run_ok hrun ⟨s, lines, hsolo, hx⟩

theorem follows_loadIndirect (h : e.pager.Sound) (hmem : e.pager.flat pid = some mem)
    {base addr : VirtualAddress} {f : FrameNumber} (d a : Register)
    (haddr : Instruction.relativeAddress (e.regs.get a) base = addr)
    (hst : e.pager.stateOf ⟨pid, g.pageOf addr⟩ = some (.resident f)) :
    Follows pid base (some (g.physicalAddress f addr)) (.loadIndirect d a) e mem := by
  obtain ⟨w, hw, hload⟩ := Pager.run_loadWord h hst
  rw [(Pager.flat_eq_some_iff.mp hmem).2] at hw
  have hrun : (execute pid base (some (g.physicalAddress f addr)) (.loadIndirect d a)).run e =
      ⟨.ok (.next (e.regs.ip.add wordBytes)), { e with regs := e.regs.set d w },
        [.executed (.loadIndirect d a)
          (.loaded d (g.physicalAddress f addr) (e.regs.get d) w)]⟩ := by
    simp [execute, onPager, hload, setRegister]
  have hsolo : (e.solo mem).execute? base (.loadIndirect d a) = some ((e.solo mem).goOn
      (({ e.regs with ip := e.regs.ip.add wordBytes } : Registers).set d w)) := by
    simp [Solo.execute?, solo, haddr, hw]
  refine follows_of_run hrun hsolo (executed_of_pager_eq h hmem rfl rfl (by simp) ?_)
  exact ⟨by cases d <;> rfl, rfl⟩

theorem follows_storeIndirect (h : e.pager.Sound) (hmem : e.pager.flat pid = some mem)
    {base addr : VirtualAddress} {f : FrameNumber} (r a : Register)
    (haddr : Instruction.relativeAddress (e.regs.get a) base = addr)
    (hst : e.pager.stateOf ⟨pid, g.pageOf addr⟩ = some (.resident f)) :
    Follows pid base (some (g.physicalAddress f addr)) (.storeIndirect r a) e mem := by
  obtain ⟨hlive, hown⟩ := Pager.flat_eq_some_iff.mp hmem
  obtain ⟨w, -, hload⟩ := Pager.run_loadWord h hst
  obtain ⟨p, mem', hstore, hmem', hp, -, hpid, hother, hspaces, htrans⟩ :=
    Pager.run_storeWord h hst (e.regs.get r)
  rw [hown] at hmem'
  have hrun : (execute pid base (some (g.physicalAddress f addr)) (.storeIndirect r a)).run e =
      ⟨.ok (.next (e.regs.ip.add wordBytes)), { e with pager := p },
        [.executed (.storeIndirect r a)
          (.stored r (g.physicalAddress f addr) w (e.regs.get r))]⟩ := by
    simp [execute, onPager, hload, hstore]
  have hsolo : (e.solo mem).execute? base (.storeIndirect r a) =
      some ({ regs := { e.regs with ip := e.regs.ip.add wordBytes }, memory := mem' }, []) := by
    simp [Solo.execute?, solo, haddr, hmem']
  refine follows_of_run hrun hsolo ⟨hp, ?_, htrans, by simp, rfl, rfl⟩
  refine Pager.flat_eq_update mem' ?_ (fun q _ => ?_) hpid hother
  · rw [Pager.space?, hspaces]
    exact hlive
  · rw [Pager.space?, hspaces, Pager.space?]

theorem run_alloc {base : VirtualAddress} (data : Option PhysicalAddress) {first count : Nat}
    {r : Except (Failure MemoryError) Bool} {p : Pager g} {es : List Paging.Event}
    (hreq : requested? e.regs.r0 e.regs.r1 = some (first, count))
    (halloc : (Pager.allocate pid (g.pageOf base + first) count).run e.pager = ⟨r, p, es⟩) :
    (execute pid base data .alloc).run e =
      ⟨r.map fun granted => if granted then .next (e.regs.ip.add wordBytes)
          else .signal .allocationFailure, { e with pager := p },
        .executed .alloc (.allocating e.regs.r0 (e.regs.r1 - e.regs.r0)) ::
          es.map Event.paging⟩ := by
  cases r with
  | error r => simp [execute, allocate, onPager, hreq, halloc, Except.map]
  | ok granted =>
    cases granted <;> simp [execute, allocate, onPager, hreq, halloc, Except.map]

theorem follows_alloc (h : e.pager.Sound) (hmem : e.pager.flat pid = some mem)
    (base : VirtualAddress) (data : Option PhysicalAddress) :
    Follows pid base data .alloc e mem := by
  cases hreq : requested? e.regs.r0 e.regs.r1 with
  | none =>
    have hrun : (execute pid base data .alloc).run e = ⟨.ok (.signal .allocationFailure), e,
        [.executed .alloc (.allocating e.regs.r0 (e.regs.r1 - e.regs.r0)),
          .badRequest pid e.regs.r0 e.regs.r1]⟩ := by
      simp [execute, allocate, hreq]
    have hsolo : (e.solo mem).execute? base .alloc = some (e.solo mem).stop := by
      simp [Solo.execute?, Solo.allocate?, solo, hreq]
    exact follows_of_run hrun hsolo
      (executed_of_pager_eq h hmem rfl rfl (by simp) ⟨rfl, rfl⟩)
  | some request =>
    obtain ⟨first, count⟩ := request
    obtain ⟨r, p, es, halloc, hp, hs, htrans, ha⟩ :=
      Pager.run_allocate h pid (g.pageOf base + first) count
    obtain ⟨hgrant, hflat⟩ := Pager.flat_of_allocateAnswer hs ha
    have hrun := run_alloc data hreq halloc
    cases r with
    -- pages that are there already: the run is aborted, and nothing is promised
    | error r => exact meets_of_run_error hrun trivial
    | ok granted =>
      cases granted with
      | false =>
        have hsolo : (e.solo mem).execute? base .alloc = some (e.solo mem).stop := by
          simp [Solo.execute?, Solo.allocate?, solo, hreq, ha.1]
        have hkept : p.flat = Function.update e.pager.flat pid (some mem) := by
          rw [hflat, if_neg (by simp), ← hmem, Function.update_eq_self]
        exact follows_of_run hrun hsolo ⟨hp, hkept, htrans, by simp, rfl, rfl⟩
      | true =>
        obtain ⟨mem', hmem', hg⟩ := hgrant.mp rfl
        obtain rfl : mem = mem' := by rw [hmem] at hmem'; exact Option.some.inj hmem'
        have hsolo : (e.solo mem).execute? base .alloc = some
            ({ regs := { e.regs with ip := e.regs.ip.add wordBytes }
               memory := mem.allocate (g.pageOf base + first) count }, []) := by
          simp [Solo.execute?, Solo.allocate?, solo, hreq, Nat.not_lt.mpr ha.2.1, hg]
        refine follows_of_run hrun hsolo ⟨hp, ?_, htrans, by simp, rfl, rfl⟩
        rw [hflat, if_pos rfl, (Pager.flat_eq_some_iff.mp hmem).2]

/-- Every instruction does what the reference interpreter does, given the frame that the page of
its data operand is resident in. -/
theorem follows (h : e.pager.Sound) (hmem : e.pager.flat pid = some mem) (base : VirtualAddress)
    (i : Instruction) {data : Option (VirtualAddress × FrameNumber)}
    (haddr : data.map Prod.fst = i.dataAddress? e.regs base)
    (hst : ∀ a f, data = some (a, f) → e.pager.stateOf ⟨pid, g.pageOf a⟩ = some (.resident f)) :
    Follows pid base (data.map fun (a, f) => g.physicalAddress f a) i e mem := by
  have data_of {r : Register} (hr : i.addressRegister? = some r) : ∃ f, data =
      some (Instruction.relativeAddress (e.regs.get r) base, f) := by
    rw [Instruction.dataAddress?, hr, Option.map_some] at haddr
    obtain ⟨⟨a, f⟩, hd, rfl⟩ := Option.map_eq_some_iff.mp haddr
    exact ⟨f, hd⟩
  cases i with
  | loadIndirect d a =>
    obtain ⟨f, hd⟩ := data_of rfl
    rw [hd]
    exact follows_loadIndirect h hmem d a rfl (hst _ _ hd)
  | storeIndirect r a =>
    obtain ⟨f, hd⟩ := data_of rfl
    rw [hd]
    exact follows_storeIndirect h hmem r a rfl (hst _ _ hd)
  | alloc => exact follows_alloc h hmem base _
  | exit | invalid | noOp | branch | block =>
    exact follows_of_run rfl rfl
      (executed_of_pager_eq h hmem rfl rfl (List.append_nil _).symm ⟨rfl, rfl⟩)
  | branchEq o =>
    have hsolo : (e.solo mem).execute? base (.branchEq o) = some ((e.solo mem).goOn
        { e.regs with
          ip := if e.regs.r0 = e.regs.r1 then Instruction.branchTarget e.regs.ip o
            else e.regs.ip.add wordBytes }) := by
      by_cases heq : e.regs.r0 = e.regs.r1 <;> simp [Solo.execute?, solo, heq]
    exact follows_of_run rfl hsolo
      (executed_of_pager_eq h hmem rfl rfl (List.append_nil _).symm ⟨rfl, rfl⟩)
  | printReg | printStr =>
    exact follows_of_run rfl rfl
      (executed_of_pager_eq h hmem rfl rfl (Array.toList_push ..) ⟨rfl, rfl⟩)
  | incr r | loadImmediate r | loadPageAddr r =>
    exact follows_of_run rfl rfl
      (executed_of_pager_eq h hmem rfl rfl (List.append_nil _).symm
        ⟨by cases r <;> rfl, rfl⟩)

theorem meets_execute_block (pid : ProcessId) (base : VirtualAddress)
    (data : Option PhysicalAddress) (i : Instruction) (e : Execution g) :
    (execute pid base data i).Meets e (fun _ => True)
      fun done _ _ => ∀ next ticks, done = .block next ticks → i = .block ticks := by
  refine meets_bind_answer fun regs _ => ?_
  cases i with
  | block t =>
    refine meets_bind_answer fun _ _ => meets_pure fun next ticks hdone => ?_
    rw [(Completion.block.inj hdone).2]
  | exit | noOp | branch | branchEq =>
    exact meets_bind_answer fun _ _ => meets_pure nofun
  | invalid => exact meets_pure nofun
  | incr | loadImmediate | loadPageAddr =>
    exact meets_bind_answer fun _ _ => meets_bind_answer fun _ _ => meets_pure nofun
  | printReg | printStr =>
    exact meets_bind_answer fun _ _ => meets_bind_answer fun _ _ => meets_pure nofun
  | loadIndirect =>
    cases data with
    | none => exact meets_pure nofun
    | some a =>
      refine meets_bind_answer fun _ _ => meets_bind_answer fun _ _ => ?_
      exact meets_bind_answer fun _ _ => meets_pure nofun
  | storeIndirect =>
    cases data with
    | none => exact meets_pure nofun
    | some a =>
      refine meets_bind_answer fun _ _ => meets_bind_answer fun _ _ => ?_
      exact meets_bind_answer fun _ _ => meets_pure nofun
  | alloc =>
    refine meets_bind_answer fun _ _ => meets_bind_answer fun granted _ => ?_
    cases granted <;> exact meets_pure nofun

theorem meets_execute_of_block (pid : ProcessId) (base : VirtualAddress)
    (data : Option PhysicalAddress) (ticks : Nat) (e : Execution g) :
    (execute pid base data (.block ticks)).Meets e (fun _ => True)
      fun done _ _ => ∃ next, done = .block next ticks :=
  meets_bind_answer fun _ _ => meets_bind_answer fun _ _ => meets_pure ⟨_, rfl⟩

end DemandPaging.Execution
