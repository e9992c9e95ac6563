import DemandPaging.Proofs.AddressSpace
import DemandPaging.Proofs.Execute
import DemandPaging.Proofs.Pager.Access
/-!
The data pages of a process, counted from the end of its text. A request for pages, a register set
to the start of a page and an indirect access each find the position of a page in a way of their
own: in pages, in 32 bits and as a signed distance in bytes. They agree on which page is meant.
-/

namespace DemandPaging

namespace Instruction

variable {g : Geometry} {h k : Nat}

theorem toInt_pageAddress (hh : (h + 1) * g.pageSize ≤ 2 ^ 31) :
    (pageAddress g (.ofNat h)).toInt = (h * g.pageSize : Nat) := by
  have hpos := g.pageSize_pos
  have hlt : h < 2 ^ 31 := (Nat.lt_of_succ_le (Nat.le_mul_of_pos_right _ hpos)).trans_le hh
  rw [Nat.succ_mul] at hh
  rw [pageAddress, Int32.toInt_ofNat_of_lt hlt, ← Nat.cast_mul, Int32.toInt_ofInt_of_le] <;> omega

theorem toInt_pageAddress_add (hh : (h + 1) * g.pageSize ≤ 2 ^ 31) (hk : k < g.pageSize) :
    (pageAddress g (.ofNat h) + .ofNat k).toInt = (h * g.pageSize + k : Nat) := by
  have hstart := toInt_pageAddress hh
  rw [Nat.succ_mul] at hh
  rw [Int32.toInt_add, hstart, Int32.toInt_ofNat_of_lt (by omega), Int.bmod_eq_of_le] <;> omega

theorem relativeAddress_eq_ofNat {r : Int32} {n : Nat} (hr : r.toInt = n) {base : VirtualAddress}
    (hfits : base.toNat + n < 2 ^ 63) : relativeAddress r base = .ofNat (base.toNat + n) := by
  have hmax : maxSigned = 2 ^ 63 - 1 := by decide
  rw [relativeAddress, hr, Int.min_eq_left (by omega), Int.min_eq_left (by omega),
    ← Address.ofSigned_natCast]
  congr 1
  omega

theorem relativeAddress_eq_top {r : Int32} {base : VirtualAddress}
    (hneg : (base.toNat : Int) + r.toInt < 0) : relativeAddress r base = .top := by
  refine Address.ofSigned_of_neg ?_
  omega

theorem relativeAddress_pageAddress {T : Nat} (hT : T ≤ g.pageCount)
    (hh : (h + 1) * g.pageSize ≤ 2 ^ 31) (hk : k < g.pageSize) :
    relativeAddress (pageAddress g (.ofNat h) + .ofNat k) (g.pageStart T) =
      .ofNat ((T + h) * g.pageSize + k) := by
  have hle := g.mul_pageSize_le hT
  have hbase := g.toNat_pageStart hT
  have hsum : h * g.pageSize + k < 2 ^ 31 := by
    rw [Nat.succ_mul] at hh
    omega
  rw [relativeAddress_eq_ofNat (toInt_pageAddress_add hh hk) (by omega), hbase, Nat.add_mul,
    Nat.add_assoc]

end Instruction

namespace Pager

variable {g : Geometry} {m : Pager g} {pid : ProcessId} {s : AddressSpace g}

theorem run_allocate_of_space (hs : m.space? pid = some s) {start count : Nat}
    {r : Except (Failure MemoryError) Bool} {t : AddressSpace g} {es : List Paging.Event}
    (hrun : (AddressSpace.allocate start count).run s = ⟨r, t, es⟩) :
    (allocate pid start count).run m = ⟨r, m.setSpace pid t, es⟩ := by
  cases r <;> simp [allocate, onSpace, run_space_some m hs, hrun]

theorem space?_setSpace_self (hs : m.space? pid = some s) (q : ProcessId) :
    (m.setSpace pid s).space? q = m.space? q := by
  rw [space?_setSpace]
  split
  · next h => rw [← h, hs]
  · rfl

end Pager

namespace Execution

open DemandPaging.Action

variable {g : Geometry} {T : Nat} {pid : ProcessId} {s : AddressSpace g} {e : Execution g}
  {a b : Int32}

theorem requested?_eq_none_iff : requested? a b = none ↔ a.toInt < 0 ∨ b.toInt < a.toInt := by
  rw [requested?]
  split
  · exact iff_of_false nofun (by omega)
  · exact iff_of_true rfl (by omega)

theorem toInt_of_requested? {first count : Nat} (h : requested? a b = some (first, count)) :
    a.toInt = first ∧ b.toInt = (first + count : Nat) := by
  rw [requested?] at h
  split at h
  · obtain ⟨rfl, rfl⟩ := Prod.mk.inj (Option.some.inj h)
    omega
  · exact absurd h nofun

/-- A request for the data pages from `a` up to `b`, after `T` pages of text, that makes no sense or
does not fit the address space. -/
def Unfit (g : Geometry) (T : Nat) (a b : Int32) : Prop :=
  a.toInt < 0 ∨ b.toInt < a.toInt ∨ (g.pageCount : Int) < T + b.toInt

def Requested (T : Nat) (a b : Int32) (p : Nat) : Prop := T + a.toInt ≤ p ∧ p < T + b.toInt

instance (p : Nat) : Decidable (Requested T a b p) :=
  inferInstanceAs (Decidable (T + a.toInt ≤ p ∧ p < T + b.toInt))

theorem firstAllocated_iff {start count : Nat}
    (h : ∀ p, Requested T a b p ↔ start ≤ p ∧ p < start + count) {p : Nat} :
    s.FirstAllocated start count p ↔ Requested T a b p ∧ (s.state? p).isSome ∧
      ∀ q : Nat, q < p → Requested T a b q → s.state? q = none := by
  simp only [h]
  constructor
  · intro hp
    exact ⟨⟨hp.start_le, hp.lt_end⟩, hp.isSome, fun q hq hr => hp.lowest q hr.1 hq⟩
  · rintro ⟨hr, hsome, hlowest⟩
    exact ⟨hr.1, hr.2, hsome, fun q hle hlt => hlowest q hlt ⟨hle, Nat.lt_trans hlt hr.2⟩⟩

/-- What a request for data pages comes to. -/
structure AllocatesData (pid : ProcessId) (T : Nat) (s : AddressSpace g) (e : Execution g)
    (out : Outcome Event (Failure MemoryError) (Execution g) Completion) : Prop where
  refused : out.answer = .ok (.signal .allocationFailure) ↔ Unfit g T e.regs.r0 e.regs.r1
  occupied : ∀ err, out.answer = .error err ↔ ¬ Unfit g T e.regs.r0 e.regs.r1 ∧
    ∃ p, Requested T e.regs.r0 e.regs.r1 p ∧ (s.state? p).isSome ∧
      (∀ q : Nat, q < p → Requested T e.regs.r0 e.regs.r1 q → s.state? q = none) ∧
      err = .error (.alreadyAllocated s.pid p)
  granted : out.answer = .ok (.next (e.regs.ip.add wordBytes)) ↔
    ¬ Unfit g T e.regs.r0 e.regs.r1 ∧
      ∀ p, Requested T e.regs.r0 e.regs.r1 p → s.state? p = none
  unchanged : out.answer ≠ .ok (.next (e.regs.ip.add wordBytes)) →
    ∀ q, out.state.pager.space? q = e.pager.space? q
  allocated : out.answer = .ok (.next (e.regs.ip.add wordBytes)) → ∀ o,
    out.state.pager.stateOf o =
      if o.pid = pid ∧ Requested T e.regs.r0 e.regs.r1 o.page then some .unmapped
      else e.pager.stateOf o

theorem allocatesData_of_none (hreq : requested? e.regs.r0 e.regs.r1 = none)
    (base : VirtualAddress) (data : Option PhysicalAddress) :
    AllocatesData pid T s e ((execute pid base data .alloc).run e) := by
  have hrun : (execute pid base data .alloc).run e = ⟨.ok (.signal .allocationFailure), e,
      [.executed .alloc (.allocating e.regs.r0 (e.regs.r1 - e.regs.r0)),
        .badRequest pid e.regs.r0 e.regs.r1]⟩ := by
    simp [execute, allocate, hreq]
  have hunfit : Unfit g T e.regs.r0 e.regs.r1 :=
    (requested?_eq_none_iff.mp hreq).imp_right .inl
  rw [hrun]
  exact {
    refused := iff_of_true rfl hunfit
    occupied := fun err => iff_of_false (by simp) fun h => h.1 hunfit
    granted := iff_of_false (by simp) fun h => h.1 hunfit
    unchanged := fun _ _ => rfl
    allocated := by simp }

section Answer

variable {r : Except (Failure MemoryError) Bool} {ip : VirtualAddress}

def completed (ip : VirtualAddress) (granted : Bool) : Completion :=
  if granted then .next ip else .signal .allocationFailure

theorem map_completed_eq_failure :
    r.map (completed ip) = .ok (.signal .allocationFailure) ↔ r = .ok false := by
  rcases r with _ | _ | _ <;> simp [completed, Except.map]

theorem map_completed_eq_next : r.map (completed ip) = .ok (.next ip) ↔ r = .ok true := by
  rcases r with _ | _ | _ <;> simp [completed, Except.map]

theorem map_completed_eq_error {err : Failure MemoryError} :
    r.map (completed ip) = .error err ↔ r = .error err := by
  rcases r with _ | _ | _ <;> simp [completed, Except.map]

end Answer

theorem allocatesData_of_some (hT : T ≤ g.pageCount) (hs : e.pager.space? pid = some s)
    {first count : Nat} (hreq : requested? e.regs.r0 e.regs.r1 = some (first, count))
    (data : Option PhysicalAddress) :
    AllocatesData pid T s e ((execute pid (g.pageStart T) data .alloc).run e) := by
  have hout := s.allOrNothing (T + first) count
  rcases hrun : (AddressSpace.allocate (T + first) count).run s with ⟨r, t, es⟩
  rw [hrun] at hout
  have halloc := Pager.run_allocate_of_space hs hrun
  rw [← g.pageOf_pageStart hT] at halloc
  rw [run_alloc data hreq halloc]
  obtain ⟨ha, hb⟩ := toInt_of_requested? hreq
  have hunfit : Unfit g T e.regs.r0 e.regs.r1 ↔ g.pageCount < T + first + count := by
    rw [Unfit]
    omega
  have hrequested (p : Nat) :
      Requested T e.regs.r0 e.regs.r1 p ↔ T + first ≤ p ∧ p < T + first + count := by
    rw [Requested]
    omega
  exact {
    refused := map_completed_eq_failure.trans (hout.refused.trans hunfit.symm)
    occupied := fun err => by
      rw [hunfit, Nat.not_lt]
      refine map_completed_eq_error.trans ((hout.occupied err).trans (and_congr_right fun _ => ?_))
      refine exists_congr fun p => ?_
      rw [firstAllocated_iff hrequested, and_assoc, and_assoc]
    granted := by
      rw [hunfit, Nat.not_lt]
      refine map_completed_eq_next.trans (hout.granted.trans (and_congr_right fun _ => ?_))
      simp only [hrequested, and_imp]
    unchanged := fun hr q => by
      obtain rfl : t = s := hout.unchanged (mt map_completed_eq_next.mpr hr)
      exact Pager.space?_setSpace_self hs q
    allocated := fun hr o => by
      obtain ⟨-, hst⟩ := hout.allocated (map_completed_eq_next.mp hr)
      obtain ⟨q, page⟩ := o
      refine (Pager.stateOf_setSpace e.pager pid t _).trans ?_
      by_cases hq : q = pid
      · subst hq
        simp only [hrequested, if_true, true_and, Pager.stateOf_of_space hs]
        exact hst page
      · rw [if_neg hq, if_neg fun h => hq h.1] }

theorem allocatesData (hT : T ≤ g.pageCount) (hs : e.pager.space? pid = some s)
    (data : Option PhysicalAddress) :
    AllocatesData pid T s e ((execute pid (g.pageStart T) data .alloc).run e) := by
  cases hreq : requested? e.regs.r0 e.regs.r1 with
  | none => exact allocatesData_of_none hreq _ data
  | some request => exact allocatesData_of_some hT hs hreq data

def pointAt (e : Execution g) (pid : ProcessId) (base : VirtualAddress) (r : Register)
    (h k : Nat) : Execution g :=
  let start := ((execute pid base none (.loadPageAddr r (.ofNat h))).run e).state
  ((execute pid base none (.incr r (.ofNat k))).run start).state

theorem get_pointAt (e : Execution g) (pid : ProcessId) (base : VirtualAddress) (r : Register)
    (h k : Nat) :
    (e.pointAt pid base r h k).regs.get r = Instruction.pageAddress g (.ofNat h) + .ofNat k := by
  simp [pointAt, execute, setRegister, Registers.get_set]

theorem pager_pointAt (e : Execution g) (pid : ProcessId) (base : VirtualAddress) (r : Register)
    (h k : Nat) : (e.pointAt pid base r h k).pager = e.pager := by
  simp [pointAt, execute, setRegister]

theorem dataAddress?_pointAt (hT : T ≤ g.pageCount) {h k : Nat}
    (hh : (h + 1) * g.pageSize ≤ 2 ^ 31) (hk : k < g.pageSize) {i : Instruction} {r : Register}
    (hi : i.addressRegister? = some r) (e : Execution g) (pid : ProcessId) :
    ∃ addr, i.dataAddress? (e.pointAt pid (g.pageStart T) r h k).regs (g.pageStart T) = some addr ∧
      g.pageOf addr = T + h ∧ g.pageOffset addr = k := by
  have hlt : (T + h) * g.pageSize + k < wordBound := by
    have hle := g.mul_pageSize_le hT
    have hbound : wordBound = 2 ^ 64 := rfl
    rw [Nat.succ_mul] at hh
    rw [Nat.add_mul]
    omega
  refine ⟨.ofNat ((T + h) * g.pageSize + k), ?_, g.pageOf_ofNat hk hlt, g.pageOffset_ofNat hk hlt⟩
  rw [Instruction.dataAddress?, hi, Option.map_some, get_pointAt,
    Instruction.relativeAddress_pageAddress hT hh hk]

theorem dataAddress?_of_neg {i : Instruction} {r : Register} (hi : i.addressRegister? = some r)
    {regs : Registers} {base : VirtualAddress}
    (hneg : (base.toNat : Int) + (regs.get r).toInt < 0) :
    ∃ addr, i.dataAddress? regs base = some addr ∧ g.pageCount ≤ g.pageOf addr := by
  refine ⟨.top, ?_, g.pageCount_le_pageOf_top⟩
  rw [Instruction.dataAddress?, hi, Option.map_some, Instruction.relativeAddress_eq_top hneg]

theorem sound_alloc (h : e.pager.Sound) (pid : ProcessId) (base : VirtualAddress)
    (data : Option PhysicalAddress) :
    ((execute pid base data .alloc).run e).state.pager.Sound := by
  cases hreq : requested? e.regs.r0 e.regs.r1 with
  | none => simpa [execute, allocate, hreq] using h
  | some request =>
    obtain ⟨r, m, es, halloc, hm, -⟩ :=
      Pager.run_allocate h pid (g.pageOf base + request.1) request.2
    rw [run_alloc data hreq halloc]
    exact hm

theorem exists_space_of_granted {base ip : VirtualAddress} {data : Option PhysicalAddress}
    (hout : ((execute pid base data .alloc).run e).answer = .ok (.next ip)) :
    ∃ s, e.pager.space? pid = some s := by
  refine Option.ne_none_iff_exists'.mp fun hnone => ?_
  cases hreq : requested? e.regs.r0 e.regs.r1 with
  | none => simp [execute, allocate, hreq] at hout
  | some request =>
    have halloc : (Pager.allocate pid (g.pageOf base + request.1) request.2).run e.pager =
        ⟨.error (.error (.unknownProcess pid)), e.pager, []⟩ := by
      simp [Pager.allocate, Pager.onSpace, Pager.run_space_none _ hnone]
    rw [run_alloc data hreq halloc] at hout
    cases hout

theorem resolves_of_granted (hT : T ≤ g.pageCount) (he : e.pager.Sound)
    {data : Option PhysicalAddress}
    (hout : ((execute pid (g.pageStart T) data .alloc).run e).answer =
      .ok (.next (e.regs.ip.add wordBytes)))
    {h : Nat} (hle : e.regs.r0.toInt ≤ h) (hlt : h < e.regs.r1.toInt) {m : Pager g}
    (hm : Pager.Outlives pid ((execute pid (g.pageStart T) data .alloc).run e).state.pager m)
    {addr : VirtualAddress} (haddr : g.pageOf addr = T + h) : m.Resolves pid addr := by
  obtain ⟨s, hs⟩ := exists_space_of_granted hout
  have hsound := sound_alloc he pid (g.pageStart T) data
  have hrequested : Requested T e.regs.r0 e.regs.r1 (T + h) := by
    rw [Requested]
    omega
  have hst := (allocatesData hT hs data).allocated hout ⟨pid, T + h⟩
  rw [if_pos ⟨rfl, hrequested⟩] at hst
  refine Pager.resolves (hm.sound hsound) (hm.isSome_stateOf hsound ?_)
  rw [haddr, hst]
  rfl

/-- Requests for pages, addresses and accesses agree on the data pages of a process that has `T`
pages of text. -/
structure SameDataPages (g : Geometry) (T : Nat) (pid : ProcessId) : Prop where
  allocates : ∀ (e : Execution g) s data, e.pager.space? pid = some s →
    AllocatesData pid T s e ((execute pid (g.pageStart T) data .alloc).run e)
  names : ∀ h k, (h + 1) * g.pageSize ≤ 2 ^ 31 → k < g.pageSize →
    ∀ (i : Instruction) r, i.addressRegister? = some r → ∀ e : Execution g, ∃ addr,
      i.dataAddress? (e.pointAt pid (g.pageStart T) r h k).regs (g.pageStart T) = some addr ∧
      g.pageOf addr = T + h ∧ g.pageOffset addr = k
  resolves : ∀ (e : Execution g) data, e.pager.Sound →
    ((execute pid (g.pageStart T) data .alloc).run e).answer =
      .ok (.next (e.regs.ip.add wordBytes)) →
    ∀ h : Nat, e.regs.r0.toInt ≤ h → h < e.regs.r1.toInt →
    ∀ m, Pager.Outlives pid ((execute pid (g.pageStart T) data .alloc).run e).state.pager m →
    ∀ addr, g.pageOf addr = T + h → m.Resolves pid addr
  strays : ∀ (i : Instruction) r, i.addressRegister? = some r → ∀ regs : Registers,
    ((g.pageStart T).toNat : Int) + (regs.get r).toInt < 0 →
    ∃ addr, i.dataAddress? regs (g.pageStart T) = some addr ∧ g.pageCount ≤ g.pageOf addr

theorem data_pages_agree {T : Nat} (hT : T ≤ g.pageCount) (pid : ProcessId) :
    SameDataPages g T pid where
  allocates _ _ data hs := allocatesData hT hs data
  names _ _ hh hk _ _ hi e := dataAddress?_pointAt hT hh hk hi e pid
  resolves _ _ he hout _ hle hlt _ hm _ haddr := resolves_of_granted hT he hout hle hlt hm haddr
  strays _ _ hi _ hneg := dataAddress?_of_neg hi hneg

def asking : Execution Pager.fourFrames where
  regs := { r1 := 2 }
  pager := ((Pager.Operation.allocate 0 0 1).call.run
    ((Pager.Operation.create 0).call.run (Pager.new Pager.fourFrames [true])).state).state

theorem sound_asking : asking.pager.Sound := by
  have hstart : Pager.Reachable [true] (Pager.new Pager.fourFrames [true]) := .start
  have hcreated := hstart.call (.create 0) rfl
  exact (hcreated.call (.allocate 0 0 1) trivial).sound

theorem data_pages_agree_second :
    1 ≤ Pager.fourFrames.pageCount ∧
      let given := ((execute 0 (Pager.fourFrames.pageStart 1) none .alloc).run asking).state
      let pointed := given.pointAt 0 (Pager.fourFrames.pageStart 1) .r1 1 3
      pointed.regs.r1 = 19 ∧
      (Instruction.loadIndirect .r0 .r1).dataAddress? pointed.regs (Pager.fourFrames.pageStart 1) =
        some (.ofNat 35) ∧
      pointed.pager.Resolves 0 (.ofNat 35) := by
  refine ⟨by decide, by decide +kernel, by decide +kernel, ?_⟩
  rw [pager_pointAt]
  exact (data_pages_agree (by decide : 1 ≤ Pager.fourFrames.pageCount) 0).resolves asking none
    sound_asking (by decide +kernel) 1 (by decide +kernel) (by decide +kernel) _ .now _
    (by decide +kernel)

end Execution

end DemandPaging
