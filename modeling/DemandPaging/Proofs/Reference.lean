import DemandPaging.Instruction.Execute
import DemandPaging.Proofs.Decode
import DemandPaging.Proofs.FlatMemory
/-!
The reference interpreter: a program alone on a flat memory of its own. It knows no frames, no
swap store, no buffers, no quantum and no other program. An instruction pointer outside the text
and a data access to a page that is not allocated end the program without a further effect.
-/

namespace DemandPaging

structure Solo (g : Geometry) where
  regs : Registers := {}
  memory : FlatMemory g
  ended : Bool := false

/-- What one instruction did: where it stands, its text, the registers after it and the lines it
printed. -/
structure Deed where
  ip : VirtualAddress
  text : String
  regs : Registers
  lines : List String
deriving DecidableEq

namespace Trace

variable (g : Geometry)

def textPages (t : Trace) : Nat := g.pagesForBytes t.textBytes

def dataBase (t : Trace) : VirtualAddress := g.pageStart (t.textPages g)

/-- What stands at an instruction pointer; an index past the end reads as an invalid
instruction. -/
def instructionAt (t : Trace) (ip : VirtualAddress) : Instruction :=
  if ip.toNat / wordBytes < t.size then .decode (t.textAt ip) else .invalid (t.textAt ip)

end Trace

namespace Solo

variable {g : Geometry}

def start (g : Geometry) (t : Trace) : Solo g :=
  { memory := FlatMemory.empty.allocate 0 (t.textPages g) }

def goOn (s : Solo g) (regs : Registers) : Solo g × List String := ({ s with regs }, [])

def stop (s : Solo g) : Solo g × List String := ({ s with ended := true }, [])

/-- Adds the requested data pages. A request that makes no sense or does not fit the address space
ends the program; one for pages that are there already has no outcome. -/
def allocate? (s : Solo g) (base : VirtualAddress) (next : Registers) :
    Option (Solo g × List String) :=
  match Execution.requested? s.regs.r0 s.regs.r1 with
  | none => some s.stop
  | some (first, count) =>
    if g.pageCount < g.pageOf base + first + count then some s.stop
    else if s.memory.grants (g.pageOf base + first) count then
      some ({ s with
        regs := next, memory := s.memory.allocate (g.pageOf base + first) count }, [])
    else none

/-- What an instruction does to the program, and what it prints. There is no outcome if its data is
not in memory. -/
def execute? (s : Solo g) (base : VirtualAddress) (i : Instruction) :
    Option (Solo g × List String) :=
  let next : Registers := { s.regs with ip := s.regs.ip.add wordBytes }
  match i with
  | .exit => some s.stop
  | .invalid _ => some s.stop
  | .noOp => some (s.goOn next)
  | .branch o => some (s.goOn { s.regs with ip := Instruction.branchTarget s.regs.ip o })
  | .branchEq o =>
    if s.regs.r0 = s.regs.r1 then
      some (s.goOn { s.regs with ip := Instruction.branchTarget s.regs.ip o })
    else some (s.goOn next)
  | .printReg r => some ({ s with regs := next },
      ["[PrintReg " ++ r.text ++ "]  " ++ Text.registerHexFull (s.regs.get r)])
  | .printStr t => some ({ s with regs := next }, ["[PrintString] " ++ t])
  | .incr r v => some (s.goOn (next.set r (s.regs.get r + v)))
  | .loadImmediate r v => some (s.goOn (next.set r v))
  | .loadPageAddr r p => some (s.goOn (next.set r (Instruction.pageAddress g p)))
  | .loadIndirect d a =>
    (s.memory.load? (Instruction.relativeAddress (s.regs.get a) base)).map fun v =>
      s.goOn (next.set d v)
  | .storeIndirect r a =>
    (s.memory.store? (Instruction.relativeAddress (s.regs.get a) base) (s.regs.get r)).map
      fun memory => ({ s with regs := next, memory }, [])
  | .alloc => s.allocate? base next
  | .block _ => some (s.goOn next)

/-- One step of a program; none once it has ended or where it cannot go on. -/
def step? (t : Trace) (s : Solo g) : Option (Deed × Solo g) :=
  if s.ended ∨ t.textPages g ≤ g.pageOf s.regs.ip then none
  else
    (s.execute? (t.dataBase g) (t.instructionAt s.regs.ip)).map fun (s', lines) =>
      (⟨s.regs.ip, t.textAt s.regs.ip, s'.regs, lines⟩, s')

def run? (g : Geometry) (t : Trace) : (steps : Nat) → Option (List Deed × Solo g)
  | 0 => some ([], start g t)
  | k + 1 =>
    (run? g t k).bind fun (deeds, s) => (s.step? t).map fun (d, s') => (deeds ++ [d], s')

theorem execute?_instructionAt (s : Solo g) (base : VirtualAddress) (t : Trace)
    (ip : VirtualAddress) :
    s.execute? base (t.instructionAt ip) = s.execute? base (.decode (t.textAt ip)) := by
  unfold Trace.instructionAt
  split
  · rfl
  · next h =>
    obtain ⟨u, hu⟩ := Instruction.decode_textAt t (Nat.not_lt.mp h)
    rw [hu]
    rfl

theorem step?_of_execute? {s s' : Solo g} {t : Trace} {lines : List String}
    (hlive : s.ended = false) (hp : g.pageOf s.regs.ip < t.textPages g)
    (hx : s.execute? (t.dataBase g) (.decode (t.textAt s.regs.ip)) = some (s', lines)) :
    s.step? t = some (⟨s.regs.ip, t.textAt s.regs.ip, s'.regs, lines⟩, s') := by
  have hgo : ¬(s.ended = true ∨ t.textPages g ≤ g.pageOf s.regs.ip) := by
    rw [hlive]
    rintro (h | h)
    · simp at h
    · exact absurd hp (Nat.not_lt.mpr h)
  rw [step?, if_neg hgo, execute?_instructionAt, hx, Option.map_some]

theorem of_step?_eq_some {s s' : Solo g} {t : Trace} {d : Deed} (h : s.step? t = some (d, s')) :
    g.pageOf d.ip < t.textPages g ∧ ∃ base lines,
      s.execute? base (t.instructionAt s.regs.ip) = some (s', lines) := by
  unfold step? at h
  split at h
  · simp at h
  · next hgo =>
    obtain ⟨⟨s'', lines⟩, hx, he⟩ := Option.map_eq_some_iff.mp h
    obtain ⟨rfl, rfl⟩ := Prod.mk.inj he
    exact ⟨Nat.not_le.mp fun hle => hgo (.inr hle), _, lines, hx⟩

theorem step?_of_ended {s : Solo g} (t : Trace) (h : s.ended = true) : s.step? t = none :=
  if_pos (.inl h)

theorem step?_of_outside {s : Solo g} {t : Trace} (h : t.textPages g ≤ g.pageOf s.regs.ip) :
    s.step? t = none := if_pos (.inr h)

theorem step?_of_data {s : Solo g} {t : Trace} {a : VirtualAddress}
    (ha : (Instruction.decode (t.textAt s.regs.ip)).dataAddress? s.regs (t.dataBase g) = some a)
    (hmem : s.memory (g.pageOf a) = none) : s.step? t = none := by
  have hx : s.execute? (t.dataBase g) (.decode (t.textAt s.regs.ip)) = none := by
    obtain ⟨r, hr, rfl⟩ := Option.map_eq_some_iff.mp ha
    generalize Instruction.decode (t.textAt s.regs.ip) = i at hr
    cases i <;> simp only [Instruction.addressRegister?, Option.some.injEq, reduceCtorEq] at hr
    · obtain rfl := hr
      rw [execute?, FlatMemory.load?, hmem]
      rfl
    · obtain rfl := hr
      rw [execute?, FlatMemory.store?, hmem]
      rfl
  rw [step?, execute?_instructionAt, hx]
  split <;> rfl

theorem isSome_memory_of_allocate? {s s' : Solo g} {base : VirtualAddress} {next : Registers}
    {lines : List String} (hx : s.allocate? base next = some (s', lines)) {p : PageNumber}
    (hp : (s.memory p).isSome) : (s'.memory p).isSome := by
  unfold allocate? at hx
  split at hx
  · obtain ⟨rfl, -⟩ := Prod.mk.inj (Option.some.inj hx)
    exact hp
  split at hx
  · obtain ⟨rfl, -⟩ := Prod.mk.inj (Option.some.inj hx)
    exact hp
  split at hx
  · obtain ⟨rfl, -⟩ := Prod.mk.inj (Option.some.inj hx)
    dsimp only
    rw [FlatMemory.allocate]
    split
    · rfl
    · exact hp
  · simp at hx

theorem isSome_memory_of_execute? {s s' : Solo g} {base : VirtualAddress} {i : Instruction}
    {lines : List String} (hx : s.execute? base i = some (s', lines)) {p : PageNumber}
    (hp : (s.memory p).isSome) : (s'.memory p).isSome := by
  cases i with
  | exit | invalid | noOp | branch | printReg | printStr | incr | loadImmediate | loadPageAddr
  | block =>
    obtain ⟨rfl, -⟩ := Prod.mk.inj (Option.some.inj hx)
    exact hp
  | branchEq o =>
    rw [execute?] at hx
    split at hx <;>
    · obtain ⟨rfl, -⟩ := Prod.mk.inj (Option.some.inj hx)
      exact hp
  | loadIndirect d a =>
    obtain ⟨v, -, hv⟩ := Option.map_eq_some_iff.mp hx
    obtain ⟨rfl, -⟩ := Prod.mk.inj hv
    exact hp
  | storeIndirect r a =>
    obtain ⟨mem, hmem, hv⟩ := Option.map_eq_some_iff.mp hx
    obtain ⟨rfl, -⟩ := Prod.mk.inj hv
    obtain ⟨b, -, rfl⟩ := Option.map_eq_some_iff.mp hmem
    dsimp only
    rw [Function.update_apply]
    split
    · rfl
    · exact hp
  | alloc => exact isSome_memory_of_allocate? hx hp

theorem run?_succ_of_step? {t : Trace} {k : Nat} {deeds : List Deed} {s s' : Solo g} {d : Deed}
    (h : run? g t k = some (deeds, s)) (hs : s.step? t = some (d, s')) :
    run? g t (k + 1) = some (deeds ++ [d], s') := by
  simp only [run?, h, Option.bind_some, hs, Option.map_some]

end Solo

namespace Trace

theorem size_le_of_outside {g : Geometry} (t : Trace) {ip : VirtualAddress}
    (h : t.textPages g ≤ g.pageOf ip) : t.size ≤ ip.toNat / wordBytes := by
  have hpos := g.pageSize_pos
  rw [g.pageOf_eq, textPages, Geometry.pagesForBytes, Nat.le_div_iff_mul_le hpos] at h
  have hceil : t.textBytes ≤ (t.textBytes + (g.pageSize - 1)) / g.pageSize * g.pageSize := by
    have := Nat.div_add_mod (t.textBytes + (g.pageSize - 1)) g.pageSize
    have := Nat.mod_lt (t.textBytes + (g.pageSize - 1)) hpos
    rw [Nat.mul_comm]
    omega
  rw [Nat.le_div_iff_mul_le (by decide), Nat.mul_comm]
  exact hceil.trans h

end Trace

end DemandPaging
