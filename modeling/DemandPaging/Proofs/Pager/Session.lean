import DemandPaging.Proofs.Pager.Reachable
/-!
Demand paging as private flat memory. A session is any sequence of permitted calls, with words
loaded and stored through the frame that the call before gave for their address. Replaying its log
on flat memories, which know no frames, tokens or buffers, gives the memories it ends with and
every answer about them.
-/

namespace DemandPaging.Pager

open DemandPaging.Action DemandPaging.Paging

variable {g : Geometry} {m : Pager g} {useTlbs : List Bool}

inductive Entry where
  | called (op : Operation) (answer : Except (Failure MemoryError) Reply)
  | loaded (pid : ProcessId) (a : VirtualAddress) (answer : Except (Failure MemoryError) Int32)
  | stored (pid : ProcessId) (a : VirtualAddress) (w : Int32)
    (answer : Except (Failure MemoryError) Unit)

/-- An address of a process with the frame that a call gave for it. -/
structure Grant where
  pid : ProcessId
  addr : VirtualAddress
  frame : FrameNumber
deriving DecidableEq

/-- What the last call gave, if it was a translation or a fault and gave a frame. The newest entry
of a log comes first. -/
def granted? : List Entry → Option Grant
  | .called (.translate _ pid a) (.ok (.frame (some f))) :: _ => some ⟨pid, a, f⟩
  | .called (.fault pid a _) (.ok (.resolution (.resolved f))) :: _ => some ⟨pid, a, f⟩
  | .loaded .. :: log => granted? log
  | .stored .. :: log => granted? log
  | _ => none

inductive Session (useTlbs : List Bool) : List Entry → Pager g → Prop where
  | start : Session useTlbs [] (new g useTlbs)
  | call {log : List Entry} {m : Pager g} (h : Session useTlbs log m) (op : Operation)
    (hp : op.Permitted m) :
    Session useTlbs (.called op ((op.call).run m).answer :: log) ((op.call).run m).state
  | load {log : List Entry} {m : Pager g} (h : Session useTlbs log m) {pid : ProcessId}
    {a : VirtualAddress} {f : FrameNumber} (hg : granted? log = some ⟨pid, a, f⟩) :
    Session useTlbs (.loaded pid a ((loadWord (g.physicalAddress f a)).run m).answer :: log)
      ((loadWord (g.physicalAddress f a)).run m).state
  | store {log : List Entry} {m : Pager g} (h : Session useTlbs log m) {pid : ProcessId}
    {a : VirtualAddress} {f : FrameNumber} (hg : granted? log = some ⟨pid, a, f⟩) (w : Int32) :
    Session useTlbs (.stored pid a w ((storeWord (g.physicalAddress f a) w).run m).answer :: log)
      ((storeWord (g.physicalAddress f a) w).run m).state

def Entry.effect (mems : FlatMemories g) : Entry → FlatMemories g
  | .called op _ => op.effect mems
  | .loaded .. => mems
  | .stored pid a w _ =>
    match (mems pid).bind fun mem => mem.store? a w with
    | some mem => Function.update mems pid (some mem)
    | none => mems

def replay (g : Geometry) : List Entry → FlatMemories g
  | [] => fun _ => none
  | e :: log => e.effect (replay g log)

def Entry.Agrees (mems : FlatMemories g) : Entry → Prop
  | .called (.allocate pid start count) r =>
    r = .ok (.granted true) ↔ ∃ mem, mems pid = some mem ∧ mem.grants start count
  | .called .. => True
  | .loaded pid a r => ∃ mem w, mems pid = some mem ∧ mem.load? a = some w ∧ r = .ok w
  | .stored pid a w r =>
    r = .ok () ∧ ∃ mem mem', mems pid = some mem ∧ mem.store? a w = some mem'

/-- What a session keeps: the state is sound, its flat memories are those of the log, and a page
whose frame was given is resident in it. -/
structure Tracks (log : List Entry) (m : Pager g) : Prop where
  sound : m.Sound
  flat : m.flat = replay g log
  resident : ∀ grant, granted? log = some grant →
    m.stateOf ⟨grant.pid, g.pageOf grant.addr⟩ = some (.resident grant.frame)

variable {log : List Entry}

theorem resident_of_answered {m' : Pager g} {op : Operation}
    {r : Except (Failure MemoryError) Reply} (ha : op.Answered m m' r) {grant : Grant}
    (hg : granted? (.called op r :: log) = some grant) :
    m'.stateOf ⟨grant.pid, g.pageOf grant.addr⟩ = some (.resident grant.frame) := by
  unfold granted? at hg
  split at hg
  · next he =>
    obtain ⟨⟨⟩, -⟩ := List.cons.inj he
    obtain rfl := Option.some.inj hg
    obtain ⟨hr, hst⟩ := ha
    have hframe := Reply.frame.inj (Except.ok.inj hr)
    rw [hst]
    exact PageState.bind_frame?_eq_some_iff.mp hframe.symm
  · next he =>
    obtain ⟨⟨⟩, -⟩ := List.cons.inj he
    obtain rfl := Option.some.inj hg
    exact ha _ rfl
  · next he => exact absurd (List.cons.inj he).1 nofun
  · next he => exact absurd (List.cons.inj he).1 nofun
  · simp at hg

theorem Tracks.call (h : Tracks log m) (op : Operation) (hp : op.Permitted m) :
    Tracks (.called op ((op.call).run m).answer :: log) ((op.call).run m).state ∧
      (Entry.called op ((op.call).run m).answer).Agrees (replay g log) := by
  obtain ⟨r, m', es, hrun, hm', hflat, ha⟩ := served h.sound op hp
  rw [hrun]
  refine ⟨⟨hm', by rw [hflat, h.flat]; rfl, fun grant hg => resident_of_answered ha hg⟩, ?_⟩
  rw [← h.flat]
  cases op with
  | allocate pid start count => exact ha
  | _ => trivial

theorem flat_eq_some_memory {pid : ProcessId} {page : PageNumber} {f : FrameNumber}
    (ho : m.stateOf ⟨pid, page⟩ = some (.resident f)) : m.flat pid = some (m.memory pid) := by
  obtain ⟨s, hs, -⟩ := exists_space_of_stateOf ho
  rw [Pager.flat, hs]
  rfl

theorem Tracks.load (h : Tracks log m) {pid : ProcessId} {a : VirtualAddress} {f : FrameNumber}
    (hg : granted? log = some ⟨pid, a, f⟩) :
    Tracks (.loaded pid a ((loadWord (g.physicalAddress f a)).run m).answer :: log)
        ((loadWord (g.physicalAddress f a)).run m).state ∧
      (Entry.loaded pid a ((loadWord (g.physicalAddress f a)).run m).answer).Agrees
        (replay g log) := by
  have ho := h.resident _ hg
  obtain ⟨w, hw, hrun⟩ := run_loadWord h.sound ho
  rw [hrun]
  refine ⟨⟨h.sound, h.flat, fun grant hg' => h.resident grant hg'⟩, m.memory pid, w, ?_, hw, rfl⟩
  rw [← h.flat, flat_eq_some_memory ho]

theorem Tracks.store (h : Tracks log m) {pid : ProcessId} {a : VirtualAddress} {f : FrameNumber}
    (hg : granted? log = some ⟨pid, a, f⟩) (w : Int32) :
    Tracks (.stored pid a w ((storeWord (g.physicalAddress f a) w).run m).answer :: log)
        ((storeWord (g.physicalAddress f a) w).run m).state ∧
      (Entry.stored pid a w ((storeWord (g.physicalAddress f a) w).run m).answer).Agrees
        (replay g log) := by
  have ho := h.resident _ hg
  obtain ⟨m', mem, hrun, hstore, hm', hst, hown, hc, hspaces, -⟩ := run_storeWord h.sound ho w
  rw [hrun]
  have hflat := flat_eq_some_memory ho
  refine ⟨⟨hm', ?_, fun grant hg' => hst ▸ h.resident grant hg'⟩, rfl, m.memory pid, mem, ?_,
    hstore⟩
  · rw [replay, ← h.flat, Entry.effect, hflat, Option.bind_some, hstore]
    have hlive : (m'.space? pid).isSome := by
      obtain ⟨s, hs, -⟩ := exists_space_of_stateOf (hst ▸ ho)
      rw [hs]
      rfl
    exact flat_eq_update mem hlive (fun q _ => by rw [space?, hspaces, space?]) hown hc
  · rw [← h.flat, hflat]

theorem Session.tracks (h : Session useTlbs log m) : Tracks log m := by
  induction h with
  | start => exact ⟨sound_new g useTlbs, flat_new g useTlbs, nofun⟩
  | call _ op hp ih => exact (ih.call op hp).1
  | load _ hg ih => exact (ih.load hg).1
  | store _ hg w ih => exact (ih.store hg w).1

/-- Every answer of a session agrees with the flat memories of the entries before it. -/
theorem Session.agrees (h : Session useTlbs log m) {newer older : List Entry} {e : Entry}
    (he : log = newer ++ e :: older) : e.Agrees (replay g older) := by
  induction h generalizing newer with
  | start => simp at he
  | call h op hp ih =>
    cases newer with
    | nil =>
      obtain ⟨rfl, rfl⟩ := List.cons.inj he
      exact (h.tracks.call op hp).2
    | cons _ newer => exact ih (List.cons.inj he).2
  | load h hg ih =>
    cases newer with
    | nil =>
      obtain ⟨rfl, rfl⟩ := List.cons.inj he
      exact (h.tracks.load hg).2
    | cons _ newer => exact ih (List.cons.inj he).2
  | store h hg w ih =>
    cases newer with
    | nil =>
      obtain ⟨rfl, rfl⟩ := List.cons.inj he
      exact (h.tracks.store hg w).2
    | cons _ newer => exact ih (List.cons.inj he).2

/-- Demand paging refines private flat memory. -/
theorem session_refines_flat (h : Session useTlbs log m) :
    m.flat = replay g log ∧
      ∀ newer e older, log = newer ++ e :: older → e.Agrees (replay g older) :=
  ⟨h.tracks.flat, fun _ _ _ he => h.agrees he⟩

theorem session_refines_flat_swapped : ∃ log, ∃ m : Pager oneFrame, Session [true] log m ∧
    (∃ older, log = .loaded 0 .zero (.ok 7) :: older) ∧ m.flat = replay oneFrame log := by
  have hstart : Session [true] [] (new oneFrame [true]) := .start
  have hcreated := hstart.call (.create 0) rfl
  have hallocated := hcreated.call (.allocate 0 0 2) trivial
  have hfirst := hallocated.call (.fault 0 .zero .data) trivial
  have hstored := hfirst.store (by decide +kernel : granted? _ = some ⟨0, .zero, 0⟩) 7
  have hsecond := hstored.call (.fault 0 (.ofNat 4) .data) trivial
  have hback := hsecond.call (.fault 0 .zero .data) trivial
  have hloaded := hback.load (by decide +kernel : granted? _ = some ⟨0, .zero, 0⟩)
  exact ⟨_, _, hloaded, ⟨_, congrArg (fun r => Entry.loaded 0 .zero r :: _) (by decide +kernel)⟩,
    (session_refines_flat hloaded).1⟩

end DemandPaging.Pager
