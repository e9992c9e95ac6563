import DemandPaging.Number
/-!
The pool of physical frames. A frame is free or belongs to one page of one process; owned frames
carry the stamp of their last known reference, from which the least recently used one is chosen.
The pool only keeps the books; bytes are moved elsewhere.
-/

namespace DemandPaging

/-- The source of reference stamps, which order references and have nothing to do with time. -/
structure ReferenceClock where
  current : Nat := 0
deriving DecidableEq, Repr

def ReferenceClock.tick (c : ReferenceClock) : ReferenceClock := ⟨c.current + 1⟩

structure FrameOwner where
  pid : ProcessId
  page : PageNumber
deriving DecidableEq, Repr

structure FrameInfo where
  owner : Option FrameOwner := none
  /-- The stamp of the last reference, which means something only while the frame is owned. -/
  referenced : Nat := 0
deriving DecidableEq, Repr

structure OwnedFrame where
  frame : FrameNumber
  owner : FrameOwner
  referenced : Nat
deriving DecidableEq, Repr

structure FrameTable (n : Nat) where
  info : Vector FrameInfo n
  free : List FrameNumber

namespace FrameTable

variable {n : Nat}

/-- A pool has places for the records of this many frames, 32 bytes each. -/
def maxFrames : Nat := Number.tableLimit 32

def allFree (n : Nat) : FrameTable n := ⟨Vector.replicate n {}, List.range n⟩

def info? (t : FrameTable n) (f : FrameNumber) : Option FrameInfo := t.info[f]?

def owned (t : FrameTable n) : List OwnedFrame :=
  t.info.toList.zipIdx.filterMap fun (i, f) => i.owner.map fun o => ⟨f, o, i.referenced⟩

def older (best : Option OwnedFrame) (o : OwnedFrame) : Option OwnedFrame :=
  match best with
  | none => some o
  | some b => if o.referenced < b.referenced then some o else some b

/-- The owned frame with the oldest stamp, the lowest frame number winning ties. -/
def leastRecentlyUsed (t : FrameTable n) : Option FrameNumber :=
  (t.owned.foldl older none).map OwnedFrame.frame

def takeFree? (t : FrameTable n) : Option (FrameNumber × FrameTable n) :=
  match t.free with
  | [] => none
  | f :: rest => some (f, { t with free := rest })

def modify? (t : FrameTable n) (f : FrameNumber) (change : FrameInfo → FrameInfo) :
    Option (FrameTable n) :=
  if h : f < n then some { t with info := t.info.set f (change t.info[f]) h } else none

/-- Gives a frame an owner and a stamp. The frame must be off the free list. -/
def assign? (t : FrameTable n) (f : FrameNumber) (o : FrameOwner) (stamp : Nat) :
    Option (FrameTable n) :=
  t.modify? f fun _ => ⟨some o, stamp⟩

/-- Takes a frame from its owner and puts it at the tail of the free list. A frame that nobody
owns stays as it is. -/
def release? (t : FrameTable n) (f : FrameNumber) :
    Option (Option FrameOwner × FrameTable n) :=
  (t.info? f).bind fun i =>
    (t.modify? f fun i => { i with owner := none }).map fun u =>
      (i.owner, if i.owner.isSome then { u with free := u.free ++ [f] } else u)

def touch? (t : FrameTable n) (f : FrameNumber) (stamp : Nat) : Option (FrameTable n) :=
  t.modify? f fun i => if i.owner.isSome then { i with referenced := stamp } else i

def refresh? (t : FrameTable n) (f : FrameNumber) (stamp : Nat) : Option (FrameTable n) :=
  t.modify? f fun i =>
    if i.owner.isSome then { i with referenced := max i.referenced stamp } else i

theorem info?_modify? {t u : FrameTable n} {f : FrameNumber} {change : FrameInfo → FrameInfo}
    (h : t.modify? f change = some u) (i : FrameNumber) :
    u.info? i = if i = f then (t.info? i).map change else t.info? i := by
  unfold modify? at h
  split at h
  · obtain rfl := Option.some.inj h
    by_cases hi : i = f
    · subst hi; simp [info?, *]
    · simp [info?, hi, Ne.symm hi]
  · simp at h

theorem free_modify? {t u : FrameTable n} {f : FrameNumber} {change : FrameInfo → FrameInfo}
    (h : t.modify? f change = some u) : u.free = t.free := by
  unfold modify? at h
  split at h
  · obtain rfl := Option.some.inj h; rfl
  · simp at h

theorem isSome_modify? (t : FrameTable n) (f : FrameNumber) (change : FrameInfo → FrameInfo) :
    (t.modify? f change).isSome = decide (f < n) := by
  unfold modify?
  split <;> simp_all

end FrameTable

end DemandPaging
