import Std.Data.TreeMap
import DemandPaging.Outcome
import DemandPaging.Paging.Error
import DemandPaging.Paging.Event
/-!
The swap store: images of evicted pages under tokens. Tokens come from a counter that only moves
on, wrapping around after 64 bits and passing over tokens still held. Reading an image back
consumes its token.
-/

namespace DemandPaging

structure SwappedPage where
  owner : FrameOwner
  time : Nat
  image : Array UInt8
deriving DecidableEq

def SwappedPage.debug (p : SwappedPage) : String :=
  "SwappedPage \x7b pid: " ++ Number.debug .process p.owner.pid ++
    ", page: " ++ Number.debug .page p.owner.page ++
    ", time: " ++ Text.decimal p.time ++ ", len: " ++ Text.decimal p.image.size ++ " \x7d"

structure SwapStore where
  pages : Std.TreeMap SwapToken SwappedPage := {}
  nextToken : SwapToken := 0

namespace SwapStore

def tokenAfter (t : SwapToken) : SwapToken := (t + 1) % wordBound

/-- The first token from `t` on that is not held, if it is among the next `tries` tokens. -/
def probe? (pages : Std.TreeMap SwapToken SwappedPage) (t : SwapToken) :
    (tries : Nat) → Option SwapToken
  | 0 => none
  | tries + 1 => if pages.contains t then probe? pages (tokenAfter t) tries else some t

/-- The next token to be issued. One token more than there are images is enough to find one that
is free; there is none when all tokens of 64 bits are held. -/
def freshToken? (s : SwapStore) : Option SwapToken := probe? s.pages s.nextToken (s.pages.size + 1)

def size (s : SwapStore) : Nat := s.pages.size

def isEmpty (s : SwapStore) : Bool := s.pages.isEmpty

def get? (s : SwapStore) (t : SwapToken) : Option SwappedPage := s.pages[t]?

def insert (s : SwapStore) (t : SwapToken) (p : SwappedPage) : SwapStore :=
  ⟨s.pages.insert t p, tokenAfter t⟩

def erase (s : SwapStore) (t : SwapToken) : SwapStore := { s with pages := s.pages.erase t }

def outstanding (s : SwapStore) : List (SwapToken × SwappedPage) := s.pages.toList

open DemandPaging.Action

abbrev Store := Action Paging.Event (Failure MemoryError) SwapStore

def swapOut (image : Array UInt8) (owner : FrameOwner) (time : Nat) : Store SwapToken := do
  let t ← ofOption (.crash .noRoom) (← get).freshToken?
  report (.swappedOut owner t)
  modify fun s => s.insert t ⟨owner, time, image⟩
  return t

def take (t : SwapToken) (owner : FrameOwner) : Store SwappedPage := do
  let p ← ofOption (.error (.unknownSwapToken t owner.pid owner.page)) ((← get).get? t)
  modify fun s => s.erase t
  return p

/-- Takes the image for a buffer of `length` bytes. An image of another page is reported and
used all the same; one of another length is lost. -/
def swapIn (t : SwapToken) (owner : FrameOwner) (length : Nat) : Store (Array UInt8) := do
  let p ← take t owner
  if p.owner ≠ owner then report (.swapMismatch t p.owner owner)
  if p.image.size = length then return p.image else fail (.crash .lengthMismatch)

def delete (t : SwapToken) (owner : FrameOwner) : Store Unit := do
  let _ ← take t owner
  report (.swapDeleted t owner)

theorem get?_insert (s : SwapStore) (p : SwappedPage) (t u : SwapToken) :
    (s.insert t p).get? u = if t = u then some p else s.get? u := by
  simp [insert, get?, Std.TreeMap.getElem?_insert]

theorem get?_erase (s : SwapStore) (t u : SwapToken) :
    (s.erase t).get? u = if t = u then none else s.get? u := by
  simp [erase, get?, Std.TreeMap.getElem?_erase]

end SwapStore

end DemandPaging
