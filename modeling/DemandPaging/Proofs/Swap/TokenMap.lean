import DemandPaging.Proofs.Swap
import Mathlib.Logic.Function.Basic
/-!
The swap store as a finite map that chooses its own keys. Whatever is asked of a store, an image
comes in under a token that holds none, goes out under its own token only, and lies untouched in
between. A new store counts its tokens up from 0, so that none comes twice in its first round.
-/

namespace DemandPaging

namespace SwapStore

inductive Call where
  | swapOut (image : Array UInt8) (owner : FrameOwner) (time : Nat)
  | swapIn (token : SwapToken) (owner : FrameOwner) (buffer : Array UInt8)
  | delete (token : SwapToken) (owner : FrameOwner)

inductive Reply where
  | issued (answer : Except (Failure MemoryError) SwapToken)
  | readBack (answer : Except (Failure MemoryError) Unit) (buffer : Array UInt8)
  | deleted (answer : Except (Failure MemoryError) Unit)

def Call.isSwapOut : Call → Bool
  | .swapOut .. => true
  | _ => false

def Call.consumed? : Call → Option SwapToken
  | .swapOut .. => none
  | .swapIn t .. => some t
  | .delete t _ => some t

def Reply.token? : Reply → Option SwapToken
  | .issued answer => answer.toOption
  | _ => none

def serve (s : SwapStore) : Call → Reply × SwapStore
  | .swapOut image owner time =>
    let out := (swapOut image owner time).run s
    (.issued out.answer, out.state)
  | .swapIn t owner buffer =>
    let out := (swapIn t owner buffer.size).run s
    (.readBack (out.answer.map fun _ => ()) (out.answer.toOption.getD buffer), out.state)
  | .delete t owner =>
    let out := (delete t owner).run s
    (.deleted out.answer, out.state)

/-- The replies to calls that are served in order; one that fails does not keep the later ones from
being served. -/
def replies (s : SwapStore) : List Call → List Reply
  | [] => []
  | c :: cs => (s.serve c).1 :: (s.serve c).2.replies cs

def after (s : SwapStore) : List Call → SwapStore
  | [] => s
  | c :: cs => (s.serve c).2.after cs

/-- Starting at a token, the probing ends at a token: it goes on as long as an image is held. -/
inductive Probes (pages : Std.TreeMap SwapToken SwappedPage) : SwapToken → SwapToken → Prop where
  | stop {t : SwapToken} (h : pages.contains t = false) : Probes pages t t
  | next {t u : SwapToken} (h : pages.contains t = true) (hu : Probes pages (tokenAfter t) u) :
    Probes pages t u

end SwapStore

abbrev TokenMap := SwapToken → Option SwappedPage

namespace TokenMap

open SwapStore (Call Reply)

def unknown (t : SwapToken) (owner : FrameOwner) : Failure MemoryError :=
  .error (.unknownSwapToken t owner.pid owner.page)

/-- How a map is asked for images: what it may reply, and what becomes of it. -/
inductive Serves (m : TokenMap) : Call → Reply → TokenMap → Prop where
  | issued {image owner time t} (ht : t < wordBound) (h : m t = none) :
    Serves m (.swapOut image owner time) (.issued (.ok t))
      (Function.update m t (some ⟨owner, time, image⟩))
  | full {image owner time} (h : ∀ t < wordBound, (m t).isSome) :
    Serves m (.swapOut image owner time) (.issued (.error (.crash .noRoom))) m
  | filled {t owner buffer p} (h : m t = some p) (hsize : p.image.size = buffer.size) :
    Serves m (.swapIn t owner buffer) (.readBack (.ok ()) p.image) (Function.update m t none)
  /-- An image that does not fit the buffer is lost. -/
  | lost {t owner buffer p} (h : m t = some p) (hsize : p.image.size ≠ buffer.size) :
    Serves m (.swapIn t owner buffer) (.readBack (.error (.crash .lengthMismatch)) buffer)
      (Function.update m t none)
  | missed {t owner buffer} (h : m t = none) :
    Serves m (.swapIn t owner buffer) (.readBack (.error (unknown t owner)) buffer) m
  | deleted {t owner p} (h : m t = some p) :
    Serves m (.delete t owner) (.deleted (.ok ())) (Function.update m t none)
  | undeleted {t owner} (h : m t = none) :
    Serves m (.delete t owner) (.deleted (.error (unknown t owner))) m

inductive ServesAll : TokenMap → List Call → List Reply → TokenMap → Prop where
  | nil {m} : ServesAll m [] [] m
  | cons {m m' m'' c r cs rs} (h : Serves m c r m') (hs : ServesAll m' cs rs m'') :
    ServesAll m (c :: cs) (r :: rs) m''

theorem Serves.kept {m m' : TokenMap} {c : Call} {r : Reply} (h : Serves m c r m') {t : SwapToken}
    {p : SwappedPage} (ht : m t = some p) (hc : c.consumed? ≠ some t) : m' t = some p := by
  cases h with
  | @issued _ _ _ u _ hu =>
    rw [Function.update_of_ne, ht]
    rintro rfl
    exact absurd (hu.symm.trans ht) nofun
  | full | missed | undeleted => exact ht
  | filled | lost | deleted => rw [Function.update_of_ne fun he => hc (by rw [he]; rfl), ht]

theorem ServesAll.kept {m m' : TokenMap} {calls : List Call} {replies : List Reply}
    (h : ServesAll m calls replies m') {t : SwapToken} {p : SwappedPage} (ht : m t = some p)
    (hcalls : ∀ c ∈ calls, c.consumed? ≠ some t) : m' t = some p := by
  induction h with
  | nil => exact ht
  | cons h _ ih =>
    exact ih (h.kept ht (hcalls _ List.mem_cons_self)) fun c hc =>
      hcalls c (List.mem_cons_of_mem _ hc)

end TokenMap

namespace SwapStore

variable {s : SwapStore} {pages : Std.TreeMap SwapToken SwappedPage} {t u : SwapToken}

theorem get?_eq_none_iff : s.get? t = none ↔ s.pages.contains t = false := by
  rw [Std.TreeMap.contains_eq_isSome_getElem?, Option.isSome_eq_false_iff,
    Option.isNone_iff_eq_none]
  rfl

theorem Probes.unique {v : SwapToken} (hu : Probes pages t u) (hv : Probes pages t v) : u = v := by
  induction hu with
  | stop h =>
    cases hv with
    | stop => rfl
    | next h' => exact absurd (h.symm.trans h') nofun
  | next h _ ih =>
    cases hv with
    | stop h' => exact absurd (h.symm.trans h') nofun
    | next _ hv => exact ih hv

theorem probes_of_probe?_eq_some {tries : Nat} (h : probe? pages t tries = some u) :
    Probes pages t u := by
  induction tries generalizing t with
  | zero => simp [probe?] at h
  | succ tries ih =>
    rw [probe?] at h
    split at h
    · next hc => exact .next hc (ih h)
    · next hc =>
      obtain rfl := Option.some.inj h
      exact .stop (Bool.eq_false_iff.mpr hc)

theorem Probes.lt (h : Probes pages t u) (ht : t < wordBound) : u < wordBound := by
  induction h with
  | stop => exact ht
  | @next t _ _ _ ih => exact ih (tokenAfter_lt t)

theorem isSome_get?_of_freshToken?_eq_none (hn : s.nextToken < wordBound)
    (h : s.freshToken? = none) (ht : t < wordBound) : (s.get? t).isSome := by
  have hlt : (t + wordBound - s.nextToken) % wordBound < s.pages.size + 1 :=
    Nat.lt_succ_of_le ((Nat.mod_lt _ (by decide)).le.trans (wordBound_le_size hn h))
  have hc := contains_of_probe?_eq_none h hn hlt
  rw [Nat.add_mod_mod, Nat.add_sub_cancel' (hn.le.trans (Nat.le_add_left _ _)), Nat.add_mod_right,
    Nat.mod_eq_of_lt ht, Std.TreeMap.contains_eq_isSome_getElem?] at hc
  exact hc

theorem serve_swapOut_some (h : s.freshToken? = some t) (image : Array UInt8) (owner : FrameOwner)
    (time : Nat) : s.serve (.swapOut image owner time) =
      (.issued (.ok t), s.insert t ⟨owner, time, image⟩) := by
  simp only [serve, run_swapOut_some h]

theorem serve_swapOut (hn : s.nextToken < wordBound) (hs : s.size < wordBound) : ∃ t,
    (∀ u, Probes s.pages s.nextToken u ↔ u = t) ∧ s.get? t = none ∧
    ∀ image owner time, s.serve (.swapOut image owner time) =
      (.issued (.ok t), s.insert t ⟨owner, time, image⟩) := by
  cases h : s.freshToken? with
  | none => exact absurd (wordBound_le_size hn h) (Nat.not_le.mpr hs)
  | some t =>
    have ht := probes_of_probe?_eq_some h
    refine ⟨t, fun u => ⟨fun hu => hu.unique ht, ?_⟩, get?_of_freshToken?_eq_some h,
      serve_swapOut_some h⟩
    rintro rfl
    exact ht

theorem serve_swapIn_none (h : s.get? t = none) (owner : FrameOwner) (buffer : Array UInt8) :
    s.serve (.swapIn t owner buffer) =
      (.readBack (.error (TokenMap.unknown t owner)) buffer, s) := by
  simp [serve, swapIn, take, h, TokenMap.unknown, Except.map, Except.toOption]

theorem serve_swapIn_some {p : SwappedPage} (h : s.get? t = some p) (owner : FrameOwner)
    {buffer : Array UInt8} (hsize : p.image.size = buffer.size) :
    s.serve (.swapIn t owner buffer) = (.readBack (.ok ()) p.image, s.erase t) := by
  by_cases ho : p.owner = owner <;>
    simp [serve, swapIn, take, h, ho, hsize, Except.map, Except.toOption]

theorem serve_swapIn_of_size_ne {p : SwappedPage} (h : s.get? t = some p) (owner : FrameOwner)
    {buffer : Array UInt8} (hsize : p.image.size ≠ buffer.size) :
    s.serve (.swapIn t owner buffer) =
      (.readBack (.error (.crash .lengthMismatch)) buffer, s.erase t) := by
  by_cases ho : p.owner = owner <;>
    simp [serve, swapIn, take, h, ho, hsize, Except.map, Except.toOption]

theorem serve_delete_none (h : s.get? t = none) (owner : FrameOwner) :
    s.serve (.delete t owner) = (.deleted (.error (TokenMap.unknown t owner)), s) := by
  simp [serve, delete, take, h, TokenMap.unknown]

theorem serve_delete_some {p : SwappedPage} (h : s.get? t = some p) (owner : FrameOwner) :
    s.serve (.delete t owner) = (.deleted (.ok ()), s.erase t) := by
  simp only [serve, run_delete h]

theorem get?_insert_eq_update (s : SwapStore) (t : SwapToken) (p : SwappedPage) :
    (s.insert t p).get? = Function.update s.get? t (some p) := by
  funext u
  rw [get?_insert, Function.update_apply]
  exact if_congr eq_comm rfl rfl

theorem get?_erase_eq_update (s : SwapStore) (t : SwapToken) :
    (s.erase t).get? = Function.update s.get? t none := by
  funext u
  rw [get?_erase, Function.update_apply]
  exact if_congr eq_comm rfl rfl

/-- A store answers every call as the map of its images does. -/
theorem serves_serve (hn : s.nextToken < wordBound) (c : Call) :
    TokenMap.Serves s.get? c (s.serve c).1 (s.serve c).2.get? := by
  cases c with
  | swapOut image owner time =>
    cases h : s.freshToken? with
    | none =>
      simp only [serve, run_swapOut_none h]
      exact .full fun t ht => isSome_get?_of_freshToken?_eq_none hn h ht
    | some t =>
      rw [serve_swapOut_some h, get?_insert_eq_update]
      exact .issued ((probes_of_probe?_eq_some h).lt hn) (get?_of_freshToken?_eq_some h)
  | swapIn t owner buffer =>
    cases h : s.get? t with
    | none =>
      rw [serve_swapIn_none h]
      exact .missed h
    | some p =>
      by_cases hsize : p.image.size = buffer.size
      · rw [serve_swapIn_some h owner hsize, get?_erase_eq_update]
        exact .filled h hsize
      · rw [serve_swapIn_of_size_ne h owner hsize, get?_erase_eq_update]
        exact .lost h hsize
  | delete t owner =>
    cases h : s.get? t with
    | none =>
      rw [serve_delete_none h]
      exact .undeleted h
    | some p =>
      rw [serve_delete_some h, get?_erase_eq_update]
      exact .deleted h

theorem serve_eq_self_or_erase {c : Call} (hc : c.isSwapOut = false) :
    (s.serve c).2 = s ∨ ∃ t, (s.serve c).2 = s.erase t := by
  cases c with
  | swapOut => exact absurd hc nofun
  | swapIn t owner buffer =>
    cases h : s.get? t with
    | none => exact .inl (by rw [serve_swapIn_none h])
    | some p =>
      refine .inr ⟨t, ?_⟩
      by_cases hsize : p.image.size = buffer.size
      · rw [serve_swapIn_some h owner hsize]
      · rw [serve_swapIn_of_size_ne h owner hsize]
  | delete t owner =>
    cases h : s.get? t with
    | none => exact .inl (by rw [serve_delete_none h])
    | some p => exact .inr ⟨t, by rw [serve_delete_some h]⟩

theorem nextToken_serve {c : Call} (hc : c.isSwapOut = false) :
    (s.serve c).2.nextToken = s.nextToken := by
  rcases serve_eq_self_or_erase (s := s) hc with h | ⟨t, h⟩ <;> rw [h]
  rfl

theorem get?_of_get?_serve {c : Call} (hc : c.isSwapOut = false) {p : SwappedPage}
    (ht : (s.serve c).2.get? t = some p) : s.get? t = some p := by
  rcases serve_eq_self_or_erase (s := s) hc with h | ⟨u, h⟩ <;> rw [h] at ht
  · exact ht
  · rw [get?_erase] at ht
    split at ht
    · exact absurd ht nofun
    · exact ht

theorem nextToken_serve_lt (hn : s.nextToken < wordBound) (c : Call) :
    (s.serve c).2.nextToken < wordBound := by
  cases hc : c.isSwapOut with
  | false => rwa [nextToken_serve hc]
  | true =>
    cases c with
    | swapIn | delete => exact absurd hc nofun
    | swapOut image owner time =>
      cases h : s.freshToken? with
      | none =>
        simp only [serve, run_swapOut_none h]
        exact hn
      | some t =>
        rw [serve_swapOut_some h]
        exact tokenAfter_lt t

theorem nextToken_after_lt (hn : s.nextToken < wordBound) (calls : List Call) :
    (s.after calls).nextToken < wordBound := by
  induction calls generalizing s with
  | nil => exact hn
  | cons c calls ih => exact ih (nextToken_serve_lt hn c)

theorem serves_replies (hn : s.nextToken < wordBound) (calls : List Call) :
    TokenMap.ServesAll s.get? calls (s.replies calls) (s.after calls).get? := by
  induction calls generalizing s with
  | nil => exact .nil
  | cons c calls ih => exact .cons (serves_serve hn c) (ih (nextToken_serve_lt hn c))

theorem after_append (s : SwapStore) (before rest : List Call) :
    s.after (before ++ rest) = (s.after before).after rest := by
  induction before generalizing s with
  | nil => rfl
  | cons c before ih => exact ih (s.serve c).2

/-! The first round of a new store. -/

/-- So many tokens have been issued, the first ones, and all images are under them. -/
structure Counted (s : SwapStore) (k : Nat) : Prop where
  next : s.nextToken = k % wordBound
  held : ∀ t p, s.get? t = some p → t < k

namespace Counted

variable {k : Nat}

theorem new : Counted {} 0 := ⟨rfl, fun t p h => by simp [get?] at h⟩

theorem get?_eq_none (h : s.Counted k) (ht : k ≤ t) : s.get? t = none :=
  Option.eq_none_iff_forall_ne_some.mpr fun p hp => absurd (h.held t p hp) (Nat.not_lt.mpr ht)

theorem freshToken?_eq (h : s.Counted k) (hk : k < wordBound) : s.freshToken? = some k := by
  have hfree := get?_eq_none_iff.mp (h.get?_eq_none (Nat.le_refl k))
  rw [freshToken?, h.next, Nat.mod_eq_of_lt hk, probe?, hfree]
  rfl

theorem insert (h : s.Counted k) (p : SwappedPage) : (s.insert k p).Counted (k + 1) where
  next := rfl
  held t q hq := by
    rw [get?_insert] at hq
    split at hq
    · next ht => exact ht ▸ Nat.lt_succ_self k
    · exact Nat.lt_succ_of_lt (h.held t q hq)

theorem serve_of_not_swapOut (h : s.Counted k) {c : Call} (hc : c.isSwapOut = false) :
    (s.serve c).2.Counted k :=
  ⟨(nextToken_serve hc).trans h.next, fun t p hp => h.held t p (get?_of_get?_serve hc hp)⟩

theorem counts_on (h : s.Counted k) (calls : List Call)
    (hk : k + calls.countP Call.isSwapOut ≤ wordBound) :
    (s.replies calls).filterMap Reply.token? = List.range' k (calls.countP Call.isSwapOut) ∧
      (s.after calls).Counted (k + calls.countP Call.isSwapOut) ∧
      ∀ t < k, s.get? t = none → (s.after calls).get? t = none := by
  induction calls generalizing s k with
  | nil => exact ⟨rfl, h, fun _ _ => id⟩
  | cons c calls ih =>
    cases hc : c.isSwapOut with
    | false =>
      rw [List.countP_cons_of_neg (by simp [hc])] at hk ⊢
      obtain ⟨htokens, hcounted, hgone⟩ := ih (h.serve_of_not_swapOut hc) hk
      refine ⟨?_, hcounted, fun t ht hnone => hgone t ht ?_⟩
      · cases c with
        | swapOut => exact absurd hc nofun
        | swapIn | delete => exact htokens
      · refine Option.eq_none_iff_forall_ne_some.mpr fun p hp => ?_
        exact absurd (hnone.symm.trans (get?_of_get?_serve hc hp)) nofun
    | true =>
      cases c with
      | swapIn | delete => exact absurd hc nofun
      | swapOut image owner time =>
        rw [List.countP_cons_of_pos hc, Nat.add_comm _ 1, ← Nat.add_assoc] at hk ⊢
        have hserve := serve_swapOut_some (h.freshToken?_eq (by omega)) image owner time
        obtain ⟨htokens, hcounted, hgone⟩ := ih (h.insert ⟨owner, time, image⟩) hk
        simp only [replies, after, hserve]
        refine ⟨?_, hcounted, fun t ht hnone => hgone t (Nat.lt_succ_of_lt ht) ?_⟩
        · rw [Nat.add_comm 1, List.range'_succ, ← htokens]
          rfl
        · rw [get?_insert, if_neg (Nat.ne_of_gt ht), hnone]

end Counted

structure SingleUse (s : SwapStore) (calls : List Call) : Prop where
  map : TokenMap.ServesAll s.get? calls (s.replies calls) (s.after calls).get?
  issues : (s.after calls).size < wordBound → ∃ t,
    (∀ u, Probes (s.after calls).pages (s.after calls).nextToken u ↔ u = t) ∧
    (s.after calls).get? t = none ∧
    ∀ image owner time, (s.after calls).serve (.swapOut image owner time) =
      (.issued (.ok t), (s.after calls).insert t ⟨owner, time, image⟩)
  unknown : ∀ t owner, (s.after calls).get? t = none →
    (∀ buffer, (s.after calls).serve (.swapIn t owner buffer) =
      (.readBack (.error (TokenMap.unknown t owner)) buffer, s.after calls)) ∧
    (s.after calls).serve (.delete t owner) =
      (.deleted (.error (TokenMap.unknown t owner)), s.after calls)
  round_trip : ∀ image owner time t s',
    s.serve (.swapOut image owner time) = (.issued (.ok t), s') →
    (∀ c ∈ calls, c.consumed? ≠ some t) → ∀ reader buffer, image.size = buffer.size →
      ((s'.after calls).serve (.swapIn t reader buffer)).1 = .readBack (.ok ()) image

/-- What calls come to that a new store serves before its tokens have gone round. -/
structure FirstRound (calls : List Call) : Prop where
  tokens : (({} : SwapStore).replies calls).filterMap Reply.token? =
    List.range (calls.countP Call.isSwapOut)
  consumed : ∀ before rest, calls = before ++ rest →
    ∀ t ∈ (({} : SwapStore).replies before).filterMap Reply.token?,
      (({} : SwapStore).after before).get? t = none →
        (({} : SwapStore).after calls).get? t = none

theorem singleUse (hn : s.nextToken < wordBound) (calls : List Call) : s.SingleUse calls where
  map := serves_replies hn calls
  issues hs := serve_swapOut (nextToken_after_lt hn calls) hs
  unknown t owner h := ⟨serve_swapIn_none h owner, serve_delete_none h owner⟩
  round_trip image owner time t s' hserve hcalls reader buffer hsize := by
    have hn' := nextToken_serve_lt hn (.swapOut image owner time)
    have hissued := serves_serve hn (.swapOut image owner time)
    rw [hserve] at hn' hissued
    have ht : s'.get? t = some ⟨owner, time, image⟩ := by
      generalize s'.get? = m at hissued
      cases hissued
      exact Function.update_self ..
    have hkept := (serves_replies hn' calls).kept ht hcalls
    rw [serve_swapIn_some hkept reader hsize]

theorem firstRound {calls : List Call} (h : calls.countP Call.isSwapOut ≤ wordBound) :
    FirstRound calls where
  tokens := by
    rw [(Counted.new.counts_on calls (by rwa [Nat.zero_add])).1, List.range_eq_range']
  consumed before rest hcalls t ht hnone := by
    rw [hcalls, List.countP_append] at h
    obtain ⟨htokens, hcounted, -⟩ := Counted.new.counts_on before (by omega)
    rw [htokens, List.mem_range'_1] at ht
    rw [hcalls, after_append]
    exact (hcounted.counts_on rest (by omega)).2.2 t ht.2 hnone

/-- A store answers as a finite map with single-use keys, wherever its counter stands, and a new
store issues no token twice in its first round. -/
theorem serves_as_token_map (calls : List Call) :
    (∀ s : SwapStore, s.nextToken < wordBound → s.SingleUse calls) ∧
    (calls.countP Call.isSwapOut ≤ wordBound → FirstRound calls) :=
  ⟨fun _ hn => singleUse hn calls, firstRound⟩

theorem serves_as_token_map_wrapped :
    let first : SwappedPage := ⟨⟨0, 3⟩, 5, #[1, 2]⟩
    let last : SwappedPage := ⟨⟨1, 4⟩, 7, #[3, 4]⟩
    let s : SwapStore :=
      ⟨(({} : Std.TreeMap SwapToken SwappedPage).insert 0 first).insert (wordBound - 1) last,
        wordBound - 1⟩
    let calls : List Call := [.swapOut #[5, 6] ⟨2, 0⟩ 9, .swapIn 0 ⟨2, 1⟩ #[0, 0], .delete 0 ⟨0, 3⟩,
      .swapOut #[7] ⟨2, 1⟩ 10, .swapIn 1 ⟨2, 0⟩ #[0, 0]]
    s.nextToken < wordBound ∧ (s.replies calls).filterMap Reply.token? = [1, 2] ∧
      s.SingleUse calls ∧ FirstRound calls :=
  ⟨by decide, by decide +kernel, (serves_as_token_map _).1 _ (by decide),
    (serves_as_token_map _).2 (by decide)⟩

end SwapStore

end DemandPaging
