import DemandPaging.Proofs.Tlb
import Mathlib.Data.List.Nodup
import Mathlib.Data.List.Sort
/-!
A buffer keeps the mappings that were used last. Seen from outside it is a list of mappings in the
order of their last use, the latest first: a hit comes to the front, a load comes in at the front
and, if the list is full, puts the last mapping out. Where the slots are, and what the invalid ones
still hold, makes no difference.
-/

namespace DemandPaging

abbrev Mapping := PageNumber × FrameNumber

def TlbSlot.mapping (s : TlbSlot) : Mapping := (s.page, s.frame)

/-- The mapping that had to give way to a load. -/
def TlbLoad.displaced? : TlbLoad → Option Mapping
  | .clean _ => none
  | .steal _ page frame => some (page, frame)

namespace Tlb

inductive Call where
  | lookup (page : PageNumber) (stamp : Nat)
  | install (page : PageNumber) (frame : FrameNumber) (stamp : Nat)
  | purge (page : PageNumber)
  | invalidate

inductive Reply where
  | found (frame : Option FrameNumber)
  | loaded (displaced : Option Mapping)
  | purged (cached : Bool)
  | invalidated
deriving DecidableEq

def Call.stamp? : Call → Option Nat
  | .lookup _ stamp => some stamp
  | .install _ _ stamp => some stamp
  | _ => none

variable {n : Nat}

def serve (t : Tlb n) : Call → Option (Reply × Tlb n)
  | .lookup page stamp => some (.found (t.lookup page stamp).1, (t.lookup page stamp).2)
  | .install page frame stamp =>
    (t.install? page frame stamp).map fun (load, u) => (.loaded load.displaced?, u)
  | .purge page => some (.purged (t.purge page).1, (t.purge page).2)
  | .invalidate => some (.invalidated, t.invalidate)

def serveAll (t : Tlb n) : List Call → Option (List Reply × Tlb n)
  | [] => some ([], t)
  | c :: cs => (t.serve c).bind fun (r, u) => (u.serveAll cs).map fun (rs, v) => (r :: rs, v)

/-- Only pages without a valid slot are installed. -/
def Permits (t : Tlb n) : Call → Prop
  | .install page .. => ∀ s ∈ t.valid, s.page ≠ page
  | _ => True

instance (t : Tlb n) (c : Call) : Decidable (t.Permits c) :=
  match c with
  | .install .. => inferInstanceAs (Decidable (∀ s ∈ t.valid, _))
  | .lookup .. | .purge _ | .invalidate => inferInstanceAs (Decidable True)

def PermitsAll (t : Tlb n) : List Call → Prop
  | [] => True
  | c :: cs => t.Permits c ∧ match t.serve c with
    | some (_, u) => u.PermitsAll cs
    | none => True

instance decidablePermitsAll (t : Tlb n) : (calls : List Call) → Decidable (t.PermitsAll calls)
  | [] => inferInstanceAs (Decidable True)
  | c :: cs =>
    have : Decidable (match t.serve c with
        | some (_, u) => u.PermitsAll cs
        | none => True) :=
      match t.serve c with
      | some (_, u) => decidablePermitsAll u cs
      | none => inferInstanceAs (Decidable True)
    inferInstanceAs (Decidable (_ ∧ _))

/-- The valid slots, the one used last first. -/
def byRecency (t : Tlb n) : List TlbSlot :=
  t.valid.mergeSort fun a b => b.referenced ≤ a.referenced

end Tlb

/-- Mappings in the order of their last use, the latest first. -/
abbrev RecencyList := List Mapping

namespace RecencyList

def without (l : RecencyList) (page : PageNumber) : RecencyList := l.filter fun e => e.1 ≠ page

/-- What a list with room for `n` mappings replies to a call, and what becomes of it. -/
def serve (n : Nat) (l : RecencyList) : Tlb.Call → Tlb.Reply × RecencyList
  | .lookup page _ =>
    match l.find? fun e => e.1 = page with
    | none => (.found none, l)
    | some e => (.found (some e.2), e :: l.without page)
  | .install page frame _ =>
    if l.length < n then (.loaded none, (page, frame) :: l)
    else (.loaded l.getLast?, (page, frame) :: l.dropLast)
  | .purge page => (.purged (l.any fun e => e.1 = page), l.without page)
  | .invalidate => (.invalidated, [])

def serveAll (n : Nat) (l : RecencyList) : List Tlb.Call → List Tlb.Reply × RecencyList
  | [] => ([], l)
  | c :: cs =>
    ((serve n l c).1 :: (serveAll n (serve n l c).2 cs).1, (serveAll n (serve n l c).2 cs).2)

end RecencyList

namespace Tlb

variable {n : Nat} {t : Tlb n} {slots : List TlbSlot}

/-- The valid slots in the order of their stamps, the latest first, each of another page. -/
structure Lists (t : Tlb n) (slots : List TlbSlot) : Prop where
  perm : slots.Perm t.valid
  sorted : slots.Pairwise fun a b => b.referenced < a.referenced
  pages : (slots.map TlbSlot.page).Nodup

theorem find?_eq_none_iff_forall_valid {page : PageNumber} :
    t.find? page = none ↔ ∀ s ∈ t.valid, s.page ≠ page := by
  rw [find?_eq_none_iff]
  constructor
  · intro h s hs hp
    exact h s.frame (maps_iff.mpr ⟨s, hs, hp, rfl⟩)
  · intro h frame hm
    obtain ⟨s, hs, hp, -⟩ := maps_iff.mp hm
    exact h s hs hp

theorem valid_set (t : Tlb n) (i : Fin n) {s : TlbSlot} (hs : s.valid = true) :
    ∃ a b, t.valid = a ++ [t.slots.get i].filter TlbSlot.valid ++ b ∧
      (⟨t.slots.set i.val s i.isLt⟩ : Tlb n).valid = a ++ s :: b := by
  have hi : i.val < t.slots.toList.length := by simp
  refine ⟨(t.slots.toList.take i).filter TlbSlot.valid,
    (t.slots.toList.drop (i + 1)).filter TlbSlot.valid, ?_, ?_⟩
  · have hget : t.slots.get i = t.slots.toList[i.val] := rfl
    rw [valid, hget, ← List.filter_append, ← List.filter_append, List.append_assoc,
      List.singleton_append, List.getElem_cons_drop, List.take_append_drop]
  · rw [valid, Vector.toList_set, List.set_eq_take_append_cons_drop, if_pos hi,
      List.filter_append, List.filter_cons_of_pos hs]

theorem perm_valid_set {i : Fin n} {s : TlbSlot} {rest : List TlbSlot} (hs : s.valid = true)
    (hrest : ([t.slots.get i].filter TlbSlot.valid ++ rest).Perm t.valid) :
    (s :: rest).Perm (⟨t.slots.set i.val s i.isLt⟩ : Tlb n).valid := by
  obtain ⟨a, b, hbefore, hafter⟩ := valid_set t i hs
  rw [hbefore, List.append_assoc] at hrest
  have hab : rest.Perm (a ++ b) := by
    apply (List.perm_append_left_iff ([t.slots.get i].filter TlbSlot.valid)).mp
    exact hrest.trans (List.perm_append_comm_assoc ..)
  rw [hafter]
  exact (hab.cons s).trans List.perm_middle.symm

theorem length_valid_lt {i : Fin n} (hi : (t.slots.get i).valid = false) :
    t.valid.length < n := by
  have hlt : t.valid.length < t.slots.toList.length :=
    List.length_filter_lt_length_iff_exists.mpr
      ⟨t.slots.get i, Vector.mem_toList_iff.mpr (Vector.getElem_mem i.isLt), by simp [hi]⟩
  simpa using hlt

theorem length_valid_eq (h : ∀ i, (t.slots.get i).valid = true) : t.valid.length = n := by
  have hall : t.valid = t.slots.toList := by
    apply List.filter_eq_self.mpr
    intro s hs
    obtain ⟨i, hi, rfl⟩ := Vector.mem_iff_getElem.mp (Vector.mem_toList_iff.mp hs)
    exact h ⟨i, hi⟩
  rw [hall, Vector.length_toList]

namespace Lists

variable (h : t.Lists slots)

include h

theorem byRecency_eq : t.byRecency = slots := by
  have hstamps : (slots.map TlbSlot.referenced).Nodup :=
    List.pairwise_map.mpr (h.sorted.imp fun hlt heq => Nat.ne_of_gt hlt heq)
  have hmerge : t.byRecency.Pairwise fun a b => decide (b.referenced ≤ a.referenced) = true := by
    apply List.pairwise_mergeSort
    · simp only [decide_eq_true_eq]
      omega
    · simp only [Bool.or_eq_true, decide_eq_true_eq]
      omega
  have hperm : t.byRecency.Perm slots := (List.mergeSort_perm ..).trans h.perm.symm
  apply List.Perm.eq_of_pairwise _ (hmerge.imp of_decide_eq_true) (h.sorted.imp Nat.le_of_lt) hperm
  intro a b ha hb hle hge
  exact List.inj_on_of_nodup_map hstamps (hperm.subset ha) hb (Nat.le_antisymm hge hle)

theorem mem_iff {s : TlbSlot} : s ∈ slots ↔ s ∈ t.valid := h.perm.mem_iff

theorem any_caches (page : PageNumber) :
    (slots.any fun s => s.page = page) = t.slots.any (caches page) := by
  rw [h.perm.any_eq, valid, List.any_filter, ← Vector.any_toList]
  apply congrArg
  ext s
  rw [caches, Bool.beq_eq_decide_eq]

theorem split {x : TlbSlot} (hx : x ∈ slots) : ∃ a b, slots = a ++ x :: b ∧
    ∀ s ∈ a ++ b, s.page ≠ x.page := by
  obtain ⟨a, b, rfl⟩ := List.append_of_mem hx
  have hnodup := (List.perm_middle.map TlbSlot.page).nodup_iff.mp h.pages
  refine ⟨a, b, rfl, fun s hs hp => ?_⟩
  exact (List.nodup_cons.mp hnodup).1 (List.mem_map.mpr ⟨s, hs, hp⟩)

theorem eq_concat_oldest {i : Fin n} (hi : (t.slots.get i).valid = true)
    (hle : ∀ j, (t.slots.get i).referenced ≤ (t.slots.get j).referenced) :
    ∃ front, slots = front ++ [t.slots.get i] := by
  obtain ⟨a, b, rfl⟩ := List.append_of_mem (h.mem_iff.mpr (mem_valid.mpr ⟨hi, i, rfl⟩))
  suffices hb : b = [] from ⟨a, by rw [hb]⟩
  apply List.eq_nil_iff_forall_not_mem.mpr
  intro s hs
  have hv := h.mem_iff.mp (List.mem_append_right a (List.mem_cons_of_mem _ hs))
  obtain ⟨-, j, rfl⟩ := mem_valid.mp hv
  have hlt := List.rel_of_pairwise_cons (List.pairwise_append.mp h.sorted).2.1 hs
  exact Nat.not_lt_of_le (hle j) hlt

theorem put {u : Tlb n} {s : TlbSlot} {rest : List TlbSlot} (hsub : rest.Sublist slots)
    (hperm : (s :: rest).Perm u.valid) (hlast : ∀ r ∈ slots, r.referenced < s.referenced)
    (hpage : ∀ r ∈ rest, r.page ≠ s.page) : u.Lists (s :: rest) := by
  refine ⟨hperm, ?_, ?_⟩
  · apply List.pairwise_cons.mpr
    exact ⟨fun r hr => hlast r (hsub.subset hr), h.sorted.sublist hsub⟩
  · apply List.nodup_cons.mpr
    refine ⟨fun hm => ?_, (hsub.map _).nodup h.pages⟩
    obtain ⟨r, hr, hp⟩ := List.mem_map.mp hm
    exact hpage r hr hp

end Lists

section Split

variable {x : TlbSlot} {a b : List TlbSlot} (hne : ∀ s ∈ a ++ b, s.page ≠ x.page)

include hne

theorem without_split : RecencyList.without ((a ++ x :: b).map TlbSlot.mapping) x.page =
    (a ++ b).map TlbSlot.mapping := by
  have hab : (a ++ b).filter (fun s => s.page ≠ x.page) = a ++ b :=
    List.filter_eq_self.mpr fun s hs => by simpa using hne s hs
  have hx : (a ++ x :: b).filter (fun s => s.page ≠ x.page) =
      (a ++ b).filter fun s => s.page ≠ x.page := by
    simp
  rw [RecencyList.without, List.filter_map]
  exact congrArg _ (hx.trans hab)

theorem find?_split : ((a ++ x :: b).map TlbSlot.mapping).find? (fun e => e.1 = x.page) =
    some x.mapping := by
  rw [List.find?_map, Option.map_eq_some_iff]
  refine ⟨x, List.find?_eq_some_iff_append.mpr ⟨by simp [TlbSlot.mapping], a, b, rfl, ?_⟩, rfl⟩
  intro s hs
  rw [Bool.not_eq_true']
  exact decide_eq_false (hne s (List.mem_append_left b hs))

end Split

/-- The buffer serves a call as the list of its mappings does, and no slot has got a stamp that is
not of the call. -/
structure Serves (t : Tlb n) (slots : List TlbSlot) (c : Call) (u : Tlb n)
    (slots' : List TlbSlot) : Prop where
  reply : t.serve c = some ((RecencyList.serve n (slots.map TlbSlot.mapping) c).1, u)
  after : (RecencyList.serve n (slots.map TlbSlot.mapping) c).2 = slots'.map TlbSlot.mapping
  lists : u.Lists slots'
  stamps : ∀ s ∈ slots', s ∈ slots ∨ c.stamp? = some s.referenced

theorem mem_or_stamp {c : Call} {s : TlbSlot} {rest : List TlbSlot} (hsub : rest.Sublist slots)
    (hs : c.stamp? = some s.referenced) :
    ∀ r ∈ s :: rest, r ∈ slots ∨ c.stamp? = some r.referenced :=
  List.forall_mem_cons.mpr ⟨.inr hs, fun _ hr => .inl (hsub.subset hr)⟩

theorem Lists.lookup (h : t.Lists slots) (page : PageNumber) {stamp : Nat}
    (hlast : ∀ s ∈ slots, s.referenced < stamp) :
    ∃ u slots', Serves t slots (.lookup page stamp) u slots' := by
  cases hf : t.find? page with
  | none =>
    have hnone : (slots.map TlbSlot.mapping).find? (fun e => e.1 = page) = none := by
      rw [List.find?_map, Option.map_eq_none_iff, List.find?_eq_none]
      intro s hs hc
      exact find?_eq_none_iff_forall_valid.mp hf s (h.mem_iff.mp hs) (of_decide_eq_true hc)
    refine ⟨t, slots, ?_, ?_, h, fun s hs => .inl hs⟩
    · simp [serve, Tlb.lookup, hf, RecencyList.serve, hnone]
    · simp [RecencyList.serve, hnone]
  | some i =>
    obtain ⟨hv, rfl⟩ := find?_eq_some hf
    obtain ⟨a, b, rfl, hne⟩ := h.split (h.mem_iff.mpr (mem_valid.mpr ⟨hv, i, rfl⟩))
    have hfind := find?_split hne
    have hwithout := without_split hne
    let hit : TlbSlot := { t.slots.get i with referenced := stamp }
    have hsub : (a ++ b).Sublist (a ++ t.slots.get i :: b) :=
      (List.sublist_cons_self _ b).append_left a
    refine ⟨⟨t.slots.set i.val hit i.isLt⟩, hit :: (a ++ b), ?_, ?_, ?_, ?_⟩
    · simp only [serve, Tlb.lookup, hf, RecencyList.serve, hfind]
      rfl
    · simp only [RecencyList.serve, hfind, hwithout]
      rfl
    · apply h.put (s := hit) hsub _ hlast hne
      apply perm_valid_set (s := hit) hv
      rw [List.filter_cons_of_pos hv, List.filter_nil, List.singleton_append]
      exact List.perm_middle.symm.trans h.perm
    · exact mem_or_stamp (s := hit) hsub rfl

theorem Lists.install_clean (h : t.Lists slots) {page : PageNumber} (frame : FrameNumber)
    {stamp : Nat} (hpage : ∀ s ∈ slots, s.page ≠ page)
    (hlast : ∀ s ∈ slots, s.referenced < stamp) {i : Fin n}
    (hf : t.slots.findFinIdx? (fun s => !s.valid) = some i) :
    ∃ u slots', Serves t slots (.install page frame stamp) u slots' := by
  have hi : (t.slots.get i).valid = false := by simpa using findFinIdx?_some hf
  have hlt : slots.length < n := h.perm.length_eq ▸ length_valid_lt hi
  let loaded : TlbSlot := ⟨true, page, frame, stamp⟩
  refine ⟨⟨t.slots.set i.val loaded i.isLt⟩, loaded :: slots, ?_, ?_, ?_, ?_⟩
  · simp [serve, install?, hf, RecencyList.serve, hlt, TlbLoad.displaced?, loaded]
  · simp [RecencyList.serve, hlt, loaded, TlbSlot.mapping]
  · apply h.put (s := loaded) (List.Sublist.refl slots) _ hlast hpage
    apply perm_valid_set rfl
    rw [List.filter_cons_of_neg (by simp [hi])]
    exact h.perm
  · exact mem_or_stamp (s := loaded) (List.Sublist.refl slots) rfl

theorem Lists.install_steal (h : t.Lists slots) (hn : 0 < n) {page : PageNumber}
    (frame : FrameNumber) {stamp : Nat} (hpage : ∀ s ∈ slots, s.page ≠ page)
    (hlast : ∀ s ∈ slots, s.referenced < stamp)
    (hf : t.slots.findFinIdx? (fun s => !s.valid) = none) :
    ∃ u slots', Serves t slots (.install page frame stamp) u slots' := by
  have hall (i : Fin n) : (t.slots.get i).valid = true := by
    have hi := Vector.findFinIdx?_eq_none_iff.mp hf (t.slots.get i) (Vector.getElem_mem i.isLt)
    simpa using hi
  have hfull : ¬(slots.map TlbSlot.mapping).length < n := by
    rw [List.length_map, h.perm.length_eq, length_valid_eq hall]
    exact Nat.lt_irrefl n
  obtain ⟨i, hi⟩ := Option.isSome_iff_exists.mp (t.oldest?_isSome hn)
  obtain ⟨front, rfl⟩ := h.eq_concat_oldest (hall i) (oldest?_le hi)
  let loaded : TlbSlot := ⟨true, page, frame, stamp⟩
  refine ⟨⟨t.slots.set i.val loaded i.isLt⟩, loaded :: front, ?_, ?_, ?_, ?_⟩
  · rw [RecencyList.serve, if_neg hfull, List.map_append, List.map_singleton,
      List.getLast?_concat, serve, install?, hf, hi]
    rfl
  · rw [RecencyList.serve, if_neg hfull, List.map_append, List.map_singleton,
      List.dropLast_concat]
    rfl
  · apply h.put (s := loaded) (List.sublist_append_left ..) _ hlast
      fun s hs => hpage s (List.mem_append_left _ hs)
    apply perm_valid_set (s := loaded) rfl
    rw [List.filter_cons_of_pos (hall i), List.filter_nil]
    exact List.perm_append_comm.trans h.perm
  · exact mem_or_stamp (s := loaded) (List.sublist_append_left ..) rfl

theorem Lists.purge (h : t.Lists slots) (page : PageNumber) :
    ∃ u slots', Serves t slots (.purge page) u slots' := by
  refine ⟨(t.purge page).2, slots.filter fun s => s.page ≠ page, ?_, ?_, ⟨?_, ?_, ?_⟩, ?_⟩
  · rw [RecencyList.serve, List.any_map]
    exact congrArg (fun b => some (Reply.purged b, (t.purge page).2)) (h.any_caches page).symm
  · rw [RecencyList.serve, RecencyList.without, List.filter_map]
    rfl
  · rw [valid_purge]
    exact h.perm.filter _
  · exact h.sorted.filter _
  · exact (List.filter_sublist.map _).nodup h.pages
  · intro s hs
    exact .inl (List.mem_of_mem_filter hs)

theorem Lists.invalidate (t : Tlb n) (slots : List TlbSlot) :
    ∃ u slots', Serves t slots .invalidate u slots' := by
  refine ⟨t.invalidate, [], rfl, rfl, ⟨?_, .nil, .nil⟩, nofun⟩
  rw [valid_invalidate]

theorem Lists.serve (h : t.Lists slots) (hn : 0 < n) {c : Call} (hp : t.Permits c)
    (hlast : ∀ stamp, c.stamp? = some stamp → ∀ s ∈ slots, s.referenced < stamp) :
    ∃ u slots', Serves t slots c u slots' := by
  cases c with
  | lookup page stamp => exact h.lookup page (hlast stamp rfl)
  | install page frame stamp =>
    have hpage : ∀ s ∈ slots, s.page ≠ page := fun s hs => hp s (h.mem_iff.mp hs)
    cases hf : t.slots.findFinIdx? fun s => !s.valid with
    | some i => exact h.install_clean frame hpage (hlast stamp rfl) hf
    | none => exact h.install_steal hn frame hpage (hlast stamp rfl) hf
  | purge page => exact h.purge page
  | invalidate => exact Lists.invalidate t slots

/-- A buffer that starts as a list of its mappings serves all calls as the list does, if the stamps
go up from those it has. -/
theorem Lists.serveAll (h : t.Lists slots) (hn : 0 < n) {calls : List Call}
    (hs : (calls.filterMap Call.stamp?).Pairwise (· < ·)) (hp : t.PermitsAll calls)
    (hlast : ∀ stamp ∈ calls.filterMap Call.stamp?, ∀ s ∈ slots, s.referenced < stamp) :
    ∃ u slots',
      t.serveAll calls =
        some ((RecencyList.serveAll n (slots.map TlbSlot.mapping) calls).1, u) ∧
      (RecencyList.serveAll n (slots.map TlbSlot.mapping) calls).2 =
        slots'.map TlbSlot.mapping ∧ u.Lists slots' := by
  induction calls generalizing t slots with
  | nil => exact ⟨t, slots, rfl, rfl, h⟩
  | cons c calls ih =>
    obtain ⟨u, slots', hc⟩ := h.serve hn hp.1 fun stamp hstamp =>
      hlast stamp (List.mem_filterMap.mpr ⟨c, List.mem_cons_self, hstamp⟩)
    have hrest : (calls.filterMap Call.stamp?).Sublist ((c :: calls).filterMap Call.stamp?) :=
      (List.sublist_cons_self c calls).filterMap _
    have hpu : u.PermitsAll calls := by
      have := hp.2
      rwa [hc.reply] at this
    have hu : ∀ stamp ∈ calls.filterMap Call.stamp?, ∀ s ∈ slots', s.referenced < stamp := by
      intro stamp hstamp s hs'
      rcases hc.stamps s hs' with hold | hnew
      · exact hlast stamp (hrest.subset hstamp) s hold
      · rw [List.filterMap_cons_some hnew] at hs
        exact List.rel_of_pairwise_cons hs hstamp
    obtain ⟨v, slots'', hall, hafter, hv⟩ := ih hc.lists (hs.sublist hrest) hpu hu
    refine ⟨v, slots'', ?_, ?_, hv⟩
    · rw [Tlb.serveAll, hc.reply, RecencyList.serveAll, hc.after]
      exact congrArg (Option.map _) hall
    · rw [RecencyList.serveAll, hc.after]
      exact hafter

/-- A buffer that is given fresh stamps, and only mappings of pages it does not cache, answers as
a list of the mappings in the order of their last use, and holds what the list holds. -/
theorem serves_as_recency_list (hn : 0 < n) (calls : List Call)
    (hs : (calls.filterMap Call.stamp?).Pairwise (· < ·)) (hp : (empty n).PermitsAll calls) :
    ∃ t, (empty n).serveAll calls = some ((RecencyList.serveAll n [] calls).1, t) ∧
      t.byRecency.Pairwise (fun a b => b.referenced < a.referenced) ∧
      t.byRecency.map TlbSlot.mapping = (RecencyList.serveAll n [] calls).2 := by
  have hempty : (empty n).Lists [] := ⟨by rw [valid_empty], .nil, .nil⟩
  obtain ⟨t, slots, hall, hafter, ht⟩ := hempty.serveAll hn hs hp nofun
  rw [List.map_nil] at hall hafter
  refine ⟨t, hall, ?_, ?_⟩
  · rw [ht.byRecency_eq]
    exact ht.sorted
  · rw [ht.byRecency_eq, hafter]

theorem serves_as_recency_list_two :
    let calls : List Call := [.install 5 0 1, .install 9 1 2, .lookup 5 3, .install 7 2 4,
      .lookup 9 5, .purge 5, .install 3 3 6, .install 4 4 7]
    ∃ t, (empty 2).serveAll calls = some ([.loaded none, .loaded none, .found (some 0),
        .loaded (some (9, 1)), .found none, .purged true, .loaded none, .loaded (some (7, 2))], t) ∧
      t.byRecency.Pairwise (fun a b => b.referenced < a.referenced) ∧
      t.byRecency.map TlbSlot.mapping = [(4, 4), (3, 3)] :=
  serves_as_recency_list (by decide) _ (by decide) (by decide +kernel)

end Tlb

end DemandPaging
