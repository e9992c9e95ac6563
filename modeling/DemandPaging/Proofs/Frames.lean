import DemandPaging.Frames
/-!
The frame pool as a map from frames to owners beside the free list, and what each change of the
books does to both.
-/

namespace DemandPaging

/-- An older stamp, or the same stamp and no higher number. -/
def OwnedFrame.Precedes (x y : OwnedFrame) : Prop :=
  x.referenced < y.referenced ∨ x.referenced = y.referenced ∧ x.frame ≤ y.frame

theorem OwnedFrame.Precedes.trans {x y z : OwnedFrame} (h : x.Precedes y) (h' : y.Precedes z) :
    x.Precedes z := by
  rcases h with h | ⟨h, hn⟩
  · exact .inl (h'.elim (Nat.lt_trans h) fun h' => h'.1 ▸ h)
  · exact h'.imp (h ▸ ·) fun h' => ⟨h.trans h'.1, Nat.le_trans hn h'.2⟩

namespace FrameTable

variable {n : Nat}

def owner? (t : FrameTable n) (f : FrameNumber) : Option (Option FrameOwner) :=
  (t.info? f).map FrameInfo.owner

def stampOf (t : FrameTable n) (f : FrameNumber) : Nat :=
  ((t.info? f).map FrameInfo.referenced).getD 0

/-- Changes the record of a frame; nothing changes if there is no such frame. -/
def change (t : FrameTable n) (f : FrameNumber) (c : FrameInfo → FrameInfo) : FrameTable n :=
  (t.modify? f c).getD t

def released (t : FrameTable n) (f : FrameNumber) : FrameTable n :=
  let u := t.change f fun i => { i with owner := none }
  { u with free := u.free ++ [f] }

theorem info?_eq_none_iff {t : FrameTable n} {f : Nat} : t.info? f = none ↔ n ≤ f := by
  simp [info?]

theorem lt_of_owner?_eq_some {t : FrameTable n} {f : Nat} {o : Option FrameOwner}
    (h : t.owner? f = some o) : f < n := by
  refine Nat.lt_of_not_le fun hn => ?_
  rw [owner?, info?_eq_none_iff.mpr hn] at h
  simp at h

theorem exists_owner? (t : FrameTable n) {f : Nat} (h : f < n) : ∃ o, t.owner? f = some o := by
  cases ho : t.info? f with
  | none => exact absurd (info?_eq_none_iff.mp ho) (Nat.not_le.mpr h)
  | some i => exact ⟨i.owner, by rw [owner?, ho]; rfl⟩

theorem modify?_eq_some (t : FrameTable n) {f : Nat} (c : FrameInfo → FrameInfo) (h : f < n) :
    t.modify? f c = some (t.change f c) := by
  obtain ⟨u, hu⟩ := Option.isSome_iff_exists.mp
    (show (t.modify? f c).isSome by rw [isSome_modify?]; simpa using h)
  rw [change, hu, Option.getD_some]

@[simp] theorem free_change (t : FrameTable n) (f : FrameNumber) (c : FrameInfo → FrameInfo) :
    (t.change f c).free = t.free := by
  unfold change
  cases h : t.modify? f c with
  | none => rfl
  | some u => exact free_modify? h

theorem info?_change (t : FrameTable n) (f : FrameNumber) (c : FrameInfo → FrameInfo)
    (i : FrameNumber) :
    (t.change f c).info? i = if i = f then (t.info? i).map c else t.info? i := by
  unfold change
  cases h : t.modify? f c with
  | some u => exact info?_modify? h i
  | none =>
    split
    · next hi =>
      have hn : n ≤ f := by
        have := isSome_modify? t f c
        rw [h] at this
        simpa using this
      rw [hi, Option.getD_none, info?_eq_none_iff.mpr hn]
      rfl
    · rfl

theorem owner?_change (t : FrameTable n) (f : FrameNumber) (c : FrameInfo → FrameInfo)
    (i : FrameNumber) :
    (t.change f c).owner? i = if i = f then (t.info? i).map fun r => (c r).owner
      else t.owner? i := by
  unfold owner?
  rw [info?_change]
  split
  · rw [Option.map_map]; rfl
  · rfl

theorem owner?_change_of_owner_eq (t : FrameTable n) (f : FrameNumber) {c : FrameInfo → FrameInfo}
    (h : ∀ r, (c r).owner = r.owner) : (t.change f c).owner? = t.owner? := by
  funext i
  rw [owner?_change]
  simp only [h]
  split <;> rfl

theorem owner?_change_of_owned (t : FrameTable n) {f : Nat} (o : FrameOwner) (stamp : Nat)
    (h : f < n) (i : FrameNumber) :
    (t.change f fun _ => ⟨some o, stamp⟩).owner? i =
      if i = f then some (some o) else t.owner? i := by
  rw [owner?_change]
  obtain ⟨_, hi⟩ := t.exists_owner? h
  obtain ⟨r, hr, -⟩ := Option.map_eq_some_iff.mp hi
  split
  · next hif => rw [hif, hr]; rfl
  · rfl

def raise (stamp : Nat) (i : FrameInfo) : FrameInfo :=
  if i.owner.isSome then { i with referenced := max i.referenced stamp } else i

def renew (stamp : Nat) (i : FrameInfo) : FrameInfo :=
  if i.owner.isSome then { i with referenced := stamp } else i

theorem owner_raise (stamp : Nat) (i : FrameInfo) : (raise stamp i).owner = i.owner := by
  unfold raise
  split <;> rfl

theorem owner_renew (stamp : Nat) (i : FrameInfo) : (renew stamp i).owner = i.owner := by
  unfold renew
  split <;> rfl

theorem refresh?_eq_some (t : FrameTable n) {f : Nat} (stamp : Nat) (h : f < n) :
    t.refresh? f stamp = some (t.change f (raise stamp)) := t.modify?_eq_some _ h

theorem touch?_eq_some (t : FrameTable n) {f : Nat} (stamp : Nat) (h : f < n) :
    t.touch? f stamp = some (t.change f (renew stamp)) := t.modify?_eq_some _ h

theorem assign?_eq_some (t : FrameTable n) {f : Nat} (o : FrameOwner) (stamp : Nat) (h : f < n) :
    t.assign? f o stamp = some (t.change f fun _ => ⟨some o, stamp⟩) := t.modify?_eq_some _ h

theorem release?_eq_some {t : FrameTable n} {f : FrameNumber} {o : FrameOwner}
    (h : t.owner? f = some (some o)) : t.release? f = some (some o, t.released f) := by
  obtain ⟨i, hi, ho⟩ := Option.map_eq_some_iff.mp h
  rw [release?, hi, Option.bind_some, t.modify?_eq_some _ (lt_of_owner?_eq_some h),
    Option.map_some, ho]
  rfl

@[simp] theorem free_released (t : FrameTable n) (f : FrameNumber) :
    (t.released f).free = t.free ++ [f] := by
  rw [released]
  simp only [free_change]

theorem owner?_released {t : FrameTable n} {f : FrameNumber} {o : Option FrameOwner}
    (h : t.owner? f = some o) (i : FrameNumber) :
    (t.released f).owner? i = if i = f then some none else t.owner? i := by
  change (t.change f fun i => { i with owner := none }).owner? i = _
  rw [owner?_change]
  obtain ⟨r, hr, -⟩ := Option.map_eq_some_iff.mp h
  split
  · next hif => rw [hif, hr]; rfl
  · rfl

theorem mem_owned {t : FrameTable n} {x : OwnedFrame} :
    x ∈ t.owned ↔ t.info? x.frame = some ⟨some x.owner, x.referenced⟩ := by
  simp only [owned, List.mem_filterMap, Prod.exists, List.mk_mem_zipIdx_iff_getElem?,
    Vector.getElem?_toList, Option.map_eq_some_iff, info?]
  constructor
  · rintro ⟨i, f, hi, o, ho, rfl⟩
    simp only [hi, ← ho]
  · intro h
    exact ⟨_, _, h, x.owner, rfl, rfl⟩

theorem older_eq (best : Option OwnedFrame) (x : OwnedFrame) :
    ∃ b, older best x = some b ∧ (best = some b ∨ b = x) := by
  rcases best with _ | b
  · exact ⟨x, rfl, .inr rfl⟩
  · by_cases h : x.referenced < b.referenced
    · exact ⟨x, if_pos h, .inr rfl⟩
    · exact ⟨b, if_neg h, .inl rfl⟩

theorem foldl_older_eq (best : Option OwnedFrame) (l : List OwnedFrame)
    (h : best.isSome ∨ l ≠ []) : ∃ b, l.foldl older best = some b ∧ (best = some b ∨ b ∈ l) := by
  induction l generalizing best with
  | nil =>
    obtain ⟨b, rfl⟩ := Option.isSome_iff_exists.mp (h.resolve_right fun hn => hn rfl)
    exact ⟨b, rfl, .inl rfl⟩
  | cons x l ih =>
    obtain ⟨c, hc, hx⟩ := older_eq best x
    obtain ⟨b, hb, hm⟩ := ih (some c) (.inl rfl)
    refine ⟨b, by rw [List.foldl_cons, hc, hb], ?_⟩
    rcases hm with hm | hm
    · obtain rfl := Option.some.inj hm
      rcases hx with hx | rfl
      · exact .inl hx
      · exact .inr List.mem_cons_self
    · exact .inr (List.mem_cons_of_mem x hm)

theorem mem_of_foldl_older {l : List OwnedFrame} {b : OwnedFrame}
    (h : l.foldl older none = some b) : b ∈ l := by
  obtain ⟨c, hc, hm⟩ := foldl_older_eq none l (.inr fun hn => by simp [hn] at h)
  rw [h] at hc
  exact Option.some.inj hc ▸ hm.resolve_left nofun

theorem exists_leastRecentlyUsed {t : FrameTable n} {f : FrameNumber} {o : FrameOwner}
    (h : t.owner? f = some (some o)) :
    ∃ v w, t.leastRecentlyUsed = some v ∧ t.owner? v = some (some w) := by
  obtain ⟨i, hi, ho⟩ := Option.map_eq_some_iff.mp h
  have hm : (⟨f, o, i.referenced⟩ : OwnedFrame) ∈ t.owned := mem_owned.mpr (by rw [hi, ← ho])
  obtain ⟨b, hb, hbm⟩ := foldl_older_eq none t.owned (.inr (List.ne_nil_of_mem hm))
  have hb' := mem_owned.mp (hbm.resolve_left nofun)
  exact ⟨b.frame, b.owner, by rw [leastRecentlyUsed, hb]; rfl, by rw [owner?, hb']; rfl⟩

theorem older_precedes {best : Option OwnedFrame} {x c : OwnedFrame} (h : older best x = some c)
    (hbest : ∀ b, best = some b → b.frame < x.frame) :
    c.Precedes x ∧ ∀ b, best = some b → c.Precedes b := by
  rcases best with _ | b
  · obtain rfl := Option.some.inj h
    exact ⟨.inr ⟨rfl, Nat.le_refl _⟩, nofun⟩
  · have hlt := hbest b rfl
    rw [older] at h
    split at h
    · next hr =>
      obtain rfl := Option.some.inj h
      refine ⟨.inr ⟨rfl, Nat.le_refl _⟩, ?_⟩
      rintro _ ⟨⟩
      exact .inl hr
    · next hr =>
      obtain rfl := Option.some.inj h
      refine ⟨?_, ?_⟩
      · rcases Nat.lt_or_eq_of_le (Nat.le_of_not_lt hr) with hr | hr
        · exact .inl hr
        · exact .inr ⟨hr, Nat.le_of_lt hlt⟩
      · rintro _ ⟨⟩
        exact .inr ⟨rfl, Nat.le_refl _⟩

theorem foldl_older_precedes {best : Option OwnedFrame} {l : List OwnedFrame} {b : OwnedFrame}
    (h : l.foldl older best = some b) (hl : l.Pairwise fun x y => x.frame < y.frame)
    (hbest : ∀ x, best = some x → ∀ y ∈ l, x.frame < y.frame) :
    (∀ x, best = some x → b.Precedes x) ∧ ∀ x ∈ l, b.Precedes x := by
  induction l generalizing best with
  | nil =>
    refine ⟨fun x hx => ?_, nofun⟩
    obtain rfl := Option.some.inj (h.symm.trans hx)
    exact .inr ⟨rfl, Nat.le_refl _⟩
  | cons y l ih =>
    obtain ⟨hy, hl⟩ := List.pairwise_cons.mp hl
    obtain ⟨c, hc, hcy⟩ := older_eq best y
    rw [List.foldl_cons, hc] at h
    obtain ⟨hbc, hbl⟩ := ih h hl (by
      rintro x ⟨⟩ z hz
      rcases hcy with hcb | rfl
      · exact hbest c hcb z (List.mem_cons_of_mem y hz)
      · exact hy z hz)
    obtain ⟨hcy, hcb⟩ := older_precedes hc fun x hx => hbest x hx y List.mem_cons_self
    exact ⟨fun x hx => (hbc c rfl).trans (hcb x hx),
      List.forall_mem_cons.mpr ⟨(hbc c rfl).trans hcy, hbl⟩⟩

theorem pairwise_owned (t : FrameTable n) : t.owned.Pairwise fun x y => x.frame < y.frame := by
  have hzip : t.info.toList.zipIdx.Pairwise fun a b => a.2 < b.2 := by
    rw [← List.pairwise_map (R := (· < ·)), List.zipIdx_map_snd]
    exact List.pairwise_lt_range'
  refine List.pairwise_filterMap.mpr (hzip.imp ?_)
  rintro ⟨i, f⟩ ⟨j, f'⟩ h x hx y hy
  obtain ⟨o, -, rfl⟩ := Option.map_eq_some_iff.mp hx
  obtain ⟨q, -, rfl⟩ := Option.map_eq_some_iff.mp hy
  exact h

/-! Stamps. -/

theorem stampOf_allFree (n : Nat) (f : FrameNumber) : (allFree n).stampOf f = 0 := by
  rw [stampOf, info?, allFree, Vector.getElem?_replicate]
  split <;> rfl

theorem leastRecentlyUsed_first {t : FrameTable n} {v : FrameNumber}
    (h : t.leastRecentlyUsed = some v) {f : FrameNumber} {o : FrameOwner}
    (hf : t.owner? f = some (some o)) :
    t.stampOf v < t.stampOf f ∨ t.stampOf v = t.stampOf f ∧ v ≤ f := by
  obtain ⟨b, hb, rfl⟩ := Option.map_eq_some_iff.mp h
  obtain ⟨i, hi, ho⟩ := Option.map_eq_some_iff.mp hf
  have hm : (⟨f, o, i.referenced⟩ : OwnedFrame) ∈ t.owned := mem_owned.mpr (by rw [hi, ← ho])
  have hfirst := (foldl_older_precedes hb t.pairwise_owned nofun).2 _ hm
  rw [stampOf, mem_owned.mp (mem_of_foldl_older hb), stampOf, hi]
  exact hfirst

theorem leastRecentlyUsed_le {t : FrameTable n} {v : FrameNumber}
    (h : t.leastRecentlyUsed = some v) {f : FrameNumber} {o : FrameOwner}
    (hf : t.owner? f = some (some o)) : t.stampOf v ≤ t.stampOf f :=
  (leastRecentlyUsed_first h hf).elim Nat.le_of_lt fun h => Nat.le_of_eq h.1

theorem stampOf_change (t : FrameTable n) (f : FrameNumber) (c : FrameInfo → FrameInfo)
    (i : FrameNumber) :
    (t.change f c).stampOf i = if i = f then
      ((t.info? i).map fun r => (c r).referenced).getD 0 else t.stampOf i := by
  rw [stampOf, info?_change]
  split
  · rw [Option.map_map]
    rfl
  · rfl

theorem stampOf_released (t : FrameTable n) (f : FrameNumber) :
    (t.released f).stampOf = t.stampOf := by
  funext i
  change (t.change f fun i => { i with owner := none }).stampOf i = _
  rw [stampOf_change]
  split <;> rfl

theorem stampOf_assigned (t : FrameTable n) {f : Nat} (hf : f < n) (o : FrameOwner) (stamp : Nat)
    (i : FrameNumber) : (t.change f fun _ => ⟨some o, stamp⟩).stampOf i =
      if i = f then stamp else t.stampOf i := by
  rw [stampOf_change]
  split
  · next hif =>
    obtain ⟨_, ho⟩ := t.exists_owner? hf
    obtain ⟨r, hr, -⟩ := Option.map_eq_some_iff.mp ho
    rw [hif, hr]
    rfl
  · rfl

theorem stampOf_renew {t : FrameTable n} {f : FrameNumber} {o : FrameOwner}
    (hf : t.owner? f = some (some o)) (stamp : Nat) (i : FrameNumber) :
    (t.change f (renew stamp)).stampOf i = if i = f then stamp else t.stampOf i := by
  obtain ⟨r, hr, ho⟩ := Option.map_eq_some_iff.mp hf
  rw [stampOf_change]
  split
  · next hif => simp [hif, hr, renew, ho]
  · rfl

theorem stampOf_raise {t : FrameTable n} {f : FrameNumber} {o : FrameOwner}
    (hf : t.owner? f = some (some o)) (stamp : Nat) (i : FrameNumber) :
    (t.change f (raise stamp)).stampOf i =
      if i = f then max (t.stampOf f) stamp else t.stampOf i := by
  obtain ⟨r, hr, ho⟩ := Option.map_eq_some_iff.mp hf
  rw [stampOf_change]
  split
  · next hif => simp [hif, hr, raise, ho, stampOf]
  · rfl

end FrameTable

end DemandPaging
