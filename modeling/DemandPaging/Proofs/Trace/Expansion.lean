import DemandPaging.Trace.Expansion
import Mathlib.Data.List.Forall2
/-!
A trace is what the tag `ROOT` stands for, in full, or there is none. What a tag stands for is said
here without regard to depth and length, so that it is defined only for tags that do not lead back
to themselves; the bounds are conditions of their own.
-/

namespace DemandPaging

theorem Text.lt_wordBound_of_integer? {v : String} {n : Nat} (h : integer? v = some (n : Int)) :
    n < wordBound := by
  unfold integer? at h
  split at h
  next negative rest hsign =>
    split at h
    next radix digits hradix =>
      obtain ⟨m, hm, hsigned⟩ := Option.map_eq_some_iff.mp h
      have hle := of_decide_eq_true (Option.filter_eq_some_iff.mp hm).2
      have hbound : maxMagnitude < wordBound := by decide
      unfold applySign at hsigned
      split at hsigned <;> omega

theorem Text.naturalBelow?_eq_some {bound n : Nat} {v : String} :
    naturalBelow? bound v = some n ↔ integer? v = some (n : Int) ∧ n < bound := by
  unfold naturalBelow?
  rcases integer? v with _ | (m | m)
  · simp
  · simp only [Option.ite_none_right_eq_some, Option.some.injEq, Int.ofNat_eq_natCast,
      Int.natCast_inj]
    constructor
    · rintro ⟨hlt, rfl⟩
      exact ⟨rfl, hlt⟩
    · rintro ⟨rfl, hlt⟩
      exact ⟨hlt, rfl⟩
  · simp

theorem Properties.get?_empty (key : String) : ({} : Properties).get? key = none :=
  Std.HashMap.getElem?_empty

namespace Trace

variable {p : Properties} {source : String}

/-- What counts of a sequence: the parts between semicolons, without the blanks around them, that
are not empty and stand before the first one with a hash in front. -/
def counted (sequence : String) : List (List Char) :=
  (((sequence.toList.splitOn ';').map Text.trimChars).filter fun e => e ≠ []).takeWhile
    fun e => e.head? ≠ some '#'

/-- A tag asks for so many repetitions of its sequence, for one if it does not say. -/
def Times (p : Properties) (tag : String) (n : Nat) : Prop :=
  match p.get? (tag ++ ".REPS") with
  | none => n = 1
  | some v => Text.integer? v = some (n : Int)

mutual

inductive Expands (p : Properties) : String → List String → Prop where
  | never {tag sequence : String} (hseq : p.get? (tag ++ ".TR") = some sequence)
      (hn : Times p tag 0) : Expands p tag []
  | times {tag sequence : String} {n : Nat} {pieces : List (List String)}
      (hseq : p.get? (tag ++ ".TR") = some sequence) (hn : Times p tag n) (hpos : 0 < n)
      (hpieces : List.Forall₂ (Yields p) (counted sequence) pieces) :
      Expands p tag (List.replicate n pieces.flatten).flatten

inductive Yields (p : Properties) : List Char → List String → Prop where
  | text {e : List Char} (he : e.head? ≠ some '_') : Yields p e [String.ofList e]
  | reference {e : List Char} {out : List String} (he : e.head? = some '_')
      (hout : Expands p (String.ofList e) out) : Yields p e out

end

/-- A tag that is repeated at all refers to another. -/
def Visits (p : Properties) (tag tag' : String) : Prop :=
  ∃ sequence n, p.get? (tag ++ ".TR") = some sequence ∧ Times p tag n ∧ 0 < n ∧
    ∃ e ∈ counted sequence, e.head? = some '_' ∧ String.ofList e = tag'

/-- A tag is reached from another through so many references. -/
inductive Nested (p : Properties) : Nat → String → String → Prop where
  | here {tag : String} : Nested p 0 tag tag
  | deeper {depth : Nat} {tag mid tag' : String} (hv : Visits p tag mid)
      (hn : Nested p depth mid tag') : Nested p (depth + 1) tag tag'

/-- A tag has a sequence, and its repetitions, if it gives any, are a natural number. -/
def Readable (p : Properties) (tag : String) : Prop :=
  (∃ sequence, p.get? (tag ++ ".TR") = some sequence) ∧ ∃ n, Times p tag n

/-- What the tag `ROOT` stands for, within the bounds. -/
structure Expandable (p : Properties) (out : List String) : Prop where
  readable : ∀ depth tag, Nested p depth "ROOT" tag → Readable p tag
  depth : ∀ depth tag, Nested p depth "ROOT" tag → depth ≤ 64
  expands : Expands p "ROOT" out
  length : out.length ≤ 1 <<< 20

/-- All tags that are reached can be read, through fewer references than `levels`. -/
def Grounded (p : Properties) (levels : Nat) (tag : String) : Prop :=
  ∀ depth tag', Nested p depth tag tag' → depth < levels ∧ Readable p tag'

theorem cutElements_eq_splitOn (cs : List Char) : cutElements cs = cs.splitOn ';' := by
  induction cs with
  | nil => rfl
  | cons c cs ih =>
    obtain ⟨e, es, he⟩ := List.exists_cons_of_ne_nil (List.splitOn_ne_nil ';' cs)
    rw [cutElements, List.foldr_cons, ← cutElements, ih, List.splitOn_cons_eq_if_modifyHead, he]
    simp [consElement]

theorem elements_eq_counted (sequence : String) : elements sequence = counted sequence := by
  unfold elements counted
  rw [cutElements_eq_splitOn]
  congr 2
  ext e
  cases e <;> rfl

theorem reps_eq_ok {tag : String} {n : Nat} : reps p source tag = .ok n ↔ Times p tag n := by
  unfold reps Times
  cases p.get? (tag ++ ".REPS") with
  | none => simp [eq_comm]
  | some v =>
    simp only
    cases hv : Text.naturalBelow? wordBound v with
    | none =>
      constructor
      · simp
      · intro hn
        have := Text.naturalBelow?_eq_some.mpr ⟨hn, Text.lt_wordBound_of_integer? hn⟩
        simp [this] at hv
    | some m =>
      have hm := (Text.naturalBelow?_eq_some.mp hv).1
      simp only [Except.ok.injEq, hm, Option.some.injEq, Int.natCast_inj]

theorem Times.unique {tag : String} {n m : Nat} (hn : Times p tag n) (hm : Times p tag m) :
    n = m := by
  unfold Times at hn hm
  cases hget : p.get? (tag ++ ".REPS") with
  | none =>
    rw [hget] at hn hm
    exact hn.trans hm.symm
  | some v =>
    rw [hget] at hn hm
    exact Int.natCast_inj.mp (Option.some.inj (hn.symm.trans hm))

theorem toList_repeated (n : Nat) (body : Array String) :
    (repeated n body).toList = (List.replicate n body.toList).flatten := by
  induction n with
  | zero => simp [repeated]
  | succ n ih =>
    have hsplit : repeated (n + 1) body = body ++ repeated n body := by
      apply Array.ext
      · rw [Array.size_append, size_repeated, size_repeated, Nat.succ_mul, Nat.add_comm]
      · intro i hi hi'
        simp only [repeated, Array.getElem_ofFn, Array.getElem_append]
        split
        next hlt => simp only [Nat.mod_eq_of_lt hlt]
        next hge => simp only [Nat.mod_eq_sub_mod (Nat.le_of_not_lt hge)]
    rw [hsplit, Array.toList_append, ih, List.replicate_succ, List.flatten_cons]

theorem repeatWithin_eq_ok {room n : Nat} {body out : Array String} :
    repeatWithin source room n body = .ok out ↔
      out.toList = (List.replicate n body.toList).flatten ∧ out.size ≤ room := by
  have hsize := size_repeated n body
  rw [← toList_repeated, Array.toList_inj, repeatWithin]
  constructor
  · intro h
    split at h
    next hle =>
      obtain rfl := Except.ok.inj h
      exact ⟨rfl, hsize ▸ hle⟩
    · simp at h
  · rintro ⟨rfl, hle⟩
    rw [if_pos (hsize ▸ hle)]

/-! Tags that can be read, not too deep. -/

theorem not_grounded_zero {tag : String} : ¬Grounded p 0 tag := fun h =>
  Nat.not_lt_zero _ (h 0 tag .here).1

theorem Grounded.readable {levels : Nat} {tag : String} (h : Grounded p levels tag) :
    Readable p tag := (h 0 tag .here).2

theorem grounded_succ_iff {levels : Nat} {tag : String} : Grounded p (levels + 1) tag ↔
    Readable p tag ∧ ∀ tag', Visits p tag tag' → Grounded p levels tag' := by
  constructor
  · intro h
    refine ⟨h.readable, fun tag' hv depth tag'' hn => ?_⟩
    obtain ⟨hlt, hr⟩ := h _ _ (.deeper hv hn)
    exact ⟨Nat.lt_of_succ_lt_succ hlt, hr⟩
  · rintro ⟨hr, hv⟩ depth tag' hn
    cases hn with
    | here => exact ⟨Nat.zero_lt_succ levels, hr⟩
    | deeper hvis hn =>
      obtain ⟨hlt, hr'⟩ := hv _ hvis _ _ hn
      exact ⟨Nat.succ_lt_succ hlt, hr'⟩

section Read

variable {levels n : Nat} {tag sequence : String} (hseq : p.get? (tag ++ ".TR") = some sequence)

include hseq

theorem grounded_of_never (hn : Times p tag 0) : Grounded p (levels + 1) tag := by
  apply grounded_succ_iff.mpr
  refine ⟨⟨⟨sequence, hseq⟩, 0, hn⟩, ?_⟩
  rintro tag' ⟨-, m, -, hm, hpos, -⟩
  obtain rfl := hn.unique hm
  exact absurd hpos (Nat.lt_irrefl 0)

theorem grounded_of_times (hn : Times p tag n) (hpos : 0 < n) : Grounded p (levels + 1) tag ↔
    ∀ e ∈ counted sequence, e.head? = some '_' → Grounded p levels (String.ofList e) := by
  rw [grounded_succ_iff]
  constructor
  · rintro ⟨-, hv⟩ e he href
    exact hv _ ⟨sequence, n, hseq, hn, hpos, e, he, href, rfl⟩
  · intro h
    refine ⟨⟨⟨sequence, hseq⟩, n, hn⟩, ?_⟩
    rintro tag' ⟨sequence', -, hseq', -, -, e, he, href, rfl⟩
    obtain rfl := Option.some.inj (hseq.symm.trans hseq')
    exact h e he href

theorem expands_of_never (hn : Times p tag 0) {out : List String} :
    Expands p tag out ↔ out = [] := by
  constructor
  · intro h
    cases h with
    | never => rfl
    | times _ hm hpos =>
      obtain rfl := hn.unique hm
      exact absurd hpos (Nat.lt_irrefl 0)
  · rintro rfl
    exact .never hseq hn

theorem expands_of_times (hn : Times p tag n) (hpos : 0 < n) {out : List String} :
    Expands p tag out ↔ ∃ pieces, List.Forall₂ (Yields p) (counted sequence) pieces ∧
      out = (List.replicate n pieces.flatten).flatten := by
  constructor
  · intro h
    cases h with
    | never _ hm =>
      obtain rfl := hn.unique hm
      exact absurd hpos (Nat.lt_irrefl 0)
    | times hseq' hm _ hpieces =>
      obtain rfl := hn.unique hm
      obtain rfl := Option.some.inj (hseq.symm.trans hseq')
      exact ⟨_, hpieces, rfl⟩
  · rintro ⟨pieces, hpieces, rfl⟩
    exact .times hseq hn hpos hpieces

end Read

/-! Running through a sequence. -/

def expandElement (p : Properties) (source : String) (levels room : Nat) (out : Array String)
    (e : List Char) : Expanded := do
  let left := room - out.size
  let text := String.ofList e
  let piece ←
    if isReference e then expandTag p source levels left text
    else repeatWithin source left 1 #[text]
  return out ++ piece

theorem expandTag_succ {levels room : Nat} {tag : String} :
    expandTag p source (levels + 1) room tag =
      match p.get? (tag ++ ".TR") with
      | none => .error (.missingTag source tag)
      | some sequence =>
        match reps p source tag with
        | .error e => .error e
        | .ok 0 => .ok #[]
        | .ok n => (elements sequence).foldlM (expandElement p source levels room) #[] >>=
          repeatWithin source room n := rfl

theorem bind_eq_ok {ε α β : Type} {x : Except ε α} {f : α → Except ε β} {b : β} :
    (x >>= f) = .ok b ↔ ∃ a, x = .ok a ∧ f a = .ok b := by
  cases x with
  | error e => simp [bind, Except.bind]
  | ok a => simp [bind, Except.bind]

/-- The tags below a level expand to what they stand for, if that is within the bounds. -/
def Exact (p : Properties) (source : String) (levels : Nat) : Prop :=
  ∀ room tag out, expandTag p source levels room tag = .ok out ↔
    Grounded p levels tag ∧ Expands p tag out.toList ∧ out.size ≤ room

variable {levels room : Nat}

theorem yields_of_reference {e : List Char} (he : e.head? = some '_') {out : List String} :
    Yields p e out ↔ Expands p (String.ofList e) out := by
  constructor
  · intro h
    cases h with
    | text hne => exact absurd he hne
    | reference _ hout => exact hout
  · exact .reference he

theorem yields_of_text {e : List Char} (he : e.head? ≠ some '_') {out : List String} :
    Yields p e out ↔ out = [String.ofList e] := by
  constructor
  · intro h
    cases h with
    | text => rfl
    | reference href => exact absurd href he
  · rintro rfl
    exact .text he

theorem Exact.piece (h : Exact p source levels) {e : List Char} {piece : Array String} :
    (if isReference e then expandTag p source levels room (String.ofList e)
      else repeatWithin source room 1 #[String.ofList e]) = .ok piece ↔
    (e.head? = some '_' → Grounded p levels (String.ofList e)) ∧ Yields p e piece.toList ∧
      piece.size ≤ room := by
  by_cases he : e.head? = some '_'
  · rw [isReference, if_pos (decide_eq_true he), h, yields_of_reference he, forall_prop_of_true he]
  · rw [isReference, if_neg (by simpa using he), repeatWithin_eq_ok, yields_of_text he,
      forall_prop_of_false he, true_and, List.replicate_one, List.flatten_singleton]

theorem expandElement_eq_bind {e : List Char} {out : Array String} :
    expandElement p source levels room out e =
      (if isReference e then expandTag p source levels (room - out.size) (String.ofList e)
        else repeatWithin source (room - out.size) 1 #[String.ofList e]) >>=
      fun piece => .ok (out ++ piece) := by
  unfold expandElement
  split <;> rfl

theorem Exact.expandElement (h : Exact p source levels) {e : List Char} {out out' : Array String}
    (hout : out.size ≤ room) : expandElement p source levels room out e = .ok out' ↔
      (e.head? = some '_' → Grounded p levels (String.ofList e)) ∧ out'.size ≤ room ∧
        ∃ piece, Yields p e piece ∧ out'.toList = out.toList ++ piece := by
  rw [expandElement_eq_bind, bind_eq_ok]
  constructor
  · rintro ⟨piece, hpiece, hap⟩
    obtain ⟨hg, hy, hsize⟩ := h.piece.mp hpiece
    obtain rfl := Except.ok.inj hap
    refine ⟨hg, ?_, piece.toList, hy, Array.toList_append⟩
    rw [Array.size_append]
    omega
  · rintro ⟨hg, hsize, piece, hy, heq⟩
    have hlen : out'.size = out.size + piece.length := by
      rw [← Array.length_toList, heq, List.length_append, Array.length_toList]
    refine ⟨piece.toArray, h.piece.mpr ⟨hg, hy, ?_⟩, ?_⟩
    · rw [List.size_toArray]
      omega
    · apply congrArg Except.ok
      apply Array.toList_inj.mp
      rw [Array.toList_append, heq]

/-- What a sequence of elements is expanded to is what each stands for, one after another. -/
theorem Exact.expandElements (h : Exact p source levels) {es : List (List Char)}
    {out out' : Array String} (hout : out.size ≤ room) :
    es.foldlM (Trace.expandElement p source levels room) out = .ok out' ↔
      (∀ e ∈ es, e.head? = some '_' → Grounded p levels (String.ofList e)) ∧ out'.size ≤ room ∧
        ∃ pieces, List.Forall₂ (Yields p) es pieces ∧
          out'.toList = out.toList ++ pieces.flatten := by
  induction es generalizing out with
  | nil =>
    rw [List.foldlM_nil]
    constructor
    · intro heq
      obtain rfl := Except.ok.inj heq
      exact ⟨nofun, hout, [], .nil, (List.append_nil _).symm⟩
    · rintro ⟨-, -, pieces, hpieces, heq⟩
      cases hpieces
      rw [List.flatten_nil, List.append_nil, Array.toList_inj] at heq
      exact congrArg Except.ok heq.symm
  | cons e es ih =>
    rw [List.foldlM_cons, bind_eq_ok]
    constructor
    · rintro ⟨mid, he, hes⟩
      obtain ⟨hg, hmid, piece, hy, heq⟩ := (h.expandElement hout).mp he
      obtain ⟨hgs, hsize, pieces, hys, heqs⟩ := (ih hmid).mp hes
      refine ⟨List.forall_mem_cons.mpr ⟨hg, hgs⟩, hsize, piece :: pieces, .cons hy hys, ?_⟩
      rw [heqs, heq, List.flatten_cons, List.append_assoc]
    · rintro ⟨hgs, hsize, pieces, hpieces, heq⟩
      obtain ⟨hg, hgs⟩ := List.forall_mem_cons.mp hgs
      cases hpieces with
      | @cons _ piece _ pieces hy hys =>
        rw [List.flatten_cons, ← List.append_assoc] at heq
        have hmid : (out.toList ++ piece).toArray.size ≤ room := by
          have hlen := congrArg List.length heq
          rw [List.length_append, Array.length_toList] at hlen
          rw [List.size_toArray]
          omega
        exact ⟨_, (h.expandElement hout).mpr ⟨hg, hmid, piece, hy, rfl⟩,
          (ih hmid).mpr ⟨hgs, hsize, pieces, hys, heq⟩⟩

theorem Exact.sequence (h : Exact p source levels) {es : List (List Char)} {n : Nat}
    {out : Array String} :
    es.foldlM (Trace.expandElement p source levels room) #[] >>=
        repeatWithin source room (n + 1) = .ok out ↔
      (∀ e ∈ es, e.head? = some '_' → Grounded p levels (String.ofList e)) ∧
        (∃ pieces, List.Forall₂ (Yields p) es pieces ∧
          out.toList = (List.replicate (n + 1) pieces.flatten).flatten) ∧ out.size ≤ room := by
  rw [bind_eq_ok]
  constructor
  · rintro ⟨body, hbody, hrep⟩
    obtain ⟨hg, -, pieces, hpieces, heq⟩ := (h.expandElements (Nat.zero_le room)).mp hbody
    obtain ⟨hout, hsize⟩ := repeatWithin_eq_ok.mp hrep
    rw [heq, List.nil_append] at hout
    exact ⟨hg, ⟨pieces, hpieces, hout⟩, hsize⟩
  · rintro ⟨hg, ⟨pieces, hpieces, hout⟩, hsize⟩
    have hbody : pieces.flatten.length ≤ room := by
      have hlen := congrArg List.length hout
      rw [Array.length_toList, List.replicate_succ, List.flatten_cons, List.length_append] at hlen
      omega
    exact ⟨pieces.flatten.toArray,
      (h.expandElements (Nat.zero_le room)).mpr ⟨hg, hbody, pieces, hpieces, rfl⟩,
      repeatWithin_eq_ok.mpr ⟨hout, hsize⟩⟩

theorem Exact.succ (h : Exact p source levels) : Exact p source (levels + 1) := by
  intro room tag out
  rw [expandTag_succ]
  cases hseq : p.get? (tag ++ ".TR") with
  | none =>
    refine ⟨nofun, fun hout => ?_⟩
    obtain ⟨sequence, hs⟩ := hout.1.readable.1
    simp [hseq] at hs
  | some sequence =>
    cases hreps : reps p source tag with
    | error e =>
      refine ⟨by simp, fun hout => ?_⟩
      obtain ⟨n, hn⟩ := hout.1.readable.2
      simp [reps_eq_ok.mpr hn] at hreps
    | ok n =>
      have hn := reps_eq_ok.mp hreps
      cases n with
      | zero =>
        rw [expands_of_never hseq hn]
        constructor
        · intro heq
          obtain rfl := Except.ok.inj heq
          exact ⟨grounded_of_never hseq hn, rfl, Nat.zero_le room⟩
        · rintro ⟨-, heq, -⟩
          obtain rfl := Array.toList_eq_nil_iff.mp heq
          rfl
      | succ n =>
        rw [grounded_of_times hseq hn n.succ_pos, expands_of_times hseq hn n.succ_pos,
          ← elements_eq_counted]
        exact h.sequence

theorem exact_expandTag (p : Properties) (source : String) (levels : Nat) :
    Exact p source levels := by
  induction levels with
  | zero => exact fun room tag out => ⟨nofun, fun hout => absurd hout.1 not_grounded_zero⟩
  | succ levels ih => exact ih.succ

/-! What a tag stands for, where it is defined. -/

theorem exists_forall₂ {α β : Type} {r : α → β → Prop} {l : List α} (h : ∀ a ∈ l, ∃ b, r a b) :
    ∃ l', List.Forall₂ r l l' := by
  induction l with
  | nil => exact ⟨[], .nil⟩
  | cons a l ih =>
    obtain ⟨⟨b, hb⟩, hl⟩ := List.forall_mem_cons.mp h
    obtain ⟨l', hl'⟩ := ih hl
    exact ⟨b :: l', .cons hb hl'⟩

theorem Grounded.exists_expands {tag : String} (h : Grounded p levels tag) :
    ∃ out, Expands p tag out := by
  induction levels generalizing tag with
  | zero => exact absurd h not_grounded_zero
  | succ levels ih =>
    obtain ⟨⟨sequence, hseq⟩, n, hn⟩ := h.readable
    rcases Nat.eq_zero_or_pos n with rfl | hpos
    · exact ⟨[], .never hseq hn⟩
    · have hg := (grounded_of_times hseq hn hpos).mp h
      have hyields : ∀ e ∈ counted sequence, ∃ piece, Yields p e piece := by
        intro e he
        by_cases href : e.head? = some '_'
        · obtain ⟨out, hout⟩ := ih (hg e he href)
          exact ⟨out, .reference href hout⟩
        · exact ⟨_, .text href⟩
      obtain ⟨pieces, hpieces⟩ := exists_forall₂ hyields
      exact ⟨_, .times hseq hn hpos hpieces⟩

theorem Grounded.unique {tag : String} (h : Grounded p levels tag) {out out' : List String}
    (hout : Expands p tag out) (hout' : Expands p tag out') : out = out' := by
  have hleft := (exact_expandTag p "" levels (out.length + out'.length) tag out.toArray).mpr
    ⟨h, hout, Nat.le_add_right ..⟩
  have hright := (exact_expandTag p "" levels (out.length + out'.length) tag out'.toArray).mpr
    ⟨h, hout', Nat.le_add_left ..⟩
  exact congrArg Array.toList (Except.ok.inj (hleft.symm.trans hright))

theorem Nested.trans {depth depth' : Nat} {tag mid tag' : String} (h : Nested p depth tag mid)
    (h' : Nested p depth' mid tag') : Nested p (depth + depth') tag tag' := by
  induction h with
  | here => rwa [Nat.zero_add]
  | deeper hv _ ih =>
    rw [Nat.add_right_comm]
    exact .deeper hv (ih h')

theorem Nested.round {depth circle : Nat} {tag tag' : String} (h : Nested p depth tag tag')
    (hround : Nested p circle tag' tag') (rounds : Nat) :
    Nested p (depth + rounds * circle) tag tag' := by
  induction rounds with
  | zero => simpa using h
  | succ rounds ih =>
    rw [Nat.succ_mul, ← Nat.add_assoc]
    exact ih.trans hround

theorem grounded_iff : Grounded p (maxDepth + 1) "ROOT" ↔
    (∀ depth tag, Nested p depth "ROOT" tag → Readable p tag) ∧
      ∀ depth tag, Nested p depth "ROOT" tag → depth ≤ 64 := by
  constructor
  · intro h
    exact ⟨fun depth tag hn => (h depth tag hn).2,
      fun depth tag hn => Nat.le_of_lt_succ (h depth tag hn).1⟩
  · rintro ⟨hr, hd⟩ depth tag hn
    exact ⟨Nat.lt_succ_of_le (hd depth tag hn), hr depth tag hn⟩

theorem ofProperties_eq_ok {t : Trace} :
    ofProperties p source = .ok t ↔ Expandable p t.instructions.toList := by
  have hok : ofProperties p source = .ok t ↔
      expandTag p source (maxDepth + 1) maxInstructions "ROOT" = .ok t.instructions := by
    unfold ofProperties
    cases expandTag p source (maxDepth + 1) maxInstructions "ROOT" with
    | error e => simp [Except.map]
    | ok out =>
      obtain ⟨instructions⟩ := t
      simp [Except.map]
  rw [hok, exact_expandTag p source (maxDepth + 1) maxInstructions "ROOT" t.instructions,
    grounded_iff]
  constructor
  · rintro ⟨⟨hr, hd⟩, hout, hsize⟩
    exact ⟨hr, hd, hout, hsize⟩
  · rintro ⟨hr, hd, hout, hsize⟩
    exact ⟨⟨hr, hd⟩, hout, hsize⟩

/-- There is a trace just if `ROOT` stands for one within the bounds, and it is that one. Within
the bounds on its tags, `ROOT` stands for one list of instructions only. Where `ROOT` leads to a tag
that leads back to itself, there is no trace. -/
theorem expansion_exact (p : Properties) (source : String) :
    (∀ t, ofProperties p source = .ok t ↔ Expandable p t.instructions.toList) ∧
    ((∀ out, ¬Expandable p out) → ∃ e, ofProperties p source = .error e) ∧
    ((∀ depth tag, Nested p depth "ROOT" tag → depth ≤ 64 ∧ Readable p tag) →
      ∃! out, Expands p "ROOT" out) ∧
    ∀ depth circle tag, Nested p depth "ROOT" tag → Nested p (circle + 1) tag tag →
      ∃ e, ofProperties p source = .error e := by
  have herror : (∀ out, ¬Expandable p out) → ∃ e, ofProperties p source = .error e := by
    intro h
    cases hp : ofProperties p source with
    | error e => exact ⟨e, rfl⟩
    | ok t => exact absurd (ofProperties_eq_ok.mp hp) (h _)
  refine ⟨fun t => ofProperties_eq_ok, herror, fun h => ?_, ?_⟩
  · have hg : Grounded p 65 "ROOT" := fun depth tag hn =>
      ⟨Nat.lt_succ_of_le (h depth tag hn).1, (h depth tag hn).2⟩
    obtain ⟨out, hout⟩ := hg.exists_expands
    exact ⟨out, hout, fun out' hout' => hg.unique hout' hout⟩
  · intro depth circle tag hn hround
    apply herror
    intro out hout
    have := hout.depth _ _ (hn.round hround 65)
    omega

theorem expansion_exact_loop_circle :
    let loop := ((({} : Properties).insert "ROOT.TR" "_loop; Syscall_Exit; # NoOp").insert
      "_loop.TR" " NoOp;").insert "_loop.REPS" "0x2"
    let circle := (({} : Properties).insert "ROOT.TR" "NoOp;_circle").insert "_circle.TR" "_circle"
    ofProperties loop "loop" = .ok ⟨#["NoOp", "NoOp", "Syscall_Exit"]⟩ ∧
      ∃ e, ofProperties circle "circle" = .error e := by
  intro loop circle
  have hc : counted "_loop; Syscall_Exit; # NoOp" = ["_loop".toList, "Syscall_Exit".toList] ∧
      counted " NoOp;" = ["NoOp".toList] ∧
      counted "NoOp;_circle" = ["NoOp".toList, "_circle".toList] ∧
      counted "_circle" = ["_circle".toList] := by decide +kernel
  obtain ⟨hcroot, hcloop, hccroot, hccircle⟩ := hc
  constructor
  · have hroot : loop.get? ("ROOT" ++ ".TR") = some "_loop; Syscall_Exit; # NoOp" := by
      simp [loop, Properties.get?_insert]
    have hloop : loop.get? ("_loop" ++ ".TR") = some " NoOp;" := by
      simp [loop, Properties.get?_insert]
    have hn : Times loop "ROOT" 1 := by
      simp [loop, Times, Properties.get?_insert,
        Properties.get?_empty]
    have hnloop : Times loop "_loop" 2 := by
      simp [loop, Times, Properties.get?_insert]
      decide +kernel
    have hg : Grounded loop (maxDepth + 1) "ROOT" := by
      rw [grounded_of_times hroot hn Nat.one_pos, hcroot]
      refine List.forall_mem_cons.mpr ⟨fun _ => ?_, List.forall_mem_singleton.mpr fun h =>
        absurd h (by decide +kernel)⟩
      rw [String.ofList_toList, maxDepth, grounded_of_times hloop hnloop Nat.two_pos, hcloop]
      exact List.forall_mem_singleton.mpr fun h => absurd h (by decide +kernel)
    have hexpands : Expands loop "ROOT" ["NoOp", "NoOp", "Syscall_Exit"] := by
      apply (expands_of_times hroot hn Nat.one_pos).mpr
      refine ⟨[["NoOp", "NoOp"], ["Syscall_Exit"]], ?_, rfl⟩
      rw [hcroot]
      refine .cons (.reference (by decide +kernel) ?_) (.cons (.text (by decide +kernel)) .nil)
      apply (expands_of_times hloop hnloop Nat.two_pos).mpr
      rw [hcloop]
      exact ⟨[["NoOp"]], .cons (.text (by decide +kernel)) .nil, rfl⟩
    obtain ⟨hreadable, hdepth⟩ := grounded_iff.mp hg
    exact ((expansion_exact loop "loop").1 _).mpr ⟨hreadable, hdepth, hexpands, by decide⟩
  · have hroot : circle.get? ("ROOT" ++ ".TR") = some "NoOp;_circle" := by
      simp [circle, Properties.get?_insert]
    have hcircle : circle.get? ("_circle" ++ ".TR") = some "_circle" := by
      simp [circle, Properties.get?_insert]
    have hn : Times circle "ROOT" 1 := by
      simp [circle, Times, Properties.get?_insert,
        Properties.get?_empty]
    have hncircle : Times circle "_circle" 1 := by
      simp [circle, Times, Properties.get?_insert,
        Properties.get?_empty]
    have hin : Visits circle "ROOT" "_circle" :=
      ⟨_, 1, hroot, hn, Nat.one_pos, "_circle".toList, by simp [hccroot], by decide +kernel, rfl⟩
    have hround : Visits circle "_circle" "_circle" :=
      ⟨_, 1, hcircle, hncircle, Nat.one_pos, "_circle".toList, by simp [hccircle],
        by decide +kernel, rfl⟩
    exact (expansion_exact circle "circle").2.2.2 1 0 "_circle" (.deeper hin .here)
      (.deeper hround .here)

end Trace

end DemandPaging
