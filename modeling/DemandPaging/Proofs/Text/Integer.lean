import DemandPaging.Proofs.Text
import Mathlib.Data.List.Forall2
import Mathlib.Data.Nat.Digits.Defs
import Mathlib.Tactic.Ring
/-!
The grammar of configuration integers. Blanks around it aside, an integer is a sign or none, then a
mark of a radix or none, then digits; it is read as the number that its digits denote, however many
of them there are. Texts that the grammar does not derive are refused.
-/

namespace DemandPaging.Text

/-- A digit of a radix; letters stand in either case. -/
def IsDigit (radix : Nat) (c : Char) (d : Nat) : Prop :=
  d < radix ∧ (c = Nat.digitChar d ∨ c = (Nat.digitChar d).toUpper)

/-- The number that a run of digits denotes, of which there is at least one. -/
def Denotes (radix : Nat) (cs : List Char) (n : Nat) : Prop :=
  cs ≠ [] ∧ ∃ ds, List.Forall₂ (IsDigit radix) cs ds ∧ Nat.ofDigits radix ds.reverse = n

def hexMarks : List (List Char) := [['0', 'x'], ['0', 'X'], ['#']]

inductive Magnitude : List Char → Nat → Prop
  | hex {mark cs n} (hmark : mark ∈ hexMarks) (h : Denotes 16 cs n) : Magnitude (mark ++ cs) n
  | octal {cs n} (h : Denotes 8 cs n) : Magnitude ('0' :: cs) n
  | zero : Magnitude ['0'] 0
  | decimal {c cs n} (hc : c ≠ '0') (h : Denotes 10 (c :: cs) n) : Magnitude (c :: cs) n

inductive Signed (cs : List Char) (n : Nat) : List Char → Int → Prop
  | bare : Signed cs n cs n
  | plus : Signed cs n ('+' :: cs) n
  | minus : Signed cs n ('-' :: cs) (-n)

def Writes (body : List Char) (v : Int) : Prop :=
  ∃ cs n, Signed cs n body v ∧ Magnitude cs n ∧ n ≤ 2 ^ 63 - 1

def Trimmed (cs body : List Char) : Prop :=
  ∃ front back, cs = front ++ (body ++ back) ∧ (∀ c ∈ front, isBlank c) ∧ (∀ c ∈ back, isBlank c) ∧
    (∀ c ∈ body.head?, isBlank c = false) ∧ ∀ c ∈ body.getLast?, isBlank c = false

/-! Blanks. -/

theorem trimStart_append {front : List Char} (h : ∀ c ∈ front, isBlank c) (cs : List Char) :
    trimStart (front ++ cs) = trimStart cs := List.dropWhile_append_of_pos h

theorem trimEnd_append_blanks {back : List Char} (h : ∀ c ∈ back, isBlank c) (cs : List Char) :
    trimEnd (cs ++ back) = trimEnd cs := by
  rw [trimEnd, List.reverse_append, List.dropWhile_append_of_pos, trimEnd]
  simpa using h

theorem trimStart_of_head? {cs : List Char} (h : ∀ c ∈ cs.head?, isBlank c = false) :
    trimStart cs = cs := by
  cases cs with
  | nil => rfl
  | cons c cs => exact trimStart_cons_of_not_isBlank (h c rfl) cs

theorem trimEnd_of_getLast? {cs : List Char} (h : ∀ c ∈ cs.getLast?, isBlank c = false) :
    trimEnd cs = cs := by
  rw [← List.head?_reverse] at h
  have hstart := trimStart_of_head? h
  rw [trimStart] at hstart
  rw [trimEnd, hstart, List.reverse_reverse]

theorem trimChars_of_trimmed {cs body : List Char} (h : Trimmed cs body) : trimChars cs = body := by
  obtain ⟨front, back, rfl, hfront, hback, hhead, hlast⟩ := h
  rw [trimChars, trimStart_append hfront]
  cases body with
  | nil =>
    have hall : trimStart back = [] := List.dropWhile_eq_nil_iff.mpr hback
    rw [List.nil_append, hall]
    rfl
  | cons c body =>
    rw [List.cons_append, trimStart_cons_of_not_isBlank (hhead c rfl), ← List.cons_append,
      trimEnd_append_blanks hback, trimEnd_of_getLast? hlast]

theorem trimmed_trimChars (cs : List Char) : Trimmed cs (trimChars cs) := by
  have hstart := List.takeWhile_append_dropWhile (p := isBlank) (l := cs)
  have hend := List.takeWhile_append_dropWhile (p := isBlank) (l := (trimStart cs).reverse)
  refine ⟨cs.takeWhile isBlank, ((trimStart cs).reverse.takeWhile isBlank).reverse, ?_,
    fun c hc => List.mem_takeWhile_imp hc, fun c hc => ?_, ?_, ?_⟩
  · have h := congrArg List.reverse hend
    rw [List.reverse_append, List.reverse_reverse] at h
    rw [trimChars, trimEnd, h, trimStart, hstart]
  · exact List.mem_takeWhile_imp (List.mem_reverse.mp hc)
  · rw [← trimStart_trimChars]
    intro c hc
    have := List.head?_dropWhile_not isBlank (trimChars cs)
    rw [← trimStart, hc] at this
    simpa using this
  · rw [← List.head?_reverse, trimChars, trimEnd, List.reverse_reverse]
    intro c hc
    have := List.head?_dropWhile_not isBlank (trimStart cs).reverse
    rw [hc] at this
    simpa using this

theorem trimmed_iff {cs body : List Char} : Trimmed cs body ↔ trimChars cs = body :=
  ⟨trimChars_of_trimmed, fun h => h ▸ trimmed_trimChars cs⟩

/-! Digits. -/

theorem toNat_digitChar : ∀ d < 16,
    (Nat.digitChar d).toNat = (if d < 10 then 48 + d else 87 + d) ∧
      (Nat.digitChar d).toUpper.toNat = if d < 10 then 48 + d else 55 + d := by
  decide +kernel

theorem digit?_eq_some_iff {radix d : Nat} {c : Char} (hradix : radix ≤ 16) :
    digit? radix c = some d ↔ IsDigit radix c d := by
  rw [digit?, Option.filter_eq_some_iff, IsDigit, decide_eq_true_iff, and_comm]
  refine and_congr_right fun hd => ?_
  obtain ⟨hlower, hupper⟩ := toNat_digitChar d (by omega)
  rw [← Char.toNat_inj, ← Char.toNat_inj, hlower, hupper]
  simp only [digitValue?, Char.le_def, UInt32.le_iff_toNat_le]
  change (if 48 ≤ c.toNat ∧ c.toNat ≤ 57 then some (c.toNat - 48)
    else if 97 ≤ c.toNat ∧ c.toNat ≤ 122 then some (c.toNat - 97 + 10)
    else if 65 ≤ c.toNat ∧ c.toNat ≤ 90 then some (c.toNat - 65 + 10) else none) = some d ↔ _
  split_ifs <;> simp only [Option.some.injEq, false_iff] <;> omega

theorem digitsFrom?_eq_some_iff {radix : Nat} (hradix : radix ≤ 16) {cs : List Char}
    {value n : Nat} : digitsFrom? radix value cs = some n ↔
      ∃ ds, List.Forall₂ (IsDigit radix) cs ds ∧
        value * radix ^ cs.length + Nat.ofDigits radix ds.reverse = n := by
  induction cs generalizing value with
  | nil => simp [digitsFrom?, List.forall₂_nil_left_iff]
  | cons c cs ih =>
    have hsum (d : Nat) {ds : List Nat} (hds : List.Forall₂ (IsDigit radix) cs ds) :
        value * radix ^ (c :: cs).length + Nat.ofDigits radix (d :: ds).reverse =
          (value * radix + d) * radix ^ cs.length + Nat.ofDigits radix ds.reverse := by
      rw [List.reverse_cons, Nat.ofDigits_append, Nat.ofDigits_singleton, List.length_reverse,
        ← hds.length_eq, List.length_cons]
      ring
    rw [digitsFrom?]
    cases hc : digit? radix c with
    | none =>
      refine iff_of_false (Option.some_ne_none n).symm ?_
      rintro ⟨_, hds, -⟩
      cases hds with
      | cons hd _ =>
        rw [(digit?_eq_some_iff hradix).mpr hd] at hc
        exact Option.some_ne_none _ hc
    | some d =>
      simp only [ih]
      constructor
      · rintro ⟨ds, hds, rfl⟩
        exact ⟨d :: ds, .cons ((digit?_eq_some_iff hradix).mp hc) hds, hsum d hds⟩
      · rintro ⟨_, hds, rfl⟩
        cases hds with
        | @cons _ e _ ds hd hds =>
          obtain rfl : d = e :=
            Option.some.inj (hc.symm.trans ((digit?_eq_some_iff hradix).mpr hd))
          exact ⟨ds, hds, (hsum d hds).symm⟩

theorem natural?_eq_some_iff {radix : Nat} (hradix : radix ≤ 16) {cs : List Char} {n : Nat} :
    natural? radix cs = some n ↔ Denotes radix cs n := by
  cases cs with
  | nil => simp [natural?, Denotes]
  | cons c cs =>
    rw [natural?, digitsFrom?_eq_some_iff hradix, Denotes]
    · simp
    · simp

theorem IsDigit.plain {radix d : Nat} {c : Char} (hradix : radix ≤ 16) (h : IsDigit radix c d) :
    c ∉ ['x', 'X', '#', '+', '-'] ∧ isBlank c = false := by
  have hlower : ∀ d < 16, Nat.digitChar d ∉ ['x', 'X', '#', '+', '-'] ∧
      isBlank (Nat.digitChar d) = false := by decide +kernel
  have hupper : ∀ d < 16, (Nat.digitChar d).toUpper ∉ ['x', 'X', '#', '+', '-'] ∧
      isBlank (Nat.digitChar d).toUpper = false := by decide +kernel
  have hlt : d < 16 := Nat.lt_of_lt_of_le h.1 hradix
  rcases h.2 with rfl | rfl
  · exact hlower d hlt
  · exact hupper d hlt

theorem Denotes.plain {radix n : Nat} {cs : List Char} (hradix : radix ≤ 16)
    (h : Denotes radix cs n) : ∀ c ∈ cs, c ∉ ['x', 'X', '#', '+', '-'] ∧ isBlank c = false := by
  obtain ⟨-, ds, hds, -⟩ := h
  induction hds with
  | nil => simp
  | cons hd _ ih => exact List.forall_mem_cons.mpr ⟨hd.plain hradix, ih⟩

/-! Magnitudes. -/

theorem Magnitude.plain {cs : List Char} {n : Nat} (h : Magnitude cs n) :
    ∀ c ∈ cs, c ≠ '+' ∧ c ≠ '-' ∧ isBlank c = false := by
  have hdigits {radix : Nat} (hradix : radix ≤ 16) {cs : List Char} (h : Denotes radix cs n) :
      ∀ c ∈ cs, c ≠ '+' ∧ c ≠ '-' ∧ isBlank c = false := by
    intro c hc
    obtain ⟨hplain, hb⟩ := h.plain hradix c hc
    simp only [List.mem_cons, not_or] at hplain
    exact ⟨hplain.2.2.2.1, hplain.2.2.2.2.1, hb⟩
  cases h with
  | hex hmark h =>
    have hmarks : ∀ mark ∈ hexMarks, ∀ c ∈ mark, c ≠ '+' ∧ c ≠ '-' ∧ isBlank c = false := by
      simp [hexMarks, isBlank]
    exact List.forall_mem_append.mpr ⟨hmarks _ hmark, hdigits (by decide) h⟩
  | octal h => exact List.forall_mem_cons.mpr ⟨by decide, hdigits (by decide) h⟩
  | zero => simp [isBlank]
  | decimal _ h => exact hdigits (by decide) h

theorem magnitude_iff {cs : List Char} {n : Nat} :
    Magnitude cs n ↔ natural? (cutRadix cs).1 (cutRadix cs).2 = some n := by
  constructor
  · intro h
    cases h with
    | @hex mark cs _ hmark h =>
      have hcut : cutRadix (mark ++ cs) = (16, cs) := by
        simp only [hexMarks, List.mem_cons, List.not_mem_nil, or_false] at hmark
        rcases hmark with rfl | rfl | rfl <;> rfl
      rw [hcut]
      exact (natural?_eq_some_iff (show 16 ≤ 16 by decide)).mpr h
    | @octal cs _ h =>
      obtain ⟨c, rest, rfl⟩ := List.exists_cons_of_ne_nil h.1
      have hc := (h.plain (by decide) c List.mem_cons_self).1
      have hcut : cutRadix ('0' :: c :: rest) = (8, c :: rest) := by
        simp only [List.mem_cons, not_or] at hc
        simp [cutRadix, hc]
      rw [hcut]
      exact (natural?_eq_some_iff (show 8 ≤ 16 by decide)).mpr h
    | zero => decide
    | @decimal c rest _ hzero h =>
      have hc := (h.plain (by decide) c List.mem_cons_self).1
      have hcut : cutRadix (c :: rest) = (10, c :: rest) := by
        simp only [List.mem_cons, not_or] at hc
        simp [cutRadix, hc, hzero]
      rw [hcut]
      exact (natural?_eq_some_iff (show 10 ≤ 16 by decide)).mpr h
  · intro h
    unfold cutRadix at h
    split at h
    · exact .hex (show ['0', 'x'] ∈ hexMarks by decide) ((natural?_eq_some_iff (by decide)).mp h)
    · exact .hex (show ['0', 'X'] ∈ hexMarks by decide) ((natural?_eq_some_iff (by decide)).mp h)
    · exact .hex (show ['#'] ∈ hexMarks by decide) ((natural?_eq_some_iff (by decide)).mp h)
    · exact .octal ((natural?_eq_some_iff (by decide)).mp h)
    · next hx hX hmark hoctal =>
      have hd := (natural?_eq_some_iff (show 10 ≤ 16 by decide)).mp h
      obtain ⟨c, rest, rfl⟩ := List.exists_cons_of_ne_nil hd.1
      by_cases hc : c = '0'
      · subst hc
        cases rest with
        | nil =>
          obtain rfl : 0 = n := Option.some.inj h
          exact .zero
        | cons d rest => exact absurd rfl (hoctal d rest)
      · exact .decimal hc hd

theorem Magnitude.unique {cs : List Char} {m n : Nat} (hm : Magnitude cs m) (hn : Magnitude cs n) :
    m = n := Option.some.inj ((magnitude_iff.mp hm).symm.trans (magnitude_iff.mp hn))

theorem Magnitude.cutSign {cs : List Char} {n : Nat} (h : Magnitude cs n) :
    cutSign cs = (false, cs) := by
  cases cs with
  | nil => rfl
  | cons c cs =>
    obtain ⟨hplus, hminus, -⟩ := h.plain c List.mem_cons_self
    simp [Text.cutSign, hplus, hminus]

/-! Integers. -/

theorem signed_cutSign (body : List Char) (n : Nat) :
    Signed (cutSign body).2 n body (applySign (cutSign body).1 n) := by
  unfold cutSign
  split
  · exact .minus
  · exact .plus
  · exact .bare

theorem Signed.cutSign {cs body : List Char} {n : Nat} {v : Int} (h : Signed cs n body v)
    (hm : Magnitude cs n) :
    ∃ negative, cutSign body = (negative, cs) ∧ applySign negative n = v := by
  cases h with
  | bare => exact ⟨false, hm.cutSign, rfl⟩
  | plus => exact ⟨false, rfl, rfl⟩
  | minus => exact ⟨true, rfl, rfl⟩

theorem writes_iff {body : List Char} {v : Int} : Writes body v ↔
    ((natural? (cutRadix (cutSign body).2).1 (cutRadix (cutSign body).2).2).filter
      (· ≤ maxMagnitude)).map (applySign (cutSign body).1) = some v := by
  simp only [Option.map_eq_some_iff, Option.filter_eq_some_iff, ← magnitude_iff, decide_eq_true_eq]
  constructor
  · rintro ⟨cs, n, hs, hm, hle⟩
    obtain ⟨negative, hcut, hv⟩ := hs.cutSign hm
    exact ⟨n, ⟨by rwa [hcut], hle⟩, by rwa [hcut]⟩
  · rintro ⟨n, ⟨hm, hle⟩, rfl⟩
    exact ⟨_, n, signed_cutSign body n, hm, hle⟩

theorem integer?_eq_some_iff {s : String} {v : Int} :
    integer? s = some v ↔ Writes (trimChars s.toList) v := writes_iff.symm

structure ReadsExactly (s : String) : Prop where
  reads : ∀ v, integer? s = some v ↔ ∃ body, Trimmed s.toList body ∧ Writes body v
  refuses : integer? s = none ↔ ∀ body v, Trimmed s.toList body → ¬ Writes body v
  inner : ∀ c body, Trimmed s.toList (c :: body) →
    (∃ x ∈ body, x = '+' ∨ x = '-' ∨ isBlank x = true) → integer? s = none
  bare : ∀ sign ∈ [[], ['+'], ['-']], ∀ mark ∈ [] :: hexMarks,
    Trimmed s.toList (sign ++ mark) → integer? s = none
  large : ∀ body cs n v, Trimmed s.toList body → Signed cs n body v → Magnitude cs n →
    2 ^ 63 - 1 < n → integer? s = none

theorem integer?_eq_none_iff {s : String} {body : List Char} (h : Trimmed s.toList body) :
    integer? s = none ↔ ∀ v, ¬ Writes body v := by
  rw [Option.eq_none_iff_forall_ne_some]
  simp only [ne_eq, integer?_eq_some_iff, trimmed_iff.mp h]

theorem Writes.inner {c : Char} {body : List Char} {v : Int} (h : Writes (c :: body) v) :
    ∀ x ∈ body, x ≠ '+' ∧ x ≠ '-' ∧ isBlank x = false := by
  obtain ⟨cs, n, hs, hm, -⟩ := h
  cases hs with
  | bare => exact fun x hx => hm.plain x (List.mem_cons_of_mem c hx)
  | plus | minus => exact hm.plain

/-- Of all texts exactly those that the grammar derives are read, as what they denote. -/
theorem reads_integers_exactly (s : String) : ReadsExactly s where
  reads v := by
    simp only [integer?_eq_some_iff, trimmed_iff, exists_eq_left']
  refuses := by
    simp only [Option.eq_none_iff_forall_ne_some, ne_eq, integer?_eq_some_iff, trimmed_iff]
    exact ⟨fun h body v hb => hb ▸ h v, fun h v => h _ v rfl⟩
  inner c body hbody hx := by
    obtain ⟨x, hmem, hx⟩ := hx
    refine (integer?_eq_none_iff hbody).mpr fun v hv => ?_
    obtain ⟨hplus, hminus, hblank⟩ := hv.inner x hmem
    simp [hplus, hminus, hblank] at hx
  bare sign hsign mark hmark hbody := by
    have hnone : ∀ sign ∈ [[], ['+'], ['-']], ∀ mark ∈ [] :: hexMarks,
        natural? (cutRadix (cutSign (sign ++ mark)).2).1
          (cutRadix (cutSign (sign ++ mark)).2).2 = none := by decide
    refine (integer?_eq_none_iff hbody).mpr fun v hv => ?_
    rw [writes_iff, hnone sign hsign mark hmark] at hv
    exact absurd hv nofun
  large body cs n v hbody hs hm hlt := by
    refine (integer?_eq_none_iff hbody).mpr ?_
    rintro u ⟨cs', k, hs', hm', hle⟩
    obtain ⟨_, hcut, -⟩ := hs.cutSign hm
    obtain ⟨_, hcut', -⟩ := hs'.cutSign hm'
    obtain ⟨-, rfl⟩ := Prod.mk.inj (hcut.symm.trans hcut')
    obtain rfl := hm.unique hm'
    omega

example : [" +017", "08", "-#fF ", "0x", "00", "1 2"].map integer? =
    [some 15, none, some (-255), none, some 0, none] := by decide

end DemandPaging.Text
