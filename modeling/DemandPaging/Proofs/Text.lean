import DemandPaging.Text.Integer
import Mathlib.Data.List.DropRight
import Mathlib.Data.List.TakeWhile
/-!
A number is read back from its digits, a trimmed text is not trimmed again, and a text is cut at its
first blank.
-/

namespace DemandPaging.Text

theorem digit_digitChar : ∀ d < 16, digitValue? (Nat.digitChar d) = some d ∧
    Nat.digitChar d ≠ '-' ∧ Nat.digitChar d ≠ '+' ∧ isBlank (Nat.digitChar d) = false := by
  decide +kernel

theorem digit?_digitChar {radix d : Nat} (hhex : radix ≤ 16) (hd : d < radix) :
    digit? radix (Nat.digitChar d) = some d := by
  rw [digit?, (digit_digitChar d (Nat.lt_of_lt_of_le hd hhex)).1]
  exact Option.filter_some_pos (decide_eq_true hd)

def numeral (radix : Nat) (n : Int) : List Char :=
  if n < 0 then '-' :: Nat.toDigits radix n.natAbs else Nat.toDigits radix n.natAbs

private theorem minus_append (cs : List Char) :
    "-" ++ String.ofList cs = String.ofList ('-' :: cs) := by
  rw [← String.toList_inj]
  simp

theorem signedDecimal_eq (n : Int) : signedDecimal n = String.ofList (numeral 10 n) := by
  unfold signedDecimal numeral decimal
  split
  · exact minus_append _
  · rfl

theorem signedHex_eq (n : Int) : signedHex n = String.ofList (numeral 16 n) := by
  unfold signedHex numeral hex
  split
  · exact minus_append _
  · rfl

theorem numeral_natCast (radix n : Nat) : numeral radix n = Nat.toDigits radix n := by
  rw [numeral, if_neg (by omega), Int.natAbs_natCast]

section Digits

variable {radix n : Nat} (hradix : 1 < radix) (hhex : radix ≤ 16)

include hradix hhex

theorem digitsFrom?_toDigits : digitsFrom? radix 0 (Nat.toDigits radix n) = some n := by
  induction n using Nat.strong_induction_on with
  | _ n ih =>
    rcases Nat.lt_or_ge n radix with hlt | hge
    · rw [Nat.toDigits_of_lt_base hlt, digitsFrom?, digit?_digitChar hhex hlt]
      simp [digitsFrom?]
    · have hmod := Nat.mod_lt n (Nat.zero_lt_of_lt hradix)
      rw [Nat.toDigits_of_base_le hradix hge, digitsFrom?_append,
        ih (n / radix) (Nat.div_lt_self (by omega) hradix), Option.bind_some, digitsFrom?,
        digit?_digitChar hhex hmod]
      exact congrArg some (Nat.div_add_mod' n radix)

theorem natural?_toDigits : natural? radix (Nat.toDigits radix n) = some n := by
  obtain ⟨c, cs, hcs⟩ := List.exists_cons_of_ne_nil (Nat.toDigits_ne_nil (n := n) (b := radix))
  rw [← digitsFrom?_toDigits hradix hhex (n := n), hcs]
  rfl

theorem exists_digit_of_mem_toDigits {c : Char} (hc : c ∈ Nat.toDigits radix n) :
    ∃ d < 16, c = Nat.digitChar d := by
  induction n using Nat.strong_induction_on with
  | _ n ih =>
    rcases Nat.lt_or_ge n radix with hlt | hge
    · rw [Nat.toDigits_of_lt_base hlt, List.mem_singleton] at hc
      exact ⟨n, by omega, hc⟩
    · rw [Nat.toDigits_of_base_le hradix hge, List.mem_append, List.mem_singleton] at hc
      rcases hc with hc | hc
      · exact ih (n / radix) (Nat.div_lt_self (by omega) hradix) hc
      · have hmod := Nat.mod_lt n (Nat.zero_lt_of_lt hradix)
        exact ⟨n % radix, by omega, hc⟩

theorem isBlank_of_mem_toDigits : ∀ c ∈ Nat.toDigits radix n, isBlank c = false := by
  intro c hc
  obtain ⟨d, hd, rfl⟩ := exists_digit_of_mem_toDigits hradix hhex hc
  exact (digit_digitChar d hd).2.2.2

theorem toDigits_eq_cons : ∃ c cs, Nat.toDigits radix n = c :: cs ∧ c ≠ '-' ∧ c ≠ '+' := by
  obtain ⟨c, cs, hcs⟩ := List.exists_cons_of_ne_nil (Nat.toDigits_ne_nil (n := n) (b := radix))
  have hc : c ∈ Nat.toDigits radix n := by
    rw [hcs]
    exact List.mem_cons_self
  obtain ⟨d, hd, rfl⟩ := exists_digit_of_mem_toDigits hradix hhex hc
  exact ⟨_, cs, hcs, (digit_digitChar d hd).2.1, (digit_digitChar d hd).2.2.1⟩

theorem unsigned?_toDigits : unsigned? radix (Nat.toDigits radix n) = some n := by
  obtain ⟨c, cs, hcs, -, hplus⟩ := toDigits_eq_cons hradix hhex (n := n)
  rw [← natural?_toDigits hradix hhex (n := n), hcs]
  simp [unsigned?, hplus]

theorem signed?_numeral (n : Int) : signed? radix (numeral radix n) = some n := by
  unfold numeral
  split
  next hneg =>
    simp only [signed?, cutSign, natural?_toDigits hradix hhex, Option.map_some, applySign,
      if_true]
    exact congrArg some (by omega)
  next hneg =>
    obtain ⟨c, cs, hcs, hminus, hplus⟩ := toDigits_eq_cons hradix hhex (n := n.natAbs)
    have hcut : cutSign (Nat.toDigits radix n.natAbs) = (false, Nat.toDigits radix n.natAbs) := by
      rw [hcs]
      simp [cutSign, hminus, hplus]
    simp only [signed?, hcut, natural?_toDigits hradix hhex, Option.map_some, applySign,
      Bool.false_eq_true, if_false]
    exact congrArg some (by omega)

theorem isBlank_of_mem_numeral (n : Int) : ∀ c ∈ numeral radix n, isBlank c = false := by
  have hdigits := isBlank_of_mem_toDigits hradix hhex (n := n.natAbs)
  unfold numeral
  split
  · exact List.forall_mem_cons.mpr ⟨by decide, hdigits⟩
  · exact hdigits

end Digits

theorem int32?_toInt (v : Int32) : int32? v.toInt = some v := by
  rw [int32?, if_pos ⟨v.minValue_le_toInt, v.toInt_le⟩, Int32.ofInt_toInt]

theorem numeral_ne_nil (radix : Nat) (n : Int) : numeral radix n ≠ [] := by
  unfold numeral
  split
  · exact List.cons_ne_nil _ _
  · exact Nat.toDigits_ne_nil

/-! Blanks. -/

theorem trimEnd_append (cs : List Char) {ds : List Char} (h : ∃ c ∈ ds, isBlank c = false) :
    trimEnd (cs ++ ds) = cs ++ trimEnd ds := by
  have hne : ds.reverse.dropWhile isBlank ≠ [] := by
    obtain ⟨c, hc, hb⟩ := h
    intro hnil
    have := List.dropWhile_eq_nil_iff.mp hnil c (List.mem_reverse.mpr hc)
    simp [hb] at this
  rw [trimEnd, List.reverse_append, List.dropWhile_append, if_neg (by simpa using hne),
    List.reverse_append, List.reverse_reverse, trimEnd]

theorem cutAtBlank_append {cs : List Char} (h : ∀ c ∈ cs, isBlank c = false) (ds : List Char) :
    cutAtBlank (cs ++ ' ' :: ds) = (cs, some ds) := by
  have hp : ∀ c ∈ cs, (!isBlank c) = true := fun c hc => by rw [h c hc]; rfl
  have hblank : isBlank ' ' = true := by decide
  rw [cutAtBlank, List.dropWhile_append_of_pos hp, List.takeWhile_append_of_pos hp]
  simp [hblank]

theorem trimEnd_trimEnd (cs : List Char) : trimEnd (trimEnd cs) = trimEnd cs :=
  List.rdropWhile_idempotent isBlank cs

theorem trimEnd_of_trimChars {cs : List Char} (h : trimChars cs = cs) : trimEnd cs = cs := by
  rw [← h, trimChars, trimEnd_trimEnd]

theorem exists_not_isBlank_of_trimChars {cs : List Char} (h : trimChars cs = cs) (hne : cs ≠ []) :
    ∃ c ∈ cs, isBlank c = false := by
  by_contra hall
  apply hne
  have hstart : trimStart cs = [] := by
    apply List.dropWhile_eq_nil_iff.mpr
    intro c hc
    by_contra hb
    exact hall ⟨c, hc, by simpa using hb⟩
  rw [← h, trimChars, hstart]
  rfl

theorem trimStart_trimChars (cs : List Char) : trimStart (trimChars cs) = trimChars cs := by
  rw [trimChars]
  cases ht : trimEnd (trimStart cs) with
  | nil => rfl
  | cons c rest =>
    obtain ⟨blanks, hblanks⟩ := List.rdropWhile_prefix isBlank (trimStart cs)
    have hc := List.head?_dropWhile_not isBlank cs
    rw [← trimStart, ← hblanks, List.rdropWhile, ← trimEnd, ht] at hc
    exact trimStart_cons_of_not_isBlank (by simpa using hc) rest

theorem trimChars_trimChars (cs : List Char) : trimChars (trimChars cs) = trimChars cs := by
  rw [trimChars, trimStart_trimChars, trimChars, trimEnd_trimEnd]

theorem trimChars_of_not_isBlank {cs : List Char} (h : ∀ c ∈ cs, isBlank c = false) :
    trimChars cs = cs := by
  have hstart : trimStart cs = cs := by
    cases cs with
    | nil => rfl
    | cons c cs => exact trimStart_cons_of_not_isBlank (h c List.mem_cons_self) cs
  rw [trimChars, hstart]
  apply List.rdropWhile_eq_self_iff.mpr
  intro hne
  simp [h _ (List.getLast_mem hne)]

end DemandPaging.Text
