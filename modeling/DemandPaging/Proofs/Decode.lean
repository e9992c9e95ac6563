import DemandPaging.Instruction.Decode
import DemandPaging.Proofs.Text
import DemandPaging.Trace
/-!
What stands past the end of a trace is no instruction, and no instruction blocks for no time.
-/

namespace DemandPaging

namespace Instruction

open DemandPaging.Text

private def noMnemonic : List Char := ['I', 'n', 'v', 'a', 'l', 'i', 'd']

private theorem isBlank_noMnemonic : ∀ c ∈ noMnemonic, isBlank c = false := by
  have hall : noMnemonic.all (fun c => !isBlank c) = true := by decide +kernel
  intro c hc
  simpa using List.all_eq_true.mp hall c hc

private theorem toList_missing (index : Nat) : (Trace.missing index).toList =
    (noMnemonic ++ [' ']) ++ ("Instruction at index ".toList ++ (decimal index).toList) := by
  have hlit : "Invalid Instruction at index ".toList =
      (noMnemonic ++ [' ']) ++ "Instruction at index ".toList := by decide +kernel
  unfold Trace.missing
  rw [String.toList_append, hlit, List.append_assoc]

theorem decode_missing (index : Nat) : ∃ s, decode (Trace.missing index) = .invalid s := by
  have hmem : 'I' ∈ "Instruction at index ".toList := by decide +kernel
  have htrim : trimChars (Trace.missing index).toList = noMnemonic ++ ' ' ::
      trimEnd ("Instruction at index ".toList ++ (decimal index).toList) := by
    have hstart : trimStart (Trace.missing index).toList = (Trace.missing index).toList := by
      rw [toList_missing]
      exact trimStart_cons_of_not_isBlank (by decide) _
    rw [trimChars, hstart, toList_missing,
      trimEnd_append _ ⟨'I', List.mem_append_left _ hmem, by decide⟩, List.append_assoc,
      List.singleton_append]
  have hparts (operand : List Char) : ofParts? noMnemonic (some operand) = none := by
    simp [noMnemonic, ofParts?, withOperand?]
  rw [decode, htrim, decodeChars, cutAtBlank_append isBlank_noMnemonic]
  simp only [hparts, Option.getD_none]
  exact ⟨_, rfl⟩

theorem decode_textAt (t : Trace) {ip : VirtualAddress} (h : t.size ≤ ip.toNat / wordBytes) :
    ∃ s, decode (t.textAt ip) = .invalid s := by
  have hget : t.textAt ip = Trace.missing (ip.toNat / wordBytes) := by
    rw [Trace.textAt, Trace.get, Array.getD_eq_getD_getElem?, Array.getElem?_eq_none h,
      Option.getD_none]
  rw [hget]
  exact decode_missing _

theorem ticks_pos_of_withOperand? {mnemonic : String} {cs : List Char} {n : Nat}
    (h : withOperand? mnemonic cs = some (.block n)) : 0 < n := by
  unfold withOperand? at h
  split at h
  case h_4 =>
    obtain ⟨ticks, hticks, heq⟩ := Option.map_eq_some_iff.mp h
    obtain rfl := Instruction.block.inj heq
    have hrange := (Option.filter_eq_some_iff.mp hticks).2
    simp only [Bool.and_eq_true, decide_eq_true_eq] at hrange
    exact hrange.1
  all_goals simp at h

theorem ticks_pos_of_decode {s : String} {n : Nat} (h : decode s = .block n) : 0 < n := by
  unfold decode decodeChars at h
  split at h
  next mnemonic operand hcut =>
    cases hparts : ofParts? mnemonic operand with
    | none => simp [hparts] at h
    | some i =>
      obtain rfl : i = .block n := by simpa [hparts] using h
      cases operand with
      | some operand => exact ticks_pos_of_withOperand? hparts
      | none =>
        unfold ofParts? bare? at hparts
        grind

end Instruction

end DemandPaging
