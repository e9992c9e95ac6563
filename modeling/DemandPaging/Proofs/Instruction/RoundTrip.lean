import DemandPaging.Instruction.Decode
import DemandPaging.Proofs.Text
/-!
The text of an instruction that was read from a text is read as the same instruction. This is so
for every operand an instruction can hold, and for texts that are no instruction: what is trimmed
off a text does not decide how it is read.
-/

namespace DemandPaging.Instruction

open DemandPaging.Text

/-- The instructions that texts are read as: what is printed has no blanks around it, what blocks
does so for a time of 32 bits, and an invalid text is not valid after all. -/
def Written : Instruction → Prop
  | .printStr s => trim s = s
  | .block ticks => 0 < ticks ∧ ticks < UInt32.size
  | .invalid s => decode s = .invalid s
  | _ => True

theorem decode_trim (s : String) : decode (trim s) = decode s := by
  rw [decode, trim, String.toList_ofList, trimChars_trimChars, decode]

/-! What is read is written. -/

theorem written_of_bare? {mnemonic : String} {i : Instruction} (h : bare? mnemonic = some i) :
    Written i := by
  unfold bare? at h
  split at h
  all_goals first
    | obtain rfl := Option.some.inj h; trivial
    | simp at h

theorem written_of_map {α : Type} {operand : Option α} {f : α → Instruction} {i : Instruction}
    (hf : ∀ a, Written (f a)) (h : operand.map f = some i) : Written i := by
  obtain ⟨a, -, rfl⟩ := Option.map_eq_some_iff.mp h
  exact hf a

theorem written_of_withOperand? {mnemonic : String} {cs : List Char} {i : Instruction}
    (hcs : trimChars cs = cs) (h : withOperand? mnemonic cs = some i) : Written i := by
  unfold withOperand? at h
  split at h
  case h_1 =>
    obtain rfl := Option.some.inj h
    rw [Written, trim, String.toList_ofList, hcs]
  case h_4 =>
    obtain ⟨ticks, hticks, rfl⟩ := Option.map_eq_some_iff.mp h
    have hrange := (Option.filter_eq_some_iff.mp hticks).2
    rw [Written]
    simpa using hrange
  case h_15 => simp at h
  all_goals
    refine written_of_map ?_ h
    intro operand
    trivial

theorem written_of_ofParts? {mnemonic : List Char} {operand : Option (List Char)} {i : Instruction}
    (h : ofParts? mnemonic operand = some i) : Written i := by
  cases operand with
  | some operand => exact written_of_withOperand? (trimChars_trimChars operand) h
  | none =>
    unfold ofParts? at h
    simp only at h
    split at h
    next i' hbare =>
      obtain rfl := Option.some.inj h
      exact written_of_bare? hbare
    · split at h
      · obtain rfl := Option.some.inj h
        exact (by decide +kernel : trim "" = "")
      · simp at h

theorem decode_eq_getD (s : String) : decode s =
    (ofParts? (cutAtBlank (trimChars s.toList)).1 (cutAtBlank (trimChars s.toList)).2).getD
      (.invalid (trim s)) := rfl

theorem written_decode (s : String) : Written (decode s) := by
  cases hparts : ofParts? (cutAtBlank (trimChars s.toList)).1
    (cutAtBlank (trimChars s.toList)).2 with
  | none =>
    have hs : decode s = .invalid (trim s) := by
      rw [decode_eq_getD, hparts, Option.getD_none]
    rw [hs]
    exact (decode_trim s).trans hs
  | some i =>
    rw [decode_eq_getD, hparts, Option.getD_some]
    exact written_of_ofParts? hparts

/-! What is written is read. -/

def Opens (front mnemonic : String) : Prop :=
  front.toList = mnemonic.toList ++ [' '] ∧ mnemonic.toList ≠ [] ∧
    mnemonic.toList.all (fun c => !isBlank c) = true

instance (front mnemonic : String) : Decidable (Opens front mnemonic) :=
  inferInstanceAs (Decidable (_ ∧ _))

theorem decode_append {front mnemonic : String} {operand : List Char} {i : Instruction}
    (hf : Opens front mnemonic) (hne : operand ≠ []) (htrim : trimChars operand = operand)
    (hi : withOperand? mnemonic operand = some i) :
    decode (front ++ String.ofList operand) = i := by
  obtain ⟨hfront, hmne, hall⟩ := hf
  have hblank : ∀ c ∈ mnemonic.toList, isBlank c = false := by
    simpa using hall
  have htext : (front ++ String.ofList operand).toList = mnemonic.toList ++ ' ' :: operand := by
    rw [String.toList_append, hfront, String.toList_ofList, List.append_assoc,
      List.singleton_append]
  have hstart : trimStart (mnemonic.toList ++ ' ' :: operand) =
      mnemonic.toList ++ ' ' :: operand := by
    obtain ⟨c, cs, hcs⟩ := List.exists_cons_of_ne_nil hmne
    rw [hcs] at hblank ⊢
    exact trimStart_cons_of_not_isBlank (hblank c List.mem_cons_self) _
  have hkeep : trimChars (mnemonic.toList ++ ' ' :: operand) =
      mnemonic.toList ++ ' ' :: operand := by
    rw [trimChars, hstart, ← List.singleton_append, ← List.append_assoc,
      trimEnd_append _ (exists_not_isBlank_of_trimChars htrim hne), trimEnd_of_trimChars htrim]
  rw [decode_eq_getD, htext, hkeep, cutAtBlank_append hblank]
  simp only [ofParts?, String.ofList_toList, htrim, hi, Option.getD_some]

theorem decode_append_numeral {front : String} (mnemonic : String) {radix : Nat}
    (hradix : 1 < radix) (hhex : radix ≤ 16) {n : Int} {i : Instruction}
    (hf : Opens front mnemonic)
    (hi : withOperand? mnemonic (numeral radix n) = some i) :
    decode (front ++ String.ofList (numeral radix n)) = i :=
  decode_append hf (numeral_ne_nil radix n)
    (trimChars_of_not_isBlank (isBlank_of_mem_numeral hradix hhex n)) hi

theorem decode_append_decimal {front : String} (mnemonic : String) {f : Int32 → Instruction}
    {v : Int32} (hf : Opens front mnemonic)
    (hi : ∀ cs, withOperand? mnemonic cs = (decimalOperand? cs).map f) :
    decode (front ++ signedDecimal v.toInt) = f v := by
  rw [signedDecimal_eq]
  apply decode_append_numeral mnemonic (by decide) (by decide) hf
  rw [hi, decimalOperand?, signed?_numeral (by decide) (by decide), Option.bind_some, int32?_toInt,
    Option.map_some]

theorem decode_append_hex {front : String} (mnemonic : String) {f : Int32 → Instruction}
    {v : Int32} (hf : Opens front mnemonic)
    (hi : ∀ cs, withOperand? mnemonic cs = (hexOperand? cs).map f) :
    decode (front ++ signedHex v.toInt) = f v := by
  rw [signedHex_eq]
  apply decode_append_numeral mnemonic (by decide) (by decide) hf
  rw [hi, hexOperand?, signed?_numeral (by decide) (by decide), Option.bind_some, int32?_toInt,
    Option.map_some]

theorem decode_text_block {ticks : Nat} (h : 0 < ticks ∧ ticks < UInt32.size) :
    decode (text (.block ticks)) = .block ticks := by
  have hticks : ticksOperand? (numeral 10 ticks) = some ticks := by
    rw [numeral_natCast, ticksOperand?, unsigned?_toDigits (by decide) (by decide)]
    exact Option.filter_some_pos (by simpa using h)
  have htext : text (.block ticks) = "Syscall_Block " ++ String.ofList (numeral 10 ticks) := by
    rw [numeral_natCast]
    rfl
  rw [htext]
  apply decode_append_numeral "Syscall_Block" (by decide) (by decide) (by decide +kernel)
  simp [withOperand?, hticks]

theorem decode_text_printStr {s : String} (h : trim s = s) :
    decode (text (.printStr s)) = .printStr s := by
  by_cases hs : s.toList = []
  · obtain rfl := String.toList_eq_nil_iff.mp hs
    decide +kernel
  · have htrim : trimChars s.toList = s.toList := by
      rw [← String.toList_ofList (l := trimChars s.toList)]
      exact congrArg String.toList h
    have hi : withOperand? "printStr" s.toList = some (.printStr s) := by
      rw [withOperand?, String.ofList_toList]
    have hread := decode_append (by decide +kernel : Opens "printStr " "printStr") hs htrim hi
    rwa [String.ofList_toList] at hread

theorem decode_text {i : Instruction} (h : Written i) : decode i.text = i := by
  cases i with
  | exit | noOp | alloc => decide +kernel
  | branch offset =>
    exact decode_append_decimal "branch_uc" (by decide +kernel) fun cs => rfl
  | branchEq offset =>
    exact decode_append_decimal "branch_eq" (by decide +kernel) fun cs => rfl
  | printReg r => cases r <;> decide +kernel
  | printStr s => exact decode_text_printStr h
  | incr r v =>
    exact decode_append_hex ("incrReg" ++ r.text) (by cases r <;> decide +kernel)
      fun cs => by cases r <;> rfl
  | loadImmediate r v =>
    exact decode_append_hex ("loadReg" ++ r.text ++ "Immediate") (by cases r <;> decide +kernel)
      fun cs => by cases r <;> rfl
  | loadPageAddr r v =>
    exact decode_append_hex ("loadReg" ++ r.text ++ "PageAddr") (by cases r <;> decide +kernel)
      fun cs => by cases r <;> rfl
  | loadIndirect dst addr => cases dst <;> cases addr <;> decide +kernel
  | storeIndirect src addr => cases src <;> cases addr <;> decide +kernel
  | block ticks => exact decode_text_block h
  | invalid s => exact h

/-- The text of what was read is read as the same, and what can be read is exactly what is
written. -/
theorem decode_text_decode :
    (∀ s, decode (decode s).text = decode s) ∧
    (∀ i, (∃ s, decode s = i) ↔ Written i) ∧
    ∀ i, Written i → decode i.text = i := by
  refine ⟨fun s => decode_text (written_decode s), fun i => ⟨?_, ?_⟩, fun i => decode_text⟩
  · rintro ⟨s, rfl⟩
    exact written_decode s
  · intro h
    exact ⟨i.text, decode_text h⟩

theorem decode_text_decode_extremes :
    decode (text (.incr .r1 Int32.minValue)) = .incr .r1 Int32.minValue ∧
    decode (text (.block 4294967295)) = .block 4294967295 ∧
    decode (text (.printStr "a\u2003\tb")) = .printStr "a\u2003\tb" ∧
    decode (text (.invalid "NoOp 1")) = .invalid "NoOp 1" := by
  refine ⟨?_, ?_, ?_, ?_⟩
  · exact decode_text_decode.2.2 _ trivial
  · exact decode_text_decode.2.2 _ ⟨by decide, by decide⟩
  · exact decode_text_decode.2.2 _ (by decide +kernel : trim _ = _)
  · exact decode_text_decode.2.2 _ (by decide +kernel : decode _ = _)

end DemandPaging.Instruction
