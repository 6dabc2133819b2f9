import Rtl.Proofs.Vectors.BitStrings
import Rtl.Proofs.Vectors.Numbers
import Rtl.Proofs.Vectors.Texts

namespace Rtl.LogicVec

variable {v : LogicVec}

-- No bit is undefined.
def Whole (v : LogicVec) : Prop := ∀ i < v.width, (v.bit i).isSome = true

-- There is no other vector of a constructor with these bits.
theorem eq_normalized_of_made {w : LogicVec} (hw : w.Made) (hwidth : w.width = v.width)
    (hget : ∀ i < v.width, w.get? i = v.get? i) : w = v.normalized := by
  refine (hw.normal.eq_iff_get? v.made_normalized.normal).mpr ⟨hwidth, fun i hi => ?_⟩
  rw [get?_normalized, hget i (hwidth ▸ hi)]

theorem normal_of_value_eq (hdefined : v.defined < 2 ^ v.width)
    (hvalue : v.value = v.normalized.value) : v.Normal := by
  refine ⟨hdefined, fun i hi => ?_⟩
  rw [hvalue, testBit_value_normalized, Bool.and_eq_true, Bool.and_eq_true] at hi
  exact hi.2.1

theorem allDefined_normalized_iff (v : LogicVec) : v.normalized.allDefined = true ↔ v.Whole := by
  rw [v.made_normalized.normal.allDefined_iff]
  exact forall₂_congr fun i hi => by rw [bit_normalized (v := v) hi]

-- Bits above the width count, though they are no bits of the vector.
theorem allDefined_iff_whole (v : LogicVec) :
    v.allDefined = true ↔ v.Whole ∧ v.defined < 2 ^ v.width := by
  rw [allDefined, beq_iff_eq]
  constructor
  · intro h
    refine ⟨fun i hi => ?_, h ▸ mask_lt v.width⟩
    rw [isSome_bit, h, testBit_mask, decide_eq_true hi]
  · rintro ⟨hwhole, hlt⟩
    refine Nat.eq_of_testBit_eq fun i => ?_
    rw [testBit_mask]
    by_cases hi : i < v.width
    · rw [← isSome_bit, hwhole i hi, decide_eq_true hi]
    · rw [decide_eq_false hi]
      exact Nat.testBit_lt_two_pow
        (Nat.lt_of_lt_of_le hlt (Nat.pow_le_pow_right Nat.two_pos (not_lt.mp hi)))

-- With an undefined bit neither counts as fully defined.
theorem allDefined_eq_false_of_not_whole (h : ¬ v.Whole) :
    v.allDefined = false ∧ v.normalized.allDefined = false := by
  rw [Bool.eq_false_iff, Bool.eq_false_iff, ne_eq, ne_eq, allDefined_iff_whole,
    allDefined_normalized_iff]
  exact ⟨fun hboth => h hboth.1, h⟩

theorem allDefined_eq_normalized_iff (v : LogicVec) :
    v.allDefined = v.normalized.allDefined ↔ (v.Whole → v.defined < 2 ^ v.width) := by
  rw [Bool.eq_iff_iff, allDefined_iff_whole, allDefined_normalized_iff]
  tauto

theorem toWord?_eq_some_iff {word : Nat} :
    v.toWord? = some word ↔ v.allDefined = true ∧ v.value < 2 ^ 64 ∧ v.value = word := by
  rw [toWord?, Nat.one_shiftLeft, Option.ite_none_right_eq_some, Bool.and_eq_true,
    decide_eq_true_eq, Option.some.injEq, and_assoc]

theorem toWord?_eq_normalized_iff (v : LogicVec) :
    v.toWord? = v.normalized.toWord? ↔
      (v.Whole → v.normalized.value < 2 ^ 64 → v.Normal) := by
  constructor
  · intro heq hwhole hsmall
    have hn := toWord?_eq_some_iff.mpr ⟨v.allDefined_normalized_iff.mpr hwhole, hsmall, rfl⟩
    obtain ⟨hdefined, -, hvalue⟩ := toWord?_eq_some_iff.mp (heq.trans hn)
    exact normal_of_value_eq (v.allDefined_iff_whole.mp hdefined).2 hvalue
  · intro h
    by_cases hnormal : v.Normal
    · rw [← v.eq_normalized_iff.mpr hnormal]
    · have hle : v.normalized.value ≤ v.value := Nat.and_le_left
      refine Option.ext fun word => iff_of_false (fun hv => ?_) fun hn => ?_
      · obtain ⟨hdefined, hsmall, -⟩ := toWord?_eq_some_iff.mp hv
        exact hnormal (h (v.allDefined_iff_whole.mp hdefined).1 (Nat.lt_of_le_of_lt hle hsmall))
      · obtain ⟨hdefined, hsmall, -⟩ := toWord?_eq_some_iff.mp hn
        exact hnormal (h (v.allDefined_normalized_iff.mp hdefined) hsmall)

-- The sign is that of the highest bit. A vector and its twin cannot differ in it alone.
theorem toInt_eq_normalized_iff (v : LogicVec) :
    v.toInt = v.normalized.toInt ↔ v.value = v.normalized.value := by
  constructor
  · intro h
    rw [toInt, toInt, width_normalized] at h
    split_ifs at h with hv hn hn
    · exact Int.ofNat.inj (sub_left_inj.mp h)
    · have hsum : v.value = 2 ^ v.width + v.normalized.value := by
        rw [Nat.one_shiftLeft] at h
        omega
      have hbit := hv.2
      rw [hsum, Nat.testBit_two_pow_add_gt (by omega)] at hbit
      exact absurd ⟨hv.1, hbit⟩ hn
    · have hbit := hn.2
      rw [testBit_value_normalized, Bool.and_eq_true] at hbit
      exact absurd ⟨hn.1, hbit.1⟩ hv
    · exact Int.ofNat.inj h
  · intro h
    rw [toInt, toInt, width_normalized, h]

theorem signedLiteral_eq_normalized_iff (v : LogicVec) :
    v.signedLiteral = v.normalized.signedLiteral ↔ (v.Whole → v.Normal) := by
  constructor
  · intro heq hwhole
    have hn := signedLiteral_eq_ok.mpr ⟨v.allDefined_normalized_iff.mpr hwhole, rfl⟩
    have hv := heq.trans hn
    have hdefined := (signedLiteral_eq_ok.mp hv).1
    have hread := (converted?_signedLiteral hv).symm.trans (converted?_signedLiteral hn)
    exact normal_of_value_eq (v.allDefined_iff_whole.mp hdefined).2
      (v.toInt_eq_normalized_iff.mp (Prod.mk.inj (Option.some.inj hread)).1)
  · intro h
    by_cases hwhole : v.Whole
    · rw [← v.eq_normalized_iff.mpr (h hwhole)]
    · obtain ⟨hv, hn⟩ := allDefined_eq_false_of_not_whole hwhole
      simp only [signedLiteral, hv, hn, toText_normalized, Bool.false_eq_true, if_false]

theorem unsignedLiteral_eq_normalized_iff (v : LogicVec) :
    v.unsignedLiteral = v.normalized.unsignedLiteral ↔ (v.Whole → v.Normal) := by
  constructor
  · intro heq hwhole
    have hn := unsignedLiteral_eq_ok.mpr ⟨v.allDefined_normalized_iff.mpr hwhole, rfl⟩
    have hv := heq.trans hn
    have hread := (converted?_unsignedLiteral hv).symm.trans (converted?_unsignedLiteral hn)
    exact normal_of_value_eq (v.allDefined_iff_whole.mp (unsignedLiteral_eq_ok.mp hv).1).2
      (Int.ofNat.inj (Prod.mk.inj (Option.some.inj hread)).1)
  · intro h
    by_cases hwhole : v.Whole
    · rw [← v.eq_normalized_iff.mpr (h hwhole)]
    · obtain ⟨hv, hn⟩ := allDefined_eq_false_of_not_whole hwhole
      simp only [unsignedLiteral, hv, hn, toText_normalized, Bool.false_eq_true, if_false]

theorem quote_ne_digits (body digits : List Char) : quote body ≠ "X" ++ quote digits := by
  intro h
  have hlist := congrArg String.toList h
  rw [String.toList_append, toList_quote, toList_quote] at hlist
  exact absurd (List.cons.inj hlist).1 (by decide)

theorem hexDigits_inj {count value other : Nat}
    (h : "X" ++ quote (hexDigits count value) = "X" ++ quote (hexDigits count other)) :
    value = other := by
  have hlist := congrArg String.toList h
  rw [String.toList_append, String.toList_append, toList_quote, toList_quote] at hlist
  have hdigits := List.append_cancel_right (List.cons.inj (List.append_cancel_left hlist)).2
  have hvalue := (hexValue?_hexDigits count value).1
  rw [hdigits, (hexValue?_hexDigits count other).1] at hvalue
  exact (Option.some.inj hvalue).symm

-- Where there would be too many digits, the number does not come to light.
theorem bitString_eq_normalized_iff (v : LogicVec) :
    v.bitString = v.normalized.bitString ↔
      (v.Whole → v.width % 4 = 0 →
        v.Normal ∨ 4 * 65535 < v.width ∧ v.defined < 2 ^ v.width) := by
  constructor
  · intro heq hwhole haligned
    have hn := v.allDefined_normalized_iff.mpr hwhole
    rcases v.bitString_cases with ⟨-, hdefined, hcount, hv⟩ | ⟨-, hdefined, hcount, hv⟩ |
      ⟨-, hv⟩
    · have hlt := (v.allDefined_iff_whole.mp hdefined).2
      rcases v.normalized.bitString_cases with ⟨-, -, -, htext⟩ | ⟨-, -, -, htext⟩ | ⟨hno, -⟩
      · have hsame := Except.ok.inj ((hv.symm.trans heq).trans htext)
        exact .inl (normal_of_value_eq hlt (hexDigits_inj hsame))
      · cases (hv.symm.trans heq).trans htext
      · exact absurd ⟨haligned, hn⟩ hno
    · rw [maxHexDigits] at hcount
      exact .inr ⟨by omega, (v.allDefined_iff_whole.mp hdefined).2⟩
    · rcases v.normalized.bitString_cases with ⟨-, -, -, htext⟩ | ⟨-, -, -, htext⟩ | ⟨hno, -⟩
      · exact absurd (Except.ok.inj ((hv.symm.trans heq).trans htext)) (quote_ne_digits _ _)
      · cases (hv.symm.trans heq).trans htext
      · exact absurd ⟨haligned, hn⟩ hno
  · intro h
    by_cases hform : v.width % 4 = 0 ∧ v.Whole
    · rcases h hform.2 hform.1 with hnormal | ⟨hwide, hlt⟩
      · rw [← v.eq_normalized_iff.mpr hnormal]
      · have hv := v.allDefined_iff_whole.mpr ⟨hform.2, hlt⟩
        have hn := v.allDefined_normalized_iff.mpr hform.2
        have hcount : ¬ v.width / 4 ≤ maxHexDigits := by
          rw [maxHexDigits]
          omega
        simp only [bitString, hv, hn, width_normalized, hform.1, if_neg hcount, beq_self_eq_true,
          Bool.and_true, if_true]
        exact (if_neg hcount).symm
    · have hv : ¬ (v.width % 4 = 0 ∧ v.allDefined = true) := fun hboth =>
        hform ⟨hboth.1, (v.allDefined_iff_whole.mp hboth.2).1⟩
      have hn : ¬ (v.width % 4 = 0 ∧ v.normalized.allDefined = true) := fun hboth =>
        hform ⟨hboth.1, v.allDefined_normalized_iff.mp hboth.2⟩
      simp only [bitString, Bool.and_eq_true, beq_iff_eq, width_normalized, if_neg hv, if_neg hn,
        bits_normalized]

-- A vector and the one that a constructor gives for the same bits: what they share, and where
-- exactly the one is treated as the other.
structure Beside (v twin : LogicVec) : Prop where
  made : twin.Made
  width : twin.width = v.width
  get? : ∀ i, twin.get? i = v.get? i
  only : ∀ w : LogicVec, w.Made → w.width = v.width → (∀ i < v.width, w.get? i = v.get? i) →
    w = twin
  toText : twin.toText = v.toText
  bitLiteral : 0 < v.width → bitLiteral (twin.bit 0) = bitLiteral (v.bit 0)
  eq : v = twin ↔ v.Normal
  allDefined : v.allDefined = twin.allDefined ↔ (v.Whole → v.defined < 2 ^ v.width)
  toWord? : v.toWord? = twin.toWord? ↔ (v.Whole → twin.value < 2 ^ 64 → v.Normal)
  toInt : v.toInt = twin.toInt ↔ v.value = twin.value
  signedLiteral : v.signedLiteral = twin.signedLiteral ↔ (v.Whole → v.Normal)
  unsignedLiteral : v.unsignedLiteral = twin.unsignedLiteral ↔ (v.Whole → v.Normal)
  bitString : v.bitString = twin.bitString ↔ (v.Whole → v.width % 4 = 0 →
    v.Normal ∨ 4 * 65535 < v.width ∧ v.defined < 2 ^ v.width)

theorem beside_normalized (v : LogicVec) : v.Beside v.normalized where
  made := v.made_normalized
  width := v.width_normalized
  get? := get?_normalized v
  only := fun _ => eq_normalized_of_made
  toText := toText_normalized v
  bitLiteral := fun hpos => congrArg LogicVec.bitLiteral (bit_normalized hpos)
  eq := eq_normalized_iff v
  allDefined := allDefined_eq_normalized_iff v
  toWord? := toWord?_eq_normalized_iff v
  toInt := toInt_eq_normalized_iff v
  signedLiteral := signedLiteral_eq_normalized_iff v
  unsignedLiteral := unsignedLiteral_eq_normalized_iff v
  bitString := bitString_eq_normalized_iff v

end Rtl.LogicVec
