import Rtl.Proofs.Vectors.Making
import Rtl.Render.Literal

namespace Rtl

namespace Text

theorem comma_not_mem_toString (i : Int) : ',' ∉ (toString i).toList := by
  have hnat (n : Nat) : ',' ∉ (toString n).toList := by
    intro h
    have hdigits : ',' ∈ Nat.toDigits 10 n := by simpa using h
    exact absurd (Nat.isDigit_of_mem_toDigits (by decide) (by decide) hdigits) (by decide)
  cases i with
  | ofNat n => exact hnat n
  | negSucc n =>
      have htext : toString (Int.negSucc n) = "-" ++ toString (n + 1) := rfl
      rw [htext, String.toList_append, List.mem_append, not_or]
      exact ⟨by decide, hnat (n + 1)⟩

-- The number and the width in a call of a conversion function.
def converted? (function text : String) : Option (Int × Nat) := do
  let inside ← text.toList.dropPrefix? (function ++ "(").toList
  match inside.dropWhile (· != ',') with
  | ',' :: ' ' :: behind =>
      if behind.getLast? = some ')' then
        let number ← (String.ofList (inside.takeWhile (· != ','))).toInt?
        let width ← (String.ofList behind.dropLast).toNat?
        return (number, width)
      else none
  | _ => none

theorem converted?_call (function : String) (number : Int) (width : Nat) :
    converted? function (function ++ "(" ++ toString number ++ ", " ++ toString width ++ ")") =
      some (number, width) := by
  have hplain : ∀ c ∈ (toString number).toList, (c != ',') = true := by
    intro c hc
    rw [bne_iff_ne]
    rintro rfl
    exact comma_not_mem_toString number hc
  have hinside : (function ++ "(" ++ toString number ++ ", " ++ toString width ++ ")").toList =
      (function ++ "(").toList ++
        ((toString number).toList ++ ',' :: ' ' :: ((toString width).toList ++ [')'])) := by
    simp [String.toList_append]
  have hprefix : (function ++ "(" ++ toString number ++ ", " ++ toString width ++
      ")").toList.dropPrefix? (function ++ "(").toList =
      some ((toString number).toList ++ ',' :: ' ' :: ((toString width).toList ++ [')'])) :=
    List.dropPrefix?_eq_some_iff.mpr ⟨_, hinside, beq_self_eq_true _⟩
  have hnumber : (String.ofList (toString number).toList).toInt? = some number := by
    rw [String.ofList_toList, Int.toString_eq_repr, Int.toInt?_repr]
  have hwidth : (String.ofList (toString width).toList).toNat? = some width := by
    rw [String.ofList_toList, Nat.toString_eq_repr, Nat.toNat?_repr]
  have hstop (behind : List Char) : (',' :: behind).dropWhile (· != ',') = ',' :: behind ∧
      (',' :: behind).takeWhile (· != ',') = [] := ⟨rfl, rfl⟩
  simp only [converted?, hprefix, Option.bind_eq_bind, Option.bind_some,
    List.dropWhile_append_of_pos hplain, List.takeWhile_append_of_pos hplain, hstop,
    List.append_nil, List.getLast?_concat, List.dropLast_concat, if_true, hnumber, hwidth,
    Option.pure_def]

end Text

namespace LogicVec

variable {v : LogicVec}

-- The two conversions of the same bits.

theorem signedLiteral_eq_ok {text : String} :
    v.signedLiteral = .ok text ↔ v.allDefined = true ∧
      "TO_SIGNED" ++ "(" ++ toString v.toInt ++ ", " ++ toString v.width ++ ")" = text := by
  rw [signedLiteral, Text.signedDecimal_eq_toString]
  cases v.allDefined with
  | true => exact ⟨fun h => ⟨rfl, Except.ok.inj h⟩, fun h => congrArg Except.ok h.2⟩
  | false => exact ⟨nofun, nofun⟩

theorem unsignedLiteral_eq_ok {text : String} :
    v.unsignedLiteral = .ok text ↔ v.allDefined = true ∧
      "TO_UNSIGNED" ++ "(" ++ toString (v.value : Int) ++ ", " ++ toString v.width ++ ")" =
        text := by
  rw [unsignedLiteral, Text.decimal_eq_toString]
  cases v.allDefined with
  | true => exact ⟨fun h => ⟨rfl, Except.ok.inj h⟩, fun h => congrArg Except.ok h.2⟩
  | false => exact ⟨nofun, nofun⟩

theorem converted?_signedLiteral {text : String} (h : v.signedLiteral = .ok text) :
    Text.converted? "TO_SIGNED" text = some (v.toInt, v.width) := by
  obtain ⟨-, rfl⟩ := signedLiteral_eq_ok.mp h
  exact Text.converted?_call ..

theorem converted?_unsignedLiteral {text : String} (h : v.unsignedLiteral = .ok text) :
    Text.converted? "TO_UNSIGNED" text = some ((v.value : Int), v.width) := by
  obtain ⟨-, rfl⟩ := unsignedLiteral_eq_ok.mp h
  exact Text.converted?_call ..

namespace Normal

-- The top bit says whether a number is in the upper half.
theorem testBit_top_iff (h : v.Normal) (hwidth : 1 ≤ v.width) :
    v.value.testBit (v.width - 1) = true ↔ 2 ^ (v.width - 1) ≤ v.value := by
  have hlt := h.value_lt
  have hhalf : v.width = v.width - 1 + 1 := by omega
  rw [hhalf, pow_succ] at hlt
  rw [Nat.testBit_eq_decide_div_mod_eq, decide_eq_true_eq]
  have hdiv : v.value / 2 ^ (v.width - 1) < 2 := Nat.div_lt_of_lt_mul hlt
  have hone := Nat.le_div_iff_mul_le (x := 1) (y := v.value) (Nat.two_pow_pos (v.width - 1))
  rw [Nat.mod_eq_of_lt hdiv]
  omega

theorem toInt_eq (h : v.Normal) (hwidth : 1 ≤ v.width) :
    v.toInt = if 2 ^ (v.width - 1) ≤ v.value then (v.value : Int) - 2 ^ v.width else v.value := by
  rw [toInt, Nat.one_shiftLeft]
  push_cast
  exact if_congr ((and_iff_right hwidth).trans (h.testBit_top_iff hwidth)) rfl rfl

-- Two's complement: the number is the value modulo the number of values, between the
-- two halves.
theorem toInt_spec (h : v.Normal) (hwidth : 1 ≤ v.width) :
    -(2 ^ (v.width - 1) : Int) ≤ v.toInt ∧ v.toInt < 2 ^ (v.width - 1) ∧
      v.toInt % 2 ^ v.width = v.value := by
  have hlt : (v.value : Int) < 2 ^ v.width := by exact_mod_cast h.value_lt
  have hdouble : (2 : Int) ^ v.width = 2 * 2 ^ (v.width - 1) := by
    rw [← pow_succ', Nat.sub_add_cancel hwidth]
  have hmod : (v.value : Int) % 2 ^ v.width = v.value := Int.emod_eq_of_lt (by omega) hlt
  rw [h.toInt_eq hwidth]
  split
  · rename_i hupper
    have hupper : (2 : Int) ^ (v.width - 1) ≤ v.value := by exact_mod_cast hupper
    refine ⟨by omega, by omega, ?_⟩
    rw [Int.sub_emod_right, hmod]
  · rename_i hlower
    have hlower : (v.value : Int) < 2 ^ (v.width - 1) := by exact_mod_cast not_le.mp hlower
    exact ⟨by omega, hlower, hmod⟩

-- A normal vector without undefined bits is its width and its value.
theorem eq_of_width_of_value {other : LogicVec} (hdefined : v.allDefined = true)
    (hother : other.allDefined = true) (hwidth : other.width = v.width)
    (hvalue : other.value = v.value) : other = v := by
  rw [allDefined, beq_iff_eq] at hdefined hother
  obtain ⟨width, value, defined⟩ := v
  obtain ⟨width', value', defined'⟩ := other
  simp only at hdefined hother hwidth hvalue
  rw [hdefined, hother, hwidth, hvalue]

end Normal

-- Both conversions are written exactly of vectors without undefined bits. What each says
-- is the width and a number that is the value, as such and in two's complement, so that
-- either says which vector it is.
theorem literals_denote_bits (h : v.Made) (hwidth : 1 ≤ v.width) :
    ((∃ text, v.signedLiteral = .ok text) ↔ ∀ i < v.width, (v.bit i).isSome = true) ∧
    ((∃ text, v.unsignedLiteral = .ok text) ↔ ∀ i < v.width, (v.bit i).isSome = true) ∧
    ∀ signed unsigned, v.signedLiteral = .ok signed → v.unsignedLiteral = .ok unsigned →
      ∃ s u : Int,
        Text.converted? "TO_SIGNED" signed = some (s, v.width) ∧
        (-2 ^ (v.width - 1) ≤ s ∧ s < 2 ^ (v.width - 1) ∧ s % 2 ^ v.width = v.value) ∧
        Text.converted? "TO_UNSIGNED" unsigned = some (u, v.width) ∧
        (u = v.value ∧ u < 2 ^ v.width) ∧ s ≡ u [ZMOD 2 ^ v.width] ∧
        ∀ other : LogicVec, other.Made → 1 ≤ other.width →
          (other.signedLiteral = .ok signed ∨ other.unsignedLiteral = .ok unsigned) →
          other = v := by
  rw [← h.normal.allDefined_iff]
  refine ⟨?_, ?_, ?_⟩
  · simp only [signedLiteral_eq_ok, exists_and_left, exists_eq', and_true]
  · simp only [unsignedLiteral_eq_ok, exists_and_left, exists_eq', and_true]
  intro signed unsigned hsigned hunsigned
  obtain ⟨hlower, hupper, hmod⟩ := h.normal.toInt_spec hwidth
  have hlt : (v.value : Int) < 2 ^ v.width := by exact_mod_cast h.normal.value_lt
  have hreadSigned := converted?_signedLiteral hsigned
  have hreadUnsigned := converted?_unsignedLiteral hunsigned
  have hdefined := (signedLiteral_eq_ok.mp hsigned).1
  refine ⟨v.toInt, v.value, hreadSigned, ⟨hlower, hupper, hmod⟩, hreadUnsigned, ⟨rfl, hlt⟩, ?_,
    fun other hother hpos hsame => ?_⟩
  · exact hmod.trans (Int.emod_eq_of_lt (Int.natCast_nonneg _) hlt).symm
  · rcases hsame with hsame | hsame
    · have hread := Option.some.inj ((converted?_signedLiteral hsame).symm.trans hreadSigned)
      obtain ⟨hint, hwidths⟩ := Prod.mk.inj hread
      refine Normal.eq_of_width_of_value hdefined (signedLiteral_eq_ok.mp hsame).1 hwidths ?_
      have hback := (hother.normal.toInt_spec hpos).2.2
      rw [hint, hwidths, hmod] at hback
      exact_mod_cast hback.symm
    · have hread := Option.some.inj ((converted?_unsignedLiteral hsame).symm.trans hreadUnsigned)
      obtain ⟨hvalue, hwidths⟩ := Prod.mk.inj hread
      refine Normal.eq_of_width_of_value hdefined (unsignedLiteral_eq_ok.mp hsame).1 hwidths ?_
      exact_mod_cast hvalue

-- The lowest number of eight bits.
theorem literals_denote_lowest :
    (ofNat 0x80 8).Made ∧ 1 ≤ (ofNat 0x80 8).width ∧
    (ofNat 0x80 8).signedLiteral = .ok "TO_SIGNED(-128, 8)" ∧
    (ofNat 0x80 8).unsignedLiteral = .ok "TO_UNSIGNED(128, 8)" ∧
    ∃ s u : Int, Text.converted? "TO_SIGNED" "TO_SIGNED(-128, 8)" = some (s, 8) ∧
      Text.converted? "TO_UNSIGNED" "TO_UNSIGNED(128, 8)" = some (u, 8) ∧ s ≡ u [ZMOD 2 ^ 8] := by
  have hsigned : (ofNat 0x80 8).signedLiteral = .ok "TO_SIGNED(-128, 8)" := by decide +kernel
  have hunsigned : (ofNat 0x80 8).unsignedLiteral = .ok "TO_UNSIGNED(128, 8)" := by
    decide +kernel
  obtain ⟨s, u, hs, -, hu, -, hsame, -⟩ :=
    (literals_denote_bits (.ofNat 0x80 8) (by decide)).2.2 _ _ hsigned hunsigned
  exact ⟨.ofNat .., by decide, hsigned, hunsigned, s, u, hs, hu, hsame⟩

end LogicVec

end Rtl
