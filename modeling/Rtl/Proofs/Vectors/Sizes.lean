import Rtl.Proofs.Outcome
import Rtl.Proofs.Vectors.BitStrings
import Rtl.Proofs.Vectors.Numbers
import Rtl.Render.Expr

namespace Rtl

namespace Vhdl

-- The number of elements of a bit or of a vector whose indexes go down to zero.
def elements? (type : String) : Option Nat :=
  if type = "STD_LOGIC" then some 1
  else
    match type.toList.dropWhile (· != '(') with
    | '(' :: range =>
        let last := range.takeWhile Char.isDigit
        if range.dropWhile Char.isDigit = " DOWNTO 0)".toList then
          (String.ofList last).toNat?.map (· + 1)
        else none
    | _ => none

-- The number of bits that a literal stands for.
def literalBits? (text : String) : Option Nat :=
  match text.toList with
  | ['\'', _, '\''] => some 1
  | 'X' :: quoted => (Text.unquote? quoted).map (4 * ·.length)
  | '"' :: rest => (Text.unquote? ('"' :: rest)).map List.length
  | 'T' :: _ =>
      ((Text.converted? "TO_SIGNED" text).or (Text.converted? "TO_UNSIGNED" text)).map (·.2)
  | _ => none

theorem elements?_vectorType (width : Nat) (signedness : Signedness) :
    elements? (vectorType width signedness) = some (max width 1) := by
  have hnumber : (String.ofList (toString (width - 1)).toList).toNat? = some (width - 1) := by
    rw [String.ofList_toList, Nat.toString_eq_repr, Nat.toNat?_repr]
  have hdigits : ∀ c ∈ (toString (width - 1)).toList, c.isDigit = true := by
    intro c hc
    exact Nat.isDigit_of_mem_toDigits (b := 10) (n := width - 1) (by decide) (by decide)
      (by simpa using hc)
  have htext : (vectorType width signedness).toList =
      (vectorBase signedness).toList ++
        '(' :: ((toString (width - 1)).toList ++ " DOWNTO 0)".toList) := by
    have hplain : vectorType width signedness =
      vectorBase signedness ++ ("(" ++ toString (width - 1) ++ " DOWNTO 0)") := rfl
    simp only [hplain, String.toList_append]
    rfl
  have hbase : (vectorBase signedness).toList.all (· != '(') = true := by
    cases signedness with
    | signed | unsigned | plain => decide
  have hbit : vectorType width signedness ≠ "STD_LOGIC" := by
    intro heq
    have hmem : '(' ∈ (vectorType width signedness).toList := by
      rw [htext]
      simp
    rw [heq] at hmem
    exact absurd hmem (by decide)
  have hopen : (vectorType width signedness).toList.dropWhile (· != '(') =
      '(' :: ((toString (width - 1)).toList ++ " DOWNTO 0)".toList) := by
    rw [htext, List.dropWhile_append_of_pos (List.all_eq_true.mp hbase)]
    rfl
  have hstop : " DOWNTO 0)".toList.dropWhile Char.isDigit = " DOWNTO 0)".toList ∧
      " DOWNTO 0)".toList.takeWhile Char.isDigit = [] := by decide
  have hmax : width - 1 + 1 = max width 1 := by omega
  simp only [elements?, if_neg hbit, hopen, List.dropWhile_append_of_pos hdigits,
    List.takeWhile_append_of_pos hdigits, hstop, List.append_nil, if_true, hnumber,
    Option.map_some, hmax]

theorem literalBits?_bitLiteral (bit : Option Bool) :
    literalBits? (LogicVec.bitLiteral bit) = some 1 := by
  rcases bit with _ | _ | _ <;> rfl

theorem literalBits?_quote (body : List Char) :
    literalBits? (LogicVec.quote body) = some body.length := by
  simp only [literalBits?, LogicVec.toList_quote]
  rw [Text.unquote?_quoted, Option.map_some]

theorem literalBits?_digits (digits : List Char) :
    literalBits? ("X" ++ LogicVec.quote digits) = some (4 * digits.length) := by
  have htext : ("X" ++ LogicVec.quote digits).toList = 'X' :: '"' :: (digits ++ ['"']) := by
    rw [String.toList_append, LogicVec.toList_quote]
    rfl
  simp only [literalBits?, htext]
  rw [Text.unquote?_quoted, Option.map_some]

theorem literalBits?_signedLiteral {v : LogicVec} {text : String}
    (h : v.signedLiteral = .ok text) : literalBits? text = some v.width := by
  have hread := LogicVec.converted?_signedLiteral h
  obtain ⟨-, rfl⟩ := LogicVec.signedLiteral_eq_ok.mp h
  have hbegin : ∃ rest, ("TO_SIGNED" ++ "(" ++ toString v.toInt ++ ", " ++ toString v.width ++
      ")").toList = 'T' :: rest := by
    simp only [String.toList_append]
    exact ⟨_, rfl⟩
  obtain ⟨rest, hbegin⟩ := hbegin
  simp only [literalBits?, hbegin]
  rw [hread, Option.some_or, Option.map_some]

theorem literalBits?_unsignedLiteral {v : LogicVec} {text : String}
    (h : v.unsignedLiteral = .ok text) : literalBits? text = some v.width := by
  have hread := LogicVec.converted?_unsignedLiteral h
  obtain ⟨-, rfl⟩ := LogicVec.unsignedLiteral_eq_ok.mp h
  have hbegin : ∃ rest, ("TO_UNSIGNED" ++ "(" ++ toString (v.value : Int) ++ ", " ++
      toString v.width ++ ")").toList = "TO_UNSIGNED".toList ++ rest := by
    simp only [String.toList_append, List.append_assoc]
    exact ⟨_, rfl⟩
  obtain ⟨rest, hbegin⟩ := hbegin
  -- The name of the other conversion ends before the place where the two differ.
  have hother : Text.converted? "TO_SIGNED" ("TO_UNSIGNED" ++ "(" ++
      toString (v.value : Int) ++ ", " ++ toString v.width ++ ")") = none := by
    rw [Text.converted?, hbegin]
    rfl
  rw [literalBits?, hother, hread, hbegin]
  rfl

theorem literalBits?_bitString {v : LogicVec} {text : String} (hdefined : v.allDefined = true)
    (h : v.bitString = .ok text) :
    ∃ bits, literalBits? text = some bits ∧
      (max v.width 1 = bits ↔ 1 ≤ v.width ∧ (v.width % 4 = 0 → v.value < 2 ^ v.width)) := by
  rcases v.bitString_cases with ⟨hwidth, -, -, htext⟩ | ⟨-, -, -, htext⟩ | ⟨hform, htext⟩
  · obtain rfl := Except.ok.inj (h.symm.trans htext)
    refine ⟨_, literalBits?_digits _, ?_⟩
    rcases Nat.eq_zero_or_pos v.width with hzero | hpos
    · have hdigit : 0 < (LogicVec.hexDigits (v.width / 4) v.value).length := by
        rw [LogicVec.hexDigits, List.length_append, Text.numeral_eq_toDigits (by decide)]
        exact Nat.add_pos_right _ (List.length_pos_iff.mpr Nat.toDigits_ne_nil)
      omega
    · have hcount : 0 < v.width / 4 := by omega
      have hpow : 16 ^ (v.width / 4) = 2 ^ v.width := by
        rw [show 16 = 2 ^ 4 by rfl, ← pow_mul, Nat.mul_div_cancel' (Nat.dvd_of_mod_eq_zero hwidth)]
      have hlength : (LogicVec.hexDigits (v.width / 4) v.value).length = v.width / 4 ↔
          v.value < 16 ^ (v.width / 4) := LogicVec.length_hexDigits_eq_iff hcount
      rw [hpow] at hlength
      rw [← hlength]
      omega
  · cases h.symm.trans htext
  · obtain rfl := Except.ok.inj (h.symm.trans htext)
    have hwidth : v.width % 4 ≠ 0 := fun hwidth => hform ⟨hwidth, hdefined⟩
    refine ⟨_, literalBits?_quote _, ?_⟩
    rw [List.length_map, LogicVec.length_bits]
    omega

end Vhdl

theorem TypeTable.bitWidth?_of_bits {table : TypeTable} {id : TypeId} {width : Nat}
    {signedness : Signedness} {force : Bool}
    (h : table.get? id = some (.bits width signedness force)) :
    table.bitWidth? id = some (some width) := by
  have hsize : 0 < table.size := Nat.zero_lt_of_lt (Array.getElem?_eq_some_iff.mp h).1
  obtain ⟨depth, hdepth⟩ := Nat.exists_eq_succ_of_ne_zero hsize.ne'
  rw [bitWidth?, hdepth, widthWithin, h]

namespace Renderer

variable {r : Renderer} {id : TypeId} {width : Nat} {signedness : Signedness} {force : Bool}
  {v : LogicVec} {text : String}

theorem elements?_typeText (hdialect : r.dialect = .vhdl)
    (hfound : r.design.types.get? id = some (.bits width signedness force)) :
    ∃ type, r.typeText id = .ok type ∧ Vhdl.elements? type = some (max width 1) := by
  have htype : r.type id = .ok (.bits width signedness force) := by rw [Renderer.type, hfound]
  by_cases hscalar : (HwType.bits width signedness force).isScalarBit = true
  · refine ⟨"STD_LOGIC", ?_, ?_⟩
    · simp only [typeText, htype, hdialect]
      exact congrArg Except.ok (if_pos hscalar)
    · obtain ⟨rfl, -, -⟩ : width = 1 ∧ signedness = .plain ∧ force = false := by
        simpa [HwType.isScalarBit, HwType.bit] using hscalar
      rfl
  · refine ⟨Vhdl.vectorType width signedness, ?_, Vhdl.elements?_vectorType width signedness⟩
    simp only [typeText, htype, hdialect]
    exact congrArg Except.ok (if_neg hscalar)

theorem valueText_eq_ok_of_bits
    (hfound : r.design.types.get? id = some (.bits width signedness force))
    (htext : r.valueText ⟨id, .bits v⟩ = .ok text) :
    v.width = width ∧ bitsText (.bits width signedness force) v = .ok text := by
  have htype : r.type id = .ok (.bits width signedness force) := by rw [Renderer.type, hfound]
  simp only [valueText, bind_eq_ok, htype, Except.ok.injEq, exists_eq_left',
    TypeTable.bitWidth?_of_bits hfound, Option.some.injEq] at htext
  split at htext
  · rename_i hwidth
    exact ⟨hwidth.symm, htext⟩
  · obtain ⟨_, _, ⟨⟩⟩ := bind_eq_ok.mp htext

-- Every bit of a literal is one of the type, unless the digits of the vector are too many.
-- Hexadecimal digits are never less than one.
theorem literalBits?_bitsText (hdefined : v.allDefined = true)
    (htext : bitsText (.bits v.width signedness force) v = .ok text) :
    ∃ bits, Vhdl.literalBits? text = some bits ∧
      (max v.width 1 = bits ↔
        1 ≤ v.width ∧ (signedness = .plain → v.width % 4 = 0 → v.value < 2 ^ v.width)) := by
  cases signedness with
  | signed =>
      exact ⟨v.width, Vhdl.literalBits?_signedLiteral htext, by simp⟩
  | unsigned =>
      exact ⟨v.width, Vhdl.literalBits?_unsignedLiteral htext, by simp⟩
  | plain =>
      change (if (HwType.bits v.width .plain force).isScalarBit then
        .ok (LogicVec.bitLiteral (v.bit 0)) else v.bitString) = .ok text at htext
      split at htext
      · rename_i hscalar
        obtain ⟨hwidth, -⟩ : v.width = 1 ∧ force = false := by
          simpa [HwType.isScalarBit, HwType.bit] using hscalar
        obtain rfl := Except.ok.inj htext
        exact ⟨1, Vhdl.literalBits?_bitLiteral _, by simp [hwidth]⟩
      · simpa only [forall_const] using Vhdl.literalBits?_bitString hdefined htext

-- A type has as many elements as the literal of a vector of it has bits, if it has one
-- itself and if no digit says more than the vector has room for.
theorem sizes_agree_iff (hdialect : r.dialect = .vhdl)
    (hfound : r.design.types.get? id = some (.bits width signedness force))
    (hdefined : v.allDefined = true) (htext : r.valueText ⟨id, .bits v⟩ = .ok text) :
    ∃ type elements bits, r.typeText id = .ok type ∧ Vhdl.elements? type = some elements ∧
      Vhdl.literalBits? text = some bits ∧
      (elements = bits ↔
        1 ≤ width ∧ (signedness = .plain → width % 4 = 0 → v.value < 2 ^ width)) ∧
      (v.Made → (elements = bits ↔ 1 ≤ width)) := by
  obtain ⟨type, htype, helements⟩ := elements?_typeText hdialect hfound
  obtain ⟨rfl, hbits⟩ := valueText_eq_ok_of_bits hfound htext
  obtain ⟨bits, hread, hiff⟩ := literalBits?_bitsText hdefined hbits
  refine ⟨type, _, bits, htype, helements, hread, hiff, fun hmade => hiff.trans ?_⟩
  exact and_iff_left fun _ _ => hmade.normal.value_lt

-- A renderer for a design that has types and nothing else.
def ofTypes (types : List HwType) : Renderer :=
  ofDesign .vhdl ⟨⟨#["top"]⟩, ⟨⟨types.toArray⟩⟩, .ofEntity ⟨0⟩ (.ofName ⟨0⟩)⟩ "ns"
    (Dialect.vhdl.baseScope [])

-- A vector of one element stays a vector where its type asks for it.
theorem sizes_agree_forced :
    (ofTypes [.bits 1 .plain true]).valueText ⟨⟨0⟩, .bits (.ofNat 1 1)⟩ = .ok "\"1\"" ∧
    ∃ type elements bits, (ofTypes [.bits 1 .plain true]).typeText ⟨0⟩ = .ok type ∧
      Vhdl.elements? type = some elements ∧ Vhdl.literalBits? "\"1\"" = some bits ∧
      elements = bits := by
  have htext : (ofTypes [.bits 1 .plain true]).valueText ⟨⟨0⟩, .bits (.ofNat 1 1)⟩ =
      .ok "\"1\"" := by decide
  obtain ⟨type, elements, bits, htype, helements, hbits, -, hmade⟩ :=
    sizes_agree_iff (r := ofTypes [.bits 1 .plain true]) (v := .ofNat 1 1) rfl rfl (by decide) htext
  exact ⟨htext, type, elements, bits, htype, helements, hbits, (hmade (.ofNat 1 1)).mpr le_rfl⟩

-- A type of no width has one element and its literal a digit, and a vector that no constructor
-- made has a digit too many.
theorem sizes_of_none_and_excess :
    ((ofTypes [.bits 0 .plain false]).typeText ⟨0⟩ = .ok "STD_LOGIC_VECTOR(0 DOWNTO 0)" ∧
      (ofTypes [.bits 0 .plain false]).valueText ⟨⟨0⟩, .bits (.ofNat 0 0)⟩ = .ok "X\"0\"" ∧
      Vhdl.elements? "STD_LOGIC_VECTOR(0 DOWNTO 0)" = some 1 ∧
      Vhdl.literalBits? "X\"0\"" = some 4) ∧
    (ofTypes [.bits 8 .plain false]).typeText ⟨0⟩ = .ok "STD_LOGIC_VECTOR(7 DOWNTO 0)" ∧
      (ofTypes [.bits 8 .plain false]).valueText ⟨⟨0⟩, .bits ⟨8, 511, 255⟩⟩ = .ok "X\"1ff\"" ∧
      Vhdl.elements? "STD_LOGIC_VECTOR(7 DOWNTO 0)" = some 8 ∧
      Vhdl.literalBits? "X\"1ff\"" = some 12 :=
  ⟨⟨by decide +kernel, by decide +kernel, Vhdl.elements?_vectorType 0 .plain, by decide +kernel⟩,
    by decide +kernel, by decide +kernel, Vhdl.elements?_vectorType 8 .plain, by decide +kernel⟩

end Renderer

end Rtl
