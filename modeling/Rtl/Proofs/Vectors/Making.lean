import Mathlib
import Rtl.LogicVec

namespace Rtl.LogicVec

-- A vector that one of the constructors gave.
inductive Made : LogicVec → Prop
  | ofMasked (value defined width : Nat) : Made (ofMasked value defined width)
  | ofNat (value width : Nat) : Made (ofNat value width)
  | ofBool (bit : Bool) : Made (ofBool bit)
  | zeros (width : Nat) : Made (zeros width)
  | ones (width : Nat) : Made (ones width)
  | undefined (width : Nat) : Made (undefined width)
  | ofText {text : String} {v : LogicVec} (h : ofText? text = some v) : Made v

-- No bit is defined above the width, and none has a value without being defined.
structure Normal (v : LogicVec) : Prop where
  defined_lt : v.defined < 2 ^ v.width
  defined_of_value : ∀ i, v.value.testBit i = true → v.defined.testBit i = true

variable {v : LogicVec}

theorem mask_eq (width : Nat) : mask width = 2 ^ width - 1 := by rw [mask, Nat.one_shiftLeft]

theorem mask_lt (width : Nat) : mask width < 2 ^ width := by
  rw [mask_eq]
  exact Nat.sub_one_lt (Nat.two_pow_pos width).ne'

theorem testBit_mask (width i : Nat) : (mask width).testBit i = decide (i < width) := by
  rw [mask_eq, Nat.testBit_two_pow_sub_one]

theorem isSome_bit (v : LogicVec) (i : Nat) : (v.bit i).isSome = v.defined.testBit i := by
  rw [bit]
  cases v.defined.testBit i with
  | true | false => rfl

theorem normal_ofMasked (value defined width : Nat) : (ofMasked value defined width).Normal := by
  refine ⟨Nat.lt_of_le_of_lt Nat.and_le_right (mask_lt width), fun i hi => ?_⟩
  rw [ofMasked, Nat.testBit_and, Bool.and_eq_true] at hi
  exact hi.2

theorem Normal.snoc (h : v.Normal) (bit : Option Bool) : (v.snoc bit).Normal := by
  constructor
  · have hdefined := h.defined_lt
    have hbit : bit.isSome.toNat ≤ 1 := Bool.toNat_le _
    change 2 * v.defined + bit.isSome.toNat < 2 ^ (v.width + 1)
    rw [pow_succ]
    omega
  · intro i hi
    change (2 * v.value + (bit.getD false).toNat).testBit i = true at hi
    change (2 * v.defined + bit.isSome.toNat).testBit i = true
    cases i with
    | zero =>
        rcases bit with _ | _ | _
        · simp [Nat.testBit_zero] at hi
        · simp [Nat.testBit_zero] at hi
        · simp [Nat.testBit_zero]
    | succ i =>
        have hhalf (n : Nat) (b : Bool) : (2 * n + b.toNat) / 2 = n := by
          have hb : b.toNat ≤ 1 := Bool.toNat_le b
          omega
        rw [Nat.testBit_succ, hhalf] at hi ⊢
        exact h.defined_of_value i hi

theorem normal_ofBits (bits : List (Option Bool)) : (ofBits bits).Normal := by
  refine List.foldlRecOn bits LogicVec.snoc (motive := Normal) ⟨Nat.one_pos, ?_⟩
    fun v h bit _ => h.snoc bit
  intro i hi
  simp at hi

theorem Made.normal (h : v.Made) : v.Normal := by
  cases h with
  | ofMasked | ofNat | ofBool | zeros | ones | undefined => exact normal_ofMasked ..
  | ofText h =>
      obtain ⟨whole, -, rfl⟩ := Option.map_eq_some_iff.mp h
      exact normal_ofMasked ..

namespace Normal

theorem lt_of_value (h : v.Normal) {i : Nat} (hi : v.value.testBit i = true) : i < v.width := by
  by_contra hge
  have hout := Nat.testBit_lt_two_pow
    (Nat.lt_of_lt_of_le h.defined_lt (Nat.pow_le_pow_right Nat.two_pos (not_lt.mp hge)))
  rw [h.defined_of_value i hi] at hout
  cases hout

theorem value_lt (h : v.Normal) : v.value < 2 ^ v.width :=
  Nat.lt_pow_two_of_testBit v.value fun i hge => by
    by_contra hi
    exact absurd (h.lt_of_value (Bool.eq_true_of_not_eq_false hi)) (not_lt.mpr hge)

theorem getD_bit (h : v.Normal) (i : Nat) : (v.bit i).getD false = v.value.testBit i := by
  have hdefined := h.defined_of_value i
  rw [bit]
  split
  · rfl
  · rename_i hnone
    exact (Bool.eq_false_iff.mpr fun hi => hnone (hdefined hi)).symm

-- All bits are defined where no bit of the vector is undefined.
theorem allDefined_iff (h : v.Normal) :
    v.allDefined = true ↔ ∀ i < v.width, (v.bit i).isSome = true := by
  simp only [allDefined, beq_iff_eq, isSome_bit]
  constructor
  · intro heq i hi
    rw [heq, testBit_mask, decide_eq_true hi]
  · intro hall
    apply Nat.eq_of_testBit_eq
    intro i
    rw [testBit_mask]
    by_cases hi : i < v.width
    · rw [hall i hi, decide_eq_true hi]
    · rw [decide_eq_false hi]
      exact Nat.testBit_lt_two_pow
        (Nat.lt_of_lt_of_le h.defined_lt (Nat.pow_le_pow_right Nat.two_pos (not_lt.mp hi)))

end Normal

-- The lowest bit apart from the others.
theorem bits_succ (width value defined : Nat) :
    (⟨width + 1, value, defined⟩ : LogicVec).bits =
      (⟨width, value / 2, defined / 2⟩ : LogicVec).bits ++
        [(⟨width + 1, value, defined⟩ : LogicVec).bit 0] := by
  have hbit (i : Nat) : (⟨width + 1, value, defined⟩ : LogicVec).bit (i + 1) =
      (⟨width, value / 2, defined / 2⟩ : LogicVec).bit i := by
    simp only [bit, Nat.testBit_succ]
  simp only [bits, List.range_succ_eq_map, List.reverse_cons, List.map_append, List.map_reverse,
    List.map_map, List.map_singleton]
  simp only [Function.comp_def, Nat.succ_eq_add_one, hbit]

theorem ofBits_concat (bits : List (Option Bool)) (bit : Option Bool) :
    ofBits (bits ++ [bit]) = (ofBits bits).snoc bit := List.foldl_concat ..

-- The bits of a vector say what it is.
theorem Normal.ofBits_bits (h : v.Normal) : ofBits v.bits = v := by
  obtain ⟨width, value, defined⟩ := v
  induction width generalizing value defined with
  | zero =>
      have hdefined : defined = 0 := Nat.lt_one_iff.mp h.defined_lt
      have hvalue : value = 0 := Nat.lt_one_iff.mp h.value_lt
      rw [hdefined, hvalue]
      rfl
  | succ width ih =>
      have hhalf : (⟨width, value / 2, defined / 2⟩ : LogicVec).Normal := by
        constructor
        · have hdefined : defined < 2 ^ width * 2 := h.defined_lt
          exact Nat.div_lt_of_lt_mul (Nat.mul_comm .. ▸ hdefined)
        · intro i hi
          rw [← Nat.testBit_succ] at hi ⊢
          exact h.defined_of_value (i + 1) hi
      have hjoin (n : Nat) : 2 * (n / 2) + (n.testBit 0).toNat = n := by
        rw [Nat.toNat_testBit, pow_zero, Nat.div_one, Nat.div_add_mod]
      rw [bits_succ, ofBits_concat, ih _ _ hhalf, LogicVec.snoc, h.getD_bit, isSome_bit, hjoin,
        hjoin]

theorem length_bits (v : LogicVec) : v.bits.length = v.width := by simp [bits]

-- Every bit of the text, counted from its end.
theorem getElem?_reverse_bits (v : LogicVec) {i : Nat} (hi : i < v.width) :
    v.bits.reverse[i]? = some (v.bit i) := by
  rw [bits, ← List.map_reverse, List.reverse_reverse, List.getElem?_map,
    List.getElem?_range hi, Option.map_some]

theorem mapM_ofSymbol?_symbols (bits : List (Option Bool)) :
    (bits.map symbol).mapM ofSymbol? = some bits := by
  induction bits with
  | nil => rfl
  | cons bit rest ih =>
      rw [List.map_cons, List.mapM_cons, ofSymbol?_symbol, ih]
      rfl

theorem Normal.ofSymbols?_bits (h : v.Normal) : ofSymbols? (v.bits.map symbol) = some v := by
  rw [ofSymbols?, mapM_ofSymbol?_symbols, Option.map_some, h.ofBits_bits]

end Rtl.LogicVec
