import Rtl.Json.Value
import Rtl.Proofs.Outcome
import Rtl.Proofs.Vectors.Making

namespace Rtl.LogicVec

variable {v w : LogicVec}

theorem get?_of_lt {i : Nat} (hi : i < v.width) : v.get? i = some (v.bit i) := if_pos hi

-- Vectors that show the same bits list the same bits.
theorem bits_eq_of_get? (hwidth : v.width = w.width)
    (hget : ∀ i < v.width, v.get? i = w.get? i) : v.bits = w.bits := by
  rw [bits, bits, ← hwidth]
  refine List.map_congr_left fun i hi => ?_
  rw [List.mem_reverse, List.mem_range] at hi
  have hsame := hget i hi
  rw [get?_of_lt hi, get?_of_lt (hwidth ▸ hi)] at hsame
  exact Option.some.inj hsame

theorem Normal.eq_iff_get? (hv : v.Normal) (hw : w.Normal) :
    v = w ↔ v.width = w.width ∧ ∀ i < v.width, v.get? i = w.get? i := by
  constructor
  · rintro rfl
    exact ⟨rfl, fun _ _ => rfl⟩
  · rintro ⟨hwidth, hget⟩
    calc v = ofBits v.bits := hv.ofBits_bits.symm
      _ = ofBits w.bits := by rw [bits_eq_of_get? hwidth hget]
      _ = w := hw.ofBits_bits

-- What a constructor gives for the numbers of a vector that may not be normal.
def normalized (v : LogicVec) : LogicVec := ofMasked v.value v.defined v.width

theorem made_normalized (v : LogicVec) : v.normalized.Made := .ofMasked ..

theorem width_normalized (v : LogicVec) : v.normalized.width = v.width := rfl

theorem testBit_value_normalized (v : LogicVec) (i : Nat) :
    v.normalized.value.testBit i =
      (v.value.testBit i && (v.defined.testBit i && decide (i < v.width))) := by
  rw [normalized, ofMasked, Nat.testBit_and, Nat.testBit_and, testBit_mask]

theorem testBit_defined_normalized (v : LogicVec) (i : Nat) :
    v.normalized.defined.testBit i = (v.defined.testBit i && decide (i < v.width)) := by
  rw [normalized, ofMasked, Nat.testBit_and, testBit_mask]

theorem bit_normalized {i : Nat} (hi : i < v.width) : v.normalized.bit i = v.bit i := by
  rw [bit, bit, testBit_value_normalized, testBit_defined_normalized, decide_eq_true hi,
    Bool.and_true]
  cases v.defined.testBit i with
  | true => rw [Bool.and_true]
  | false => rfl

theorem get?_normalized (v : LogicVec) (i : Nat) : v.normalized.get? i = v.get? i := by
  by_cases hi : i < v.width
  · rw [get?_of_lt hi, ← bit_normalized hi]
    exact get?_of_lt hi
  · rw [get?, get?, if_neg hi]
    exact if_neg hi

theorem bits_normalized (v : LogicVec) : v.normalized.bits = v.bits :=
  bits_eq_of_get? rfl fun i _ => get?_normalized v i

theorem toText_normalized (v : LogicVec) : v.normalized.toText = v.toText := by
  rw [toText, toText, bits_normalized]

theorem eq_normalized_iff (v : LogicVec) : v = v.normalized ↔ v.Normal := by
  constructor
  · intro h
    rw [h]
    exact v.made_normalized.normal
  · intro h
    refine (h.eq_iff_get? v.made_normalized.normal).mpr ⟨rfl, fun i _ => ?_⟩
    exact (get?_normalized v i).symm

-- The bit shifted in is the last one, and the others are as before.
theorem bits_snoc (v : LogicVec) (bit : Option Bool) : (v.snoc bit).bits = v.bits ++ [bit] := by
  have hhalf (n : Nat) (b : Bool) : (2 * n + b.toNat) / 2 = n := by
    have hb : b.toNat ≤ 1 := Bool.toNat_le b
    omega
  have hlow : (v.snoc bit).bit 0 = bit := by
    rcases bit with _ | _ | _ <;> simp [LogicVec.bit, snoc, Nat.testBit_zero]
  rw [snoc] at hlow ⊢
  rw [bits_succ, hhalf, hhalf, hlow]

theorem bits_ofBits (bits : List (Option Bool)) : (ofBits bits).bits = bits := by
  induction bits using List.reverseRecOn with
  | nil => rfl
  | append_singleton front last ih => rw [ofBits_concat, bits_snoc, ih]

-- The characters that stand for a bit.
def IsSymbol (c : Char) : Prop := c = '0' ∨ c = '1' ∨ c = 'x' ∨ c = 'X'

-- The way in which a text writes what the character stands for.
def canonical (c : Char) : Char := if c = 'x' then 'X' else c

theorem exists_ofSymbol?_iff (c : Char) : (∃ bit, ofSymbol? c = some bit) ↔ IsSymbol c := by
  constructor
  · rintro ⟨bit, hbit⟩
    rw [ofSymbol?.eq_def] at hbit
    split at hbit
    · exact .inl rfl
    · exact .inr (.inl rfl)
    · exact .inr (.inr (.inl rfl))
    · exact .inr (.inr (.inr rfl))
    · cases hbit
  · rintro (rfl | rfl | rfl | rfl)
    · exact ⟨_, rfl⟩
    · exact ⟨_, rfl⟩
    · exact ⟨_, rfl⟩
    · exact ⟨_, rfl⟩

theorem symbol_of_ofSymbol? {c : Char} {bit : Option Bool} (h : ofSymbol? c = some bit) :
    symbol bit = canonical c := by
  obtain rfl | rfl | rfl | rfl := (exists_ofSymbol?_iff c).mp ⟨bit, h⟩
  all_goals
    obtain rfl := Option.some.inj h
    rfl

theorem exists_mapM_ofSymbol?_iff (symbols : List Char) :
    (∃ bits, symbols.mapM ofSymbol? = some bits) ↔ ∀ c ∈ symbols, IsSymbol c := by
  simp only [mapM_eq_some, exists_forall₂_iff, exists_ofSymbol?_iff]

theorem symbols_of_mapM {symbols : List Char} {bits : List (Option Bool)}
    (h : symbols.mapM ofSymbol? = some bits) : bits.map symbol = symbols.map canonical := by
  have hsame : List.Forall₂ (· = ·) (symbols.map canonical) (bits.map symbol) := by
    rw [List.forall₂_map_left_iff, List.forall₂_map_right_iff]
    exact (mapM_eq_some.mp h).imp fun c bit hbit => (symbol_of_ofSymbol? hbit).symm
  rw [List.forall₂_eq_eq_eq] at hsame
  exact hsame.symm

theorem width_ofBits (bits : List (Option Bool)) : (ofBits bits).width = bits.length := by
  rw [← length_bits, bits_ofBits]

-- As many symbols as a width can count are all read.
theorem ofText?_eq_of_lt {text : String} (h : text.length < wordLimit) :
    ofText? text = ofSymbols? text.toList := by
  rw [ofText?]
  cases hread : ofSymbols? text.toList with
  | none => rfl
  | some whole =>
      obtain ⟨bits, hbits, rfl⟩ := Option.map_eq_some_iff.mp hread
      have hwidth : (ofBits bits).width = text.length := by
        rw [width_ofBits, ← (mapM_eq_some.mp hbits).length_eq, String.length_toList]
      rw [Option.map_some, hwidth, Nat.mod_eq_of_lt h, ← hwidth]
      exact congrArg some ((eq_normalized_iff _).mpr (normal_ofBits bits)).symm

theorem Normal.ofText?_toText (h : v.Normal) (hwidth : v.width < wordLimit) :
    ofText? v.toText = some v := by
  have hlength : v.toText.length = v.width := by
    rw [toText, String.length_ofList, List.length_map, length_bits]
  rw [ofText?_eq_of_lt (hlength ▸ hwidth), toText, String.toList_ofList, h.ofSymbols?_bits]

theorem exists_ofText?_iff (text : String) :
    (∃ v, ofText? text = some v) ↔ ∀ c ∈ text.toList, IsSymbol c := by
  simp only [ofText?, ofSymbols?, Option.map_map, Option.map_eq_some_iff]
  rw [exists_comm]
  simp only [exists_and_left, exists_eq', and_true]
  exact exists_mapM_ofSymbol?_iff text.toList

theorem toText_of_ofText? {text : String} (h : ofText? text = some v)
    (hlength : text.length < wordLimit) :
    v.width = text.length ∧ v.toText = text.map canonical := by
  rw [ofText?_eq_of_lt hlength] at h
  obtain ⟨bits, hbits, rfl⟩ := Option.map_eq_some_iff.mp h
  refine ⟨?_, String.toList_injective ?_⟩
  · rw [width_ofBits, ← (mapM_eq_some.mp hbits).length_eq, String.length_toList]
  · rw [toText, String.toList_ofList, bits_ofBits, String.toList_map, symbols_of_mapM hbits]

-- A vector is its width and its bits, and its text says what it is. What else can be read are
-- the same texts with small letters for undefined bits. A width is a number of 32 bits, and of
-- a text with more symbols not all are kept.
theorem extensional_and_read_back :
    (∀ v w : LogicVec, v.Made → w.Made →
      (v = w ↔ v.width = w.width ∧ ∀ i < v.width, v.get? i = w.get? i)) ∧
    (∀ v : LogicVec, v.Made → v.width < 2 ^ 32 → ofText? v.toText = some v) ∧
    ∀ text : String,
      ((∃ v, ofText? text = some v) ↔
        ∀ c ∈ text.toList, c = '0' ∨ c = '1' ∨ c = 'x' ∨ c = 'X') ∧
      (text.length < 2 ^ 32 → ∀ v, ofText? text = some v →
        v.width = text.length ∧ v.toText = text.map fun c => if c = 'x' then 'X' else c) :=
  ⟨fun _ _ hv hw => hv.normal.eq_iff_get? hw.normal,
    fun _ hv hwidth => hv.normal.ofText?_toText hwidth,
    fun text => ⟨exists_ofText?_iff text, fun hlength _ hv => toText_of_ofText? hv hlength⟩⟩

-- Two ways to make one vector, and a text with both letters.
theorem extensional_and_read_back_masked :
    (ofMasked 7 13 4).Made ∧ (ofMasked 5 29 4).Made ∧ ofMasked 7 13 4 = ofMasked 5 29 4 ∧
    ofText? (ofMasked 7 13 4).toText = some (ofMasked 7 13 4) ∧
    ∃ v, ofText? "01xX" = some v ∧ v.toText = "01XX" := by
  obtain ⟨hext, hback, htext⟩ := extensional_and_read_back
  obtain ⟨v, hv⟩ := (htext "01xX").1.mpr (by simp)
  have hsame := (hext (ofMasked 7 13 4) (ofMasked 5 29 4) (.ofMasked ..) (.ofMasked ..)).mpr
    ⟨rfl, by decide⟩
  refine ⟨.ofMasked .., .ofMasked .., hsame, hback _ (.ofMasked ..) (by decide), v, hv, ?_⟩
  exact ((htext "01xX").2 (by decide) v hv).2.trans (by decide +kernel)

theorem ofBits_replicate (n : Nat) : ofBits (List.replicate n none) = ⟨n, 0, 0⟩ := by
  induction n with
  | zero => rfl
  | succ n ih => rw [List.replicate_succ', ofBits_concat, ih, snoc]; rfl

-- A text for nothing but undefined bits.
def blank (n : Nat) : String := String.ofList (List.replicate n 'X')

theorem ofText?_blank (n : Nat) : ofText? (blank n) = some (undefined (n % wordLimit)) := by
  have hsymbols : List.replicate n 'X' = (List.replicate n none).map symbol := by
    rw [List.map_replicate]
    rfl
  rw [ofText?, blank, String.toList_ofList, hsymbols, ofSymbols?, mapM_ofSymbol?_symbols,
    Option.map_some, ofBits_replicate]
  rfl

-- One symbol more than a width can count leaves a vector without bits. Nor is a vector read back
-- that was stored with a value for an undefined bit.
theorem not_read_back_long_and_stored :
    ((∀ c ∈ (blank (2 ^ 32)).toList, c = '0' ∨ c = '1' ∨ c = 'x' ∨ c = 'X') ∧
      ∃ v, ofText? (blank (2 ^ 32)) = some v ∧ v.width = 0 ∧
        v.toText ≠ (blank (2 ^ 32)).map fun c => if c = 'x' then 'X' else c) ∧
    ∃ v, ofJson? (.object [("width", .int 2), ("val", .array [.int 2]), ("vld", .array [.int 1])]) =
        some v ∧ v.toText = "X0" ∧ ofText? "X0" ≠ some v := by
  refine ⟨⟨fun c hc => ?_, undefined (2 ^ 32 % wordLimit), ofText?_blank _, by decide, ?_⟩,
    ⟨2, 2, 1⟩, by decide, by decide, by decide⟩
  · rw [blank, String.toList_ofList] at hc
    exact .inr (.inr (.inr (List.eq_of_mem_replicate hc)))
  · intro hsame
    have hlength := congrArg String.length hsame
    rw [String.length_map, blank, String.length_ofList, List.length_replicate] at hlength
    revert hlength
    decide

end Rtl.LogicVec
