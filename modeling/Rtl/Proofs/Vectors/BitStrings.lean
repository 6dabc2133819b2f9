import Rtl.Proofs.Vectors.Making
import Rtl.Render.Literal

namespace Rtl

namespace Text

def hexAlphabet : List Char :=
  ['0', '1', '2', '3', '4', '5', '6', '7', '8', '9', 'a', 'b', 'c', 'd', 'e', 'f']

-- The number that hexadecimal digits in small letters stand for.
def hexValue? (digits : List Char) : Option Nat :=
  digits.foldlM (fun value digit => (hexAlphabet.idxOf? digit).map (16 * value + ·)) 0

-- The characters between two quotes.
def unquote? : List Char → Option (List Char)
  | '"' :: rest => if rest.getLast? = some '"' then some rest.dropLast else none
  | _ => none

theorem unquote?_quoted (body : List Char) : unquote? ('"' :: (body ++ ['"'])) = some body := by
  rw [unquote?, List.getLast?_concat, if_pos rfl, List.dropLast_concat]

theorem digitChar_mem_hexAlphabet {digit : Nat} (h : digit < 16) :
    Nat.digitChar digit ∈ hexAlphabet ∧
      hexAlphabet.idxOf? (Nat.digitChar digit) = some digit := by
  revert digit
  decide

theorem hexValue?_concat (digits : List Char) {digit : Nat} (h : digit < 16) :
    hexValue? (digits ++ [Nat.digitChar digit]) =
      (hexValue? digits).map fun value => 16 * value + digit := by
  rw [hexValue?, List.foldlM_append, ← hexValue?]
  cases hexValue? digits with
  | none => rfl
  | some value => simp [(digitChar_mem_hexAlphabet h).2]

theorem hexValue?_toDigits (n : Nat) :
    hexValue? (Nat.toDigits 16 n) = some n ∧ ∀ c ∈ Nat.toDigits 16 n, c ∈ hexAlphabet := by
  induction n using Nat.strongRecOn with
  | ind n ih =>
      rcases Nat.lt_or_ge n 16 with hlt | hge
      · rw [Nat.toDigits_of_lt_base hlt]
        obtain ⟨hmem, -⟩ := digitChar_mem_hexAlphabet hlt
        refine ⟨?_, List.forall_mem_singleton.mpr hmem⟩
        have hsingle := hexValue?_concat [] hlt
        simpa [hexValue?] using hsingle
      · have hlow : n % 16 < 16 := Nat.mod_lt n (by decide)
        obtain ⟨hvalue, halphabet⟩ := ih (n / 16) (Nat.div_lt_self (by omega) (by decide))
        rw [Nat.toDigits_of_base_le (by decide) hge, hexValue?_concat _ hlow, hvalue,
          Option.map_some, Nat.div_add_mod, List.forall_mem_append, List.forall_mem_singleton]
        exact ⟨rfl, halphabet, (digitChar_mem_hexAlphabet hlow).1⟩

-- Zeros in front do not count.
theorem hexValue?_zeros_append (count : Nat) (digits : List Char) :
    hexValue? (List.replicate count '0' ++ digits) = hexValue? digits := by
  induction count with
  | zero => rfl
  | succ count ih =>
      have hzero : hexAlphabet.idxOf? '0' = some 0 := by decide
      rw [← ih, List.replicate_succ, List.cons_append, hexValue?, hexValue?, List.foldlM_cons,
        hzero]
      rfl

end Text

namespace LogicVec

theorem toList_quote (body : List Char) : (quote body).toList = '"' :: (body ++ ['"']) := by
  simp [quote]

theorem hexValue?_hexDigits (count value : Nat) :
    Text.hexValue? (hexDigits count value) = some value ∧
      ∀ c ∈ hexDigits count value, c ∈ Text.hexAlphabet := by
  obtain ⟨hvalue, halphabet⟩ := Text.hexValue?_toDigits value
  rw [hexDigits, Text.numeral_eq_toDigits (by decide), Text.hexValue?_zeros_append]
  refine ⟨hvalue, List.forall_mem_append.mpr ⟨fun c hc => ?_, halphabet⟩⟩
  rw [List.eq_of_mem_replicate hc]
  exact List.mem_cons_self

-- There are as many digits as were asked for exactly where the number has no more.
theorem length_hexDigits_eq_iff {count value : Nat} (hcount : 0 < count) :
    (hexDigits count value).length = count ↔ value < 16 ^ count := by
  rw [← Nat.length_toDigits_le_iff (by decide) hcount, hexDigits,
    Text.numeral_eq_toDigits (by decide), List.length_append, List.length_replicate]
  omega

-- What digits stand for is defined throughout.
def ofDigits? (digits : List Char) : Option LogicVec :=
  (Text.hexValue? digits).map fun value =>
    ⟨4 * digits.length, value, mask (4 * digits.length)⟩

-- Reads both forms of a bit string.
def ofBitString? (text : String) : Option LogicVec :=
  match text.toList with
  | 'X' :: quoted => (Text.unquote? quoted).bind ofDigits?
  | quoted => (Text.unquote? quoted).bind ofSymbols?

-- A bit string of digits.
structure InDigits (v : LogicVec) (text : String) (digits : List Char) : Prop where
  text : text.toList = 'X' :: '"' :: (digits ++ ['"'])
  length : 4 * digits.length = v.width
  alphabet : ∀ c ∈ digits, c ∈ Text.hexAlphabet
  value : Text.hexValue? digits = some v.value
  defined : ∀ i < v.width, (v.bit i).isSome = true

-- A bit string of one symbol for each bit.
structure InSymbols (v : LogicVec) (text : String) (symbols : List Char) : Prop where
  text : text.toList = '"' :: (symbols ++ ['"'])
  length : symbols.length = v.width
  isOne : ∀ i < v.width, symbols.reverse[i]? = some '1' ↔ v.bit i = some true
  isZero : ∀ i < v.width, symbols.reverse[i]? = some '0' ↔ v.bit i = some false
  isX : ∀ i < v.width, symbols.reverse[i]? = some 'X' ↔ v.bit i = none

variable {v : LogicVec} {text : String}

theorem symbol_injective : Function.Injective symbol := by
  intro a b h
  have hback := congrArg ofSymbol? h
  rw [ofSymbol?_symbol, ofSymbol?_symbol] at hback
  exact Option.some.inj hback

theorem inSymbols_quote (v : LogicVec) :
    v.InSymbols (quote (v.bits.map symbol)) (v.bits.map symbol) := by
  have hsymbol (bit : Option Bool) {i : Nat} (hi : i < v.width) :
      (v.bits.map symbol).reverse[i]? = some (symbol bit) ↔ v.bit i = bit := by
    rw [← List.map_reverse, List.getElem?_map, getElem?_reverse_bits v hi, Option.map_some,
      Option.some.injEq, symbol_injective.eq_iff]
  exact {
    text := toList_quote _
    length := by rw [List.length_map, length_bits]
    isOne := fun i hi => hsymbol (some true) hi
    isZero := fun i hi => hsymbol (some false) hi
    isX := fun i hi => hsymbol none hi }

namespace Normal

theorem inDigits_hexDigits (h : v.Normal) (hpos : 0 < v.width) (haligned : v.width % 4 = 0)
    (hdefined : v.allDefined = true) :
    v.InDigits ("X" ++ quote (hexDigits (v.width / 4) v.value))
      (hexDigits (v.width / 4) v.value) := by
  obtain ⟨hvalue, halphabet⟩ := hexValue?_hexDigits (v.width / 4) v.value
  have hwidth : 4 * (v.width / 4) = v.width := by omega
  have hcount : 0 < v.width / 4 := by omega
  have hlength : (hexDigits (v.width / 4) v.value).length = v.width / 4 := by
    rw [length_hexDigits_eq_iff hcount]
    calc v.value < 2 ^ v.width := h.value_lt
      _ = 2 ^ (4 * (v.width / 4)) := by rw [hwidth]
      _ = 16 ^ (v.width / 4) := pow_mul 2 4 _
  exact {
    text := by rw [String.toList_append, toList_quote]; rfl
    length := by rw [hlength, hwidth]
    alphabet := halphabet
    value := hvalue
    defined := h.allDefined_iff.mp hdefined }

theorem ofBitString?_of_inDigits (h : v.Normal) {digits : List Char}
    (hform : v.InDigits text digits) : ofBitString? text = some v := by
  have hdefined := h.allDefined_iff.mpr hform.defined
  rw [allDefined, beq_iff_eq] at hdefined
  simp only [ofBitString?, hform.text]
  rw [Text.unquote?_quoted, Option.bind_some, ofDigits?, hform.value, hform.length,
    Option.map_some, ← hdefined]

theorem ofBitString?_quote (h : v.Normal) :
    ofBitString? (quote (v.bits.map symbol)) = some v := by
  simp only [ofBitString?, toList_quote]
  change (Text.unquote? _).bind _ = _
  rw [Text.unquote?_quoted, Option.bind_some, h.ofSymbols?_bits]

end Normal

-- What a bit string is, if there is one.
theorem bitString_cases (v : LogicVec) :
    (v.width % 4 = 0 ∧ v.allDefined = true ∧ v.width / 4 ≤ maxHexDigits ∧
      v.bitString = .ok ("X" ++ quote (hexDigits (v.width / 4) v.value))) ∨
    (v.width % 4 = 0 ∧ v.allDefined = true ∧ maxHexDigits < v.width / 4 ∧
      v.bitString = .error (.tooManyDigits (v.width / 4))) ∨
    (¬ (v.width % 4 = 0 ∧ v.allDefined = true) ∧
      v.bitString = .ok (quote (v.bits.map symbol))) := by
  simp only [bitString, Bool.and_eq_true, beq_iff_eq]
  by_cases hform : v.width % 4 = 0 ∧ v.allDefined = true
  · rw [if_pos hform]
    by_cases hcount : v.width / 4 ≤ maxHexDigits
    · rw [if_pos hcount]
      exact .inl ⟨hform.1, hform.2, hcount, rfl⟩
    · rw [if_neg hcount]
      exact .inr (.inl ⟨hform.1, hform.2, not_le.mp hcount, rfl⟩)
  · rw [if_neg hform]
    exact .inr (.inr ⟨hform, rfl⟩)

-- The bit string of a vector says in one of two forms what it is. There is none only where
-- there would be more digits than a text is filled up to.
theorem bitString_decodable (h : v.Made) (hwidth : 1 ≤ v.width) :
    ((∃ text, v.bitString = .ok text) ↔
      ¬ (v.width % 4 = 0 ∧ (∀ i < v.width, (v.bit i).isSome = true) ∧ 4 * 65535 < v.width)) ∧
    ∀ text, v.bitString = .ok text →
      ((∃ digits, v.InDigits text digits) ∨ ∃ symbols, v.InSymbols text symbols) ∧
      ofBitString? text = some v ∧
      ∀ other : LogicVec, other.Made → 1 ≤ other.width → other.bitString = .ok text →
        other = v := by
  have hread {v : LogicVec} (h : v.Made) (hwidth : 1 ≤ v.width) {text : String}
      (htext : v.bitString = .ok text) :
      ((∃ digits, v.InDigits text digits) ∨ ∃ symbols, v.InSymbols text symbols) ∧
        ofBitString? text = some v := by
    rcases v.bitString_cases with ⟨haligned, hdefined, -, hdigits⟩ | ⟨-, -, -, herror⟩ |
      ⟨-, hsymbols⟩
    · obtain rfl := Except.ok.inj (hdigits.symm.trans htext)
      have hform := h.normal.inDigits_hexDigits hwidth haligned hdefined
      exact ⟨.inl ⟨_, hform⟩, h.normal.ofBitString?_of_inDigits hform⟩
    · cases herror.symm.trans htext
    · obtain rfl := Except.ok.inj (hsymbols.symm.trans htext)
      exact ⟨.inr ⟨_, v.inSymbols_quote⟩, h.normal.ofBitString?_quote⟩
  constructor
  · rw [← h.normal.allDefined_iff]
    rcases v.bitString_cases with ⟨-, -, hcount, htext⟩ | ⟨haligned, hdefined, hcount, herror⟩ |
      ⟨hform, htext⟩
    · rw [maxHexDigits] at hcount
      exact iff_of_true ⟨_, htext⟩ fun ⟨haligned, _, hwide⟩ => by omega
    · rw [maxHexDigits] at hcount
      refine iff_of_false (fun ⟨text, htext⟩ => ?_) fun hnot => ?_
      · cases herror.symm.trans htext
      · exact hnot ⟨haligned, hdefined, by omega⟩
    · exact iff_of_true ⟨_, htext⟩ fun ⟨haligned, hdefined, _⟩ => hform ⟨haligned, hdefined⟩
  · intro text htext
    obtain ⟨hform, hback⟩ := hread h hwidth htext
    refine ⟨hform, hback, fun other hother hpos hsame => ?_⟩
    exact Option.some.inj ((hread hother hpos hsame).2.symm.trans hback)

-- An aligned vector with an undefined bit has a symbol for each bit.
theorem bitString_decodable_masked :
    (ofMasked 0xa5 0xf7 8).Made ∧ 1 ≤ (ofMasked 0xa5 0xf7 8).width ∧
    (ofMasked 0xa5 0xf7 8).bitString = .ok "\"1010X101\"" ∧
    ofBitString? "\"1010X101\"" = some (ofMasked 0xa5 0xf7 8) := by
  have hwidth : 1 ≤ (ofMasked 0xa5 0xf7 8).width := by decide
  have htext : (ofMasked 0xa5 0xf7 8).bitString = .ok "\"1010X101\"" := by decide +kernel
  exact ⟨.ofMasked .., hwidth, htext, ((bitString_decodable (.ofMasked ..) hwidth).2 _ htext).2.1⟩

-- The vector of so many bits that its digits cannot be filled up.
theorem bitString_of_broad :
    (ofNat 1 262144).Made ∧ 1 ≤ (ofNat 1 262144).width ∧
    (ofNat 1 262144).bitString = .error (.tooManyDigits 65536) :=
  ⟨.ofNat .., by decide +kernel, by decide +kernel⟩

end LogicVec

end Rtl
