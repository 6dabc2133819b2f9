import Rtl.Proofs.Connectives.Lexemes
import Rtl.Proofs.Names.Fresh
import Rtl.Proofs.Outcome
import Rtl.Proofs.Precedence.Words

namespace Rtl.Connectives

open Brackets Precedence

variable {dialect : Dialect} {text word : String} {chars : List Char} {c : Char}

-- A character that is in constants alone.
def isConstantChar (c : Char) : Bool := c.isDigit || c == '"'

theorem inert_of_mem (dialect : Dialect) (hmem : c ∈ word.toList) (hc : isConstantChar c = true) :
    role word = .inner ∧ connective? dialect word = none := by
  have hbracket : ∀ bracket ∈ ["(", ")", "[", "]"], word ≠ bracket := by
    rintro bracket hbracket rfl
    have hnone : ∀ bracket ∈ ["(", ")", "[", "]"], ¬ bracket.toList.any isConstantChar := by decide
    exact hnone word hbracket (List.any_eq_true.mpr ⟨c, hmem, hc⟩)
  have hnormal : c ∈ (Scope.normalize dialect.ignoreCase word).toList := by
    have hlower : c.toLower = c := by
      rw [isConstantChar, Bool.or_eq_true, beq_iff_eq] at hc
      rcases hc with hdigit | rfl
      · exact Scope.toLower_of_isDigit hdigit
      · rfl
    rw [Scope.normalize]
    split
    · rw [Text.toList_toLower]
      exact List.mem_map.mpr ⟨c, hmem, hlower⟩
    · exact hmem
  constructor
  · simp only [List.forall_mem_cons] at hbracket
    obtain ⟨h₁, h₂, h₃, h₄, -⟩ := hbracket
    simp only [role, if_neg h₁, if_neg h₂, if_neg h₃, if_neg h₄]
  · refine lookup_eq_none fun entry hentry heq => ?_
    have hnone : ∀ entry ∈ connectives dialect, ¬ entry.1.toList.any isConstantChar := by
      cases dialect with
      | vhdl | simModel => decide
    rw [heq] at hnormal
    exact hnone entry hentry (List.any_eq_true.mpr ⟨c, hnormal, hc⟩)

-- A text of one word in which there is a digit or a quote.
theorem reveals_of_mem (h : Whole dialect text) (hword : lexemes dialect text = [text])
    (hmem : c ∈ text.toList) (hc : isConstantChar c = true) :
    Reveals dialect text fun _ => False := by
  obtain ⟨hrole, hconnective⟩ := inert_of_mem dialect hmem hc
  refine ⟨h, ?_, fun connective => ?_⟩
  · rw [hword]
    exact .singleton hrole
  · rw [hword, sees_inner hrole, hconnective]
    exact iff_of_false nofun not_false

theorem lex_plain (h : ∀ c ∈ chars, c ≠ ' ' ∧ isDelimiter c = false ∧ c ≠ '"')
    (begun rest : List Char) :
    lex dialect .plain begun (chars ++ rest) =
      lex dialect .plain (chars.reverse ++ begun) rest := by
  induction chars generalizing begun with
  | nil => rfl
  | cons c chars ih =>
      obtain ⟨⟨hblank, hdelimiter, hquote⟩, hchars⟩ := List.forall_mem_cons.mp h
      have hstep : lex dialect .plain begun (c :: (chars ++ rest)) =
          lex dialect .plain (c :: begun) (chars ++ rest) := by
        simp [lex, hblank, hdelimiter, hquote]
      rw [List.cons_append, hstep, ih hchars, List.reverse_cons, List.append_assoc]
      rfl

theorem reveals_number (h : ∀ c ∈ text.toList, c.isDigit = true ∨ c = '-')
    (hdigit : ∃ c ∈ text.toList, c.isDigit = true) : Reveals dialect text fun _ => False := by
  obtain ⟨c, hmem, hc⟩ := hdigit
  have hplain : ∀ c ∈ text.toList, c ≠ ' ' ∧ isDelimiter c = false ∧ c ≠ '"' := by
    intro c hmem
    have hspecial : ¬ [' ', '(', ')', '[', ']', ',', '.', '\'', '~', '"'].any fun d =>
        d.isDigit || d == '-' := by decide
    have hne : ∀ d ∈ [' ', '(', ')', '[', ']', ',', '.', '\'', '~', '"'], c ≠ d := by
      rintro d hd rfl
      refine hspecial (List.any_eq_true.mpr ⟨c, hd, ?_⟩)
      rw [Bool.or_eq_true, beq_iff_eq]
      exact h c hmem
    simp only [List.forall_mem_cons] at hne
    simp [isDelimiter, hne]
  have hquote : '"' ∉ text.toList := fun hmem => (hplain _ hmem).2.2 rfl
  refine reveals_of_mem (whole_of_unquoted hquote) ?_ hmem
    (Bool.or_eq_true_iff.mpr (.inl hc))
  rw [lexemes, ← List.append_nil text.toList, lex_plain hplain, List.append_nil, lex, endWord,
    if_neg]
  · rw [List.reverse_reverse, String.ofList_toList]
  · rw [List.isEmpty_reverse, List.isEmpty_iff]
    exact List.ne_nil_of_mem hmem

theorem isDigit_of_mem_decimal {n : Nat} (h : c ∈ (Text.decimal n).toList) : c.isDigit = true := by
  rw [Text.decimal, Text.numeral_eq_toDigits (by decide), String.toList_ofList] at h
  exact Nat.isDigit_of_mem_toDigits (by decide) (by decide) h

theorem exists_mem_decimal (n : Nat) : ∃ c ∈ (Text.decimal n).toList, c.isDigit = true := by
  have hne : (Text.decimal n).toList ≠ [] := by
    rw [Text.decimal, Text.numeral_eq_toDigits (by decide), String.toList_ofList]
    exact Nat.toDigits_ne_nil
  obtain ⟨c, hc⟩ := List.exists_mem_of_ne_nil _ hne
  exact ⟨c, hc, isDigit_of_mem_decimal hc⟩

theorem reveals_decimal (n : Nat) : Reveals dialect (Text.decimal n) fun _ => False :=
  reveals_number (fun _ h => .inl (isDigit_of_mem_decimal h)) (exists_mem_decimal n)

theorem reveals_signedDecimal (i : Int) :
    Reveals dialect (Text.signedDecimal i) fun _ => False := by
  cases i with
  | ofNat n => exact reveals_decimal n
  | negSucc n =>
      have hchars : (Text.signedDecimal (.negSucc n)).toList =
          '-' :: (Text.decimal (n + 1)).toList := by
        simp [Text.signedDecimal]
      obtain ⟨c, hmem, hc⟩ := exists_mem_decimal (n + 1)
      refine reveals_number (fun d hd => ?_) ⟨c, hchars ▸ List.mem_cons_of_mem _ hmem, hc⟩
      rw [hchars, List.mem_cons] at hd
      exact hd.symm.imp_left isDigit_of_mem_decimal

-- Characters that leave a reader in the string in which they stand.
def Quotable (dialect : Dialect) (chars : List Char) : Prop :=
  ∀ begun rest, lex dialect .quoted begun (chars ++ rest) =
    lex dialect .quoted (chars.reverse ++ begun) rest

theorem Quotable.flatMap {write : Char → List Char} (h : ∀ c ∈ chars, Quotable dialect (write c)) :
    Quotable dialect (chars.flatMap write) := by
  induction chars with
  | nil => exact fun _ _ => rfl
  | cons c chars ih =>
      obtain ⟨hfirst, hrest⟩ := List.forall_mem_cons.mp h
      intro begun rest
      rw [List.flatMap_cons, List.append_assoc, hfirst, ih hrest, List.reverse_append,
        List.append_assoc]

theorem quotable_singleton (hquote : c ≠ '"') (hescape : c ≠ '\\') : Quotable dialect [c] := by
  intro begun rest
  simp [lex, hquote, hescape]

theorem quotable_of_plain (h : ∀ c ∈ chars, c ≠ '"' ∧ c ≠ '\\') : Quotable dialect chars := by
  have hchars : chars.flatMap (fun c => [c]) = chars := List.flatMap_singleton' chars
  rw [← hchars]
  exact .flatMap fun c hmem => quotable_singleton (h c hmem).1 (h c hmem).2

theorem reveals_quoted {head body : List Char} (hbody : Quotable dialect body)
    (hhead : ∀ c ∈ head, c ≠ ' ' ∧ isDelimiter c = false ∧ c ≠ '"') :
    Reveals dialect (String.ofList (head ++ '"' :: (body ++ ['"']))) fun _ => False := by
  have hread (rest : List Char) (hrest : Breaks rest) :
      lex dialect .plain [] ((String.ofList (head ++ '"' :: (body ++ ['"']))).toList ++ rest) =
        String.ofList (head ++ '"' :: (body ++ ['"'])) :: lex dialect .plain [] rest := by
    have hopen (begun rest : List Char) :
        lex dialect .plain begun ('"' :: rest) = lex dialect .quoted ('"' :: begun) rest := rfl
    have hclose (begun rest : List Char) :
        lex dialect .quoted begun ('"' :: rest) = lex dialect .plain ('"' :: begun) rest := rfl
    rw [String.toList_ofList, List.append_assoc, lex_plain hhead, List.cons_append,
      List.append_assoc, hopen, hbody, List.singleton_append, hclose, lex_breaks hrest]
    simp [endWord]
  have hword : lexemes dialect (String.ofList (head ++ '"' :: (body ++ ['"']))) =
      [String.ofList (head ++ '"' :: (body ++ ['"']))] := by
    simpa [lexemes, lex, endWord] using hread [] breaks_nil
  refine reveals_of_mem (fun rest hrest => ?_) hword (c := '"') (by simp) rfl
  rw [hword, hread rest hrest]
  rfl

theorem reveals_quote (head : List Char) {body : List Char}
    (hbody : ∀ c ∈ body, c ≠ '"' ∧ c ≠ '\\')
    (hhead : ∀ c ∈ head, c ≠ ' ' ∧ isDelimiter c = false ∧ c ≠ '"') :
    Reveals dialect (String.ofList head ++ LogicVec.quote body) fun _ => False := by
  rw [LogicVec.quote, ← String.ofList_append]
  exact reveals_quoted (quotable_of_plain hbody) hhead

theorem reveals_stringLiteral (dialect : Dialect) (value : String) :
    Reveals dialect (dialect.stringLiteral value) fun _ => False := by
  cases dialect with
  | vhdl =>
      have hescape (c : Char) : Quotable .vhdl (Vhdl.escapeChar c) := by
        rw [Vhdl.escapeChar]
        split
        · exact fun _ _ => rfl
        · rename_i hquote
          intro begun rest
          simp [lex, hquote]
      have htext : Dialect.stringLiteral .vhdl value =
          String.ofList ([] ++ '"' :: (value.toList.flatMap Vhdl.escapeChar ++ ['"'])) := by
        apply String.toList_injective
        simp [Dialect.stringLiteral, Vhdl.stringLiteral, Text.escape]
      rw [htext]
      exact reveals_quoted (.flatMap fun c _ => hescape c) (List.forall_mem_nil _)
  | simModel =>
      have hescape (c : Char) : Quotable .simModel (SimModel.escapeChar c) := by
        rw [SimModel.escapeChar]
        split
        · exact fun _ _ => rfl
        · rename_i hplain
          rw [not_or] at hplain
          exact quotable_singleton hplain.2 hplain.1
      have htext : Dialect.stringLiteral .simModel value =
          String.ofList ([] ++ '"' :: (value.toList.flatMap SimModel.escapeChar ++ ['"'])) := by
        apply String.toList_injective
        simp [Dialect.stringLiteral, SimModel.stringLiteral, Text.escape]
      rw [htext]
      exact reveals_quoted (.flatMap fun c _ => hescape c) (List.forall_mem_nil _)

-- The digits of a number, whatever the base.
theorem digitChar_ne (n : Nat) : n.digitChar ≠ '"' ∧ n.digitChar ≠ '\\' := by
  by_cases hstar : 16 ≤ n
  · rw [Nat.digitChar_eq_star.mpr hstar]
    decide
  · have hfew : ∀ n < 16, n.digitChar ≠ '"' ∧ n.digitChar ≠ '\\' := by decide +kernel
    exact hfew n (Nat.lt_of_not_le hstar)

theorem mem_lowDigits_ne {base depth n : Nat} (h : c ∈ Text.lowDigits base depth n) :
    c ≠ '"' ∧ c ≠ '\\' := by
  induction depth generalizing n with
  | zero =>
      obtain rfl := List.mem_singleton.mp h
      exact digitChar_ne _
  | succ depth ih => exact (List.mem_append.mp h).elim ih ih

theorem mem_hexDigits_ne {count value : Nat} (h : c ∈ LogicVec.hexDigits count value) :
    c ≠ '"' ∧ c ≠ '\\' := by
  rcases List.mem_append.mp h with hzero | hdigit
  · obtain rfl := List.eq_of_mem_replicate hzero
    decide
  · rw [Text.numeral] at hdigit
    split at hdigit
    · obtain rfl := List.mem_singleton.mp hdigit
      decide
    · exact mem_lowDigits_ne ((List.dropWhile_sublist _).subset hdigit)

theorem symbol_ne (bit : Option Bool) : LogicVec.symbol bit ≠ '"' ∧ LogicVec.symbol bit ≠ '\\' := by
  rcases bit with _ | _ | _ <;> decide

theorem reveals_bitString {vector : LogicVec} (h : vector.bitString = .ok text) :
    Reveals dialect text fun _ => False := by
  rw [LogicVec.bitString] at h
  split at h
  · split at h
    · obtain rfl := Except.ok.inj h
      exact reveals_quote ['X'] (fun c hmem => mem_hexDigits_ne hmem)
        (List.forall_mem_singleton.mpr (by decide))
    · cases h
  · obtain rfl := Except.ok.inj h
    refine reveals_quote [] (fun c hmem => ?_) nofun
    obtain ⟨bit, -, rfl⟩ := List.mem_map.mp hmem
    exact symbol_ne bit

theorem reveals_bitLiteral (bit : Option Bool) :
    Reveals dialect (LogicVec.bitLiteral bit) fun _ => False := by
  refine Inert.reveals ?_
  rcases bit with _ | _ | _ <;> cases dialect <;> decide +kernel

-- A number with the width that it is written for.
theorem reveals_sized {name : String} (h : Inert dialect name) (i : Int) (width : Nat) :
    Reveals dialect (name ++ ("(" ++ (Text.signedDecimal i ++ ", " ++ Text.decimal width) ++ ")"))
      fun _ => False :=
  h.reveals.applied ((reveals_signedDecimal i).join separates_comma (reveals_decimal width))
    (by decide)

theorem reveals_signedLiteral {vector : LogicVec} (h : vector.signedLiteral = .ok text) :
    Reveals dialect text fun _ => False := by
  rw [LogicVec.signedLiteral] at h
  split at h
  · have hinert : Inert dialect "TO_SIGNED" := by cases dialect <;> decide +kernel
    have htext : text = "TO_SIGNED" ++
        ("(" ++ (Text.signedDecimal vector.toInt ++ ", " ++ Text.decimal vector.width) ++ ")") := by
      rw [← Except.ok.inj h, Text.decimal_eq_toString]
      exact String.toList_injective (by simp [toString])
    rw [htext]
    exact reveals_sized hinert vector.toInt vector.width
  · cases h

theorem reveals_unsignedLiteral {vector : LogicVec} (h : vector.unsignedLiteral = .ok text) :
    Reveals dialect text fun _ => False := by
  rw [LogicVec.unsignedLiteral] at h
  split at h
  · have hinert : Inert dialect "TO_UNSIGNED" := by cases dialect <;> decide +kernel
    have htext : text = "TO_UNSIGNED" ++
        ("(" ++ (Text.decimal vector.value ++ ", " ++ Text.decimal vector.width) ++ ")") := by
      rw [← Except.ok.inj h, Text.decimal_eq_toString vector.width]
      exact String.toList_injective (by simp [toString])
    rw [htext]
    exact reveals_sized hinert vector.value vector.width
  · cases h

theorem reveals_bitsText {type : HwType} {vector : LogicVec}
    (h : Renderer.bitsText type vector = .ok text) : Reveals dialect text fun _ => False := by
  rw [Renderer.bitsText.eq_def] at h
  split at h
  · exact reveals_signedLiteral h
  · exact reveals_unsignedLiteral h
  · split at h
    · obtain rfl := Except.ok.inj h
      exact reveals_bitLiteral _
    · exact reveals_bitString h

-- The texts of constants are of no brackets that are open and show nothing. Those of
-- enumerations are as the labels are.
theorem reveals_valueText {r : Renderer} {value : Value} (h : r.valueText value = .ok text)
    (hlabel : ∀ index, value.payload = .label (some index) → Inert r.dialect text) :
    Reveals r.dialect text fun _ => False := by
  simp only [Renderer.valueText] at h
  obtain ⟨type, -, h⟩ := bind_eq_ok.mp h
  have hundefined {x : Except RenderError String}
      (hx : (x >>= r.dialect.undefined) = .ok text) : Reveals r.dialect text fun _ => False := by
    obtain ⟨name, -, hname⟩ := bind_eq_ok.mp hx
    cases hdialect : r.dialect with
    | vhdl =>
        rw [hdialect] at hname
        cases hname
    | simModel =>
        rw [hdialect] at hname
        obtain rfl := Except.ok.inj hname
        exact Inert.reveals (by decide +kernel)
  split at h
  · split at h
    · cases h
    · split at h
      · exact reveals_bitsText h
      · obtain ⟨_, -, h⟩ := bind_eq_ok.mp h
        cases h
  · rename_i flag hpayload
    obtain rfl := Except.ok.inj h
    refine Inert.reveals ?_
    cases flag <;> cases r.dialect <;> decide +kernel
  · rename_i number hpayload
    obtain rfl := Except.ok.inj h
    rw [← Text.signedDecimal_eq_toString]
    exact reveals_signedDecimal number
  · obtain rfl := Except.ok.inj h
    exact reveals_stringLiteral _ _
  · rename_i index hpayload
    exact (hlabel index hpayload).reveals
  · exact hundefined h
  · exact hundefined h
  · exact hundefined h
  · exact hundefined h

end Rtl.Connectives
