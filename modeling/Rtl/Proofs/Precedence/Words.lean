import Rtl.Proofs.Precedence.Grouping

namespace Rtl.Precedence

-- Whether a word ends in front of a text.
def EndsWord (rest : List Char) : Prop := ∀ c ∈ rest.head?, c = ' ' ∨ isMark c = true

-- A text without blanks and marks.
def Plain (text : List Char) : Prop := ∀ c ∈ text, c ≠ ' ' ∧ isMark c = false

instance (text : List Char) : Decidable (Plain text) :=
  List.decidableBAll (fun c => c ≠ ' ' ∧ isMark c = false) text

theorem words_append {text : List Char} (h : Plain text) (begun rest : List Char) :
    words begun (text ++ rest) = words (text.reverse ++ begun) rest := by
  induction text generalizing begun with
  | nil => rfl
  | cons c text ih =>
      obtain ⟨hblank, hmark⟩ := h c List.mem_cons_self
      have hstep : words begun (c :: (text ++ rest)) = words (c :: begun) (text ++ rest) := by
        simp [words, hblank, hmark]
      rw [List.cons_append, hstep, ih fun d hd => h d (List.mem_cons_of_mem _ hd)]
      simp

theorem words_of_endsWord {begun rest : List Char} (hbegun : begun ≠ []) (h : EndsWord rest) :
    words begun rest = String.ofList begun.reverse :: words [] rest := by
  have hend (others : List String) :
      endWord begun others = String.ofList begun.reverse :: others := by
    simp [endWord, hbegun]
  cases rest with
  | nil => exact hend []
  | cons c rest =>
      by_cases hblank : c = ' '
      · subst hblank
        simpa [words, endWord] using hend (words [] rest)
      · have hmark : isMark c = true := (h c rfl).resolve_left hblank
        simpa [words, endWord, hblank, hmark] using
          hend (String.ofList [c] :: words [] rest)

theorem words_word {text rest : List Char} (hne : text ≠ []) (hplain : Plain text)
    (h : EndsWord rest) : words [] (text ++ rest) = String.ofList text :: words [] rest := by
  rw [words_append hplain, words_of_endsWord (by simpa using hne) h]
  simp

theorem words_blank (rest : List Char) : words [] (' ' :: rest) = words [] rest := rfl

theorem words_mark {c : Char} (hblank : c ≠ ' ') (hmark : isMark c = true) (rest : List Char) :
    words [] (c :: rest) = String.ofList [c] :: words [] rest := by
  simp [words, endWord, hblank, hmark]

theorem endsWord_blank (rest : List Char) : EndsWord (' ' :: rest) := by
  intro c hc
  exact .inl (Option.some.inj hc).symm

theorem endsWord_mark {c : Char} (h : isMark c = true) (rest : List Char) :
    EndsWord (c :: rest) := by
  intro d hd
  obtain rfl : c = d := Option.some.inj hd
  exact .inr h

def spell (dialect : Dialect) : Token → String
  | .name text => dialect.signalRef text
  | .negation => negationWord dialect
  | .binary op => op.word dialect
  | .opening => "("
  | .closing => ")"

namespace Tree

def names : Tree → List String
  | name text => [text]
  | negation operand => operand.names
  | binary _ left right => left.names ++ right.names

-- What a negation writes in front of its operand.
def negationHead : Dialect → String
  | .vhdl => "NOT "
  | .simModel => "~"

-- The text of an expression in a dialect.
def text (dialect : Dialect) : Tree → String
  | name text => dialect.signalRef text
  | negation operand =>
      negationHead dialect ++
        if operand.wrapped .not then "(" ++ operand.text dialect ++ ")" else operand.text dialect
  | binary op left right =>
      (if left.wrapped op.val then "(" ++ left.text dialect ++ ")" else left.text dialect) ++
        (" " ++ op.word dialect ++ " ") ++
          if right.wrapped op.val then "(" ++ right.text dialect ++ ")" else right.text dialect

def operandText (dialect : Dialect) (parent : Operator) (operand : Tree) : String :=
  if operand.wrapped parent then "(" ++ operand.text dialect ++ ")" else operand.text dialect

theorem text_negation (dialect : Dialect) (operand : Tree) :
    (negation operand).text dialect =
      negationHead dialect ++ operand.operandText dialect .not := rfl

theorem text_binary (dialect : Dialect) (op : BinaryOperator) (left right : Tree) :
    (binary op left right).text dialect =
      left.operandText dialect op.val ++ (" " ++ op.word dialect ++ " ") ++
        right.operandText dialect op.val := rfl

end Tree

theorem plain_of_isIdentifier {text : String} (h : isIdentifier text = true) :
    text.toList ≠ [] ∧ Plain text.toList := by
  have hc : ∀ c : Char, c.isAlphanum = true ∨ c = '_' → c ≠ ' ' ∧ isMark c = false := by
    intro c hc
    refine ⟨by rintro rfl; revert hc; decide, ?_⟩
    apply Bool.eq_false_iff.mpr
    intro hmark
    simp only [isMark, Bool.or_eq_true, beq_iff_eq] at hmark
    rcases hmark with (rfl | rfl) | rfl <;> revert hc <;> decide
  simp only [isIdentifier] at h
  split at h
  · simp at h
  · rename_i first rest htext
    simp only [Bool.and_eq_true, Bool.or_eq_true, beq_iff_eq, List.all_eq_true] at h
    rw [htext]
    refine ⟨List.cons_ne_nil _ _, ?_⟩
    intro c hmem
    cases List.mem_cons.mp hmem with
    | inl he =>
        subst he
        exact hc c (h.1.imp_left fun ha => by simp [Char.isAlphanum, ha])
    | inr hm => exact hc c (h.2 c hm)

theorem plain_signalRef {dialect : Dialect} {name : String} (h : isName dialect name = true) :
    (dialect.signalRef name).toList ≠ [] ∧ Plain (dialect.signalRef name).toList := by
  simp only [isName, Bool.and_eq_true] at h
  obtain ⟨hne, hplain⟩ := plain_of_isIdentifier h.1
  cases dialect with
  | vhdl => exact ⟨hne, hplain⟩
  | simModel =>
      have hbefore : Plain "self.".toList := by decide
      have hafter : Plain "._oldVal".toList := by decide
      simp only [Dialect.signalRef, SimModel.signalRef, String.toList_append]
      refine ⟨by simp, ?_⟩
      intro c hc
      rcases List.mem_append.mp hc with hc | hc
      · rcases List.mem_append.mp hc with hc | hc
        · exact hbefore c hc
        · exact hplain c hc
      · exact hafter c hc

theorem plain_word (dialect : Dialect) (op : BinaryOperator) :
    (op.word dialect).toList ≠ [] ∧ Plain (op.word dialect).toList := by
  obtain ⟨op, h⟩ := op
  revert h
  cases op <;> cases dialect <;> decide

theorem words_operandText {dialect : Dialect} {operand : Tree}
    (h : ∀ rest, EndsWord rest → words [] ((operand.text dialect).toList ++ rest) =
      operand.tokens.map (spell dialect) ++ words [] rest)
    (parent : Operator) {rest : List Char} (hrest : EndsWord rest) :
    words [] ((operand.operandText dialect parent).toList ++ rest) =
      (operand.operandTokens parent).map (spell dialect) ++ words [] rest := by
  by_cases hw : operand.wrapped parent = true
  · have hchars : (operand.operandText dialect parent).toList ++ rest =
        '(' :: ((operand.text dialect).toList ++ ')' :: rest) := by
      simp [Tree.operandText, hw]
    rw [hchars, words_mark (by decide) rfl, h _ (endsWord_mark rfl rest),
      words_mark (by decide) rfl]
    simp [Tree.operandTokens, hw, spell]
  · simpa only [Tree.operandText, Tree.operandTokens, if_neg hw] using h rest hrest

-- The words of an expression are those of its tokens.
theorem words_text {dialect : Dialect} {t : Tree} (hnames : ∀ name ∈ t.names, isName dialect name)
    {rest : List Char} (hrest : EndsWord rest) :
    words [] ((t.text dialect).toList ++ rest) =
      t.tokens.map (spell dialect) ++ words [] rest := by
  induction t generalizing rest with
  | name text =>
      obtain ⟨hne, hplain⟩ := plain_signalRef (hnames text (by simp [Tree.names]))
      simpa [Tree.text, Tree.tokens, spell] using words_word hne hplain hrest
  | negation operand ih =>
      have hoperand := words_operandText (fun rest => ih hnames) .not hrest
      rw [Tree.text_negation, Tree.tokens_negation, String.toList_append, List.append_assoc,
        List.map_cons, List.cons_append, ← hoperand]
      cases dialect with
      | vhdl =>
          have hplain : Plain "NOT".toList := by decide
          exact words_word (by decide) hplain (endsWord_blank _)
      | simModel => exact words_mark (by decide) rfl _
  | binary op left right ihl ihr =>
      obtain ⟨hne, hplain⟩ := plain_word dialect op
      have hright := words_operandText
        (fun rest => ihr fun name hn => hnames name (by simp [Tree.names, hn])) op.val hrest
      have hleft := words_operandText
        (fun rest => ihl fun name hn => hnames name (by simp [Tree.names, hn])) op.val
        (endsWord_blank ((op.word dialect).toList ++
          (' ' :: ((right.operandText dialect op.val).toList ++ rest))))
      have hchars : ((Tree.binary op left right).text dialect).toList ++ rest =
          (left.operandText dialect op.val).toList ++ ' ' :: ((op.word dialect).toList ++
            (' ' :: ((right.operandText dialect op.val).toList ++ rest))) := by
        simp [Tree.text_binary]
      rw [hchars, hleft, words_blank, words_word hne hplain (endsWord_blank _), words_blank, hright,
        Tree.tokens_binary]
      simp [spell]

-- No name is written like an operator or a parenthesis.
theorem isName_ne_of_mem {name : String} (h : isName .vhdl name = true) {word : String}
    (hword : word ∈ "(" :: ")" :: "NOT" :: (BinaryOperator.words .vhdl).map (·.1)) :
    name ≠ word := by
  have hnone : ∀ word ∈ "(" :: ")" :: "NOT" :: (BinaryOperator.words .vhdl).map (·.1),
      isName .vhdl word = false := by decide +kernel
  rintro rfl
  simp [hnone name hword] at h

theorem lookup_eq_none {α : Type} {entries : List (String × α)} {word : String}
    (h : ∀ entry ∈ entries, word ≠ entry.1) : entries.lookup word = none := by
  induction entries with
  | nil => rfl
  | cons entry rest ih =>
      have hne : (word == entry.1) = false := by
        simpa using h entry List.mem_cons_self
      rw [List.lookup_cons, hne]
      exact ih fun other hm => h other (List.mem_cons_of_mem _ hm)

theorem token?_of_ne {dialect : Dialect} {word name : String}
    (hopening : word ≠ "(") (hclosing : word ≠ ")") (hnegation : word ≠ negationWord dialect)
    (hwords : ∀ entry ∈ BinaryOperator.words dialect, word ≠ entry.1)
    (h : nameOf? dialect word = some name) : token? dialect word = some (.name name) := by
  simp [token?, hopening, hclosing, hnegation, lookup_eq_none hwords, h]

theorem between?_append (before inner after : List Char) :
    between? before after (before ++ (inner ++ after)) = some inner := by
  simp [between?]

theorem nameOf?_signalRef {dialect : Dialect} {name : String} (h : isIdentifier name = true) :
    nameOf? dialect (dialect.signalRef name) = some name := by
  have hchars : (dialect.signalRef name).toList =
      (readMarks dialect).1 ++ (name.toList ++ (readMarks dialect).2) := by
    cases dialect <;> simp [readMarks, Dialect.signalRef, SimModel.signalRef]
  simp [nameOf?, hchars, between?_append, h]

theorem token?_signalRef {dialect : Dialect} {name : String} (h : isName dialect name = true) :
    token? dialect (dialect.signalRef name) = some (.name name) := by
  have hid : isIdentifier name = true := (Bool.and_eq_true_iff.mp h).1
  have hname : nameOf? dialect (dialect.signalRef name) = some name := nameOf?_signalRef hid
  cases dialect with
  | vhdl =>
      refine token?_of_ne (isName_ne_of_mem h (by decide)) (isName_ne_of_mem h (by decide))
        (isName_ne_of_mem h (by decide)) ?_ hname
      intro entry hentry
      have hword := List.mem_map_of_mem (f := Prod.fst) hentry
      exact isName_ne_of_mem h (by simp [hword])
  | simModel =>
      have hhead : (SimModel.signalRef name).toList.head? = some 's' := by
        simp [SimModel.signalRef]
      have hne : ∀ word : String, word.toList.head? ≠ some 's' →
          Dialect.signalRef .simModel name ≠ word := by
        intro word hword he
        exact hword (he ▸ hhead)
      refine token?_of_ne (hne _ (by decide)) (hne _ (by decide)) (hne _ (by decide)) ?_ hname
      have hwords : ∀ entry ∈ BinaryOperator.words .simModel, entry.1.toList.head? ≠ some 's' := by
        decide
      exact fun entry hentry => hne _ (hwords entry hentry)

theorem token?_word (dialect : Dialect) (op : BinaryOperator) :
    token? dialect (op.word dialect) = some (.binary op) := by
  obtain ⟨op, h⟩ := op
  revert h
  cases op <;> cases dialect <;> decide

theorem token?_spell {dialect : Dialect} {token : Token}
    (h : ∀ name, token = .name name → isName dialect name) :
    token? dialect (spell dialect token) = some token := by
  cases token with
  | name text => exact token?_signalRef (h text rfl)
  | binary op => exact token?_word dialect op
  | negation | opening | closing => cases dialect <;> rfl

theorem mapM_token?_spell {dialect : Dialect} {tokens : List Token}
    (h : ∀ name, .name name ∈ tokens → isName dialect name) :
    (tokens.map (spell dialect)).mapM (token? dialect) = some tokens := by
  induction tokens with
  | nil => rfl
  | cons token rest ih =>
      have hfirst : token? dialect (spell dialect token) = some token :=
        token?_spell fun name he => h name (he ▸ List.mem_cons_self)
      simp [List.mapM_cons, hfirst, ih fun name hm => h name (List.mem_cons_of_mem _ hm)]

theorem mem_names_of_mem_tokens {t : Tree} {name : String} (h : .name name ∈ t.tokens) :
    name ∈ t.names := by
  have hoperand : ∀ (parent : Operator) (operand : Tree),
      .name name ∈ operand.operandTokens parent → .name name ∈ operand.tokens := by
    intro parent operand hm
    by_cases hw : operand.wrapped parent = true
    · simpa [Tree.operandTokens, hw] using hm
    · simpa [Tree.operandTokens, hw] using hm
  induction t with
  | name text => simpa [Tree.tokens, Tree.names] using h
  | negation operand ih =>
      rw [Tree.tokens_negation, List.mem_cons] at h
      rcases h with he | hm
      · cases he
      · exact ih (hoperand _ _ hm)
  | binary op left right ihl ihr =>
      rw [Tree.tokens_binary, List.mem_append, List.mem_cons] at h
      rcases h with hl | he | hr
      · exact List.mem_append_left _ (ihl (hoperand _ _ hl))
      · cases he
      · exact List.mem_append_right _ (ihr (hoperand _ _ hr))

-- The text of an expression reads as its tokens do.
theorem read?_text {dialect : Dialect} {t : Tree} (h : ∀ name ∈ t.names, isName dialect name) :
    read? dialect (t.text dialect) = group? t.tokens := by
  have hwords : words [] (t.text dialect).toList = t.tokens.map (spell dialect) := by
    have hend : EndsWord [] := nofun
    simpa [words, endWord] using words_text h hend
  have htokens : (t.tokens.map (spell dialect)).mapM (token? dialect) = some t.tokens :=
    mapM_token?_spell fun name hm => h name (mem_names_of_mem_tokens hm)
  rw [read?, hwords, htokens]
  rfl

end Rtl.Precedence
