import Rtl.Proofs.Brackets
import Rtl.Proofs.Precedence.Reader
import Rtl.Render.Expr

namespace Rtl.Connectives

open Brackets Precedence

-- What a word does beside a conjunction: it is one, or it binds looser or may not
-- stand there without parentheses.
inductive Connective where
  | conjunction
  | looser
deriving DecidableEq, Repr

-- The words that do not bind tighter than a conjunction, as they are compared. VHDL
-- lets no other logical operator stand beside one.
def connectives : Dialect → List (String × Connective)
  | .vhdl =>
      [("and", .conjunction), ("or", .looser), ("xor", .looser), ("nor", .looser),
        ("nand", .looser), ("xnor", .looser), ("to", .looser), ("downto", .looser), (",", .looser)]
  | .simModel =>
      [("and", .conjunction), ("or", .looser), ("if", .looser), ("else", .looser),
        ("lambda", .looser), (":", .looser), (":=", .looser), (",", .looser)]

def connective? (dialect : Dialect) (word : String) : Option Connective :=
  (connectives dialect).lookup (Scope.normalize dialect.ignoreCase word)

def role (word : String) : Role :=
  if word = "(" then .opening .round
  else if word = ")" then .closing .round
  else if word = "[" then .opening .square
  else if word = "]" then .closing .square
  else .inner

-- A character that is a word of its own outside of strings.
def isDelimiter (c : Char) : Bool := ['(', ')', '[', ']', ',', '.', '\'', '~'].contains c

-- Where a reader is: between strings, in one, or behind a backslash in one.
inductive Mode where
  | plain
  | quoted
  | escaped
deriving DecidableEq, Repr

-- The words of a text of whose first word some characters are read already, given
-- with the last one first. A string is no more than a part of a word. A quote that is
-- written twice in it ends it and begins it again.
def lex (dialect : Dialect) : Mode → List Char → List Char → List String
  | _, begun, [] => endWord begun []
  | .escaped, begun, c :: rest => lex dialect .quoted (c :: begun) rest
  | .quoted, begun, c :: rest =>
      let next : Mode :=
        if c = '"' then .plain
        else if dialect = .simModel ∧ c = '\\' then .escaped
        else .quoted
      lex dialect next (c :: begun) rest
  | .plain, begun, c :: rest =>
      if c = ' ' then endWord begun (lex dialect .plain [] rest)
      else if isDelimiter c then endWord begun (String.ofList [c] :: lex dialect .plain [] rest)
      else lex dialect (if c = '"' then .quoted else .plain) (c :: begun) rest

def lexemes (dialect : Dialect) (text : String) : List String := lex dialect .plain [] text.toList

-- Whether a word ends in front of a text.
def Breaks (text : List Char) : Prop := ∀ c ∈ text.head?, c = ' ' ∨ isDelimiter c = true

theorem breaks_nil : Breaks [] := by
  intro c h
  cases h

-- A text whose words are the same in front of any other.
def Cuts (dialect : Dialect) (text : String) : Prop :=
  ∀ rest, lex dialect .plain [] (text.toList ++ rest) =
    lexemes dialect text ++ lex dialect .plain [] rest

-- A text whose words are the same wherever its last one ends with it.
def Whole (dialect : Dialect) (text : String) : Prop :=
  ∀ rest, Breaks rest → lex dialect .plain [] (text.toList ++ rest) =
    lexemes dialect text ++ lex dialect .plain [] rest

variable {dialect : Dialect} {a b text word : String} {begun rest : List Char}

theorem endWord_append (begun : List Char) (before after : List String) :
    endWord begun (before ++ after) = endWord begun before ++ after := by
  cases begun with
  | nil => rfl
  | cons => rfl

theorem lex_breaks (h : Breaks rest) (begun : List Char) :
    lex dialect .plain begun rest = endWord begun (lex dialect .plain [] rest) := by
  cases rest with
  | nil => rfl
  | cons c rest =>
      by_cases hblank : c = ' '
      · subst hblank
        rfl
      · have hdelimiter : isDelimiter c = true := (h c rfl).resolve_left hblank
        simp [lex, hblank, hdelimiter, endWord]

theorem lex_append (h : '"' ∉ text.toList) (hrest : Breaks rest) (begun : List Char) :
    lex dialect .plain begun (text.toList ++ rest) =
      lex dialect .plain begun text.toList ++ lex dialect .plain [] rest := by
  generalize text.toList = chars at h ⊢
  induction chars generalizing begun with
  | nil =>
      rw [List.nil_append, lex_breaks hrest, lex]
      exact endWord_append begun [] _
  | cons c chars ih =>
      obtain ⟨hquote, hchars⟩ := List.ne_and_not_mem_of_not_mem_cons h
      simp only [List.cons_append, lex, if_neg hquote.symm, fun begun => ih begun hchars]
      split
      · exact endWord_append begun _ _
      · split
        · exact endWord_append begun (_ :: _) _
        · rfl

theorem whole_of_unquoted (h : '"' ∉ text.toList) : Whole dialect text :=
  fun _ hrest => lex_append h hrest []

theorem breaks_blank (rest : List Char) : Breaks (' ' :: rest) := by
  intro c hc
  exact .inl (Option.some.inj hc).symm

theorem breaks_delimiter {c : Char} (h : isDelimiter c = true) (rest : List Char) :
    Breaks (c :: rest) := by
  intro d hd
  obtain rfl : c = d := Option.some.inj hd
  exact .inr h

theorem breaks_append (h : Breaks text.toList) (hrest : Breaks rest) :
    Breaks (text.toList ++ rest) := by
  generalize text.toList = chars at h ⊢
  cases chars with
  | nil => exact hrest
  | cons c chars => exact h

theorem Cuts.whole (h : Cuts dialect text) : Whole dialect text := fun rest _ => h rest

theorem Cuts.lexemes_append (h : Cuts dialect a) (b : String) :
    lexemes dialect (a ++ b) = lexemes dialect a ++ lexemes dialect b := by
  rw [lexemes, String.toList_append, h]
  rfl

theorem Cuts.whole_append (ha : Cuts dialect a) (hb : Whole dialect b) :
    Whole dialect (a ++ b) := by
  intro rest hrest
  rw [String.toList_append, List.append_assoc, ha, hb rest hrest, ha.lexemes_append,
    List.append_assoc]

theorem Whole.lexemes_append (h : Whole dialect a) (hbreaks : Breaks b.toList) :
    lexemes dialect (a ++ b) = lexemes dialect a ++ lexemes dialect b := by
  rw [lexemes, String.toList_append, h _ hbreaks]
  rfl

theorem Whole.append (ha : Whole dialect a) (hb : Whole dialect b) (hbreaks : Breaks b.toList) :
    Whole dialect (a ++ b) := by
  intro rest hrest
  rw [String.toList_append, List.append_assoc, ha _ (breaks_append hbreaks hrest), hb rest hrest,
    ha.lexemes_append hbreaks, List.append_assoc]

-- Connectives among words that no brackets stand around.
def Sees (dialect : Dialect) (words : List String) (connective : Connective) : Prop :=
  ∃ word ∈ outside role words, connective? dialect word = some connective

variable {words more : List String} {connective : Connective}

theorem sees_append (h : Closed role words) :
    Sees dialect (words ++ more) connective ↔
      Sees dialect words connective ∨ Sees dialect more connective := by
  simp only [Sees, h.outside_append, List.mem_append, or_and_right, exists_or]

theorem sees_nil : ¬ Sees dialect [] connective := nofun

theorem sees_inner (h : role word = .inner) :
    Sees dialect [word] connective ↔ connective? dialect word = some connective := by
  have houtside : outside role [word] = [word] := outside_inner h []
  simp [Sees, houtside]

-- A text with its brackets in pairs, from outside of which just the given connectives
-- are seen.
structure Reveals (dialect : Dialect) (text : String) (seen : Connective → Prop) : Prop where
  whole : Whole dialect text
  closed : Closed role (lexemes dialect text)
  sees_iff : ∀ connective, Sees dialect (lexemes dialect text) connective ↔ seen connective

-- A text in front of which a word ends and behind which one begins, and which is but
-- one word.
structure Separates (dialect : Dialect) (separator word : String) : Prop where
  cuts : Cuts dialect separator
  breaks : Breaks separator.toList
  lexemes_eq : lexemes dialect separator = [word]
  role_eq : role word = .inner

theorem separates_comma : Separates dialect ", " "," :=
  ⟨fun _ => rfl, breaks_delimiter rfl _, rfl, rfl⟩

theorem Separates.breaks_append {separator : String} (h : Separates dialect separator word)
    (text : String) : Breaks (separator ++ text).toList := by
  rw [String.toList_append]
  cases hchars : separator.toList with
  | nil =>
      have hword := h.lexemes_eq
      rw [lexemes, hchars] at hword
      cases hword
  | cons c chars =>
      have hbreaks := h.breaks
      rw [hchars] at hbreaks
      exact hbreaks

theorem lexemes_intercalate {separator : String} (h : Separates dialect separator word)
    {texts : List String} (htexts : ∀ text ∈ texts, Whole dialect text) :
    lexemes dialect (String.intercalate separator texts) =
      [word].intercalate (texts.map (lexemes dialect)) := by
  induction texts with
  | nil => rfl
  | cons first rest ih =>
      obtain ⟨hfirst, hrest⟩ := List.forall_mem_cons.mp htexts
      cases rest with
      | nil =>
          rw [String.intercalate_singleton, List.map_singleton, List.intercalate_singleton]
      | cons next rest =>
          rw [String.intercalate_cons_cons, String.append_assoc,
            hfirst.lexemes_append (h.breaks_append _), h.cuts.lexemes_append, h.lexemes_eq,
            ih hrest]
          simp only [List.map_cons, List.intercalate_cons_cons, List.append_assoc]

-- A pair of brackets, each a word of its own.
theorem bracket_of_pair {opening closing : String}
    (hpair : (opening, closing) ∈ [("(", ")"), ("[", "]")]) :
    ∃ bracket, role opening = .opening bracket ∧ role closing = .closing bracket ∧
      Cuts dialect opening ∧ Cuts dialect closing ∧ Breaks closing.toList ∧
      lexemes dialect opening = [opening] ∧ lexemes dialect closing = [closing] := by
  simp only [List.mem_cons, Prod.mk.injEq, List.not_mem_nil, or_false] at hpair
  obtain ⟨rfl, rfl⟩ | ⟨rfl, rfl⟩ := hpair
  · exact ⟨.round, rfl, rfl, fun _ => rfl, fun _ => rfl, breaks_delimiter rfl [], rfl, rfl⟩
  · exact ⟨.square, rfl, rfl, fun _ => rfl, fun _ => rfl, breaks_delimiter rfl [], rfl, rfl⟩

theorem lexemes_enclosed (h : Whole dialect text) {opening closing : String}
    (hpair : (opening, closing) ∈ [("(", ")"), ("[", "]")]) :
    lexemes dialect (opening ++ text ++ closing) =
      opening :: (lexemes dialect text ++ [closing]) := by
  obtain ⟨bracket, -, -, hcuts, -, hbreaks, hfirst, hlast⟩ := bracket_of_pair hpair
  rw [(hcuts.whole_append h).lexemes_append hbreaks, hcuts.lexemes_append, hfirst, hlast]
  rfl

namespace Reveals

variable {seen more : Connective → Prop} {separator : String}

theorem congr (h : Reveals dialect text seen)
    (hiff : ∀ connective, seen connective ↔ more connective) : Reveals dialect text more :=
  ⟨h.whole, h.closed, fun connective => (h.sees_iff connective).trans (hiff connective)⟩

theorem empty : Reveals dialect "" fun _ => False :=
  ⟨fun _ _ => rfl, .nil, fun _ => iff_of_false sees_nil not_false⟩

theorem append (ha : Reveals dialect a seen) (hb : Reveals dialect b more)
    (hbreaks : Breaks b.toList) :
    Reveals dialect (a ++ b) fun connective => seen connective ∨ more connective where
  whole := ha.whole.append hb.whole hbreaks
  closed := by
    rw [ha.whole.lexemes_append hbreaks]
    exact ha.closed.append hb.closed
  sees_iff connective := by
    rw [ha.whole.lexemes_append hbreaks, sees_append ha.closed, ha.sees_iff, hb.sees_iff]

theorem lead (h : Reveals dialect text seen) (hcuts : Cuts dialect a)
    (hword : lexemes dialect a = [word]) (hrole : role word = .inner) :
    Reveals dialect (a ++ text) fun connective =>
      connective? dialect word = some connective ∨ seen connective where
  whole := hcuts.whole_append h.whole
  closed := by
    rw [hcuts.lexemes_append, hword]
    exact (Closed.singleton hrole).append h.closed
  sees_iff connective := by
    rw [hcuts.lexemes_append, hword, sees_append (.singleton hrole), sees_inner hrole, h.sees_iff]

theorem join (ha : Reveals dialect a seen) (hseparator : Separates dialect separator word)
    (hb : Reveals dialect b more) :
    Reveals dialect (a ++ separator ++ b) fun connective =>
      seen connective ∨ connective? dialect word = some connective ∨ more connective := by
  rw [String.append_assoc]
  exact ha.append (hb.lead hseparator.cuts hseparator.lexemes_eq hseparator.role_eq)
    (hseparator.breaks_append b)

theorem intercalate (hseparator : Separates dialect separator word) {texts : List String}
    {seens : List (Connective → Prop)} (h : List.Forall₂ (Reveals dialect) texts seens) :
    Reveals dialect (String.intercalate separator texts) fun connective =>
      2 ≤ texts.length ∧ connective? dialect word = some connective ∨
        ∃ seen ∈ seens, seen connective := by
  induction h with
  | nil =>
      refine empty.congr fun connective => (iff_of_false ?_ not_false).symm
      rintro (⟨hmany, -⟩ | ⟨_, hnone, -⟩)
      · exact absurd hmany (by decide)
      · cases hnone
  | @cons text seen texts seens hfirst hrest ih =>
      cases hrest with
      | nil =>
          rw [String.intercalate_singleton]
          refine hfirst.congr fun connective => ?_
          simp
      | @cons next nextSeen texts seens hnext hrest =>
          rw [String.intercalate_cons_cons]
          refine (hfirst.join hseparator ih).congr fun connective => ?_
          have hmany : 2 ≤ (text :: next :: texts).length := Nat.le_add_left 2 texts.length
          simp only [List.exists_mem_cons_iff, and_iff_right hmany]
          tauto

-- Nothing between brackets is seen from outside.
theorem enclosed (h : Reveals dialect text seen) {opening closing : String}
    (hpair : (opening, closing) ∈ [("(", ")"), ("[", "]")]) :
    Reveals dialect (opening ++ text ++ closing) fun _ => False := by
  have hwords := lexemes_enclosed h.whole hpair
  obtain ⟨bracket, hopening, hclosing, hcuts, hends, hbreaks, -, -⟩ := bracket_of_pair hpair
  refine ⟨(hcuts.whole_append h.whole).append hends.whole hbreaks, ?_, fun connective => ?_⟩
  · rw [hwords]
    exact h.closed.bracketed hopening hclosing
  · rw [hwords, Sees, h.closed.outside_bracketed hopening hclosing]
    exact iff_of_false sees_nil not_false

-- What follows a text in brackets is not seen.
theorem applied (h : Reveals dialect text seen) (hinner : Reveals dialect a more)
    {opening closing : String} (hpair : (opening, closing) ∈ [("(", ")"), ("[", "]")]) :
    Reveals dialect (text ++ (opening ++ a ++ closing)) seen := by
  refine (h.append (hinner.enclosed hpair) ?_).congr fun _ => or_iff_left not_false
  simp only [List.mem_cons, Prod.mk.injEq, List.not_mem_nil, or_false] at hpair
  rw [String.append_assoc, String.toList_append]
  obtain ⟨rfl, -⟩ | ⟨rfl, -⟩ := hpair
  · exact breaks_delimiter rfl _
  · exact breaks_delimiter rfl _

theorem parenthesize (h : Reveals dialect text seen) (bracketed : Bool) :
    Reveals dialect (if bracketed then Renderer.parenthesize text else text) fun connective =>
      bracketed = false ∧ seen connective := by
  cases bracketed with
  | true => exact (h.enclosed (by decide)).congr fun _ => iff_of_false not_false nofun
  | false => exact h.congr fun _ => (and_iff_right rfl).symm

end Reveals

-- A text of no strings, brackets and connectives.
def Inert (dialect : Dialect) (text : String) : Prop :=
  '"' ∉ text.toList ∧
    ∀ word ∈ lexemes dialect text, role word = .inner ∧ connective? dialect word = none

instance (dialect : Dialect) (text : String) : Decidable (Inert dialect text) :=
  inferInstanceAs (Decidable ('"' ∉ text.toList ∧
    ∀ word ∈ lexemes dialect text, role word = .inner ∧ connective? dialect word = none))

theorem Inert.reveals (h : Inert dialect text) : Reveals dialect text fun _ => False where
  whole := whole_of_unquoted h.1
  closed := .of_inner fun word hword => (h.2 word hword).1
  sees_iff connective := by
    refine iff_of_false ?_ not_false
    rintro ⟨word, hword, hconnective⟩
    rw [(h.2 word (mem_of_mem_outside hword)).2] at hconnective
    cases hconnective

end Rtl.Connectives
