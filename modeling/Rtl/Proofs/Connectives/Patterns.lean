import Rtl.Proofs.Connectives.Lexemes

namespace Rtl

open Connectives

-- How an operator stands to its operands in a text.
inductive Pattern where
  | between (symbol : String)
  | before (lead : String)
  | after (tail : String)
  | function (name : String)
  | applied (opening closing : String)
  | equality
  | choice
deriving DecidableEq, Repr

namespace Pattern

-- The text with operands that are written already, if they are as many as it takes.
def text? : Pattern → List String → Option String
  | .between symbol, a :: b :: rest =>
      some (String.intercalate (" " ++ symbol ++ " ") (a :: b :: rest))
  | .before lead, [a] => some (lead ++ a)
  | .after tail, [a] => some (a ++ tail)
  | .function name, texts => some (name ++ ("(" ++ String.intercalate ", " texts ++ ")"))
  | .applied opening closing, first :: rest =>
      some (first ++ (opening ++ String.intercalate ", " rest ++ closing))
  | .equality, [a, b] => some ("(" ++ a ++ ")" ++ ("._eq" ++ ("(" ++ b ++ ")")))
  | .choice, [c, a, b] => some (a ++ " if " ++ c ++ " else " ++ b)
  | _, _ => none

-- Whether an operand stands in no brackets of the operator.
def leavesOpen : Pattern → Nat → Bool
  | .between _, _ | .choice, _ => true
  | .before _, place | .after _, place | .applied .., place => place == 0
  | .function _, _ | .equality, _ => false

-- What the operator itself is beside a conjunction.
def connective? (dialect : Dialect) : Pattern → Option Connective
  | .between symbol => Connectives.connective? dialect symbol
  | .choice => some .looser
  | _ => none

-- A pattern that adds nothing to its operands but its own connective and brackets that
-- are closed again.
def Sound (dialect : Dialect) : Pattern → Prop
  | .between symbol => Separates dialect (" " ++ symbol ++ " ") symbol
  | .before lead => Cuts dialect lead ∧ ∃ word, lexemes dialect lead = [word] ∧
      role word = .inner ∧ Connectives.connective? dialect word = none
  | .after tail => Reveals dialect tail (fun _ => False) ∧ Breaks tail.toList
  | .function name => Inert dialect name
  | .applied opening closing => (opening, closing) ∈ [("(", ")"), ("[", "]")]
  | .equality => Inert dialect "._eq"
  | .choice => dialect = .simModel

variable {dialect : Dialect} {pattern : Pattern} {texts : List String} {text : String}
  {seens : List (Connective → Prop)}

-- Of the operands only the first is left open.
theorem exists_first_iff {seen : Connective → Prop} {rest : List (Connective → Prop)}
    {connective : Connective} :
    (∃ place other, (seen :: rest)[place]? = some other ∧ (place == 0) = true ∧
      other connective) ↔ seen connective := by
  constructor
  · rintro ⟨place, other, hplace, hfirst, h⟩
    obtain rfl := beq_iff_eq.mp hfirst
    obtain rfl := Option.some.inj hplace
    exact h
  · exact fun h => ⟨0, seen, rfl, rfl, h⟩

-- Every operand is left open.
theorem exists_any_iff {connective : Connective} :
    (∃ (place : Nat) (seen : Connective → Prop), seens[place]? = some seen ∧ true = true ∧
      seen connective) ↔ ∃ seen ∈ seens, seen connective := by
  simp only [List.mem_iff_getElem?, true_and]
  constructor
  · rintro ⟨place, seen, hplace, h⟩
    exact ⟨seen, ⟨place, hplace⟩, h⟩
  · rintro ⟨seen, ⟨place, hplace⟩, h⟩
    exact ⟨place, seen, hplace, h⟩

-- Both words of a conditional expression bind looser than a conjunction.
theorem reveals_choice {c a b : String} {seenC seenA seenB : Connective → Prop}
    (hc : Reveals .simModel c seenC) (ha : Reveals .simModel a seenA)
    (hb : Reveals .simModel b seenB) :
    Reveals .simModel (a ++ " if " ++ c ++ " else " ++ b) fun connective =>
      some .looser = some connective ∨ seenC connective ∨ seenA connective ∨ seenB connective := by
  have hif : Separates .simModel " if " "if" := ⟨fun _ => rfl, breaks_blank _, rfl, rfl⟩
  have helse : Separates .simModel " else " "else" := ⟨fun _ => rfl, breaks_blank _, rfl, rfl⟩
  have hlooser : Connectives.connective? .simModel "if" = some .looser ∧
      Connectives.connective? .simModel "else" = some .looser := by decide
  refine ((ha.join hif hc).join helse hb).congr fun connective => ?_
  rw [hlooser.1, hlooser.2]
  tauto

-- From outside just the operator itself is seen, and what is seen of the operands that
-- it leaves open.
theorem reveals (hsound : pattern.Sound dialect) (h : List.Forall₂ (Reveals dialect) texts seens)
    (htext : pattern.text? texts = some text) :
    Reveals dialect text fun connective =>
      pattern.connective? dialect = some connective ∨
        ∃ place seen, seens[place]? = some seen ∧ pattern.leavesOpen place = true ∧
          seen connective := by
  unfold text? at htext
  split at htext
  · rename_i symbol a b rest
    obtain rfl := Option.some.inj htext
    have hmany : 2 ≤ (a :: b :: rest).length := Nat.le_add_left 2 rest.length
    refine (Reveals.intercalate hsound h).congr fun connective => ?_
    rw [and_iff_right hmany]
    exact or_congr Iff.rfl exists_any_iff.symm
  · obtain rfl := Option.some.inj htext
    obtain ⟨hcuts, word, hword, hrole, hplain⟩ := hsound
    cases h with
    | cons ha hnone =>
        cases hnone
        refine (ha.lead hcuts hword hrole).congr fun connective => ?_
        rw [hplain]
        exact or_congr (iff_of_false nofun nofun) exists_first_iff.symm
  · obtain rfl := Option.some.inj htext
    obtain ⟨htail, hbreaks⟩ := hsound
    cases h with
    | cons ha hnone =>
        cases hnone
        refine (ha.append htail hbreaks).congr fun connective => ?_
        rw [or_comm]
        exact or_congr (iff_of_false nofun nofun) exists_first_iff.symm
  · obtain rfl := Option.some.inj htext
    have hname := Inert.reveals hsound
    refine (hname.applied (.intercalate separates_comma h) (by decide)).congr fun connective => ?_
    exact iff_of_false not_false (by rintro (h | ⟨place, seen, -, h, -⟩) <;> cases h)
  · obtain rfl := Option.some.inj htext
    cases h with
    | cons hfirst hrest =>
        refine (hfirst.applied (.intercalate separates_comma hrest) hsound).congr
          fun connective => ?_
        exact exists_first_iff.symm.trans (or_iff_right nofun).symm
  · obtain rfl := Option.some.inj htext
    cases h with
    | cons ha hrest =>
        cases hrest with
        | cons hb hnone =>
            have hcall : Reveals dialect ("._eq" ++ ("(" ++ _ ++ ")")) fun _ => False :=
              (Inert.reveals hsound).applied hb (by decide)
            refine ((ha.enclosed (by decide)).append hcall ?_).congr fun connective => ?_
            · rw [String.toList_append]
              exact breaks_delimiter (c := '.') rfl _
            · exact iff_of_false (by simp) (by rintro (h | ⟨place, seen, -, h, -⟩) <;> cases h)
  · obtain rfl := Option.some.inj htext
    obtain rfl : dialect = .simModel := hsound
    cases h with
    | cons hc hrest =>
        cases hrest with
        | cons ha hrest =>
            cases hrest with
            | cons hb hnone =>
                cases hnone
                refine (reveals_choice hc ha hb).congr fun connective => ?_
                refine or_congr Iff.rfl (Iff.trans ?_ exists_any_iff.symm)
                simp only [List.exists_mem_cons_iff, List.not_mem_nil, false_and, exists_false,
                  or_false]
  · cases htext

end Pattern

-- A conditional expression is never written in VHDL.
def Vhdl.pattern : Operator → Pattern
  | .and => .between "AND"
  | .or => .between "OR"
  | .xor => .between "XOR"
  | .not => .before "NOT "
  | .call => .applied "(" ")"
  | .concat => .between "&"
  | .div => .between "/"
  | .downto => .between "DOWNTO"
  | .eq => .between "="
  | .ne => .between "/="
  | .event => .after "'EVENT"
  | .risingEdge => .function "RISING_EDGE"
  | .fallingEdge => .function "FALLING_EDGE"
  | .gt => .between ">"
  | .ge => .between ">="
  | .le => .between "<="
  | .index => .applied "(" ")"
  | .lt => .between "<"
  | .sub => .between "-"
  | .mul => .between "*"
  | .add => .between "+"
  | .ternary => .choice
  | .asSigned => .function "SIGNED"
  | .asUnsigned => .function "UNSIGNED"
  | .asVector => .function "STD_LOGIC_VECTOR"
  | .pow => .between "**"

def SimModel.pattern : Operator → Pattern
  | .and => .between "&"
  | .or => .between "|"
  | .xor => .between "^"
  | .not => .before "~"
  | .call => .applied "(" ")"
  | .concat => .function "Concat"
  | .div => .between "//"
  | .downto => .between ":"
  | .eq => .equality
  | .ne => .between "!="
  | .event => .after "._hasEvent(sim)"
  | .risingEdge => .after "._onRisingEdge(sim)"
  | .fallingEdge => .after "._onFallingEdge(sim)"
  | .gt => .between ">"
  | .ge => .between ">="
  | .le => .between "<="
  | .index => .applied "[" "]"
  | .lt => .between "<"
  | .sub => .between "-"
  | .mul => .between "*"
  | .add => .between "+"
  | .ternary => .choice
  | .asSigned => .after "._signed()"
  | .asUnsigned => .after "._unsigned()"
  | .asVector => .after "._vec()"
  | .pow => .function "pow"

def Dialect.pattern : Dialect → Operator → Pattern
  | vhdl, op => Vhdl.pattern op
  | simModel, op => SimModel.pattern op

section

variable {op : Operator} {texts : List String} {text : String}

theorem text?_between {symbol : String} (hmany : 2 ≤ texts.length)
    (h : Operands.infixText symbol texts = .ok text) :
    (Pattern.between symbol).text? texts = some text := by
  obtain rfl := Except.ok.inj h
  match texts, hmany with
  | _ :: _ :: _, _ => rfl

theorem unary_eq_ok {write : String → String} (hone : texts.length = 1)
    (h : Operands.unary texts write = .ok text) : ∃ a, texts = [a] ∧ write a = text := by
  obtain ⟨a, rfl⟩ := List.length_eq_one_iff.mp hone
  exact ⟨a, rfl, Except.ok.inj h⟩

theorem binary_eq_ok {write : String → String → String} (htwo : texts.length = 2)
    (h : Operands.binary texts write = .ok text) : ∃ a b, texts = [a, b] ∧ write a b = text := by
  obtain ⟨a, b, rfl⟩ := List.length_eq_two.mp htwo
  exact ⟨a, b, rfl, Except.ok.inj h⟩

theorem ternary_eq_ok {write : String → String → String → String} (hthree : texts.length = 3)
    (h : Operands.ternary texts write = .ok text) :
    ∃ a b c, texts = [a, b, c] ∧ write a b c = text := by
  obtain ⟨a, b, c, rfl⟩ := List.length_eq_three.mp hthree
  exact ⟨a, b, c, rfl, Except.ok.inj h⟩

theorem text?_call (h : Operands.call texts = .ok text) :
    (Pattern.applied "(" ")").text? texts = some text := by
  cases texts with
  | nil => cases h
  | cons name arguments =>
      obtain rfl := Except.ok.inj h
      simp [Pattern.text?, String.append_assoc]

theorem Vhdl.text?_pattern (harity : op.arity.accepts texts.length = true)
    (h : Vhdl.operator op texts = .ok text) : (Vhdl.pattern op).text? texts = some text := by
  cases op with
  | and | or | xor | div | downto | ne | gt | ge | le | lt | sub | mul | add =>
      exact text?_between (of_decide_eq_true harity) h
  | concat | eq | pow => exact text?_between (Nat.le_of_eq (beq_iff_eq.mp harity).symm) h
  | call => exact text?_call h
  | not | event =>
      obtain ⟨a, rfl, rfl⟩ := unary_eq_ok (beq_iff_eq.mp harity) h
      rfl
  | risingEdge | fallingEdge | asSigned | asUnsigned | asVector =>
      obtain ⟨a, rfl, rfl⟩ := unary_eq_ok (beq_iff_eq.mp harity) h
      refine congrArg some (String.toList_injective ?_)
      simp
  | index =>
      obtain ⟨a, b, rfl, rfl⟩ := binary_eq_ok (beq_iff_eq.mp harity) h
      refine congrArg some (String.toList_injective ?_)
      simp
  | ternary => cases h

theorem SimModel.text?_pattern (harity : op.arity.accepts texts.length = true)
    (h : SimModel.operator op texts = .ok text) :
    (SimModel.pattern op).text? texts = some text := by
  cases op with
  | and | or | xor | div | downto | ne | gt | ge | le | lt | sub | mul | add =>
      exact text?_between (of_decide_eq_true harity) h
  | call => exact text?_call h
  | not | event | risingEdge | fallingEdge | asSigned | asUnsigned | asVector =>
      obtain ⟨a, rfl, rfl⟩ := unary_eq_ok (beq_iff_eq.mp harity) h
      rfl
  | concat | eq | index | pow =>
      obtain ⟨a, b, rfl, rfl⟩ := binary_eq_ok (beq_iff_eq.mp harity) h
      refine congrArg some (String.toList_injective ?_)
      simp
  | ternary =>
      obtain ⟨a, b, c, rfl, rfl⟩ := ternary_eq_ok (beq_iff_eq.mp harity) h
      rfl

theorem Dialect.text?_pattern {dialect : Dialect} (harity : op.arity.accepts texts.length = true)
    (h : dialect.operator op texts = .ok text) : (dialect.pattern op).text? texts = some text := by
  cases dialect with
  | vhdl => exact Vhdl.text?_pattern harity h
  | simModel => exact SimModel.text?_pattern harity h

theorem Vhdl.sound_pattern (hop : op ≠ .ternary) : (Vhdl.pattern op).Sound .vhdl := by
  cases op with
  | and | or | xor | concat | div | downto | eq | ne | gt | ge | le | lt | sub | mul | add | pow =>
      exact ⟨fun _ => rfl, breaks_blank _, rfl, rfl⟩
  | not => exact ⟨fun _ => rfl, "NOT", rfl, rfl, by decide +kernel⟩
  | call | index => exact List.mem_cons_self
  | event => exact ⟨Inert.reveals (by decide +kernel), breaks_delimiter rfl _⟩
  | risingEdge | fallingEdge | asSigned | asUnsigned | asVector =>
      rw [pattern, Pattern.Sound]
      decide +kernel
  | ternary => exact absurd rfl hop

-- A method call behind an operand.
theorem SimModel.sound_after (method argument : String) {tail : String}
    (htail : tail = method ++ ("(" ++ argument ++ ")"))
    (hinert : Inert .simModel method ∧ Inert .simModel argument) (hbreaks : Breaks tail.toList) :
    (Pattern.after tail).Sound .simModel := by
  refine ⟨?_, hbreaks⟩
  rw [htail]
  exact hinert.1.reveals.applied hinert.2.reveals (by decide)

theorem SimModel.sound_pattern (op : Operator) : (SimModel.pattern op).Sound .simModel := by
  cases op with
  | and | or | xor | div | downto | ne | gt | ge | le | lt | sub | mul | add =>
      exact ⟨fun _ => rfl, breaks_blank _, rfl, rfl⟩
  | not => exact ⟨fun _ => rfl, "~", rfl, rfl, by decide⟩
  | call => exact List.mem_cons_self
  | index => exact List.mem_cons_of_mem _ List.mem_cons_self
  | event => exact sound_after "._hasEvent" "sim" rfl (by decide) (breaks_delimiter rfl _)
  | risingEdge => exact sound_after "._onRisingEdge" "sim" rfl (by decide) (breaks_delimiter rfl _)
  | fallingEdge =>
      exact sound_after "._onFallingEdge" "sim" rfl (by decide) (breaks_delimiter rfl _)
  | asSigned => exact sound_after "._signed" "" rfl (by decide) (breaks_delimiter rfl _)
  | asUnsigned => exact sound_after "._unsigned" "" rfl (by decide) (breaks_delimiter rfl _)
  | asVector => exact sound_after "._vec" "" rfl (by decide) (breaks_delimiter rfl _)
  | concat | pow | eq =>
      rw [pattern, Pattern.Sound]
      decide
  | ternary => rfl

theorem Dialect.sound_pattern {dialect : Dialect} (h : dialect.operator op texts = .ok text) :
    (dialect.pattern op).Sound dialect := by
  cases dialect with
  | vhdl =>
      refine Vhdl.sound_pattern fun hop => ?_
      rw [hop] at h
      cases h
  | simModel => exact SimModel.sound_pattern op

end

end Rtl
