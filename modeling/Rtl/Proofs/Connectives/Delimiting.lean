import Rtl.Proofs.Connectives.Exposure
import Rtl.Proofs.Precedence.Unique

namespace Rtl

open Brackets Connectives

-- The operators that give their operands no parentheses. Of an index it is the first
-- operand that gets none.
def Operator.unranked : List Operator := [.pow, .asSigned, .asUnsigned, .asVector]

theorem Operator.precedence_unranked {op : Operator} (h : op ∈ Operator.unranked) :
    op.precedence = none := by
  revert h
  cases op <;> decide

-- The operators among them, and the index, that have brackets of their own around an
-- operand.
def Dialect.delimits : Dialect → Operator → Bool
  | vhdl, op => [.asSigned, .asUnsigned, .asVector].contains op
  | simModel, op => op == .pow

namespace Connectives

-- A bracket that is open in front of a place and closed by its partner behind it.
def Encloses (dialect : Dialect) (before after : String) : Prop :=
  ∃ outer opening inner inner' closing outer' bracket,
    lexemes dialect before = outer ++ opening :: inner ∧ role opening = .opening bracket ∧
    Closed role inner ∧ lexemes dialect after = inner' ++ closing :: outer' ∧
    role closing = .closing bracket ∧ Closed role inner'

variable {dialect : Dialect} {before after : String}

theorem not_encloses_of_before (h : lexemes dialect before = []) :
    ¬ Encloses dialect before after := by
  rintro ⟨outer, opening, inner, _, _, _, _, hbefore, -⟩
  rw [h] at hbefore
  exact absurd hbefore.symm (by simp)

theorem not_encloses_of_after (h : lexemes dialect after = []) :
    ¬ Encloses dialect before after := by
  rintro ⟨_, _, _, inner, closing, outer, _, -, -, -, hafter, -⟩
  rw [h] at hafter
  exact absurd hafter.symm (by simp)

-- A call of a function on what stands at the place.
theorem encloses_call {name : String} (hbefore : lexemes dialect before = [name, "("])
    (hafter : lexemes dialect after = [")"]) : Encloses dialect before after :=
  ⟨[name], "(", [], [], ")", [], .round, hbefore, rfl, .nil, hafter, rfl, .nil⟩

end Connectives

namespace Precedence

def separator (dialect : Dialect) (between : BinaryOperator) : String :=
  " " ++ between.word dialect ++ " "

variable {dialect : Dialect} {between : BinaryOperator} {a b text : String}

theorem not_suffix_separator (hend : text ∈ ["(", ", ", "** "]) :
    ¬ text.toList <:+ (separator dialect between).toList ∧
      text.toList.length ≤ (separator dialect between).toList.length := by
  obtain ⟨between, h⟩ := between
  revert h text
  cases between with
  | mul | div | add | sub | and | xor | or | ne | gt | lt | ge | le => cases dialect <;> decide
  | _ => exact fun _ h => absurd h (by decide)

theorem not_prefix_separator (hstart : text ∈ [")", "(", "[", ".", ", ", " **"]) :
    ¬ text.toList <+: (separator dialect between).toList ∧
      text.toList.length ≤ (separator dialect between).toList.length := by
  obtain ⟨between, h⟩ := between
  revert h text
  cases between with
  | mul | div | add | sub | and | xor | or | ne | gt | lt | ge | le => cases dialect <;> decide
  | _ => exact fun _ h => absurd h (by decide)

-- Texts with different ends make another text in the other order.
theorem append_ne_of_ends (text : String) (hend : text ∈ ["(", ", ", "** "])
    (ha : text.toList <:+ a.toList) (hb : (separator dialect between).toList <:+ b.toList) :
    a ++ b ≠ b ++ a := by
  intro heq
  obtain ⟨hdiffers, hlength⟩ := not_suffix_separator hend
  have hlists := congrArg String.toList heq
  rw [String.toList_append, String.toList_append] at hlists
  have hsame : text.toList <:+ a.toList ++ b.toList :=
    hlists ▸ ha.trans (List.suffix_append _ _)
  exact hdiffers (List.suffix_of_suffix_length_le hsame (hb.trans (List.suffix_append _ _)) hlength)

theorem append_ne_of_starts (text : String) (hstart : text ∈ [")", "(", "[", ".", ", ", " **"])
    (ha : text.toList <+: a.toList) (hb : (separator dialect between).toList <+: b.toList) :
    b ++ a ≠ a ++ b := by
  intro heq
  obtain ⟨hdiffers, hlength⟩ := not_prefix_separator hstart
  have hlists := congrArg String.toList heq
  rw [String.toList_append, String.toList_append] at hlists
  have hsame : text.toList <+: b.toList ++ a.toList :=
    hlists ▸ ha.trans (List.prefix_append _ _)
  exact hdiffers (List.prefix_of_prefix_length_le hsame (hb.trans (List.prefix_append _ _)) hlength)

end Precedence

open Operator Precedence

variable {dialect : Dialect} {op : Operator} {left right : List String}

-- What stands around the place of an operand among others, whatever the operand is:
-- whether there is a bracket, and on which side there is nothing, so that it makes no
-- difference there what else comes before it or behind it.
structure Surrounds (dialect : Dialect) (op : Operator) (left right : List String)
    (before after : String) : Prop where
  operator_eq : ∀ own, dialect.operator op (left ++ own :: right) = .ok (before ++ own ++ after)
  encloses_iff : (∀ text ∈ left ++ right, ∃ seen, Reveals dialect text seen) →
    (Encloses dialect before after ↔ dialect.delimits op = true)
  front_iff : ∀ between head, (separator dialect between).toList <:+ head.toList →
    (before ++ head = head ++ before ↔ dialect.delimits op = false ∧ left = [])
  back_iff : ∀ between tail, (separator dialect between).toList <+: tail.toList →
    (tail ++ after = after ++ tail ↔ dialect.delimits op = false ∧ left ≠ [])

theorem empty_append_comm (text : String) : "" ++ text = text ++ "" := by
  rw [String.empty_append, String.append_empty]

-- Nothing in front of a place, or a text that ends with the separator.
def Leads (separator head : String) (nothing : Prop) : Prop :=
  head = "" ∧ nothing ∨ separator.toList <:+ head.toList ∧ ¬ nothing

-- Nothing behind a place, or a text that starts with the separator.
def Trails (separator tail : String) (nothing : Prop) : Prop :=
  tail = "" ∧ nothing ∨ separator.toList <+: tail.toList ∧ ¬ nothing

section

variable {before after head tail : String} {between : BinaryOperator} {nothing : Prop}

theorem Surrounds.front_comm_iff (h : Surrounds dialect op left right before after)
    (hhead : Leads (separator dialect between) head nothing) :
    before ++ head = head ++ before ↔ nothing ∨ dialect.delimits op = false ∧ left = [] := by
  rcases hhead with ⟨rfl, hnone⟩ | ⟨hends, hsome⟩
  · exact iff_of_true (empty_append_comm before).symm (.inl hnone)
  · rw [h.front_iff between head hends, or_iff_right hsome]

theorem Surrounds.back_comm_iff (h : Surrounds dialect op left right before after)
    (htail : Trails (separator dialect between) tail nothing) :
    tail ++ after = after ++ tail ↔ nothing ∨ dialect.delimits op = false ∧ left ≠ [] := by
  rcases htail with ⟨rfl, hnone⟩ | ⟨hstarts, hsome⟩
  · exact iff_of_true (empty_append_comm after) (.inl hnone)
  · rw [h.back_iff between tail hstarts, or_iff_right hsome]

end

theorem surrounds_cast (hop : op ∈ [.asSigned, .asUnsigned, .asVector]) :
    ∃ before after, Surrounds dialect op [] [] before after := by
  cases op with
  | asSigned | asUnsigned | asVector =>
      cases dialect with
      | vhdl =>
          exact ⟨_, ")", fun own => rfl, fun _ => iff_of_true (encloses_call rfl rfl) rfl,
            fun _ _ h => iff_of_false (append_ne_of_ends "(" (by decide) (by decide) h) nofun,
            fun _ _ h => iff_of_false (append_ne_of_starts ")" (by decide) (by decide) h) nofun⟩
      | simModel =>
          have hbehind {tail : String} {x : String → Except RenderError String}
              (h : ∀ own, x own = .ok (own ++ tail)) (own : String) :
              x own = .ok ("" ++ own ++ tail) := by
            rw [String.empty_append]
            exact h own
          exact ⟨"", _, hbehind fun own => rfl,
            fun _ => iff_of_false (not_encloses_of_before rfl) nofun,
            fun _ head _ => iff_of_true (empty_append_comm head) ⟨rfl, rfl⟩,
            fun _ _ h => iff_of_false (append_ne_of_starts "." (by decide) (by decide) h)
              fun hleft => hleft.2 rfl⟩
  | _ => exact absurd hop (by decide)

theorem surrounds_index (b : String) :
    ∃ before after, Surrounds dialect .index [] [b] before after := by
  cases dialect with
  | vhdl =>
      refine ⟨"", "(" ++ b ++ ")", fun own => congrArg Except.ok ?_,
        fun _ => iff_of_false (not_encloses_of_before rfl) nofun,
        fun _ head _ => iff_of_true (empty_append_comm head) ⟨rfl, rfl⟩,
        fun _ _ h => iff_of_false (append_ne_of_starts "(" (by decide) ?_ h)
          fun hleft => hleft.2 rfl⟩
      · simp [String.append_assoc]
      · simp
  | simModel =>
      refine ⟨"", "[" ++ b ++ "]", fun own => congrArg Except.ok ?_,
        fun _ => iff_of_false (not_encloses_of_before rfl) nofun,
        fun _ head _ => iff_of_true (empty_append_comm head) ⟨rfl, rfl⟩,
        fun _ _ h => iff_of_false (append_ne_of_starts "[" (by decide) ?_ h)
          fun hleft => hleft.2 rfl⟩
      · simp [String.append_assoc]
      · simp

theorem surrounds_base (b : String) :
    ∃ before after, Surrounds dialect .pow [] [b] before after := by
  cases dialect with
  | vhdl =>
      refine ⟨"", " ** " ++ b, fun own => congrArg Except.ok ?_,
        fun _ => iff_of_false (not_encloses_of_before rfl) nofun,
        fun _ head _ => iff_of_true (empty_append_comm head) ⟨rfl, rfl⟩,
        fun _ _ h => iff_of_false (append_ne_of_starts " **" (by decide) ?_ h)
          fun hleft => hleft.2 rfl⟩
      · simp [String.append_assoc]
      · simp
  | simModel =>
      have hcomma : Separates .simModel ", " "," := separates_comma
      have hends : Breaks ")".toList := breaks_delimiter rfl []
      have hlast : lexemes .simModel ")" = [")"] := rfl
      refine ⟨"pow(", ", " ++ (b ++ ")"), fun own => congrArg Except.ok ?_, fun hreveals => ?_,
        fun _ _ h => iff_of_false (append_ne_of_ends "(" (by decide) (by decide) h) nofun,
        fun _ _ h => iff_of_false (append_ne_of_starts ", " (by decide) ?_ h) nofun⟩
      · simp [String.append_assoc]
      · obtain ⟨_, hb⟩ := hreveals b List.mem_cons_self
        refine iff_of_true ⟨["pow"], "(", [], "," :: lexemes .simModel b, ")", [], .round, rfl,
          rfl, .nil, ?_, rfl, .inner rfl hb.closed⟩ rfl
        rw [hcomma.cuts.lexemes_append, hcomma.lexemes_eq, hb.whole.lexemes_append hends, hlast]
        rfl
      · simp

theorem surrounds_exponent (a : String) :
    ∃ before after, Surrounds dialect .pow [a] [] before after := by
  cases dialect with
  | vhdl =>
      refine ⟨a ++ " ** ", "", fun own => congrArg Except.ok ?_,
        fun _ => iff_of_false (not_encloses_of_after rfl) nofun,
        fun _ _ h => iff_of_false (append_ne_of_ends "** " (by decide) ?_ h) nofun,
        fun _ tail _ => iff_of_true (empty_append_comm tail).symm ⟨rfl, List.cons_ne_nil _ _⟩⟩
      · simp [String.append_assoc]
      · rw [String.toList_append]
        exact .trans (by decide) (List.suffix_append _ _)
  | simModel =>
      have hcomma : Separates .simModel ", " "," := separates_comma
      have hcall : Cuts .simModel "pow(" := fun _ => rfl
      refine ⟨"pow(" ++ (a ++ ", "), ")", fun own => congrArg Except.ok ?_, fun hreveals => ?_,
        fun _ _ h => iff_of_false (append_ne_of_ends ", " (by decide) ?_ h) nofun,
        fun _ _ h => iff_of_false (append_ne_of_starts ")" (by decide) (by decide) h) nofun⟩
      · simp [String.append_assoc]
      · obtain ⟨_, ha⟩ := hreveals a List.mem_cons_self
        refine iff_of_true ⟨["pow"], "(", lexemes .simModel a ++ [","], [], ")", [], .round, ?_,
          rfl, ha.closed.append (.singleton rfl), rfl, rfl, .nil⟩ rfl
        rw [hcall.lexemes_append, ha.whole.lexemes_append hcomma.breaks, hcomma.lexemes_eq]
        rfl
      · rw [String.toList_append, String.toList_append, ← List.append_assoc]
        exact List.suffix_append _ _

theorem exists_surrounds (dialect : Dialect) (hop : op ∈ .index :: unranked)
    (harity : op.arity.accepts (left.length + right.length + 1) = true)
    (hfirst : op = .index → left = []) :
    ∃ before after, Surrounds dialect op left right before after := by
  have hunary (h : left.length + right.length + 1 = 1) : left = [] ∧ right = [] := by
    refine ⟨List.length_eq_zero_iff.mp ?_, List.length_eq_zero_iff.mp ?_⟩ <;> omega
  have hbinary (h : left.length + right.length + 1 = 2) :
      (left = [] ∧ ∃ b, right = [b]) ∨ (∃ a, left = [a]) ∧ right = [] := by
    simp only [← List.length_eq_one_iff, ← List.length_eq_zero_iff]
    omega
  cases op with
  | asSigned | asUnsigned | asVector =>
      obtain ⟨rfl, rfl⟩ := hunary (beq_iff_eq.mp harity)
      exact surrounds_cast (by decide)
  | index =>
      obtain ⟨rfl, b, rfl⟩ | ⟨⟨a, rfl⟩, -⟩ := hbinary (beq_iff_eq.mp harity)
      · exact surrounds_index b
      · exact absurd (hfirst rfl) (List.cons_ne_nil _ _)
  | pow =>
      obtain ⟨rfl, b, rfl⟩ | ⟨⟨a, rfl⟩, rfl⟩ := hbinary (beq_iff_eq.mp harity)
      · exact surrounds_base b
      · exact surrounds_exponent a
  | _ => exact absurd hop (by decide)

-- A text among others with something between them.
theorem exists_intercalate_eq (separator : String) (front back : List String) :
    ∃ head tail, (∀ text, String.intercalate separator (front ++ text :: back) =
        head ++ text ++ tail) ∧
      Leads separator head (front = []) ∧ Trails separator tail (back = []) := by
  have hback : ∃ tail, (∀ text, String.intercalate separator (text :: back) = text ++ tail) ∧
      Trails separator tail (back = []) := by
    cases back with
    | nil => exact ⟨"", by simp, .inl ⟨rfl, rfl⟩⟩
    | cons next rest =>
        refine ⟨separator ++ String.intercalate separator (next :: rest), fun text => ?_,
          .inr ⟨?_, List.cons_ne_nil _ _⟩⟩
        · rw [String.intercalate_cons_cons, String.append_assoc]
        · rw [String.toList_append]
          exact List.prefix_append _ _
  obtain ⟨tail, htail, hedge⟩ := hback
  by_cases hfront : front = []
  · subst hfront
    exact ⟨"", tail, fun text => by simp [htail], .inl ⟨rfl, rfl⟩, hedge⟩
  · refine ⟨String.intercalate separator front ++ separator, tail, fun text => ?_,
      .inr ⟨?_, hfront⟩, hedge⟩
    · rw [String.intercalate_append_of_ne_nil hfront (List.cons_ne_nil _ _), htail,
        String.append_assoc, String.append_assoc, String.append_assoc]
    · rw [String.toList_append]
      exact List.suffix_append _ _

-- Two texts around another one may be put around it in the other order only if they
-- are the same text in the other order.
theorem rearranged_iff {before after head tail own placed : String} :
    before ++ (head ++ placed ++ tail) ++ after = head ++ (before ++ own ++ after) ++ tail ↔
      placed = own ∧ before ++ head = head ++ before ∧ tail ++ after = after ++ tail := by
  have hleft : before ++ (head ++ placed ++ tail) ++ after =
      (before ++ head) ++ (placed ++ (tail ++ after)) := by
    simp only [String.append_assoc]
  have hright : head ++ (before ++ own ++ after) ++ tail =
      (head ++ before) ++ (own ++ (after ++ tail)) := by
    simp only [String.append_assoc]
  rw [hleft, hright]
  constructor
  · intro heq
    have hlists := congrArg String.toList heq
    simp only [String.toList_append] at hlists
    obtain ⟨hfront, hrest⟩ := List.append_inj hlists (by simp [Nat.add_comm])
    obtain ⟨hplaced, hback⟩ := List.append_inj' hrest (by simp [Nat.add_comm])
    rw [← String.toList_append, ← String.toList_append] at hfront hback
    exact ⟨String.toList_injective hplaced, String.toList_injective hfront,
      String.toList_injective hback⟩
  · rintro ⟨rfl, hfront, hback⟩
    rw [hfront, hback]

namespace Renderer

variable {r : Renderer} {op : Operator} {left right front back : List Expr} {type : TypeId}

theorem exprText_apply (op : Operator) (operands : List Expr) (type : TypeId) :
    r.exprText (.apply op operands type) =
      r.applyText op (operands.map fun e => (e, fun _ => r.exprText e)) :=
  congrArg (r.applyText op) (withTexts_eq_map operands)

theorem brackets_of_precedence {parent : Operator} (h : parent.precedence = none) (place : Nat)
    (operand : Expr) : r.brackets parent place operand = false := by
  rw [brackets, Bool.and_eq_false_iff]
  refine .inr ?_
  cases r.operandOperator? operand with
  | none => rfl
  | some child =>
      rw [Option.any_some, Operator.needsParens, h]
      split
      · cases ‹_ = some _›
      · rfl

-- Their operands are written as they are on their own.
theorem placeText_unranked (hop : op ∈ .index :: unranked) (place : Nat) (operand : Expr)
    (text : Pending) : r.placeText op place operand text = text () := by
  rcases List.mem_cons.mp hop with rfl | hop
  · rfl
  have hplain : r.operandText op place operand text = text () := by
    rw [operandText_eq, brackets_of_precedence (precedence_unranked hop)]
    exact bind_pure _
  cases op with
  | pow | asSigned | asUnsigned | asVector => exact hplain
  | _ => exact absurd hop (by decide)

theorem exprText_unranked (hop : op ∈ .index :: unranked) {operands : List Expr}
    (harity : op.arity.accepts operands.length = true) (type : TypeId) :
    r.exprText (.apply op operands type) = operands.mapM r.exprText >>= r.dialect.operator op := by
  rw [exprText_apply, applyText_eq (by rwa [List.length_map])]
  simp only [placeText_unranked hop]
  have hplain := mapM_zipIdx_fst (fun operand : Expr × Pending => operand.2 ())
    (operands.map fun e => (e, fun _ => r.exprText e))
  rw [List.mapM_map] at hplain
  exact congrArg (· >>= _) hplain

theorem mapM_append_cons_eq_ok {α β ε : Type} {f : α → Except ε β} {front back : List α}
    {texts texts' : List β} {a : α} {text : β} (hfront : front.mapM f = .ok texts)
    (ha : f a = .ok text) (hback : back.mapM f = .ok texts') :
    (front ++ a :: back).mapM f = .ok (texts ++ text :: texts') := by
  rw [mapM_eq_ok] at hfront hback ⊢
  exact List.rel_append hfront (.cons ha hback)

theorem parenthesized_eq_iff {bracketed : Bool} {own : String} :
    (if bracketed then parenthesize own else own) = own ↔ bracketed = false := by
  cases bracketed with
  | false => exact iff_of_true rfl rfl
  | true =>
      refine iff_of_false (fun heq => ?_) nofun
      have hlength : ("(" ++ own ++ ")").length = own.length := congrArg String.length heq
      rw [String.length_append, String.length_append, Nat.add_right_comm] at hlength
      exact absurd hlength (Nat.ne_of_gt (Nat.lt_add_of_pos_left (by decide)))

theorem nil_iff_of_mapM {α β ε : Type} {f : α → Except ε β} {as : List α} {bs : List β}
    (h : as.mapM f = .ok bs) : as = [] ↔ bs = [] := by
  rw [← List.length_eq_zero_iff, ← List.length_eq_zero_iff, (mapM_eq_ok.mp h).length_eq]

-- Below another operator they get no parentheses themselves.
theorem brackets_of_unranked (hop : op ∈ unranked) (between : BinaryOperator)
    (operands : List Expr) (type : TypeId) :
    r.brackets between.val 0 (.apply op operands type) = false := by
  have hprecedence : op.precedence = none := precedence_unranked hop
  rw [brackets, Bool.and_eq_false_iff]
  exact .inr (by simp [operandOperator?, Operator.needsParens, hprecedence])

-- The text around an operand of one of these operators.
theorem exists_around (hop : op ∈ .index :: unranked)
    (harity : op.arity.accepts (left.length + right.length + 1) = true)
    (hfirst : op = .index → left = [])
    (hwritten : ∀ e ∈ left ++ right, ∃ text, r.exprText e = .ok text) :
    ∃ texts texts' before after, left.mapM r.exprText = .ok texts ∧
      right.mapM r.exprText = .ok texts' ∧ Surrounds r.dialect op texts texts' before after ∧
      ∀ e own type, r.exprText e = .ok own →
        r.exprText (.apply op (left ++ e :: right) type) = .ok (before ++ own ++ after) := by
  obtain ⟨hleft, hright⟩ := List.forall_mem_append.mp hwritten
  obtain ⟨texts, htexts⟩ := exists_mapM_eq_ok hleft
  obtain ⟨texts', htexts'⟩ := exists_mapM_eq_ok hright
  have hlength := (mapM_eq_ok.mp htexts).length_eq
  have hlength' := (mapM_eq_ok.mp htexts').length_eq
  obtain ⟨before, after, hsurrounds⟩ := exists_surrounds r.dialect hop
    (hlength ▸ hlength' ▸ harity) fun h => (nil_iff_of_mapM htexts).mp (hfirst h)
  refine ⟨texts, texts', before, after, htexts, htexts', hsurrounds, fun e own type hown => ?_⟩
  rw [exprText_unranked hop (by simpa [Nat.add_assoc] using harity),
    mapM_append_cons_eq_ok htexts hown htexts']
  exact hsurrounds.operator_eq own

-- The text around an operand among others of an operator that is written between them.
theorem exists_between (between : BinaryOperator) (hmany : front ++ back ≠ [])
    (hwritten : ∀ e ∈ front ++ back, ∃ text, r.exprText e = .ok text) :
    ∃ head tail, (∀ e own type, r.exprText e = .ok own →
        r.exprText (.apply between.val (front ++ e :: back) type) =
          .ok (head ++ (if r.brackets between.val 0 e then parenthesize own else own) ++ tail)) ∧
      Leads (separator r.dialect between) head (front = []) ∧
      Trails (separator r.dialect between) tail (back = []) := by
  let write (operand : Expr) : Except RenderError String :=
    r.operandText between.val 0 operand fun _ => r.exprText operand
  have hwrite {e : Expr} {own : String} (h : r.exprText e = .ok own) : write e =
      .ok (if r.brackets between.val 0 e then parenthesize own else own) := by
    simp only [write, operandText_eq, h]
    rfl
  have hsome (e : Expr) (h : e ∈ front ++ back) : ∃ text, write e = .ok text := by
    obtain ⟨own, hown⟩ := hwritten e h
    exact ⟨_, hwrite hown⟩
  obtain ⟨hfront, hback⟩ := List.forall_mem_append.mp hsome
  obtain ⟨texts, htexts⟩ := exists_mapM_eq_ok hfront
  obtain ⟨texts', htexts'⟩ := exists_mapM_eq_ok hback
  obtain ⟨head, tail, hjoin, hhead, htail⟩ :=
    exists_intercalate_eq (separator r.dialect between) texts texts'
  refine ⟨head, tail, fun e own type hown => ?_, ?_, ?_⟩
  · have hlength : 2 ≤ (front ++ e :: back).length := by
      have hpos := List.length_pos_of_ne_nil hmany
      simp only [List.length_append, List.length_cons] at hpos ⊢
      omega
    have hall : (front ++ e :: back).mapM write = _ :=
      mapM_append_cons_eq_ok htexts (hwrite hown) htexts'
    rw [exprText_apply, applyText_between r between (by rwa [List.length_map]), List.mapM_map]
    refine bind_eq_ok.mpr ⟨_, hall, congrArg Except.ok (hjoin _)⟩
  · rwa [nil_iff_of_mapM htexts]
  · rwa [nil_iff_of_mapM htexts']

theorem exists_reveals_of_mapM {es : List Expr} {texts : List String}
    (hlegible : ∀ e ∈ es, r.Legible e) (h : es.mapM r.exprText = .ok texts) :
    ∀ text ∈ texts, ∃ seen, Reveals r.dialect text seen := by
  intro text hmem
  obtain ⟨e, he, hown⟩ := exists_mem_of_forall₂ (mapM_eq_ok.mp h) hmem
  exact ⟨_, (hlegible e he).reveals _ text hown⟩

-- An operator around an application between operands is written like that application
-- with the operator inside only where nothing of the one and of the other meets.
theorem exprText_rearranged_iff {texts texts' : List String} {before after : String}
    (hop : op ∈ unranked) (htexts : left.mapM r.exprText = .ok texts)
    (hsurrounds : Surrounds r.dialect op texts texts' before after)
    (htext : ∀ e own type, r.exprText e = .ok own →
      r.exprText (.apply op (left ++ e :: right) type) = .ok (before ++ own ++ after))
    (between : BinaryOperator) {part : Expr} (hmany : front ++ back ≠ [])
    (hparts : ∀ e ∈ front ++ part :: back, ∃ text, r.exprText e = .ok text)
    (type type' inner inner' : TypeId) :
    r.exprText (.apply op (left ++ .apply between.val (front ++ part :: back) inner :: right)
        type) =
      r.exprText (.apply between.val (front ++ .apply op (left ++ part :: right) inner' :: back)
        type') ↔
    r.dialect.delimits op = false ∧ r.brackets between.val 0 part = false ∧
      if left = [] then back = [] else front = [] := by
  have hothers (e : Expr) (he : e ∈ front ++ back) : ∃ text, r.exprText e = .ok text := by
    refine hparts e ?_
    simp only [List.mem_append, List.mem_cons] at he ⊢
    exact he.imp_right .inr
  obtain ⟨own, hown⟩ := hparts part (List.mem_append_right front List.mem_cons_self)
  obtain ⟨head, tail, hbetween, hhead, htail⟩ := exists_between between hmany hothers
  have hunbracketed := brackets_of_unranked (r := r) hop between (left ++ part :: right) inner'
  rw [htext _ _ type (hbetween part own inner hown),
    hbetween _ _ type' (htext part own inner' hown), hunbracketed, if_neg Bool.false_ne_true,
    Except.ok.injEq, rearranged_iff, parenthesized_eq_iff, hsurrounds.front_comm_iff hhead,
    hsurrounds.back_comm_iff htail, Ne, ← nil_iff_of_mapM htexts]
  have hsome : ¬ (front = [] ∧ back = []) := by rwa [← List.append_eq_nil_iff]
  clear * - hsome
  by_cases hleft : left = []
  · simp only [hleft, if_true]
    tauto
  · simp only [hleft, if_false]
    tauto

-- Around any operand of a power, a cast, or in front of an index, stands one text. It has
-- a bracket around the operand exactly if the dialect delimits the operator. Else what
-- is written of the operator on an application between operands is also what is written
-- of the other one with the operator on its last part, or, behind other operands, on its
-- first part, if that part needs no parentheses there.
theorem delimited_iff (op : Operator) (left right : List Expr) (hop : op ∈ .index :: unranked)
    (harity : op.arity.accepts (left.length + right.length + 1) = true)
    (hfirst : op = .index → left = [])
    (hwritten : ∀ e ∈ left ++ right, ∃ text, r.exprText e = .ok text) :
    (∃ before after, (∀ e own type, r.exprText e = .ok own →
        r.exprText (.apply op (left ++ e :: right) type) = .ok (before ++ own ++ after)) ∧
      ((∀ e ∈ left ++ right, r.Legible e) →
        (Encloses r.dialect before after ↔ r.dialect.delimits op = true))) ∧
    (op ∈ unranked → ∀ (between : BinaryOperator) (front back : List Expr) (part : Expr),
      front ++ back ≠ [] → (∀ e ∈ front ++ part :: back, ∃ text, r.exprText e = .ok text) →
      ∀ type type' inner inner',
        (r.exprText (.apply op (left ++ .apply between.val (front ++ part :: back) inner :: right)
            type) =
          r.exprText (.apply between.val (front ++ .apply op (left ++ part :: right) inner' :: back)
            type') ↔
        r.dialect.delimits op = false ∧ r.brackets between.val 0 part = false ∧
          if left = [] then back = [] else front = [])) := by
  obtain ⟨texts, texts', before, after, htexts, htexts', hsurrounds, htext⟩ :=
    exists_around hop harity hfirst hwritten
  refine ⟨⟨before, after, htext, fun hlegible => hsurrounds.encloses_iff ?_⟩, ?_⟩
  · obtain ⟨hleft, hright⟩ := List.forall_mem_append.mp hlegible
    exact List.forall_mem_append.mpr
      ⟨exists_reveals_of_mapM hleft htexts, exists_reveals_of_mapM hright htexts'⟩
  · intro hop between front back part hmany hparts type type' inner inner'
    exact exprText_rearranged_iff hop htexts hsurrounds htext between hmany hparts type type' inner
      inner'

end Renderer

def powerOfSum : Expr :=
  .apply .pow [.apply .add [.signal ⟨0⟩, .signal ⟨1⟩] ⟨0⟩, .signal ⟨2⟩] ⟨0⟩

def sumOfPower : Expr :=
  .apply .add [.signal ⟨0⟩, .apply .pow [.signal ⟨1⟩, .signal ⟨2⟩] ⟨0⟩] ⟨0⟩

theorem exists_exprText_vector (dialect : Dialect) {id : SignalId} (h : id ∈ [⟨0⟩, ⟨1⟩, ⟨2⟩]) :
    ∃ text, (ofThreeVectors dialect).exprText (.signal id) = .ok text := by
  simp only [List.mem_cons, List.not_mem_nil, or_false] at h
  rcases h with rfl | rfl | rfl
  · exact ⟨dialect.signalRef "a", by cases dialect <;> decide +kernel⟩
  · exact ⟨dialect.signalRef "b", by cases dialect <;> decide +kernel⟩
  · exact ⟨dialect.signalRef "c", by cases dialect <;> decide +kernel⟩

theorem inert_vector {name : String} (h : (ofThreeVectors .simModel).signalName ⟨2⟩ = .ok name) :
    Inert .simModel name := by
  have hname : (ofThreeVectors .simModel).signalName ⟨2⟩ = .ok "c" := by decide +kernel
  obtain rfl := Except.ok.inj (hname.symm.trans h)
  decide

-- The model calls a function around a sum, the other dialect writes the power of its
-- last part.
theorem delimited_powerOfSum :
    (∃ before after, (ofThreeVectors .simModel).exprText powerOfSum =
        .ok (before ++ "self.a._oldVal + self.b._oldVal" ++ after) ∧
      Encloses .simModel before after) ∧
    (ofThreeVectors .vhdl).exprText powerOfSum = (ofThreeVectors .vhdl).exprText sumOfPower := by
  have hexponent (dialect : Dialect) : ∀ e ∈ [] ++ [.signal ⟨2⟩],
      ∃ text, (ofThreeVectors dialect).exprText e = .ok text :=
    List.forall_mem_singleton.mpr (exists_exprText_vector dialect (by decide))
  have hterms : ∀ e ∈ [.signal ⟨0⟩] ++ .signal ⟨1⟩ :: [],
      ∃ text, (ofThreeVectors .vhdl).exprText e = .ok text :=
    List.forall_mem_cons.mpr ⟨exists_exprText_vector .vhdl (by decide),
      List.forall_mem_singleton.mpr (exists_exprText_vector .vhdl (by decide))⟩
  constructor
  · obtain ⟨before, after, htext, hencloses⟩ :=
      (Renderer.delimited_iff .pow [] [.signal ⟨2⟩] (by decide) rfl nofun (hexponent .simModel)).1
    refine ⟨before, after, htext _ _ ⟨0⟩ (by decide +kernel), (hencloses ?_).mpr rfl⟩
    exact List.forall_mem_singleton.mpr (.shown rfl fun name => inert_vector)
  · exact ((Renderer.delimited_iff .pow [] [.signal ⟨2⟩] (by decide) rfl nofun
      (hexponent .vhdl)).2 (by decide) ⟨.add, by decide⟩ [.signal ⟨0⟩] [] (.signal ⟨1⟩) nofun hterms
      ⟨0⟩ ⟨0⟩ ⟨0⟩ ⟨0⟩).mpr ⟨rfl, rfl, rfl⟩

-- The sum of a power and the power of a sum are written alike, and so are the sum of a
-- cast and the cast of a sum, each without any brackets.
theorem alike_powerOfSum :
    ((ofThreeVectors .vhdl).exprText powerOfSum = .ok "a + b ** c" ∧
      (ofThreeVectors .vhdl).exprText sumOfPower = .ok "a + b ** c") ∧
    ((ofThreeVectors .simModel).exprText
        (.apply .asSigned [.apply .add [.signal ⟨0⟩, .signal ⟨1⟩] ⟨0⟩] ⟨0⟩) =
          .ok "self.a._oldVal + self.b._oldVal._signed()" ∧
      (ofThreeVectors .simModel).exprText
        (.apply .add [.signal ⟨0⟩, .apply .asSigned [.signal ⟨1⟩] ⟨0⟩] ⟨0⟩) =
          .ok "self.a._oldVal + self.b._oldVal._signed()") ∧
    (ofThreeVectors .vhdl).exprText
        (.apply .index [.apply .add [.signal ⟨0⟩, .signal ⟨1⟩] ⟨0⟩, .signal ⟨2⟩] ⟨0⟩) =
      .ok "a + b(c)" := by
  decide +kernel

end Rtl
