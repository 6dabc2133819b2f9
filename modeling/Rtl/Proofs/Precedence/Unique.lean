import Rtl.Proofs.Brackets
import Rtl.Proofs.Precedence.Printing
import Rtl.Proofs.Rendering.Places

namespace Rtl

namespace Expr

mutual

-- An expression without what it says of the types of its results.
def untyped : Expr → Expr
  | .signal id => .signal id
  | .literal value => .literal value
  | .apply op operands _ => .apply op (untypedAll operands) ⟨0⟩

def untypedAll : List Expr → List Expr
  | [] => []
  | e :: rest => e.untyped :: untypedAll rest

end

theorem untypedAll_eq_map (es : List Expr) : untypedAll es = es.map untyped := by
  induction es with
  | nil => rfl
  | cons e rest ih => rw [untypedAll, ih, List.map_cons]

end Expr

namespace Precedence

open Brackets

-- An expression of shown signals and of operators that are written between their
-- operands, of which there may be many.
inductive Infix (r : Renderer) : Expr → Prop
  | signal {id : SignalId} {signal : Signal} {name : String}
      (hsignal : r.design.arch.signals.get? id = some signal) (hshown : signal.hidden = false)
      (hname : r.signalName id = .ok name) (hidentifier : isName r.dialect name = true) :
      Infix r (.signal id)
  | apply (op : BinaryOperator) {operands : List Expr} (hmany : 2 ≤ operands.length)
      (h : ∀ e ∈ operands, Infix r e) (type : TypeId) : Infix r (.apply op.val operands type)

def Token.role : Token → Role
  | .opening => .opening .round
  | .closing => .closing .round
  | .name _ | .negation | .binary _ => .inner

section

variable (r : Renderer)

def nameOf (id : SignalId) : String := (r.signalName id).toOption.getD ""

-- Whether an operand that is no hidden signal stands in parentheses.
def wraps (parent : Operator) (operand : Expr) : Bool :=
  operand.operator?.any fun child => child.needsParens parent

mutual

-- The tokens that an expression is written with.
def tokensOf : Expr → List Token
  | .signal id => [.name (nameOf r id)]
  | .literal _ => []
  | .apply op operands _ =>
      if h : op ∈ Operator.betweenOperands then
        [Token.binary ⟨op, h⟩].intercalate (operandsTokens op operands)
      else []

def operandsTokens (parent : Operator) : List Expr → List (List Token)
  | [] => []
  | e :: rest =>
      (if wraps parent e then .opening :: (tokensOf e ++ [.closing]) else tokensOf e) ::
        operandsTokens parent rest

end

def tokensBelow (parent : Operator) (e : Expr) : List Token :=
  if wraps parent e then .opening :: (tokensOf r e ++ [.closing]) else tokensOf r e

end

variable {r : Renderer} {e e' : Expr} {op : BinaryOperator} {operands : List Expr} {type : TypeId}

theorem nameOf_eq {id : SignalId} {name : String} (h : r.signalName id = .ok name) :
    nameOf r id = name := by
  rw [nameOf, h]
  rfl

theorem operandsTokens_eq_map (parent : Operator) (es : List Expr) :
    operandsTokens r parent es = es.map (tokensBelow r parent) := by
  induction es with
  | nil => rfl
  | cons e rest ih => exact congrArg (_ :: ·) ih

theorem tokensOf_apply :
    tokensOf r (.apply op.val operands type) =
      [.binary op].intercalate (operands.map (tokensBelow r op.val)) := by
  rw [tokensOf, dif_pos op.property, operandsTokens_eq_map]

theorem closed_tokensBelow {parent : Operator} (h : Closed Token.role (tokensOf r e)) :
    Closed Token.role (tokensBelow r parent e) := by
  rw [tokensBelow]
  split
  · exact h.bracketed rfl rfl
  · exact h

theorem closed_tokensOf (h : Infix r e) : Closed Token.role (tokensOf r e) := by
  induction h with
  | signal => exact .singleton rfl
  | apply op hmany _ type ih =>
      rw [tokensOf_apply]
      refine .intercalate (.singleton rfl) fun part hpart => ?_
      obtain ⟨operand, hoperand, rfl⟩ := List.mem_map.mp hpart
      exact closed_tokensBelow (ih operand hoperand)

theorem closed_of_mem_map (h : ∀ e ∈ operands, Infix r e) :
    ∀ part ∈ operands.map (tokensBelow r op.val), Closed Token.role part := by
  intro part hpart
  obtain ⟨operand, hoperand, rfl⟩ := List.mem_map.mp hpart
  exact closed_tokensBelow (closed_tokensOf (h operand hoperand))

-- A name or an operator is seen from outside of all parentheses.
theorem outside_tokensOf_ne_nil (h : Infix r e) : outside Token.role (tokensOf r e) ≠ [] := by
  cases h with
  | signal => exact List.cons_ne_nil _ _
  | apply op hmany hoperands type =>
      rw [tokensOf_apply]
      refine List.ne_nil_of_mem (a := .binary op)
        ((mem_outside_intercalate_iff rfl (closed_of_mem_map hoperands)).mpr (.inl ⟨rfl, ?_⟩))
      rwa [List.length_map]

theorem outside_of_wraps {parent : Operator} (h : Infix r e) (hwraps : wraps parent e = true) :
    outside Token.role (tokensBelow r parent e) = [] := by
  rw [tokensBelow, if_pos hwraps]
  exact (closed_tokensOf h).outside_bracketed rfl rfl []

theorem tokensBelow_of_not_wraps {parent : Operator} (h : wraps parent e = false) :
    tokensBelow r parent e = tokensOf r e := by
  rw [tokensBelow, if_neg (Bool.eq_false_iff.mp h)]

-- Only an operator that binds looser stands below another one without parentheses.
theorem wraps_eq_false_iff {child : BinaryOperator} :
    wraps op.val (.apply child.val operands type) = false ↔ op.level < child.level := by
  simp [wraps, Expr.operator?, Operator.needsParens, precedence_eq_level]

-- Of the operators seen from outside none binds tighter than the one on top, and
-- none as tight but that one.
theorem level_of_mem_outside (h : Infix r e) {top seen : BinaryOperator}
    (htop : e.operator? = some top.val)
    (hseen : .binary seen ∈ outside Token.role (tokensOf r e)) :
    seen = top ∨ top.level < seen.level := by
  induction h generalizing top with
  | signal => cases htop
  | apply op hmany hoperands type ih =>
      obtain rfl : op = top := Subtype.ext (Option.some.inj htop)
      rw [tokensOf_apply, mem_outside_intercalate_iff rfl (closed_of_mem_map hoperands)] at hseen
      rcases hseen with ⟨hsame, -⟩ | ⟨part, hpart, hseen⟩
      · exact .inl (Token.binary.inj hsame)
      obtain ⟨operand, hoperand, rfl⟩ := List.mem_map.mp hpart
      have hinfix := hoperands operand hoperand
      cases hwraps : wraps op.val operand with
      | true =>
          rw [outside_of_wraps hinfix hwraps] at hseen
          cases hseen
      | false =>
          rw [tokensBelow_of_not_wraps hwraps] at hseen
          cases hinfix with
          | signal => simp [tokensOf, outside, levels, Token.role] at hseen
          | apply child hmany' hoperands' type' =>
              have hlooser := wraps_eq_false_iff.mp hwraps
              rcases ih _ hoperand rfl hseen with rfl | hlt
              · exact .inr hlooser
              · exact .inr (hlooser.trans hlt)

theorem mem_outside_top (op : BinaryOperator) (type : TypeId) (hmany : 2 ≤ operands.length)
    (h : ∀ e ∈ operands, Infix r e) :
    .binary op ∈ outside Token.role (tokensOf r (.apply op.val operands type)) := by
  rw [tokensOf_apply, mem_outside_intercalate_iff rfl (closed_of_mem_map h), List.length_map]
  exact .inl ⟨rfl, hmany⟩

-- The operator on top is the one that binds tightest among those seen from outside.
theorem top_eq_of_tokensOf_eq {op' : BinaryOperator} {operands' : List Expr} {type' : TypeId}
    (hmany : 2 ≤ operands.length) (h : ∀ e ∈ operands, Infix r e)
    (hmany' : 2 ≤ operands'.length) (h' : ∀ e ∈ operands', Infix r e)
    (heq : tokensOf r (.apply op.val operands type) =
      tokensOf r (.apply op'.val operands' type')) : op = op' := by
  have hseen := mem_outside_top op type hmany h
  have hseen' := mem_outside_top op' type' hmany' h'
  rw [heq] at hseen
  rw [← heq] at hseen'
  rcases level_of_mem_outside (.apply op hmany h type) rfl hseen' with hsame | hlooser
  · exact hsame.symm
  rcases level_of_mem_outside (.apply op' hmany' h' type') rfl hseen with hsame | hlooser'
  · exact hsame
  · exact absurd hlooser (Nat.lt_asymm hlooser')

-- No operand shows the operator above it.
theorem not_mem_outside_tokensBelow (h : Infix r e) :
    .binary op ∉ outside Token.role (tokensBelow r op.val e) := by
  intro hseen
  cases hwraps : wraps op.val e with
  | true =>
      rw [outside_of_wraps h hwraps] at hseen
      cases hseen
  | false =>
      rw [tokensBelow_of_not_wraps hwraps] at hseen
      cases h with
      | signal => simp [tokensOf, outside, levels, Token.role] at hseen
      | apply child hmany hoperands type =>
          have hlooser := wraps_eq_false_iff.mp hwraps
          rcases level_of_mem_outside (.apply child hmany hoperands type) rfl hseen with rfl | hlt
          · exact Nat.lt_irrefl _ hlooser
          · exact Nat.lt_asymm hlooser hlt

-- So the operands are the parts between the operator on top.
theorem parts_tokensOf (hmany : 2 ≤ operands.length) (h : ∀ e ∈ operands, Infix r e) :
    parts Token.role (· == .binary op) (tokensOf r (.apply op.val operands type)) =
      operands.map (tokensBelow r op.val) := by
  have hne : operands.map (tokensBelow r op.val) ≠ [] := by
    rintro hnil
    rw [List.map_eq_nil_iff.mp hnil] at hmany
    cases hmany
  rw [tokensOf_apply, parts_intercalate rfl (by simp) hne (closed_of_mem_map h), List.flatMap_map]
  rw [List.map_eq_flatMap]
  refine List.flatMap_congr fun operand hoperand => parts_of_uncut fun token htoken => ?_
  rw [beq_eq_false_iff_ne]
  rintro rfl
  exact not_mem_outside_tokensBelow (h operand hoperand) htoken

theorem tokensOf_eq_of_tokensBelow_eq {parent : Operator} (h : Infix r e) (h' : Infix r e')
    (heq : tokensBelow r parent e = tokensBelow r parent e') : tokensOf r e = tokensOf r e' := by
  have hsees {e : Expr} (h : Infix r e) (hwraps : wraps parent e = false) :
      outside Token.role (tokensBelow r parent e) ≠ [] := by
    rw [tokensBelow_of_not_wraps hwraps]
    exact outside_tokensOf_ne_nil h
  cases hwraps : wraps parent e with
  | true =>
      cases hwraps' : wraps parent e' with
      | true =>
          rw [tokensBelow, if_pos hwraps, tokensBelow, if_pos hwraps'] at heq
          exact List.append_cancel_right (List.cons.inj heq).2
      | false => exact absurd (heq ▸ outside_of_wraps h hwraps) (hsees h' hwraps')
  | false =>
      cases hwraps' : wraps parent e' with
      | true => exact absurd (heq ▸ outside_of_wraps h' hwraps') (hsees h hwraps)
      | false => rwa [tokensBelow_of_not_wraps hwraps, tokensBelow_of_not_wraps hwraps'] at heq

-- Where one function tells elements apart as another one does, it does so for lists.
theorem map_eq_map_of_map_eq {α β γ : Type} {f : α → β} {g : α → γ} {as bs : List α}
    (h : as.map f = bs.map f) (hsame : ∀ a ∈ as, ∀ b ∈ bs, f a = f b → g a = g b) :
    as.map g = bs.map g := by
  induction as generalizing bs with
  | nil => rw [List.map_eq_nil_iff.mp h.symm]
  | cons a as ih =>
      obtain ⟨b, bs, rfl, hfirst, hrest⟩ := List.map_eq_cons_iff.mp h.symm
      have hmore := ih hrest.symm fun a ha b hb =>
        hsame a (List.mem_cons_of_mem _ ha) b (List.mem_cons_of_mem _ hb)
      rw [List.map_cons, List.map_cons, hmore,
        hsame a List.mem_cons_self b List.mem_cons_self hfirst.symm]

theorem untyped_eq_of_tokensOf_eq (h : Infix r e) (h' : Infix r e')
    (hdistinct : ∀ id ∈ e.signals, ∀ id' ∈ e'.signals,
      r.signalName id = r.signalName id' → id = id')
    (heq : tokensOf r e = tokensOf r e') : e.untyped = e'.untyped := by
  induction h generalizing e' with
  | @signal id signal name hsignal hshown hname hidentifier =>
      cases h' with
      | @signal id' signal' name' hsignal' hshown' hname' hidentifier' =>
          have hnames : name = name' := by
            simpa [tokensOf, nameOf_eq hname, nameOf_eq hname'] using heq
          have hsame : id = id' := hdistinct id List.mem_cons_self id' List.mem_cons_self
            (by rw [hname, hname', hnames])
          rw [hsame]
      | apply op hmany' hoperands' type' =>
          have hseen := mem_outside_top op type' hmany' hoperands'
          rw [← heq] at hseen
          simp [tokensOf, outside, levels, Token.role] at hseen
  | @apply op operands hmany hoperands type ih =>
      cases h' with
      | signal =>
          have hseen := mem_outside_top op type hmany hoperands
          rw [heq] at hseen
          simp [tokensOf, outside, levels, Token.role] at hseen
      | @apply op' operands' hmany' hoperands' type' =>
          obtain rfl := top_eq_of_tokensOf_eq hmany hoperands hmany' hoperands' heq
          have hparts := congrArg (parts Token.role (· == .binary op)) heq
          rw [parts_tokensOf hmany hoperands, parts_tokensOf hmany' hoperands'] at hparts
          simp only [Expr.untyped, Expr.untypedAll_eq_map, Expr.apply.injEq, true_and, and_true]
          refine map_eq_map_of_map_eq hparts fun a ha b hb hbelow => ?_
          refine ih a ha (hoperands' b hb) (fun id hid id' hid' => ?_)
            (tokensOf_eq_of_tokensBelow_eq (hoperands a ha) (hoperands' b hb) hbelow)
          exact hdistinct id (Expr.mem_signalsOf_iff.mpr ⟨a, ha, hid⟩) id'
            (Expr.mem_signalsOf_iff.mpr ⟨b, hb, hid'⟩)

-- A text that has the words of some tokens, whatever comes behind it.
def Spells (dialect : Dialect) (text : String) (tokens : List Token) : Prop :=
  ∀ rest, EndsWord rest →
    words [] (text.toList ++ rest) = tokens.map (spell dialect) ++ words [] rest

theorem Spells.parenthesize {dialect : Dialect} {text : String} {tokens : List Token}
    (h : Spells dialect text tokens) :
    Spells dialect (Renderer.parenthesize text) (.opening :: (tokens ++ [.closing])) := by
  intro rest hrest
  have hchars : (Renderer.parenthesize text).toList ++ rest =
      '(' :: (text.toList ++ ')' :: rest) := by
    simp [Renderer.parenthesize]
  rw [hchars, words_mark (by decide) rfl, h _ (endsWord_mark rfl rest), words_mark (by decide) rfl]
  simp [spell]

theorem Spells.intercalate {dialect : Dialect} (op : BinaryOperator) {texts : List String}
    {parts : List (List Token)} (h : List.Forall₂ (Spells dialect) texts parts) :
    Spells dialect (String.intercalate (" " ++ op.word dialect ++ " ") texts)
      ([.binary op].intercalate parts) := by
  induction h with
  | nil => exact fun rest hrest => rfl
  | @cons text part texts parts hfirst hrest ih =>
      cases hrest with
      | nil =>
          rw [String.intercalate_singleton, List.intercalate_singleton]
          exact hfirst
      | @cons next nextPart texts parts hnext hrest =>
          intro rest hends
          obtain ⟨hne, hplain⟩ := plain_word dialect op
          rw [String.intercalate_cons_cons, List.intercalate_cons_cons]
          generalize String.intercalate (" " ++ op.word dialect ++ " ") (next :: texts) = others
            at ih ⊢
          have hchars : (text ++ (" " ++ op.word dialect ++ " ") ++ others).toList ++ rest =
              text.toList ++
                ' ' :: ((op.word dialect).toList ++ ' ' :: (others.toList ++ rest)) := by
            simp
          rw [hchars, hfirst _ (endsWord_blank _), words_blank,
            words_word hne hplain (endsWord_blank _), words_blank, ih rest hends]
          simp [spell]

theorem ne_eq_of_betweenOperands (op : BinaryOperator) : op.val ≠ .eq := by
  intro heq
  have hmem := op.property
  rw [heq] at hmem
  exact absurd hmem (by decide)

-- It does not matter at which place an operand stands.
theorem placeText_between (r : Renderer) (op : BinaryOperator) (place : Nat) (operand : Expr)
    (text : Renderer.Pending) :
    r.placeText op.val place operand text = r.operandText op.val 0 operand text := by
  have hplace : r.operandText op.val place operand text = r.operandText op.val 0 operand text := by
    simp only [Renderer.operandText, wrapsOperand_eq_false (ne_eq_of_betweenOperands op)]
  obtain ⟨op, h⟩ := op
  cases op with
  | mul | div | add | sub | and | xor | or | ne | gt | lt | ge | le => exact hplace
  | _ => exact absurd h (by decide)

theorem accepts_between (op : BinaryOperator) {count : Nat} (hmany : 2 ≤ count) :
    op.val.arity.accepts count = true := by
  obtain ⟨op, h⟩ := op
  cases op with
  | mul | div | add | sub | and | xor | or | ne | gt | lt | ge | le => exact decide_eq_true hmany
  | _ => exact absurd h (by decide)

theorem applyText_between (r : Renderer) (op : BinaryOperator)
    {operands : List (Expr × Renderer.Pending)} (hmany : 2 ≤ operands.length) :
    r.applyText op.val operands = (do
      let texts ← operands.mapM fun (operand, text) => r.operandText op.val 0 operand text
      return String.intercalate (" " ++ op.word r.dialect ++ " ") texts) := by
  rw [Renderer.applyText_eq (accepts_between op hmany)]
  simp only [placeText_between, operator_between]
  exact congrArg (· >>= _)
    (Renderer.mapM_zipIdx_fst (fun operand => r.operandText op.val 0 operand.1 operand.2) operands)

theorem Infix.brackets_eq (h : Infix r e) :
    r.brackets op.val 0 e = wraps op.val e := by
  have hunwrapped := wrapsOperand_eq_false (ne_eq_of_betweenOperands op) r.dialect 0
  rw [Renderer.brackets, hunwrapped, Bool.not_false, Bool.true_and, wraps]
  cases h with
  | signal hsignal hshown => simp [Renderer.operandOperator?, hsignal, Signal.alias?, hshown,
      Expr.operator?]
  | apply => rfl

theorem Infix.exists_text (h : Infix r e) (depth : Nat) :
    ∃ text, r.exprWith (r.signalText (depth + 1)) e = .ok text ∧
      Spells r.dialect text (tokensOf r e) := by
  induction h with
  | @signal id signal name hsignal hshown hname hidentifier =>
      refine ⟨r.dialect.signalRef name, ?_, fun rest hrest => ?_⟩
      · simp [Renderer.exprWith, Renderer.signalText, Renderer.signal, hsignal, Signal.alias?,
          hshown, hname, bind, Except.bind]
        rfl
      · obtain ⟨hne, hplain⟩ := plain_signalRef hidentifier
        simpa [tokensOf, nameOf_eq hname, spell] using words_word hne hplain hrest
  | @apply op operands hmany hoperands type ih =>
      have hoperand : ∀ operand ∈ operands, ∃ text,
          r.operandText op.val 0 operand
            (fun _ => r.exprWith (r.signalText (depth + 1)) operand) = .ok text ∧
          Spells r.dialect text (tokensBelow r op.val operand) := by
        intro operand hmem
        obtain ⟨text, htext, hspells⟩ := ih operand hmem
        rw [Renderer.operandText_eq, htext, (hoperands operand hmem).brackets_eq, tokensBelow]
        cases wraps op.val operand with
        | false => exact ⟨text, rfl, hspells⟩
        | true => exact ⟨Renderer.parenthesize text, rfl, hspells.parenthesize⟩
      obtain ⟨texts, htexts⟩ := exists_mapM_eq_ok fun operand hmem =>
        (hoperand operand hmem).imp fun _ h => h.1
      have hspells : List.Forall₂ (fun operand text =>
          Spells r.dialect text (tokensBelow r op.val operand)) operands texts := by
        refine forall₂_of_forall_mem (mapM_eq_ok.mp htexts) fun operand hmem text htext => ?_
        obtain ⟨same, hsame, h⟩ := hoperand operand hmem
        obtain rfl := Except.ok.inj (hsame.symm.trans htext)
        exact h
      refine ⟨String.intercalate (" " ++ op.word r.dialect ++ " ") texts, ?_, ?_⟩
      · rw [Renderer.exprWith, Renderer.exprsWith_eq_map,
          applyText_between r op (by rwa [List.length_map]), List.mapM_map]
        exact bind_eq_ok.mpr ⟨texts, htexts, rfl⟩
      · rw [tokensOf_apply]
        exact .intercalate op (List.forall₂_map_right_iff.mpr hspells.flip)

theorem Infix.size_pos (h : Infix r e) : 0 < r.design.arch.signals.size := by
  induction h with
  | signal hsignal =>
      obtain ⟨hlt, -⟩ := Array.getElem?_eq_some_iff.mp hsignal
      exact Nat.lt_of_le_of_lt (Nat.zero_le _) hlt
  | @apply op operands hmany hoperands type ih =>
      have hpos : 0 < operands.length := Nat.lt_of_lt_of_le Nat.zero_lt_two hmany
      exact ih operands[0] (List.getElem_mem hpos)

theorem Infix.exists_exprText (h : Infix r e) :
    ∃ text, r.exprText e = .ok text ∧ Spells r.dialect text (tokensOf r e) := by
  obtain ⟨depth, hdepth⟩ := Nat.exists_eq_succ_of_ne_zero (Nat.ne_of_gt h.size_pos)
  rw [Renderer.exprText, hdepth]
  exact h.exists_text depth

theorem mem_or_exists_of_mem_intercalate {α : Type} {a : α} {separator : List α}
    {parts : List (List α)} (h : a ∈ separator.intercalate parts) :
    a ∈ separator ∨ ∃ part ∈ parts, a ∈ part := by
  induction parts with
  | nil => cases h
  | cons first rest ih =>
      cases rest with
      | nil =>
          rw [List.intercalate_singleton] at h
          exact .inr ⟨first, List.mem_cons_self, h⟩
      | cons next rest =>
          rw [List.intercalate_cons_cons, List.mem_append, List.mem_append] at h
          rcases h with (h | h) | h
          · exact .inr ⟨first, List.mem_cons_self, h⟩
          · exact .inl h
          · obtain h | ⟨part, hpart, h⟩ := ih h
            · exact .inl h
            · exact .inr ⟨part, List.mem_cons_of_mem _ hpart, h⟩

theorem Infix.isName_of_mem (h : Infix r e) {name : String}
    (hmem : .name name ∈ tokensOf r e) : isName r.dialect name := by
  induction h with
  | @signal id signal written hsignal hshown hname hidentifier =>
      rw [tokensOf, List.mem_singleton, nameOf_eq hname] at hmem
      rwa [Token.name.inj hmem]
  | @apply op operands hmany hoperands type ih =>
      rw [tokensOf_apply] at hmem
      rcases mem_or_exists_of_mem_intercalate hmem with hmem | ⟨part, hpart, hmem⟩
      · cases List.mem_singleton.mp hmem
      obtain ⟨operand, hoperand, rfl⟩ := List.mem_map.mp hpart
      rw [tokensBelow] at hmem
      split at hmem
      · exact ih operand hoperand (by simpa using hmem)
      · exact ih operand hoperand hmem

-- The words of an expression are read as its tokens again.
theorem Infix.tokensOf_eq_of_words (h : Infix r e) (h' : Infix r e')
    (heq : (tokensOf r e).map (spell r.dialect) = (tokensOf r e').map (spell r.dialect)) :
    tokensOf r e = tokensOf r e' := by
  have hread := mapM_token?_spell fun name (hmem : .name name ∈ tokensOf r e) =>
    h.isName_of_mem hmem
  have hread' := mapM_token?_spell fun name (hmem : .name name ∈ tokensOf r e') =>
    h'.isName_of_mem hmem
  rw [heq] at hread
  exact Option.some.inj (hread.symm.trans hread')

theorem mapM_congr {α : Type} {as : List α} {f g : α → Except RenderError String}
    (h : ∀ a ∈ as, f a = g a) : as.mapM f = as.mapM g := by
  induction as with
  | nil => rfl
  | cons a as ih =>
      obtain ⟨hfirst, hrest⟩ := List.forall_mem_cons.mp h
      rw [List.mapM_cons, List.mapM_cons, hfirst, ih hrest]

-- Nothing is written of the types of results.
theorem Infix.exprWith_untyped (h : Infix r e) (write : SignalId → Except RenderError String) :
    r.exprWith write e.untyped = r.exprWith write e := by
  induction h with
  | signal => rfl
  | @apply op operands hmany hoperands type ih =>
      have hoperator (operand : Expr) :
          r.operandOperator? operand.untyped = r.operandOperator? operand := by
        cases operand with
        | signal | literal | apply => rfl
      rw [Expr.untyped, Expr.untypedAll_eq_map, Renderer.exprWith, Renderer.exprWith,
        Renderer.exprsWith_eq_map, Renderer.exprsWith_eq_map, List.map_map,
        applyText_between r op (by rwa [List.length_map]),
        applyText_between r op (by rwa [List.length_map]), List.mapM_map, List.mapM_map]
      refine congrArg (· >>= _) (mapM_congr fun operand hmem => ?_)
      simp only [Function.comp_apply, Renderer.operandText, hoperator, ih operand hmem]

theorem Infix.exprText_eq_of_untyped_eq (h : Infix r e) (h' : Infix r e')
    (heq : e.untyped = e'.untyped) : r.exprText e = r.exprText e' := by
  rw [Renderer.exprText, Renderer.exprText, ← h.exprWith_untyped, ← h'.exprWith_untyped, heq]

-- Expressions over shown signals with names of their own and over operators between
-- any number of operands are always written, and are written alike only where they
-- are alike but for the types of their results.
theorem exprText_eq_iff_untyped_eq (h : Infix r e) (h' : Infix r e')
    (hdistinct : ∀ id ∈ e.signals, ∀ id' ∈ e'.signals,
      r.signalName id = r.signalName id' → id = id') :
    (∃ text, r.exprText e = .ok text) ∧
    (r.exprText e = r.exprText e' ↔ e.untyped = e'.untyped) := by
  obtain ⟨text, htext, hspells⟩ := h.exists_exprText
  obtain ⟨text', htext', hspells'⟩ := h'.exists_exprText
  have hwords := hspells [] nofun
  have hwords' := hspells' [] nofun
  refine ⟨⟨text, htext⟩, fun heq => ?_, h.exprText_eq_of_untyped_eq h'⟩
  rw [htext, htext'] at heq
  obtain rfl := Except.ok.inj heq
  refine untyped_eq_of_tokensOf_eq h h' hdistinct (h.tokensOf_eq_of_words h' ?_)
  simpa using hwords.symm.trans hwords'

-- A product of a sum loses its parentheses and is still not written like a sum.

def productOfSum (type : TypeId) : Expr :=
  .apply .mul [.signal ⟨0⟩, .apply .add [.signal ⟨1⟩, .signal ⟨2⟩, .signal ⟨0⟩] type] ⟨0⟩

def sumOfProduct : Expr :=
  .apply .add [.apply .mul [.signal ⟨0⟩, .signal ⟨1⟩] ⟨0⟩, .signal ⟨2⟩, .signal ⟨0⟩] ⟨0⟩

theorem infix_signal (dialect : Dialect) {id : SignalId} (h : id ∈ [⟨0⟩, ⟨1⟩, ⟨2⟩]) :
    Infix (ofThreeVectors dialect) (.signal id) := by
  simp only [List.mem_cons, List.not_mem_nil, or_false] at h
  rcases h with rfl | rfl | rfl
  · cases dialect <;> exact .signal rfl rfl rfl (by decide +kernel)
  · cases dialect <;> exact .signal rfl rfl rfl (by decide +kernel)
  · cases dialect <;> exact .signal rfl rfl rfl (by decide +kernel)

theorem infix_sum {dialect : Dialect} {id id' : SignalId} (h : Infix (ofThreeVectors dialect) e)
    (hid : id ∈ [⟨0⟩, ⟨1⟩, ⟨2⟩]) (hid' : id' ∈ [⟨0⟩, ⟨1⟩, ⟨2⟩]) (type : TypeId) :
    Infix (ofThreeVectors dialect) (.apply .add [e, .signal id, .signal id'] type) :=
  .apply sum (by simp) (List.forall_mem_cons.mpr ⟨h, List.forall_mem_cons.mpr
    ⟨infix_signal dialect hid, List.forall_mem_singleton.mpr (infix_signal dialect hid')⟩⟩) type

theorem infix_productOfSum (dialect : Dialect) (type : TypeId) :
    Infix (ofThreeVectors dialect) (productOfSum type) := by
  refine .apply product (Nat.le_of_eq rfl) (List.forall_mem_cons.mpr
    ⟨infix_signal dialect (by decide), List.forall_mem_singleton.mpr ?_⟩) ⟨0⟩
  exact infix_sum (infix_signal dialect (by decide)) (by decide) (by decide) type

theorem infix_sumOfProduct (dialect : Dialect) :
    Infix (ofThreeVectors dialect) sumOfProduct := by
  have hproduct : Infix (ofThreeVectors dialect)
      (.apply .mul [.signal ⟨0⟩, .signal ⟨1⟩] ⟨0⟩) :=
    .apply product (by decide) (List.forall_mem_cons.mpr
      ⟨infix_signal dialect (by decide),
        List.forall_mem_singleton.mpr (infix_signal dialect (by decide))⟩) ⟨0⟩
  exact infix_sum hproduct (by decide) (by decide) ⟨0⟩

theorem exprText_productOfSum :
    (ofThreeVectors .vhdl).exprText (productOfSum ⟨0⟩) ≠
      (ofThreeVectors .vhdl).exprText sumOfProduct ∧
    (ofThreeVectors .vhdl).exprText (productOfSum ⟨0⟩) =
      (ofThreeVectors .vhdl).exprText (productOfSum ⟨1⟩) :=
  ⟨mt (exprText_eq_iff_untyped_eq (infix_productOfSum .vhdl ⟨0⟩) (infix_sumOfProduct .vhdl)
      (by decide +kernel)).2.mp (by decide),
    (exprText_eq_iff_untyped_eq (infix_productOfSum .vhdl ⟨0⟩) (infix_productOfSum .vhdl ⟨1⟩)
      (by decide +kernel)).2.mpr rfl⟩

end Precedence

end Rtl
