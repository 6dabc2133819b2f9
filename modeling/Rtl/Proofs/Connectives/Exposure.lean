import Rtl.Proofs.Connectives.Literals
import Rtl.Proofs.Connectives.Patterns
import Rtl.Proofs.Rendering.Places

namespace Rtl.Renderer

open Connectives

section

variable (r : Renderer)

-- An expression whose names and labels have no strings, brackets and connectives in
-- them, nor those that its hidden signals stand for.
inductive Legible : Expr → Prop
  | shown {id : SignalId} (h : r.design.arch.alias? id = none)
      (hname : ∀ name, r.signalName id = .ok name → Inert r.dialect name) : Legible (.signal id)
  | hidden {id : SignalId} {origin : Expr} (h : r.design.arch.alias? id = some origin)
      (horigin : Legible origin) : Legible (.signal id)
  | literal {value : Value} (hlabel : ∀ index text, value.payload = .label (some index) →
      r.valueText value = .ok text → Inert r.dialect text) : Legible (.literal value)
  | apply {op : Operator} {operands : List Expr} {type : TypeId}
      (hname : op = .call → ∀ function ∈ operands.head?, ∀ name,
        functionName? function = some name → Inert r.dialect name)
      (hoperands : ∀ e ∈ operands, Legible e) : Legible (.apply op operands type)

-- Whether a part of a condition stands in no brackets as a boolean.
def bareAsBoolean (part : Expr) : Bool :=
  match r.comparison? true part with
  | none => true
  | some op => (r.dialect.pattern op).leavesOpen 0 && !r.brackets op 0 part

-- Whether an operand gets no brackets of its own at its place.
def bare (op : Operator) (place : Nat) (operand : Expr) : Bool :=
  match op, place with
  | .call, _ | .index, _ => true
  | .ternary, 0 => r.bareAsBoolean operand
  | op, place => !r.brackets op place operand

-- A connective in an expression that no brackets stand around: that of the operator on
-- top, or one in an operand that stands there without any. A hidden signal is as what
-- it stands for.
inductive Exposes (connective : Connective) : Expr → Prop
  | hidden {id : SignalId} {origin : Expr} (h : r.design.arch.alias? id = some origin)
      (horigin : Exposes connective origin) : Exposes connective (.signal id)
  | operator {op : Operator} {operands : List Expr} {type : TypeId}
      (h : (r.dialect.pattern op).connective? r.dialect = some connective) :
      Exposes connective (.apply op operands type)
  | operand {op : Operator} {operands : List Expr} {type : TypeId} {place : Nat} {operand : Expr}
      (hplace : operands[place]? = some operand)
      (hopen : (r.dialect.pattern op).leavesOpen place = true)
      (hbare : r.bare op place operand = true) (h : Exposes connective operand) :
      Exposes connective (.apply op operands type)

end

variable {r : Renderer} {connective : Connective} {text : String}

theorem exposes_hidden_iff {id : SignalId} {origin : Expr}
    (h : r.design.arch.alias? id = some origin) :
    r.Exposes connective (.signal id) ↔ r.Exposes connective origin := by
  refine ⟨fun hexposes => ?_, .hidden h⟩
  cases hexposes with
  | hidden hother horigin =>
      obtain rfl := Option.some.inj (h.symm.trans hother)
      exact horigin

theorem not_exposes_shown {id : SignalId} (h : r.design.arch.alias? id = none) :
    ¬ r.Exposes connective (.signal id) := by
  intro hexposes
  cases hexposes with
  | hidden hother =>
      rw [h] at hother
      cases hother

theorem not_exposes_literal {value : Value} : ¬ r.Exposes connective (.literal value) := nofun

theorem exposes_apply_iff {op : Operator} {operands : List Expr} {type : TypeId} :
    r.Exposes connective (.apply op operands type) ↔
      (r.dialect.pattern op).connective? r.dialect = some connective ∨
        ∃ (place : Nat) (operand : Expr), operands[place]? = some operand ∧
          (r.dialect.pattern op).leavesOpen place = true ∧ r.bare op place operand = true ∧
          r.Exposes connective operand := by
  constructor
  · intro h
    cases h with
    | operator h => exact .inl h
    | operand hplace hopen hbare h => exact .inr ⟨_, _, hplace, hopen, hbare, h⟩
  · rintro (h | ⟨place, operand, hplace, hopen, hbare, h⟩)
    · exact .operator h
    · exact .operand hplace hopen hbare h

theorem reveals_signalRef {dialect : Dialect} {name : String} (h : Inert dialect name) :
    Reveals dialect (dialect.signalRef name) fun _ => False := by
  cases dialect with
  | vhdl => exact h.reveals
  | simModel =>
      have hself : Inert .simModel "self" := by decide
      have hbehind : Inert .simModel "._oldVal" := by decide
      have hdot : connective? .simModel "." = none := by decide
      have hname : Reveals .simModel ("." ++ name) fun _ => False := by
        have hlead := h.reveals.lead (a := ".") (fun _ => rfl) (rfl : _ = ["."]) rfl
        exact hlead.congr fun _ => by simp [hdot]
      have htext : Dialect.signalRef .simModel name = "self" ++ ("." ++ name) ++ "._oldVal" := by
        apply String.toList_injective
        simp [Dialect.signalRef, SimModel.signalRef]
      rw [htext]
      refine ((hself.reveals.append hname ?_).append hbehind.reveals (breaks_delimiter rfl _)).congr
        fun _ => by simp
      rw [String.toList_append]
      exact breaks_delimiter (c := '.') rfl _

-- What is written of an expression reveals just the connectives that it exposes.
abbrev RevealsAs (r : Renderer) (e : Expr) (x : Except RenderError String) : Prop :=
  ∀ text, x = .ok text → Reveals r.dialect text (r.Exposes · e)

theorem reveals_operandText {parent : Operator} {index : Nat} {operand : Expr} {pending : Pending}
    (h : r.RevealsAs operand (pending ()))
    (htext : r.operandText parent index operand pending = .ok text) :
    Reveals r.dialect text fun connective =>
      r.brackets parent index operand = false ∧ r.Exposes connective operand := by
  rw [operandText_eq] at htext
  obtain ⟨inner, hinner, htext⟩ := bind_eq_ok.mp htext
  obtain rfl := Except.ok.inj htext
  exact (h inner hinner).parenthesize _

-- A comparison with a constant reveals no more than what is compared.
theorem reveals_comparison {op : Operator} (hop : op = .eq ∨ op = .ne) {part : Expr}
    {pending : Pending} (h : r.RevealsAs part (pending ())) {value constant : String}
    (hvalue : r.operandText op 0 part pending = .ok value)
    (hconstant : Reveals r.dialect constant fun _ => False)
    (htext : r.dialect.operator op [value, constant] = .ok text) :
    Reveals r.dialect text fun connective =>
      ((r.dialect.pattern op).leavesOpen 0 && !r.brackets op 0 part) = true ∧
        r.Exposes connective part := by
  have harity : op.arity.accepts [value, constant].length = true := by
    obtain rfl | rfl := hop <;> rfl
  have hown : (r.dialect.pattern op).connective? r.dialect = none := by
    obtain rfl | rfl := hop <;> cases r.dialect <;> decide +kernel
  refine (Pattern.reveals (Dialect.sound_pattern htext) (.cons (reveals_operandText h hvalue)
    (.cons hconstant .nil)) (Dialect.text?_pattern harity htext)).congr fun connective => ?_
  rw [hown, Bool.and_eq_true, Bool.not_eq_true', and_assoc]
  constructor
  · rintro (hnone | ⟨place, seen, hplace, hopen, hseen⟩)
    · cases hnone
    · match place with
      | 0 =>
          obtain rfl := Option.some.inj hplace
          exact ⟨hopen, hseen⟩
      | 1 =>
          obtain rfl := Option.some.inj hplace
          cases hseen
  · rintro ⟨hopen, hseen⟩
    exact .inr ⟨0, _, rfl, hopen, hseen⟩

theorem reveals_conditionPart {part : Expr} {pending : Pending} (h : r.RevealsAs part (pending ()))
    (htext : r.conditionPart true part pending = .ok text) :
    Reveals r.dialect text fun connective =>
      r.bareAsBoolean part = true ∧ r.Exposes connective part := by
  simp only [conditionPart, Bool.not_true, Bool.false_eq_true, if_false] at htext
  obtain ⟨id, hid, htext⟩ := bind_eq_ok.mp htext
  obtain ⟨type, htype, htext⟩ := bind_eq_ok.mp htext
  have hpart : (r.exprType part >>= r.type) = .ok type := bind_eq_ok.mpr ⟨id, hid, htype⟩
  rw [bareAsBoolean, comparison?, if_pos rfl, hpart]
  cases type with
  | boolean => exact (h text htext).congr fun _ => (and_iff_right rfl).symm
  | bits width signedness force =>
      by_cases hbit : (HwType.bits width signedness force).isScalarBit = true
      · simp only [hbit, if_true] at htext ⊢
        obtain ⟨value, hvalue, htext⟩ := bind_eq_ok.mp htext
        exact reveals_comparison (.inl rfl) h hvalue (reveals_bitLiteral _) htext
      · simp only [hbit, Bool.false_eq_true, if_false] at htext ⊢
        obtain ⟨zeros, hzeros, htext⟩ := bind_eq_ok.mp htext
        obtain ⟨value, hvalue, htext⟩ := bind_eq_ok.mp htext
        exact reveals_comparison (.inr rfl) h hvalue (reveals_bitString hzeros) htext
  | integer | text | enumeration | array =>
      obtain ⟨_, -, htext⟩ := bind_eq_ok.mp htext
      cases htext

theorem conditionText_singleton (part : Expr) (pending : Pending) :
    r.conditionText true [(part, pending)] = r.conditionPart true part pending := by
  simp [conditionText]

theorem reveals_placeText {op : Operator} {place : Nat} {operand : Expr} {pending : Pending}
    (hname : op = .call → place = 0 → ∀ name, functionName? operand = some name →
      Inert r.dialect name)
    (h : r.RevealsAs operand (pending ()))
    (htext : r.placeText op place operand pending = .ok text) :
    Reveals r.dialect text fun connective =>
      r.bare op place operand = true ∧ r.Exposes connective operand := by
  have hplain (htext : pending () = .ok text) :
      Reveals r.dialect text fun connective => true = true ∧ r.Exposes connective operand :=
    (h text htext).congr fun _ => (and_iff_right rfl).symm
  have hbracketed (htext : r.operandText op place operand pending = .ok text) :
      Reveals r.dialect text fun connective =>
        (!r.brackets op place operand) = true ∧ r.Exposes connective operand :=
    (reveals_operandText h htext).congr fun _ => by rw [Bool.not_eq_true']
  cases op with
  | call =>
      cases place with
      | zero =>
          simp only [placeText] at htext
          split at htext
          · rename_i name hfunction
            obtain rfl := Except.ok.inj htext
            obtain ⟨type, rfl⟩ := functionName?_eq_some hfunction
            refine (hname rfl rfl name hfunction).reveals.congr fun connective => ?_
            exact iff_of_false not_false fun h => not_exposes_literal h.2
          · cases htext
      | succ place => exact hplain htext
  | index => exact hplain htext
  | ternary =>
      cases place with
      | zero =>
          simp only [placeText, conditionText_singleton] at htext
          exact reveals_conditionPart h htext
      | succ place => exact hbracketed htext
  | _ => exact hbracketed htext

theorem reveals_applyText {op : Operator} {operands : List Expr} {type : TypeId}
    {write : Expr → Except RenderError String}
    (hname : op = .call → ∀ function ∈ operands.head?, ∀ name,
      functionName? function = some name → Inert r.dialect name)
    (h : ∀ e ∈ operands, r.RevealsAs e (write e))
    (htext : r.applyText op (operands.map fun e => (e, fun _ => write e)) = .ok text) :
    Reveals r.dialect text (r.Exposes · (.apply op operands type)) := by
  obtain ⟨harity, texts, htexts, htext⟩ := applyText_eq_ok htext
  rw [List.length_map] at harity
  rw [List.zipIdx_map, List.forall₂_map_left_iff] at htexts
  have hlength : texts.length = operands.length := by
    rw [← htexts.length_eq, List.length_zipIdx]
  have hplaces : List.Forall₂ (fun entry text => Reveals r.dialect text fun connective =>
      r.bare op entry.2 entry.1 = true ∧ r.Exposes connective entry.1) operands.zipIdx texts := by
    refine forall₂_of_forall_mem htexts fun entry hentry text htext => ?_
    have hplace := List.mem_zipIdx_iff_getElem?.mp hentry
    refine reveals_placeText (fun hop hfirst => hname hop entry.1 ?_)
      (h entry.1 (List.mem_of_getElem? hplace)) htext
    rw [hfirst] at hplace
    rw [List.head?_eq_getElem?, hplace]
    rfl
  have hreveals := Pattern.reveals (Dialect.sound_pattern htext)
    (List.forall₂_map_right_iff.mpr hplaces.flip) (Dialect.text?_pattern (hlength ▸ harity) htext)
  refine hreveals.congr fun connective => ?_
  rw [exposes_apply_iff]
  refine or_congr Iff.rfl (exists_congr fun place => ?_)
  rw [List.getElem?_map, List.getElem?_zipIdx]
  cases operands[place]? with
  | none => exact iff_of_false nofun nofun
  | some operand => simp [and_left_comm]

-- Whatever a legible expression stands for is written with its brackets in pairs, and
-- just the connectives that it exposes are seen from outside of them.
theorem Legible.reveals {e : Expr} (h : r.Legible e) (depth : Nat) :
    r.RevealsAs e (r.exprWith (r.signalText depth) e) := by
  induction h generalizing depth with
  | @shown id hshown hname =>
      intro text htext
      cases depth with
      | zero => cases htext
      | succ depth =>
          simp only [exprWith, signalText] at htext
          obtain ⟨signal, hsignal, htext⟩ := bind_eq_ok.mp htext
          have hnone : signal.alias? = none := by
            rw [Renderer.signal] at hsignal
            split at hsignal
            · rename_i found hfound
              obtain rfl := Except.ok.inj hsignal
              rwa [Architecture.alias?, hfound] at hshown
            · cases hsignal
          simp only [hnone] at htext
          obtain ⟨name, hwritten, htext⟩ := bind_eq_ok.mp htext
          obtain rfl := Except.ok.inj htext
          refine (reveals_signalRef (hname name hwritten)).congr fun connective => ?_
          exact iff_of_false not_false (not_exposes_shown hshown)
  | @hidden id origin halias horigin ih =>
      intro text htext
      cases depth with
      | zero => cases htext
      | succ depth =>
          rw [exprWith, signalText_succ_of_alias halias] at htext
          exact (ih depth text htext).congr fun _ => (exposes_hidden_iff halias).symm
  | literal hlabel =>
      intro text htext
      refine (reveals_valueText htext fun index hpayload => ?_).congr fun connective =>
        iff_of_false not_false not_exposes_literal
      exact hlabel index text hpayload htext
  | apply hname hoperands ih =>
      intro text htext
      rw [exprWith, exprsWith_eq_map] at htext
      exact reveals_applyText hname (fun e hmem => ih e hmem depth) htext

end Rtl.Renderer
