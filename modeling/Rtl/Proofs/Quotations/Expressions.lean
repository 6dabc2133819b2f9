import Rtl.Proofs.Connectives.Exposure
import Rtl.Proofs.Quotations.Strands

namespace Rtl

open Connectives

-- Texts, each with its constants.
def QuotesAll (dialect : Dialect) (texts : List String) (qss : List (List Quotation)) : Prop :=
  List.Forall₂ (fun text qs => Quotes dialect text.toList qs) texts qss

section

variable {dialect : Dialect} {a b : List Char} {qs qs' : List Quotation} {texts : List String}
  {qss : List (List Quotation)} {text text' separator : String}

-- A text that can stand behind a literal and in front of anything.
def Detached (text : String) : Prop := ∃ c ∈ text.toList.head?, c ≠ '"'

theorem Detached.append (h : Detached text) (text' : String) : Detached (text ++ text') := by
  obtain ⟨c, hhead, hc⟩ := h
  obtain ⟨rest, hrest⟩ := List.head?_eq_some_iff.mp hhead
  exact ⟨c, by rw [String.toList_append, hrest]; rfl, hc⟩

theorem Detached.head?_ne (h : Detached text) : text.toList.head? ≠ some '"' := by
  obtain ⟨c, hhead, hc⟩ := h
  exact fun hquote => hc (Option.some.inj (hhead.symm.trans hquote))

namespace Quotes

theorem before (lead : String) (h : Quotes dialect text.toList qs) :
    Quotes dialect (lead ++ text).toList qs := by
  rw [String.toList_append]
  exact h.prepend _

theorem followed (h : Quotes dialect text.toList qs) (h' : Quotes dialect text'.toList qs')
    (hnext : text'.toList.head? ≠ some '"') :
    Quotes dialect (text ++ text').toList (qs ++ qs') := by
  rw [String.toList_append]
  exact h.append h' fun _ => hnext

theorem ended (h : Quotes dialect text.toList qs) (hnext : text'.toList.head? ≠ some '"') :
    Quotes dialect (text ++ text').toList qs := by
  have hmore := h.followed (of_plain text'.toList) hnext
  rwa [List.append_nil] at hmore

theorem parenthesize (h : Quotes dialect text.toList qs) :
    Quotes dialect (Renderer.parenthesize text).toList qs :=
  (h.before "(").ended (by decide)

theorem intercalate (hdetached : Detached separator) (h : QuotesAll dialect texts qss) :
    Quotes dialect (String.intercalate separator texts).toList qss.flatten := by
  induction h with
  | nil => exact .nil
  | @cons text qs texts qss hfirst hrest ih =>
      cases hrest with
      | nil => simpa using hfirst
      | cons hnext hrest =>
          rw [String.intercalate_cons_cons, String.append_assoc]
          exact hfirst.followed (ih.before separator) (hdetached.append _).head?_ne

theorem applied {opening closing : String} (hopening : Detached opening)
    (hclosing : Detached closing) (h : Quotes dialect text.toList qs)
    (hrest : QuotesAll dialect texts qss) :
    Quotes dialect (text ++ (opening ++ String.intercalate ", " texts ++ closing)).toList
      (qs ++ qss.flatten) := by
  have hcomma : Detached ", " := ⟨',', rfl, by decide⟩
  have hinside := ((intercalate hcomma hrest).before opening).ended hclosing.head?_ne
  exact h.followed hinside ((hopening.append _).append _).head?_ne

theorem equality (h : Quotes dialect text.toList qs) (h' : Quotes dialect text'.toList qs') :
    Quotes dialect ("(" ++ text ++ ")" ++ ("._eq" ++ ("(" ++ text' ++ ")"))).toList
      (qs ++ qs') := by
  have hmethod : Detached "._eq" := ⟨'.', rfl, by decide⟩
  exact h.parenthesize.followed (h'.parenthesize.before "._eq") (hmethod.append _).head?_ne

theorem choice {condition : String} {qsC : List Quotation}
    (hcondition : Quotes dialect condition.toList qsC) (h : Quotes dialect text.toList qs)
    (h' : Quotes dialect text'.toList qs') :
    Quotes dialect (text ++ " if " ++ condition ++ " else " ++ text').toList
      (qs ++ qsC ++ qs') := by
  have hif : Detached " if " := ⟨' ', rfl, by decide⟩
  have helse : Detached " else " := ⟨' ', rfl, by decide⟩
  have hboth := (h.followed (hcondition.before " if ") (hif.append condition).head?_ne).followed
    (h'.before " else ") (helse.append text').head?_ne
  simpa only [String.append_assoc] using hboth

end Quotes

-- What the operands have, in the order of the text: the condition of a choice stands behind
-- its first branch.
def Pattern.inTextOrder {α : Type} : Pattern → List α → List α
  | .choice, [condition, first, second] => [first, condition, second]
  | _, parts => parts

theorem Pattern.quotes {pattern : Pattern} (hsound : pattern.Sound dialect)
    (h : QuotesAll dialect texts qss) (htext : pattern.text? texts = some text) :
    Quotes dialect text.toList (pattern.inTextOrder qss).flatten := by
  unfold text? at htext
  split at htext
  · rename_i symbol a b rest
    obtain rfl := Option.some.inj htext
    have hblank : Detached " " := ⟨' ', rfl, by decide⟩
    exact Quotes.intercalate ((hblank.append symbol).append " ") h
  · rename_i lead a
    obtain rfl := Option.some.inj htext
    obtain - | ⟨ha, ⟨⟩⟩ := h
    simpa [inTextOrder] using ha.before lead
  · rename_i tail a
    obtain rfl := Option.some.inj htext
    obtain - | ⟨ha, ⟨⟩⟩ := h
    have htail : tail.toList.head? ≠ some '"' := fun hquote =>
      absurd (hsound.2 '"' hquote) (by decide)
    simpa [inTextOrder] using ha.ended htail
  · rename_i name
    obtain rfl := Option.some.inj htext
    have hcomma : Detached ", " := ⟨',', rfl, by decide⟩
    exact (Quotes.intercalate hcomma h).parenthesize.before name
  · rename_i opening closing first rest
    obtain rfl := Option.some.inj htext
    obtain - | ⟨hfirst, hrest⟩ := h
    obtain ⟨hopening, hclosing⟩ : Detached opening ∧ Detached closing := by
      simp only [Sound, List.mem_cons, Prod.mk.injEq, List.not_mem_nil, or_false] at hsound
      rcases hsound with ⟨rfl, rfl⟩ | ⟨rfl, rfl⟩ <;>
        exact ⟨⟨_, rfl, by decide⟩, ⟨_, rfl, by decide⟩⟩
    exact hfirst.applied hopening hclosing hrest
  · rename_i a b
    obtain rfl := Option.some.inj htext
    obtain - | ⟨ha, - | ⟨hb, ⟨⟩⟩⟩ := h
    simpa [inTextOrder] using ha.equality hb
  · rename_i c a b
    obtain rfl := Option.some.inj htext
    obtain - | ⟨hc, - | ⟨ha, - | ⟨hb, ⟨⟩⟩⟩⟩ := h
    simpa [inTextOrder] using hc.choice ha hb
  · cases htext

end

def Value.strings (value : Value) : List String :=
  match value.payload with
  | .text (some s) => [s]
  | _ => []

-- What the operands have as the text of an application shows it: the name of a function is no
-- string, and the condition of a choice stands behind its first branch.
def Operator.inText {α : Type} : Operator → List (List α) → List (List α)
  | .call, _ :: arguments => [] :: arguments
  | .ternary, [condition, first, second] => [first, condition, second]
  | _, operands => operands

mutual

-- The string constants of an expression in the order in which its text has them.
def Expr.strings : Expr → List String
  | .signal _ => []
  | .literal value => value.strings
  | .apply op operands _ => (op.inText (stringsOf operands)).flatten

def Expr.stringsOf : List Expr → List (List String)
  | [] => []
  | e :: rest => e.strings :: stringsOf rest

end

theorem Expr.stringsOf_eq_map (es : List Expr) : stringsOf es = es.map strings := by
  induction es with
  | nil => rfl
  | cons e rest ih => rw [stringsOf, ih, List.map_cons]

-- Constants that have not been indented.
def quoted (strings : List String) : List Quotation := strings.map fun s => ⟨s, []⟩

theorem Operator.inText_map {α β : Type} (f : α → β) (op : Operator) (parts : List (List α)) :
    op.inText (parts.map (List.map f)) = (op.inText parts).map (List.map f) := by
  cases op with
  | call => cases parts with | nil | cons => rfl
  | ternary =>
      match parts with
      | [] | [_] | [_, _] | [_, _, _] | _ :: _ :: _ :: _ :: _ => rfl
  | _ => rfl

theorem quoted_inText (op : Operator) (parts : List (List String)) :
    quoted (op.inText parts).flatten = (op.inText (parts.map quoted)).flatten :=
  List.map_flatten.trans (congrArg List.flatten (op.inText_map _ parts).symm)

-- The pattern of an operator has its operands in the order of the text, and a call has the name
-- of its function at the first place.
theorem inTextOrder_pattern {α β : Type} (dialect : Dialect) (op : Operator) (operands : List α)
    (f : α → List β) :
    (dialect.pattern op).inTextOrder (operands.zipIdx.map fun (operand, place) =>
      if op = .call ∧ place = 0 then [] else f operand) = op.inText (operands.map f) := by
  have hplain (first : Nat) (rest : List α) (hfirst : op ≠ .call ∨ 0 < first) :
      ((rest.zipIdx first).map fun (operand, place) =>
        if op = .call ∧ place = 0 then [] else f operand) = rest.map f := by
    conv_rhs => rw [← List.zipIdx_map_fst first rest, List.map_map]
    refine List.map_congr_left fun entry hmem => if_neg ?_
    rintro ⟨hcall, hzero⟩
    have hle := List.le_snd_of_mem_zipIdx hmem
    rcases hfirst with hop | hpos
    · exact hop hcall
    · omega
  by_cases hop : op = .call
  · subst hop
    cases operands with
    | nil => cases dialect with | vhdl | simModel => rfl
    | cons function arguments =>
        rw [List.zipIdx_cons, List.map_cons, hplain _ _ (.inr Nat.one_pos)]
        cases dialect with
        | vhdl | simModel => rfl
  · rw [hplain 0 operands (.inl hop)]
    generalize operands.map f = parts
    cases op with
    | call => exact absurd rfl hop
    | ternary =>
        have hchoice : dialect.pattern .ternary = .choice := by
          cases dialect with
          | vhdl | simModel => rfl
        rw [hchoice]
        match parts with
        | [] | [_] | [_, _] | [_, _, _] | _ :: _ :: _ :: _ :: _ => rfl
    | _ => cases dialect with | vhdl | simModel => rfl

-- The constants of an expression as it is written, also those behind hidden signals.
def Architecture.stringsIn (arch : Architecture) (e : Expr) : List Quotation :=
  quoted (arch.expand e).strings

namespace Renderer

variable {r : Renderer} {text : String} {qs : List Quotation}

theorem quotes_valueText {value : Value} (h : r.valueText value = .ok text) :
    Quotes r.dialect text.toList (quoted value.strings) := by
  obtain ⟨type, payload⟩ := value
  cases payload with
  | text content =>
      cases content with
      | none => exact .of_plain _
      | some s =>
          obtain ⟨_, -, h⟩ := bind_eq_ok.mp h
          obtain rfl := Except.ok.inj h
          rw [Dialect.toList_stringLiteral]
          exact .literal ⟨s, []⟩ nofun .nil
  | bits | boolean | integer | label => exact .of_plain _

theorem quotes_operator {op : Operator} {texts : List String} {qss : List (List Quotation)}
    (harity : op.arity.accepts texts.length = true) (h : QuotesAll r.dialect texts qss)
    (htext : r.dialect.operator op texts = .ok text) :
    Quotes r.dialect text.toList ((r.dialect.pattern op).inTextOrder qss).flatten :=
  Pattern.quotes (Dialect.sound_pattern htext) h (Dialect.text?_pattern harity htext)

theorem quotes_operandText {parent : Operator} {place : Nat} {operand : Expr} {pending : Pending}
    (h : ∀ text, pending () = .ok text → Quotes r.dialect text.toList qs)
    (htext : r.operandText parent place operand pending = .ok text) :
    Quotes r.dialect text.toList qs := by
  rw [operandText_eq] at htext
  obtain ⟨inner, hinner, htext⟩ := bind_eq_ok.mp htext
  obtain rfl := Except.ok.inj htext
  split
  · exact (h inner hinner).parenthesize
  · exact h inner hinner

-- A comparison with a constant of bits adds no string.
theorem quotes_conditionPart {asBoolean : Bool} {part : Expr} {pending : Pending}
    (h : ∀ text, pending () = .ok text → Quotes r.dialect text.toList qs)
    (htext : r.conditionPart asBoolean part pending = .ok text) :
    Quotes r.dialect text.toList qs := by
  have hcompared {op : Operator} (hop : op = .eq ∨ op = .ne) {inner constant : String}
      (hinner : r.operandText op 0 part pending = .ok inner)
      (htest : r.dialect.operator op [inner, constant] = .ok text) :
      Quotes r.dialect text.toList qs := by
    have htexts : QuotesAll r.dialect [inner, constant] [qs, []] :=
      .cons (quotes_operandText h hinner) (.cons (.of_plain _) .nil)
    have harity : op.arity.accepts [inner, constant].length = true := by
      rcases hop with rfl | rfl <;> rfl
    have hquotes := quotes_operator harity htexts htest
    have hsame : ((r.dialect.pattern op).inTextOrder [qs, []]).flatten = qs := by
      cases r.dialect.pattern op with
      | _ => simp [Pattern.inTextOrder]
    rwa [hsame] at hquotes
  simp only [conditionPart] at htext
  split at htext
  · exact h text htext
  · obtain ⟨id, -, htext⟩ := bind_eq_ok.mp htext
    obtain ⟨type, -, htext⟩ := bind_eq_ok.mp htext
    split at htext
    · exact h text htext
    · split at htext
      · obtain ⟨inner, hinner, htest⟩ := bind_eq_ok.mp htext
        exact hcompared (.inl rfl) hinner htest
      · obtain ⟨zeros, -, htext⟩ := bind_eq_ok.mp htext
        obtain ⟨inner, hinner, htest⟩ := bind_eq_ok.mp htext
        exact hcompared (.inr rfl) hinner htest
    · obtain ⟨_, -, htext⟩ := bind_eq_ok.mp htext
      cases htext

theorem quotes_conditionText {asBoolean : Bool} {parts : List (Expr × Pending)}
    (quote : Expr × Pending → List Quotation)
    (h : ∀ part ∈ parts, ∀ text, part.2 () = .ok text → Quotes r.dialect text.toList (quote part))
    (htext : r.conditionText asBoolean parts = .ok text) :
    Quotes r.dialect text.toList (parts.flatMap quote) := by
  simp only [conditionText] at htext
  split at htext
  · cases htext
  obtain ⟨-, -, htext⟩ := bind_eq_ok.mp htext
  obtain ⟨texts, htexts, htext⟩ := bind_eq_ok.mp htext
  obtain rfl := Except.ok.inj htext
  have hand : Detached r.dialect.logicalAnd := by
    cases r.dialect with
    | vhdl | simModel => exact ⟨' ', rfl, by decide⟩
  have hparts : QuotesAll r.dialect texts (parts.map quote) := by
    refine List.forall₂_map_right_iff.mpr (List.Forall₂.flip ?_)
    refine forall₂_of_forall_mem (mapM_eq_ok.mp htexts) fun part hmem text htext => ?_
    obtain ⟨inner, hinner, htext⟩ := bind_eq_ok.mp htext
    obtain rfl := Except.ok.inj htext
    have hpart := quotes_conditionPart (h part hmem) hinner
    split
    · exact hpart.parenthesize
    · exact hpart
  rw [List.flatMap_def]
  exact Quotes.intercalate hand hparts

-- What an operand has at its place.
theorem quotes_placeText {op : Operator} {place : Nat} {operand : Expr} {pending : Pending}
    (h : ∀ text, pending () = .ok text → Quotes r.dialect text.toList qs)
    (htext : r.placeText op place operand pending = .ok text) :
    Quotes r.dialect text.toList (if op = .call ∧ place = 0 then [] else qs) := by
  by_cases hname : op = .call ∧ place = 0
  · rw [if_pos hname]
    exact .of_plain _
  · rw [if_neg hname]
    unfold placeText at htext
    split at htext
    · exact absurd ⟨rfl, rfl⟩ hname
    · exact h text htext
    · exact h text htext
    · rw [conditionText_singleton] at htext
      exact quotes_conditionPart h htext
    · exact quotes_operandText h htext

theorem quotes_applyText {op : Operator} {operands : List (Expr × Pending)}
    (quote : Expr × Pending → List Quotation)
    (h : ∀ operand ∈ operands, ∀ text, operand.2 () = .ok text →
      Quotes r.dialect text.toList (quote operand))
    (htext : r.applyText op operands = .ok text) :
    Quotes r.dialect text.toList (op.inText (operands.map quote)).flatten := by
  obtain ⟨harity, texts, htexts, htext⟩ := applyText_eq_ok htext
  have hcount : operands.length = texts.length := by
    rw [← htexts.length_eq, List.length_zipIdx]
  have hplaces : QuotesAll r.dialect texts (operands.zipIdx.map fun (operand, place) =>
      if op = .call ∧ place = 0 then [] else quote operand) := by
    refine List.forall₂_map_right_iff.mpr (List.Forall₂.flip ?_)
    refine forall₂_of_forall_mem htexts fun entry hmem text htext => ?_
    exact quotes_placeText (h entry.1 (List.fst_mem_of_mem_zipIdx hmem)) htext
  rw [hcount] at harity
  have hquotes := quotes_operator harity hplaces htext
  rwa [inTextOrder_pattern] at hquotes

mutual

theorem quotes_exprWith {write : SignalId → Except RenderError String} {put : SignalId → Expr}
    (hwrite : ∀ id text, write id = .ok text →
      Quotes r.dialect text.toList (quoted (put id).strings)) :
    ∀ (e : Expr) (text : String), r.exprWith write e = .ok text →
      Quotes r.dialect text.toList (quoted (e.substitute put).strings)
  | .signal id, text, h => hwrite id text h
  | .literal value, text, h => quotes_valueText h
  | .apply op operands _, text, h => by
      rw [exprWith, exprsWith_eq_map] at h
      have hquotes := quotes_applyText
        (fun operand => quoted (operand.1.substitute put).strings)
        (List.forall_mem_map.mpr (quotes_exprsWith hwrite operands)) h
      rw [Expr.substitute, Expr.strings, Expr.stringsOf_eq_map, Expr.substituteAll_eq_map,
        quoted_inText, List.map_map, List.map_map]
      rwa [List.map_map] at hquotes

theorem quotes_exprsWith {write : SignalId → Except RenderError String} {put : SignalId → Expr}
    (hwrite : ∀ id text, write id = .ok text →
      Quotes r.dialect text.toList (quoted (put id).strings)) :
    ∀ es : List Expr, ∀ e ∈ es, ∀ text, r.exprWith write e = .ok text →
      Quotes r.dialect text.toList (quoted (e.substitute put).strings)
  | [] => nofun
  | e :: rest =>
      List.forall_mem_cons.mpr ⟨quotes_exprWith hwrite e, quotes_exprsWith hwrite rest⟩

end

theorem quotes_signalText (depth : Nat) (id : SignalId) (text : String)
    (h : r.signalText depth id = .ok text) :
    Quotes r.dialect text.toList (quoted (r.design.arch.expandSignal depth id).strings) := by
  induction depth generalizing id text with
  | zero => cases h
  | succ depth ih =>
      rw [Architecture.expandSignal]
      split
      · rename_i origin halias
        rw [signalText_succ_of_alias halias] at h
        exact quotes_exprWith ih origin text h
      · exact .of_plain _

theorem quotes_exprText {e : Expr} (h : r.exprText e = .ok text) :
    Quotes r.dialect text.toList (r.design.arch.stringsIn e) :=
  quotes_exprWith (quotes_signalText _) e text h

theorem quotes_condition {asBoolean : Bool} {parts : List Expr}
    (h : r.condition asBoolean parts = .ok text) :
    Quotes r.dialect text.toList (parts.flatMap r.design.arch.stringsIn) := by
  rw [condition, withTexts_eq_map] at h
  have hparts := quotes_conditionText (fun part => r.design.arch.stringsIn part.1)
    (List.forall_mem_map.mpr fun e _ text htext => quotes_exprText htext) h
  rwa [List.flatMap_map] at hparts

end Renderer

end Rtl
