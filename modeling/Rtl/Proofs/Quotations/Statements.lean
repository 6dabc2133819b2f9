import Rtl.Layout
import Rtl.Proofs.Quotations.Expressions
import Rtl.Render.Statement

namespace Rtl

-- The constants of a case, of its key and of its body.
abbrev QuotedCase : Type := Option (List Quotation) × List Quotation

def keyedQuotations (cases : List QuotedCase) : List (List Quotation × List Quotation) :=
  cases.filterMap fun (key, body) => key.map fun key => (key, body)

def defaultQuotations? (cases : List QuotedCase) : Option (List Quotation) :=
  (cases.find? (·.1.isNone)).map (·.2)

def branchQuotations (indent : String) (condition body : List Quotation)
    (elifs : List (List Quotation × List Quotation)) (otherwise : List Quotation) :
    List Quotation :=
  condition ++ inset indent body ++
    elifs.flatMap (fun (condition, body) => condition ++ inset indent body) ++
    inset indent otherwise

-- A selection is an alternative for each case, with its body twice further in at once, or a chain
-- of tests that each have the subject.
def selectQuotations (dialect : Dialect) (indent : String) (subject : List Quotation)
    (cases : List QuotedCase) : List Quotation :=
  match dialect with
  | .vhdl =>
      subject ++ cases.flatMap fun (key, body) => key.getD [] ++ inset (indent ++ indent) body
  | .simModel =>
      let default := (defaultQuotations? cases).getD []
      match keyedQuotations cases with
      | [] => default
      | keyed =>
          keyed.flatMap (fun (key, body) => subject ++ key ++ inset indent body) ++
            inset indent default

namespace Architecture

variable (arch : Architecture) (dialect : Dialect) (indent : String)

mutual

-- The constants of a statement in the order of its text.
def quotations : Statement → List Quotation
  | .assign _ _ source _ _ => arch.stringsIn source
  | .branch _ condition body elifs otherwise =>
      branchQuotations indent (condition.flatMap arch.stringsIn) (quotationsOf body)
        (elifQuotations elifs) (quotationsOf otherwise)
  | .select _ subject cases =>
      selectQuotations dialect indent (arch.stringsIn subject) (caseQuotations cases)
  | .wait .. => []

def quotationsOf : List Statement → List Quotation
  | [] => []
  | s :: rest => quotations s ++ quotationsOf rest

def elifQuotations : List (List Expr × List Statement) → List (List Quotation × List Quotation)
  | [] => []
  | (condition, body) :: rest =>
      (condition.flatMap arch.stringsIn, quotationsOf body) :: elifQuotations rest

def caseQuotations : List (Option Expr × List Statement) → List QuotedCase
  | [] => []
  | (key, body) :: rest => (key.map arch.stringsIn, quotationsOf body) :: caseQuotations rest

end

end Architecture

section

variable {dialect : Dialect} {indent : String}

-- A condition with its body.
def QuotesElif (dialect : Dialect) (elif : String × List String)
    (part : List Quotation × List Quotation) : Prop :=
  Quotes dialect elif.1.toList part.1 ∧ QuotesTexts dialect elif.2 part.2

def QuotesCase (dialect : Dialect) (case : Option String × List String) (part : QuotedCase) :
    Prop :=
  Option.Rel (fun key qs => Quotes dialect key.toList qs) case.1 part.1 ∧
    QuotesTexts dialect case.2 part.2

variable {texts : List String} {qs : List Quotation}

-- A body that is left out if it is empty, behind a line of its own.
theorem quotesLines_otherwise (indent keyword placeholder : String)
    (h : QuotesTexts dialect texts qs) :
    QuotesLines dialect
      (if texts.isEmpty then [] else keyword :: Layout.body placeholder indent texts)
      (inset indent qs) := by
  have hbody := QuotesLines.body indent placeholder h
  cases h with
  | nil => exact .of_plain []
  | cons => exact .cons (.of_plain keyword.toList) hbody

theorem quotesLines_elifs {header : String → String} {placeholder : String}
    {elifs : List (String × List String)} {parts : List (List Quotation × List Quotation)}
    (hheader : ∀ {text qs}, Quotes dialect text.toList qs → Quotes dialect (header text).toList qs)
    (h : List.Forall₂ (QuotesElif dialect) elifs parts) :
    QuotesLines dialect
      (elifs.flatMap fun (condition, texts) =>
        header condition :: Layout.body placeholder indent texts)
      (parts.flatMap fun (condition, body) => condition ++ inset indent body) :=
  .flatMap h fun _ _ hpart => .cons (hheader hpart.1) (.body indent placeholder hpart.2)

theorem quotes_branch {piece : BranchPiece} {condition body otherwise : List Quotation}
    {elifs : List (List Quotation × List Quotation)}
    (hcondition : Quotes dialect piece.condition.toList condition)
    (hbody : QuotesTexts dialect piece.body body)
    (helifs : List.Forall₂ (QuotesElif dialect) piece.elifs elifs)
    (hotherwise : QuotesTexts dialect piece.otherwise otherwise) :
    Quotes dialect (dialect.layout indent (.branch piece)).toList
      (branchQuotations indent condition body elifs otherwise) := by
  cases dialect with
  | vhdl =>
      have hopening : QuotesLines .vhdl ["IF " ++ piece.condition ++ " THEN"] condition :=
        .singleton ((hcondition.before "IF ").ended (by decide))
      have hnext : QuotesLines .vhdl (piece.elifs.flatMap fun (condition, texts) =>
          ("ELSIF " ++ condition ++ " THEN") :: Layout.Vhdl.statements indent texts) _ :=
        quotesLines_elifs (fun h => (h.before "ELSIF ").ended (by decide)) helifs
      have hall := ((hopening.append (.body indent "NULL;" hbody)).append hnext).append
        (quotesLines_otherwise indent "ELSE" "NULL;" hotherwise)
      exact (hall.append_plain ["END IF;"]).joinLines
  | simModel =>
      have hopening : QuotesLines .simModel ["if " ++ piece.condition ++ ":"] condition :=
        .singleton ((hcondition.before "if ").ended (by decide))
      have hnext : QuotesLines .simModel (piece.elifs.flatMap fun (condition, texts) =>
          ("elif " ++ condition ++ ":") :: Layout.SimModel.statements indent texts) _ :=
        quotesLines_elifs (fun h => (h.before "elif ").ended (by decide)) helifs
      have hall := ((hopening.append (.body indent "pass" hbody)).append hnext).append
        (quotesLines_otherwise indent "else:" "pass" hotherwise)
      exact hall.joinLines

theorem Layout.indentLine_indentLine (outer inner line : String) :
    indentLine outer (indentLine inner line) = indentLine (outer ++ inner) line := by
  simp only [indentLine]
  by_cases hempty : line.isEmpty = true
  · simp [hempty]
  · have hmore : (inner ++ line).isEmpty = false := by
      rw [Bool.eq_false_iff, ne_eq, String.isEmpty_iff, String.append_eq_empty_iff]
      exact fun hboth => hempty (String.isEmpty_iff.mpr hboth.2)
    simp only [hempty, hmore, if_false, Bool.false_eq_true, String.append_assoc]

-- Lines that are indented twice have both indentations at once.
theorem quotesLines_twice (indent placeholder : String) (h : QuotesTexts dialect texts qs) :
    QuotesLines dialect
      ((Layout.body placeholder indent texts).map (Layout.indentLine indent))
      (inset (indent ++ indent) qs) := by
  cases h with
  | nil => exact .of_plain _
  | cons hfirst hrest =>
      have htwice (texts : List String) :
          (Layout.indentAll indent texts).map (Layout.indentLine indent) =
            Layout.indentAll (indent ++ indent) texts := by
        simp only [Layout.indentAll, List.map_map, Function.comp_def,
          Layout.indentLine_indentLine]
      have hquotes : QuotesLines dialect (Layout.indentAll (indent ++ indent) _) _ :=
        .indentAll (.cons hfirst hrest)
      rwa [← htwice] at hquotes

theorem quotes_case (indent : String) {case : Option String × List String} {part : QuotedCase}
    (h : QuotesCase .vhdl case part) :
    QuotesLines .vhdl
      ((indent ++ "WHEN " ++ case.1.getD "OTHERS" ++ " =>") ::
        (Layout.Vhdl.statements indent case.2).map (Layout.indentLine indent))
      (part.1.getD [] ++ inset (indent ++ indent) part.2) := by
  obtain ⟨key, texts⟩ := case
  obtain ⟨keyPart, body⟩ := part
  obtain ⟨hkey, hbody⟩ := h
  refine .cons ?_ (quotesLines_twice indent "NULL;" hbody)
  have hshown : Quotes .vhdl (key.getD "OTHERS").toList (keyPart.getD []) := by
    cases hkey with
    | none => exact .of_plain _
    | some hkey => exact hkey
  exact (hshown.before _).ended (by decide)

-- The cases of a chain with their constants.

theorem quotes_keyed {cases : List (Option String × List String)} {parts : List QuotedCase}
    (h : List.Forall₂ (QuotesCase dialect) cases parts) :
    List.Forall₂ (QuotesElif dialect) (Layout.SimModel.keyedCases cases)
      (keyedQuotations parts) := by
  induction h with
  | nil => exact .nil
  | @cons case part cases parts hfirst _ ih =>
      obtain ⟨key, texts⟩ := case
      obtain ⟨keyPart, body⟩ := part
      obtain ⟨hkey, hbody⟩ := hfirst
      cases hkey with
      | none => exact ih
      | some hkey => exact .cons ⟨hkey, hbody⟩ ih

theorem quotes_default? {cases : List (Option String × List String)} {parts : List QuotedCase}
    (h : List.Forall₂ (QuotesCase dialect) cases parts) :
    Option.Rel (QuotesTexts dialect) (Layout.SimModel.defaultBody? cases)
      (defaultQuotations? parts) := by
  induction h with
  | nil => exact .none
  | @cons case part cases parts hfirst _ ih =>
      obtain ⟨key, texts⟩ := case
      obtain ⟨keyPart, body⟩ := part
      obtain ⟨hkey, hbody⟩ := hfirst
      cases hkey with
      | none => exact .some hbody
      | some hkey => exact ih

theorem quotes_test {subject key : String} {subjectPart keyPart : List Quotation}
    (keyword : String) (hsubject : Quotes dialect subject.toList subjectPart)
    (hkey : Quotes dialect key.toList keyPart) :
    Quotes dialect (Layout.SimModel.test keyword subject key).toList (subjectPart ++ keyPart) := by
  have hsame : Layout.SimModel.test keyword subject key =
      (keyword ++ " (" ++ subject) ++ (")._eq(" ++ key) ++ "):" := by
    simp only [Layout.SimModel.test, String.append_assoc]
  have hmethod : Detached ")._eq(" := ⟨')', rfl, by decide⟩
  rw [hsame]
  exact ((hsubject.before _).followed (hkey.before _) (hmethod.append key).head?_ne).ended
    (by decide)

theorem quotes_chain {piece : SelectPiece} {subject : List Quotation} {cases : List QuotedCase}
    (hsubject : Quotes .simModel piece.subject.toList subject)
    (hcases : List.Forall₂ (QuotesCase .simModel) piece.cases cases) :
    Quotes .simModel (Layout.SimModel.select indent piece).toList
      (selectQuotations .simModel indent subject cases) := by
  have hkeyed := quotes_keyed hcases
  have hdefault := quotes_default? hcases
  have htest (keyword : String) (case : String × List String)
      (part : List Quotation × List Quotation) (h : QuotesElif .simModel case part) :
      QuotesLines .simModel
        (Layout.SimModel.test keyword piece.subject case.1 ::
          Layout.SimModel.statements indent case.2)
        (subject ++ part.1 ++ inset indent part.2) :=
    .cons (quotes_test keyword hsubject h.1) (.body indent "pass" h.2)
  rw [Layout.SimModel.select, selectQuotations]
  generalize Layout.SimModel.keyedCases piece.cases = keyed at hkeyed ⊢
  generalize Layout.SimModel.defaultBody? piece.cases = default? at hdefault ⊢
  generalize keyedQuotations cases = keyedParts at hkeyed ⊢
  generalize defaultQuotations? cases = defaultPart? at hdefault ⊢
  cases hkeyed with
  | nil =>
      cases hdefault with
      | none => exact .of_plain _
      | some htexts =>
          cases htexts with
          | nil => exact .of_plain _
          | cons hfirst hrest => exact (QuotesLines.of_texts (.cons hfirst hrest)).joinLines
  | @cons case part keyed keyedParts hfirst hrest =>
      have hchain := (htest "if" case part hfirst).append (.flatMap hrest (htest "elif"))
      cases hdefault with
      | none => exact (hchain.append (.of_plain [])).joinLines
      | some htexts =>
          have hlast := QuotesLines.cons (.of_plain "else:".toList) (.body indent "pass" htexts)
          exact (hchain.append hlast).joinLines

theorem quotes_assignment {target value : String} {onEvent : Bool}
    (h : Quotes dialect value.toList qs) :
    Quotes dialect (dialect.assignment target value onEvent).toList qs := by
  cases dialect with
  | vhdl => exact (h.before (target ++ " <= ")).ended (by decide)
  | simModel =>
      have hflag : (SimModel.boolean onEvent).toList.head? ≠ some '"' := by
        cases onEvent with
        | false | true => decide
      exact (((h.before ("yield (" ++ target ++ ", mkUpdater(")).ended (by decide)).ended
        hflag).ended (by decide)

theorem quotes_select {piece : SelectPiece} {subject : List Quotation} {cases : List QuotedCase}
    (hsubject : Quotes dialect piece.subject.toList subject)
    (hcases : List.Forall₂ (QuotesCase dialect) piece.cases cases) :
    Quotes dialect (dialect.layout indent (.select piece)).toList
      (selectQuotations dialect indent subject cases) := by
  cases dialect with
  | vhdl =>
      have hopening : QuotesLines .vhdl ["CASE " ++ piece.subject ++ " IS"] subject :=
        .singleton ((hsubject.before "CASE ").ended (by decide))
      have hall := hopening.append (.flatMap hcases fun _ _ hcase => quotes_case indent hcase)
      exact (hall.append_plain ["END CASE;"]).joinLines
  | simModel => exact quotes_chain hsubject hcases

end

namespace Renderer

variable {r : Renderer} {indent : String}

theorem quotes_assignmentText {destination : SignalId} {source : Expr}
    {indexes : Option (List Expr)} {onEvent : Bool} {text : String}
    (h : r.assignmentText destination source indexes onEvent = .ok text) :
    Quotes r.dialect text.toList (r.design.arch.stringsIn source) := by
  simp only [assignmentText, bind_eq_ok] at h
  obtain ⟨signal, -, valueType, -, name, -, value, hvalue, h⟩ := h
  have hquotes := quotes_exprText hvalue
  split at h
  · obtain ⟨_, -, h⟩ := bind_eq_ok.mp h
    obtain ⟨_, -, h⟩ := bind_eq_ok.mp h
    cases h
  · split at h
    · cases h
    · obtain rfl := Except.ok.inj h
      exact quotes_assignment hquotes

mutual

theorem quotes_statement : ∀ (t : Statement) (text : String),
    r.statement (r.dialect.layout indent) t = .ok text →
      Quotes r.dialect text.toList (r.design.arch.quotations r.dialect indent t)
  | .assign .., text, h => quotes_assignmentText h
  | .branch _ condition body elifs otherwise, text, h => by
      obtain ⟨elifTexts, helifs, h⟩ := bind_eq_ok.mp h
      obtain ⟨test, htest, h⟩ := bind_eq_ok.mp h
      obtain ⟨bodyTexts, hbody, h⟩ := bind_eq_ok.mp h
      obtain ⟨otherTexts, hother, h⟩ := bind_eq_ok.mp h
      obtain rfl := Except.ok.inj h
      exact quotes_branch (quotes_condition htest) (quotes_statements body _ hbody)
        (quotes_elifs elifs _ helifs) (quotes_statements otherwise _ hother)
  | .select _ subject cases, text, h => by
      obtain ⟨caseTexts, hcases, h⟩ := bind_eq_ok.mp h
      obtain ⟨subjectText, hsubject, h⟩ := bind_eq_ok.mp h
      obtain rfl := Except.ok.inj h
      have hquotes := quotes_condition hsubject
      rw [List.flatMap_singleton] at hquotes
      exact quotes_select hquotes (quotes_cases cases _ hcases)
  | .wait .., text, h => .of_plain _

theorem quotes_statements : ∀ (body : List Statement) (texts : List String),
    r.statements (r.dialect.layout indent) body = .ok texts →
      QuotesTexts r.dialect texts (r.design.arch.quotationsOf r.dialect indent body)
  | [], texts, h => by
      obtain rfl := Except.ok.inj h
      exact .nil
  | t :: rest, texts, h => by
      obtain ⟨text, htext, h⟩ := bind_eq_ok.mp h
      obtain ⟨more, hmore, h⟩ := bind_eq_ok.mp h
      obtain rfl := Except.ok.inj h
      exact .cons (quotes_statement t text htext) (quotes_statements rest more hmore)

theorem quotes_elifs : ∀ (elifs : List (List Expr × List Statement))
    (texts : List (String × List String)),
    r.elifs (r.dialect.layout indent) elifs = .ok texts →
      List.Forall₂ (QuotesElif r.dialect) texts
        (r.design.arch.elifQuotations r.dialect indent elifs)
  | [], texts, h => by
      obtain rfl := Except.ok.inj h
      exact .nil
  | (condition, body) :: rest, texts, h => by
      obtain ⟨test, htest, h⟩ := bind_eq_ok.mp h
      obtain ⟨bodyTexts, hbody, h⟩ := bind_eq_ok.mp h
      obtain ⟨more, hmore, h⟩ := bind_eq_ok.mp h
      obtain rfl := Except.ok.inj h
      exact .cons ⟨quotes_condition htest, quotes_statements body _ hbody⟩
        (quotes_elifs rest more hmore)

theorem quotes_cases : ∀ (cases : List (Option Expr × List Statement))
    (texts : List (Option String × List String)),
    r.cases (r.dialect.layout indent) cases = .ok texts →
      List.Forall₂ (QuotesCase r.dialect) texts
        (r.design.arch.caseQuotations r.dialect indent cases)
  | [], texts, h => by
      obtain rfl := Except.ok.inj h
      exact .nil
  | (none, body) :: rest, texts, h => by
      obtain ⟨bodyTexts, hbody, h⟩ := bind_eq_ok.mp h
      obtain ⟨more, hmore, h⟩ := bind_eq_ok.mp h
      obtain rfl := Except.ok.inj h
      exact .cons ⟨.none, quotes_statements body _ hbody⟩ (quotes_cases rest more hmore)
  | (some key, body) :: rest, texts, h => by
      obtain ⟨keyText, hkey, h⟩ := bind_eq_ok.mp h
      obtain ⟨bodyTexts, hbody, h⟩ := bind_eq_ok.mp h
      obtain ⟨more, hmore, h⟩ := bind_eq_ok.mp h
      obtain rfl := Except.ok.inj h
      exact .cons ⟨.some (quotes_exprText hkey), quotes_statements body _ hbody⟩
        (quotes_cases rest more hmore)

end

end Renderer

end Rtl
