import Rtl.Proofs.Layout.OneLine

namespace Rtl.Renderer

open Layout.Vhdl

-- The outline of a statement, with its own parts as they are written.

mutual

def outline (r : Renderer) : Statement → Except RenderError Outline
  | .assign _ destination source indexes onEvent => do
      return .leaf (← r.assignmentText destination source indexes onEvent)
  | .branch _ condition body elifs otherwise => do
      let elifs ← r.outlineElifs elifs
      let condition ← r.condition true condition
      let body ← r.outlineAll body
      let otherwise ← r.outlineAll otherwise
      return .branch condition body elifs (present otherwise)
  | .select _ subject cases => do
      let cases ← r.outlineCases cases
      let subject ← r.condition false [subject]
      return .select subject cases
  | .wait _ timed duration => do return .leaf (← r.waitText timed duration)

def outlineAll (r : Renderer) : List Statement → Except RenderError (List Outline)
  | [] => .ok []
  | s :: rest => do return (← r.outline s) :: (← r.outlineAll rest)

def outlineElifs (r : Renderer) :
    List (List Expr × List Statement) → Except RenderError (List (String × List Outline))
  | [] => .ok []
  | (condition, body) :: rest => do
      let condition ← r.condition true condition
      let body ← r.outlineAll body
      return (condition, body) :: (← r.outlineElifs rest)

def outlineCases (r : Renderer) :
    List (Option Expr × List Statement) → Except RenderError (List (Option String × List Outline))
  | [] => .ok []
  | (none, body) :: rest => do
      let body ← r.outlineAll body
      return (none, body) :: (← r.outlineCases rest)
  | (some key, body) :: rest => do
      let key ← r.exprText key
      let body ← r.outlineAll body
      return (some key, body) :: (← r.outlineCases rest)

end

-- Conditions and keys with what their bodies are drawn by. Each is on one line.

def DrawnElif (Drawn : String → Outline → Prop) (elif : String × List String)
    (outline : String × List Outline) : Prop :=
  outline.1 = elif.1 ∧ '\n' ∉ elif.1.toList ∧ List.Forall₂ Drawn elif.2 outline.2

def DrawnCase (Key : String → Prop) (Drawn : String → Outline → Prop)
    (case : Option String × List String) (outline : Option String × List Outline) : Prop :=
  outline.1 = case.1 ∧ (∀ key ∈ case.1, Key key) ∧ List.Forall₂ Drawn case.2 outline.2

-- A layout whose texts are drawings of outlines, as far as the names and expressions
-- in a statement are fit for it.
structure Draws (r : Renderer) (layout : Layout) (Fit : Statement → Prop) (Key : String → Prop)
    (Drawn : String → Outline → Prop) : Prop where
  assign {id : StatementId} {destination : SignalId} {source : Expr}
    {indexes : Option (List Expr)} {onEvent : Bool} {text : String} :
    Fit (.assign id destination source indexes onEvent) →
      r.assignmentText destination source indexes onEvent = .ok text → Drawn text (.leaf text)
  wait {timed : Bool} {duration : Option Nat} {text : String} :
    r.waitText timed duration = .ok text → Drawn text (.leaf text)
  conditions {id : StatementId} {condition : List Expr} {body otherwise : List Statement}
    {elifs : List (List Expr × List Statement)} :
    Fit (.branch id condition body elifs otherwise) →
      (∀ part ∈ condition, OnOneLine (r.exprText part)) ∧
        ∀ elif ∈ elifs, ∀ part ∈ elif.1, OnOneLine (r.exprText part)
  keys {id : StatementId} {subject : Expr} {cases : List (Option Expr × List Statement)} :
    Fit (.select id subject cases) →
      OnOneLine (r.exprText subject) ∧
        ∀ case ∈ cases, ∀ key ∈ case.1, IfWritten Key (r.exprText key)
  branch (piece : BranchPiece) (body otherwise : List Outline)
    (elifs : List (String × List Outline)) :
    '\n' ∉ piece.condition.toList → List.Forall₂ Drawn piece.body body →
      List.Forall₂ (DrawnElif Drawn) piece.elifs elifs →
        List.Forall₂ Drawn piece.otherwise otherwise →
          Drawn (layout (.branch piece))
            (.branch piece.condition body elifs (present otherwise))
  select (piece : SelectPiece) (cases : List (Option String × List Outline)) :
    '\n' ∉ piece.subject.toList → List.Forall₂ (DrawnCase Key Drawn) piece.cases cases →
      Drawn (layout (.select piece)) (.select piece.subject cases)

namespace Draws

variable {r : Renderer} {layout : Layout} {Fit : Statement → Prop} {Key : String → Prop}
  {Drawn : String → Outline → Prop}

-- What is written of statements is drawn by their outlines.

mutual

theorem statement (h : Draws r layout Fit Key Drawn) :
    ∀ (t : Statement) (text : String), (∀ s ∈ t.walk, Fit s) → r.statement layout t = .ok text →
    ∃ o, r.outline t = .ok o ∧ Drawn text o
  | .assign id destination source indexes onEvent, text, hfit, hok => by
      have hdrawn := h.assign (hfit _ (Statement.mem_walk_self _)) hok
      exact ⟨.leaf text, bind_eq_ok.mpr ⟨text, hok, rfl⟩, hdrawn⟩
  | .branch id condition body elifs otherwise, text, hfit, hok => by
      simp only [Statement.walk, List.forall_mem_cons, List.forall_mem_append] at hfit
      obtain ⟨hhere, ⟨hbody, helifs⟩, hotherwise⟩ := hfit
      obtain ⟨hcondition, hconditions⟩ := h.conditions hhere
      simp only [Renderer.statement, bind_eq_ok] at hok
      obtain ⟨elifTexts, helifTexts, first, hfirst, bodyTexts, hbodyTexts, otherTexts, hotherTexts,
        hok⟩ := hok
      obtain rfl := Except.ok.inj hok
      obtain ⟨es, hes, hesDrawn⟩ := h.elifs elifs elifTexts hconditions helifs helifTexts
      obtain ⟨bs, hbs, hbsDrawn⟩ := h.statements body bodyTexts hbody hbodyTexts
      obtain ⟨os, hos, hosDrawn⟩ := h.statements otherwise otherTexts hotherwise hotherTexts
      have hline := onOneLine_condition true hcondition first hfirst
      refine ⟨.branch first bs es (present os), ?_,
        h.branch ⟨first, bodyTexts, elifTexts, otherTexts⟩ bs os es hline hbsDrawn hesDrawn
          hosDrawn⟩
      simp only [outline, bind_eq_ok]
      exact ⟨es, hes, first, hfirst, bs, hbs, os, hos, rfl⟩
  | .select id subject cases, text, hfit, hok => by
      simp only [Statement.walk, List.forall_mem_cons] at hfit
      obtain ⟨hhere, hcases⟩ := hfit
      obtain ⟨hsubject, hkeys⟩ := h.keys hhere
      simp only [Renderer.statement, bind_eq_ok] at hok
      obtain ⟨caseTexts, hcaseTexts, first, hfirst, hok⟩ := hok
      obtain rfl := Except.ok.inj hok
      obtain ⟨cs, hcs, hcsDrawn⟩ := h.cases cases caseTexts hkeys hcases hcaseTexts
      have hline := onOneLine_condition false (List.forall_mem_singleton.mpr hsubject) first hfirst
      refine ⟨.select first cs, ?_, h.select ⟨first, caseTexts⟩ cs hline hcsDrawn⟩
      simp only [outline, bind_eq_ok]
      exact ⟨cs, hcs, first, hfirst, rfl⟩
  | .wait id timed duration, text, _, hok =>
      ⟨.leaf text, bind_eq_ok.mpr ⟨text, hok, rfl⟩, h.wait hok⟩

theorem statements (h : Draws r layout Fit Key Drawn) :
    ∀ (body : List Statement) (texts : List String), (∀ s ∈ Statement.walkAll body, Fit s) →
    r.statements layout body = .ok texts →
    ∃ os, r.outlineAll body = .ok os ∧ List.Forall₂ Drawn texts os
  | [], texts, _, hok => by
      obtain rfl := Except.ok.inj hok
      exact ⟨[], rfl, .nil⟩
  | t :: rest, texts, hfit, hok => by
      obtain ⟨hfirst, hrest⟩ := List.forall_mem_append.mp hfit
      simp only [Renderer.statements, bind_eq_ok] at hok
      obtain ⟨text, htext, more, hmore, hok⟩ := hok
      obtain rfl := Except.ok.inj hok
      obtain ⟨o, ho, hoDrawn⟩ := h.statement t text hfirst htext
      obtain ⟨os, hos, hosDrawn⟩ := h.statements rest more hrest hmore
      refine ⟨o :: os, ?_, .cons hoDrawn hosDrawn⟩
      simp only [outlineAll, bind_eq_ok]
      exact ⟨o, ho, os, hos, rfl⟩

theorem elifs (h : Draws r layout Fit Key Drawn) :
    ∀ (elifs : List (List Expr × List Statement)) (texts : List (String × List String)),
    (∀ elif ∈ elifs, ∀ part ∈ elif.1, OnOneLine (r.exprText part)) →
    (∀ s ∈ Statement.walkElifs elifs, Fit s) → r.elifs layout elifs = .ok texts →
    ∃ os, r.outlineElifs elifs = .ok os ∧ List.Forall₂ (DrawnElif Drawn) texts os
  | [], texts, _, _, hok => by
      obtain rfl := Except.ok.inj hok
      exact ⟨[], rfl, .nil⟩
  | (condition, body) :: rest, texts, hconditions, hfit, hok => by
      obtain ⟨hcondition, hothers⟩ := List.forall_mem_cons.mp hconditions
      obtain ⟨hbody, hrest⟩ := List.forall_mem_append.mp hfit
      simp only [Renderer.elifs, bind_eq_ok] at hok
      obtain ⟨first, hfirst, bodyTexts, hbodyTexts, more, hmore, hok⟩ := hok
      obtain rfl := Except.ok.inj hok
      obtain ⟨bs, hbs, hbsDrawn⟩ := h.statements body bodyTexts hbody hbodyTexts
      obtain ⟨os, hos, hosDrawn⟩ := h.elifs rest more hothers hrest hmore
      have hline := onOneLine_condition true hcondition first hfirst
      refine ⟨(first, bs) :: os, ?_, .cons ⟨rfl, hline, hbsDrawn⟩ hosDrawn⟩
      simp only [outlineElifs, bind_eq_ok]
      exact ⟨first, hfirst, bs, hbs, os, hos, rfl⟩

theorem cases (h : Draws r layout Fit Key Drawn) :
    ∀ (cases : List (Option Expr × List Statement)) (texts : List (Option String × List String)),
    (∀ case ∈ cases, ∀ key ∈ case.1, IfWritten Key (r.exprText key)) →
    (∀ s ∈ Statement.walkCases cases, Fit s) → r.cases layout cases = .ok texts →
    ∃ os, r.outlineCases cases = .ok os ∧ List.Forall₂ (DrawnCase Key Drawn) texts os
  | [], texts, _, _, hok => by
      obtain rfl := Except.ok.inj hok
      exact ⟨[], rfl, .nil⟩
  | (none, body) :: rest, texts, hkeys, hfit, hok => by
      obtain ⟨-, hothers⟩ := List.forall_mem_cons.mp hkeys
      obtain ⟨hbody, hrest⟩ := List.forall_mem_append.mp hfit
      simp only [Renderer.cases, bind_eq_ok] at hok
      obtain ⟨bodyTexts, hbodyTexts, more, hmore, hok⟩ := hok
      obtain rfl := Except.ok.inj hok
      obtain ⟨bs, hbs, hbsDrawn⟩ := h.statements body bodyTexts hbody hbodyTexts
      obtain ⟨os, hos, hosDrawn⟩ := h.cases rest more hothers hrest hmore
      refine ⟨(none, bs) :: os, ?_, .cons ⟨rfl, nofun, hbsDrawn⟩ hosDrawn⟩
      simp only [outlineCases, bind_eq_ok]
      exact ⟨bs, hbs, os, hos, rfl⟩
  | (some key, body) :: rest, texts, hkeys, hfit, hok => by
      obtain ⟨hkey, hothers⟩ := List.forall_mem_cons.mp hkeys
      obtain ⟨hbody, hrest⟩ := List.forall_mem_append.mp hfit
      simp only [Renderer.cases, bind_eq_ok] at hok
      obtain ⟨first, hfirst, bodyTexts, hbodyTexts, more, hmore, hok⟩ := hok
      obtain rfl := Except.ok.inj hok
      obtain ⟨bs, hbs, hbsDrawn⟩ := h.statements body bodyTexts hbody hbodyTexts
      obtain ⟨os, hos, hosDrawn⟩ := h.cases rest more hothers hrest hmore
      have hfirstKey : ∀ text ∈ some first, Key text := by
        rintro _ ⟨⟩
        exact hkey key rfl first hfirst
      refine ⟨(some first, bs) :: os, ?_, .cons ⟨rfl, hfirstKey, hbsDrawn⟩ hosDrawn⟩
      simp only [outlineCases, bind_eq_ok]
      exact ⟨first, hfirst, bs, hbs, os, hos, rfl⟩

end

end Draws

end Rtl.Renderer
