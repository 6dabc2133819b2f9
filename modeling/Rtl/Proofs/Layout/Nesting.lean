import Rtl.Layout.SimModel
import Rtl.Proofs.Layout.Drawing
import Rtl.Proofs.Layout.Margins

namespace Rtl

namespace Blocks

def line (text : String) : Blocks := .cons text .nil .nil

-- What is written where there is nothing.
def orPass : Blocks → Blocks
  | nil => .line "pass"
  | cons head body rest => cons head body rest

theorem orPass_of_ne_nil {b : Blocks} (h : b ≠ .nil) : b.orPass = b := by
  cases b with
  | nil => exact absurd rfl h
  | cons => rfl

theorem orPass_ne_nil (b : Blocks) : b.orPass ≠ .nil := by
  cases b with
  | nil | cons => exact nofun

theorem append_ne_nil {a : Blocks} (h : a ≠ .nil) (b : Blocks) : a.append b ≠ .nil := by
  cases a with
  | nil => exact absurd rfl h
  | cons => exact nofun

def elseBlock : Option Blocks → Blocks
  | none => .nil
  | some body => .cons "else:" body.orPass .nil

end Blocks

namespace Outline

-- What stands under what in a simulator's model. A selection is a chain of tests, and one
-- that has nothing but a default is the body of that.

mutual

def blocks : Outline → Blocks
  | leaf text => .line text
  | branch condition body elifs otherwise =>
      .cons ("if " ++ condition ++ ":") (blocksOf body).orPass
        ((elifBlocks elifs).append (.elseBlock (otherwiseBlocks? otherwise)))
  | select subject cases =>
      match testBlocks subject "if" cases with
      | .nil => ((defaultBlocks? cases).getD .nil).orPass
      | .cons head body rest =>
          (Blocks.cons head body rest).append (.elseBlock (defaultBlocks? cases))

def blocksOf : List Outline → Blocks
  | [] => .nil
  | first :: rest => first.blocks.append (blocksOf rest)

def elifBlocks : List (String × List Outline) → Blocks
  | [] => .nil
  | (condition, body) :: rest =>
      .cons ("elif " ++ condition ++ ":") (blocksOf body).orPass (elifBlocks rest)

def otherwiseBlocks? : Option (List Outline) → Option Blocks
  | none => none
  | some body => some (blocksOf body)

def testBlocks (subject : String) : String → List (Option String × List Outline) → Blocks
  | _, [] => .nil
  | keyword, (none, _) :: rest => testBlocks subject keyword rest
  | keyword, (some key, body) :: rest =>
      .cons (Layout.SimModel.test keyword subject key) (blocksOf body).orPass
        (testBlocks subject "elif" rest)

def defaultBlocks? : List (Option String × List Outline) → Option Blocks
  | [] => none
  | (none, body) :: _ => some (blocksOf body)
  | (some _, _) :: rest => defaultBlocks? rest

end

end Outline

theorem Outline.blocks_select {subject : String} {cases : List (Option String × List Outline)}
    (h : testBlocks subject "if" cases ≠ .nil) :
    (select subject cases).blocks =
      (testBlocks subject "if" cases).append (.elseBlock (defaultBlocks? cases)) := by
  rw [blocks]
  split
  · rename_i hnil
    exact absurd hnil h
  · rename_i heq
    rw [heq]

-- A line of its own with no indentation.
def IsPlain (line : String) : Prop := IsLine line ∧ IsHead line

theorem isPlain_between {before after inner : String} (hbefore : '\n' ∉ before.toList)
    (hhead : IsHead before) (hinner : '\n' ∉ inner.toList) (hafter : IsLine after) :
    IsPlain (before ++ inner ++ after) := by
  refine ⟨isLine_between hbefore hinner hafter, ?_⟩
  rw [String.append_assoc]
  exact isHead_append hhead _

namespace Layout

theorem joinLines_append {front back : List String} (hfront : front ≠ []) (hback : back ≠ []) :
    joinLines (front ++ back) = joinLines front ++ "\n" ++ joinLines back := by
  induction front with
  | nil => exact absurd rfl hfront
  | cons line rest ih =>
      cases rest with
      | nil =>
          obtain ⟨next, more, rfl⟩ := List.exists_cons_of_ne_nil hback
          rw [joinLines, List.singleton_append, String.intercalate_cons_cons, joinLines, joinLines,
            String.intercalate_singleton]
      | cons next more =>
          have hmore := ih (List.cons_ne_nil _ _)
          simp only [joinLines, List.cons_append, String.intercalate_cons_cons] at hmore ⊢
          rw [hmore]
          simp only [String.append_assoc]

end Layout

open Layout

-- Some lines that are those of blocks.
structure Writes (indent : String) (shown : List String) (b : Blocks) : Prop where
  shown : shown = b.lines indent
  plain : b.All IsPlain

namespace Writes

variable {indent : String} {shown more : List String} {b c : Blocks}

theorem nil : Writes indent [] .nil := ⟨rfl, trivial⟩

theorem line {text : String} (h : IsPlain text) : Writes indent [text] (.line text) :=
  ⟨rfl, h, trivial, trivial⟩

theorem append (h : Writes indent shown b) (hmore : Writes indent more c) :
    Writes indent (shown ++ more) (b.append c) :=
  ⟨by rw [Blocks.lines_append, h.shown, hmore.shown], h.plain.append hmore.plain⟩

theorem cons {head : String} (hhead : IsPlain head) (hbody : Writes indent shown b)
    (hrest : Writes indent more c) :
    Writes indent (head :: (shown.map (indent ++ ·) ++ more)) (.cons head b c) :=
  ⟨by rw [Blocks.lines, hbody.shown, hrest.shown], hhead, hbody.plain, hrest.plain⟩

theorem eq_nil_iff (h : Writes indent shown b) : shown = [] ↔ b = .nil := by
  rw [h.shown]
  cases b with
  | nil => exact ⟨fun _ => rfl, fun _ => rfl⟩
  | cons => exact ⟨nofun, nofun⟩

variable (hindent : ∀ c ∈ indent.toList, isIndent c = true)

include hindent

theorem isLine (h : Writes indent shown b) : ∀ line ∈ shown, IsLine line := by
  rw [h.shown]
  exact (h.plain.imp fun _ hplain => hplain.1).lines fun line => Vhdl.isLine_indent hindent

theorem lines_joinLines (h : Writes indent shown b) : Text.lines (joinLines shown) = shown :=
  Layout.lines_joinLines (h.isLine hindent)

theorem map_indentLine (h : Writes indent shown b) :
    shown.map (indentLine indent) = shown.map (indent ++ ·) :=
  List.map_congr_left fun line hline => Vhdl.indentLine_eq (h.isLine hindent line hline)

end Writes

-- A text with the outline whose blocks its lines are.
structure Nests (indent text : String) (o : Outline) : Prop where
  text : text = joinLines (o.blocks.lines indent)
  plain : o.blocks.All IsPlain
  ne : o.blocks ≠ .nil

namespace Nests

variable {indent text : String} {o : Outline}

theorem writes (h : Nests indent text o) : Writes indent (o.blocks.lines indent) o.blocks :=
  ⟨rfl, h.plain⟩

theorem of_writes {shown : List String} {b : Blocks} (h : Writes indent shown b) (hne : b ≠ .nil)
    (hblocks : o.blocks = b) : Nests indent (joinLines shown) o := by
  subst hblocks
  exact ⟨congrArg joinLines h.shown, h.plain, hne⟩

theorem leaf (h : IsPlain text) : Nests indent text (.leaf text) :=
  of_writes (.line h) nofun rfl

theorem lines_ne_nil (h : Nests indent text o) : o.blocks.lines indent ≠ [] :=
  fun hnil => h.ne (h.writes.eq_nil_iff.mp hnil)

end Nests

namespace Layout.SimModel

open Outline

variable {indent : String} {texts : List String} {outlines : List Outline}

-- Texts one after the other are one text with the lines of all.
theorem joinLines_nests (h : List.Forall₂ (Nests indent) texts outlines) :
    joinLines texts = joinLines ((blocksOf outlines).lines indent) := by
  induction h with
  | nil => rfl
  | @cons text o texts outlines hfirst hrest ih =>
      rw [blocksOf, Blocks.lines_append]
      cases hrest with
      | nil =>
          rw [blocksOf, Blocks.lines, List.append_nil, ← hfirst.text, joinLines,
            String.intercalate_singleton]
      | @cons next o' more outlines' hnext =>
          have hne : (blocksOf (o' :: outlines')).lines indent ≠ [] := by
            rw [blocksOf, Blocks.lines_append]
            exact List.append_ne_nil_of_left_ne_nil hnext.lines_ne_nil _
          rw [joinLines_append hfirst.lines_ne_nil hne, ← hfirst.text, ← ih, joinLines,
            String.intercalate_cons_cons, joinLines]

theorem writes_blocksOf (h : List.Forall₂ (Nests indent) texts outlines) :
    Writes indent ((blocksOf outlines).lines indent) (blocksOf outlines) := by
  refine ⟨rfl, ?_⟩
  induction h with
  | nil => trivial
  | cons hfirst _ ih => exact hfirst.plain.append ih

theorem isPlain_pass : IsPlain "pass" := ⟨⟨by decide, 's', rfl, by decide⟩, 'p', rfl, by decide⟩

theorem isPlain_else : IsPlain "else:" := ⟨⟨by decide, ':', rfl, by decide⟩, 'e', rfl, by decide⟩

theorem isLine_colon : IsLine ":" := ⟨by decide, ':', rfl, by decide⟩

theorem isPlain_if {condition : String} (h : '\n' ∉ condition.toList) :
    IsPlain ("if " ++ condition ++ ":") :=
  isPlain_between (by decide) ⟨'i', rfl, by decide⟩ h isLine_colon

theorem isPlain_elif {condition : String} (h : '\n' ∉ condition.toList) :
    IsPlain ("elif " ++ condition ++ ":") :=
  isPlain_between (by decide) ⟨'e', rfl, by decide⟩ h isLine_colon

theorem isPlain_test {keyword subject key : String} (hkeyword : keyword = "if" ∨ keyword = "elif")
    (hsubject : '\n' ∉ subject.toList) (hkey : '\n' ∉ key.toList) :
    IsPlain (test keyword subject key) := by
  have hafter : IsLine "):" := ⟨by decide, ':', rfl, by decide⟩
  have hbefore : '\n' ∉ (keyword ++ " (").toList ∧ IsHead (keyword ++ " (") := by
    rcases hkeyword with rfl | rfl
    · exact ⟨by decide, 'i', rfl, by decide⟩
    · exact ⟨by decide, 'e', rfl, by decide⟩
  have hinner : '\n' ∉ (subject ++ ")._eq(" ++ key).toList := by simp [hsubject, hkey]
  have hplain := isPlain_between hbefore.1 hbefore.2 hinner hafter
  simpa only [test, String.append_assoc] using hplain

-- The lines of the tests for the cases with keys.
def testLines (indent subject keyword : String) : List (String × List String) → List String
  | [] => []
  | (key, texts) :: rest =>
      test keyword subject key :: (statements indent texts ++
        rest.flatMap fun (key, texts) => test "elif" subject key :: statements indent texts)

theorem testLines_elif (indent subject : String) (cases : List (String × List String)) :
    testLines indent subject "elif" cases =
      cases.flatMap fun (key, texts) => test "elif" subject key :: statements indent texts := by
  cases cases with
  | nil => rfl
  | cons => rfl

-- A key that is on one line.
def IsOneLine (text : String) : Prop := '\n' ∉ text.toList

variable {subject : String} {cases : List (Option String × List String)}
  {caseOutlines : List (Option String × List Outline)}

theorem nests_default (h : List.Forall₂ (Renderer.DrawnCase IsOneLine (Nests indent)) cases
      caseOutlines) :
    match defaultBody? cases with
    | none => defaultBlocks? caseOutlines = none
    | some texts => ∃ body, defaultBlocks? caseOutlines = some (blocksOf body) ∧
        List.Forall₂ (Nests indent) texts body := by
  induction h with
  | nil => rfl
  | @cons case outline cases outlines hfirst _ ih =>
      obtain ⟨_, texts⟩ := case
      obtain ⟨key, body⟩ := outline
      obtain ⟨rfl, -, hbody⟩ := hfirst
      cases key with
      | none => exact ⟨body, rfl, hbody⟩
      | some key => exact ih

-- A selection without keys is the body of its default.
theorem nests_select_of_default {piece : SelectPiece}
    {outlines : List (Option String × List Outline)}
    (h : List.Forall₂ (Renderer.DrawnCase IsOneLine (Nests indent)) piece.cases outlines)
    (hkeyed : keyedCases piece.cases = [])
    (htests : testBlocks piece.subject "if" outlines = .nil) :
    Nests indent (select indent piece) (.select piece.subject outlines) := by
  have hdefault := nests_default h
  have hblocks : (Outline.select piece.subject outlines).blocks =
      ((defaultBlocks? outlines).getD .nil).orPass := by
    rw [blocks, htests]
  have hpass (hnil : (defaultBlocks? outlines).getD .nil = .nil) :
      Nests indent "pass" (.select piece.subject outlines) := by
    rw [hnil] at hblocks
    exact .of_writes (.line isPlain_pass) nofun hblocks
  simp only [select, hkeyed]
  split
  · rename_i text texts htexts
    rw [htexts] at hdefault
    obtain ⟨body, hbody, hnests⟩ := hdefault
    rw [joinLines_nests hnests]
    cases hnests with
    | @cons _ o _ rest hfirst hrest =>
        have hne : blocksOf (o :: rest) ≠ .nil := Blocks.append_ne_nil hfirst.ne _
        rw [hbody, Option.getD_some, Blocks.orPass_of_ne_nil hne] at hblocks
        exact .of_writes (writes_blocksOf (.cons hfirst hrest)) hne hblocks
  · rename_i hnone
    refine hpass ?_
    split at hdefault
    · rw [hdefault]
      rfl
    · rename_i texts htexts
      obtain ⟨body, hbody, hnests⟩ := hdefault
      cases hnests with
      | nil =>
          rw [hbody]
          rfl
      | cons => exact absurd htexts (hnone _ _)

variable (hindent : ∀ c ∈ indent.toList, isIndent c = true)

include hindent

theorem flatMap_lines (h : List.Forall₂ (Nests indent) texts outlines) :
    texts.flatMap Text.lines = (blocksOf outlines).lines indent := by
  induction h with
  | nil => rfl
  | cons hfirst _ ih =>
      rw [List.flatMap_cons, ih, hfirst.text, hfirst.writes.lines_joinLines hindent, blocksOf,
        Blocks.lines_append]

-- A body is further in, and there is always something in it.
theorem writes_statements (h : List.Forall₂ (Nests indent) texts outlines) :
    ∃ shown, statements indent texts = shown.map (indent ++ ·) ∧
      Writes indent shown (blocksOf outlines).orPass := by
  have hwrites := writes_blocksOf h
  have hlines := flatMap_lines hindent h
  cases h with
  | nil => exact ⟨["pass"], rfl, .line isPlain_pass⟩
  | @cons text o texts outlines hfirst =>
      have hne : (blocksOf (o :: outlines)) ≠ .nil := Blocks.append_ne_nil hfirst.ne _
      refine ⟨(blocksOf (o :: outlines)).lines indent, ?_, ?_⟩
      · rw [← hwrites.map_indentLine hindent, ← hlines]
        rfl
      · rwa [Blocks.orPass_of_ne_nil hne]

theorem writes_header {head : String} {more : List String} {b : Blocks} (hhead : IsPlain head)
    (hbody : List.Forall₂ (Nests indent) texts outlines) (hrest : Writes indent more b) :
    Writes indent (head :: (statements indent texts ++ more))
      (.cons head (blocksOf outlines).orPass b) := by
  obtain ⟨shown, hshown, hwrites⟩ := writes_statements hindent hbody
  rw [hshown]
  exact .cons hhead hwrites hrest

theorem writes_elifs {elifs : List (String × List String)}
    {outlines : List (String × List Outline)}
    (h : List.Forall₂ (Renderer.DrawnElif (Nests indent)) elifs outlines) :
    Writes indent (elifs.flatMap fun (condition, texts) =>
        ("elif " ++ condition ++ ":") :: statements indent texts) (elifBlocks outlines) := by
  induction h with
  | nil => exact .nil
  | @cons elif outline elifs outlines hfirst _ ih =>
      obtain ⟨_, texts⟩ := elif
      obtain ⟨condition, body⟩ := outline
      obtain ⟨rfl, hcondition, hbody⟩ := hfirst
      exact writes_header hindent (isPlain_elif hcondition) hbody ih

theorem writes_otherwise (h : List.Forall₂ (Nests indent) texts outlines) :
    Writes indent (if texts.isEmpty then [] else "else:" :: statements indent texts)
      (.elseBlock (otherwiseBlocks? (Layout.Vhdl.present outlines))) := by
  have hbody := writes_header hindent isPlain_else h .nil
  rw [List.append_nil] at hbody
  cases h with
  | nil => exact .nil
  | cons => exact hbody

theorem nests_branch (piece : BranchPiece) (body otherwise : List Outline)
    (elifs : List (String × List Outline)) (hcondition : '\n' ∉ piece.condition.toList)
    (hbody : List.Forall₂ (Nests indent) piece.body body)
    (helifs : List.Forall₂ (Renderer.DrawnElif (Nests indent)) piece.elifs elifs)
    (hotherwise : List.Forall₂ (Nests indent) piece.otherwise otherwise) :
    Nests indent (branch indent piece)
      (.branch piece.condition body elifs (Layout.Vhdl.present otherwise)) := by
  have hall := writes_header hindent (isPlain_if hcondition) hbody
    ((writes_elifs hindent helifs).append (writes_otherwise hindent hotherwise))
  have hnests : Nests indent _
      (.branch piece.condition body elifs (Layout.Vhdl.present otherwise)) :=
    .of_writes hall nofun rfl
  simpa only [branch, List.append_assoc, List.cons_append, List.nil_append] using hnests

theorem writes_tests (hsubject : '\n' ∉ subject.toList)
    (h : List.Forall₂ (Renderer.DrawnCase IsOneLine (Nests indent)) cases caseOutlines)
    {keyword : String} (hkeyword : keyword = "if" ∨ keyword = "elif") :
    Writes indent (testLines indent subject keyword (keyedCases cases))
      (testBlocks subject keyword caseOutlines) := by
  induction h generalizing keyword with
  | nil => exact .nil
  | @cons case outline cases outlines hfirst _ ih =>
      obtain ⟨_, texts⟩ := case
      obtain ⟨key, body⟩ := outline
      obtain ⟨rfl, hkey, hbody⟩ := hfirst
      cases key with
      | none => exact ih hkeyword
      | some key =>
          have hrest := ih (.inr rfl)
          rw [testLines_elif] at hrest
          exact writes_header hindent (isPlain_test hkeyword hsubject (hkey key rfl)) hbody hrest

theorem writes_default (h : List.Forall₂ (Renderer.DrawnCase IsOneLine (Nests indent)) cases
      caseOutlines) :
    Writes indent (match defaultBody? cases with
        | some texts => "else:" :: statements indent texts
        | none => [])
      (.elseBlock (defaultBlocks? caseOutlines)) := by
  have hdefault := nests_default h
  split
  · rename_i texts htexts
    rw [htexts] at hdefault
    obtain ⟨body, hbody, hnests⟩ := hdefault
    have helse := writes_header hindent isPlain_else hnests .nil
    rw [List.append_nil] at helse
    rwa [hbody]
  · rename_i hnone
    rw [hnone] at hdefault
    rw [hdefault]
    exact .nil

theorem nests_select (piece : SelectPiece) (outlines : List (Option String × List Outline))
    (hsubject : '\n' ∉ piece.subject.toList)
    (h : List.Forall₂ (Renderer.DrawnCase IsOneLine (Nests indent)) piece.cases outlines) :
    Nests indent (select indent piece) (.select piece.subject outlines) := by
  have htests := writes_tests hindent hsubject h (.inl rfl)
  cases hkeyed : keyedCases piece.cases with
  | nil =>
      rw [hkeyed] at htests
      exact nests_select_of_default h hkeyed (htests.eq_nil_iff.mp rfl)
  | cons case rest =>
      obtain ⟨key, texts⟩ := case
      rw [hkeyed] at htests
      have hall := htests.append (writes_default hindent h)
      have hne : testBlocks piece.subject "if" outlines ≠ .nil := by
        intro hnil
        cases htests.eq_nil_iff.mpr hnil
      have hnests := Nests.of_writes hall (Blocks.append_ne_nil hne _) (blocks_select hne)
      simp only [testLines, List.cons_append, List.append_assoc] at hnests
      simp only [select, hkeyed, List.cons_append, List.append_assoc]
      exact hnests

end Layout.SimModel

namespace Renderer

open Layout.SimModel

variable {r : Renderer} {indent : String}

-- No name and no expression in a statement is broken over several lines, apart from those
-- in the bodies in it.
def Unbroken (r : Renderer) : Statement → Prop
  | .assign _ destination source _ _ =>
      OnOneLine (r.signalName destination) ∧ OnOneLine (r.exprText source)
  | .branch _ condition _ elifs _ =>
      (∀ part ∈ condition, OnOneLine (r.exprText part)) ∧
        ∀ elif ∈ elifs, ∀ part ∈ elif.1, OnOneLine (r.exprText part)
  | .select _ subject cases =>
      OnOneLine (r.exprText subject) ∧
        ∀ case ∈ cases, ∀ key ∈ case.1, OnOneLine (r.exprText key)
  | .wait .. => True

instance (r : Renderer) : (s : Statement) → Decidable (r.Unbroken s)
  | .assign _ destination source _ _ =>
      inferInstanceAs (Decidable (OnOneLine (r.signalName destination) ∧
        OnOneLine (r.exprText source)))
  | .branch _ condition _ elifs _ =>
      inferInstanceAs (Decidable ((∀ part ∈ condition, OnOneLine (r.exprText part)) ∧
        ∀ elif ∈ elifs, ∀ part ∈ elif.1, OnOneLine (r.exprText part)))
  | .select _ subject cases =>
      inferInstanceAs (Decidable (OnOneLine (r.exprText subject) ∧
        ∀ case ∈ cases, ∀ key ∈ case.1, OnOneLine (r.exprText key)))
  | .wait .. => .isTrue trivial

theorem isPlain_assignmentText (hsim : r.dialect = .simModel) {destination : SignalId}
    {source : Expr} {indexes : Option (List Expr)} {onEvent : Bool} {text : String}
    (hname : OnOneLine (r.signalName destination)) (hsource : OnOneLine (r.exprText source))
    (hok : r.assignmentText destination source indexes onEvent = .ok text) : IsPlain text := by
  simp only [assignmentText, bind_eq_ok, hsim] at hok
  obtain ⟨_, -, _, -, name, hwritten, value, hvalue, hok⟩ := hok
  split at hok
  · obtain ⟨_, -, hok⟩ := bind_eq_ok.mp hok
    obtain ⟨_, -, hok⟩ := bind_eq_ok.mp hok
    cases hok
  split at hok
  · cases hok
  obtain rfl := Except.ok.inj hok
  have hmark : '\n' ∉ (SimModel.boolean onEvent).toList := by
    cases onEvent with
    | false | true => decide
  have hinner : '\n' ∉ ("self." ++ name ++ ", mkUpdater(" ++ value ++ "), " ++
      SimModel.boolean onEvent).toList := by
    simp [hname name hwritten, hsource value hvalue, hmark]
  have hplain : IsPlain ("yield (" ++ ("self." ++ name ++ ", mkUpdater(" ++ value ++ "), " ++
      SimModel.boolean onEvent) ++ ")") :=
    isPlain_between (by decide) ⟨'y', rfl, by decide⟩ hinner ⟨by decide, ')', rfl, by decide⟩
  simpa only [Dialect.assignment, Dialect.assignmentTarget, SimModel.assignment,
    SimModel.assignmentTarget, String.append_assoc] using hplain

theorem isPlain_waitText (hsim : r.dialect = .simModel) (hunit : IsLine r.timeUnit) {timed : Bool}
    {duration : Option Nat} {text : String} (hok : r.waitText timed duration = .ok text) :
    IsPlain text := by
  cases timed with
  | true =>
      cases duration with
      | none => cases hok
      | some amount =>
          simp only [waitText, hsim] at hok
          obtain rfl := Except.ok.inj hok
          have hinner : '\n' ∉ (toString amount ++ " ").toList :=
            newline_not_mem_append.mpr ⟨newline_not_mem_toString amount, by decide⟩
          have hplain : IsPlain ("wait for " ++ (toString amount ++ " ") ++ r.timeUnit) :=
            isPlain_between (by decide) ⟨'w', rfl, by decide⟩ hinner hunit
          rwa [← String.append_assoc] at hplain
  | false =>
      cases duration with
      | none =>
          simp only [waitText, hsim] at hok
          obtain rfl := Except.ok.inj hok
          exact ⟨⟨by decide, 't', rfl, by decide⟩, 'w', rfl, by decide⟩
      | some amount => cases hok

theorem draws_simModel (hsim : r.dialect = .simModel) (hunit : IsLine r.timeUnit)
    (hindent : ∀ c ∈ indent.toList, isIndent c = true) :
    Draws r (Layout.SimModel.layout indent) r.Unbroken IsOneLine (Nests indent) where
  assign hfit hok := .leaf (isPlain_assignmentText hsim hfit.1 hfit.2 hok)
  wait hok := .leaf (isPlain_waitText hsim hunit hok)
  conditions hfit := hfit
  keys hfit := hfit
  branch piece body otherwise elifs hcondition hbody helifs hotherwise :=
    nests_branch hindent piece body otherwise elifs hcondition hbody helifs hotherwise
  select piece cases hsubject hcases := nests_select hindent piece cases hsubject hcases

end Renderer

end Rtl
