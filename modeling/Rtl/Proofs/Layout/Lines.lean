import Mathlib
import Rtl.Layout.Vhdl
import Rtl.Proofs.Layout.Outline

namespace Rtl

theorem newline_not_mem_append {a b : String} :
    '\n' ∉ (a ++ b).toList ↔ '\n' ∉ a.toList ∧ '\n' ∉ b.toList := by
  rw [String.toList_append, List.mem_append, not_or]

def isIndent (c : Char) : Bool := c == ' ' || c == '\t'

theorem newline_not_mem_of_isIndent {indent : String}
    (h : ∀ c ∈ indent.toList, isIndent c = true) : '\n' ∉ indent.toList :=
  fun hnewline => absurd (h _ hnewline) (by decide)

-- A line without its indentation.
def unindent (line : String) : String := String.ofList (line.toList.dropWhile isIndent)

-- A line as it is split off a text that goes on after it.
def ended (line : String) : String := String.ofList (Text.endLine line.toList.reverse)

theorem lines_append_of_newline_not_mem {line : String} (h : '\n' ∉ line.toList) (rest : String) :
    Text.lines (line ++ "\n" ++ rest) = ended line :: Text.lines rest := by
  have hsplit : Text.splitLines [] (line.toList ++ '\n' :: rest.toList) =
      Text.endLine line.toList.reverse :: Text.splitLines [] rest.toList := by
    rw [Text.splitLines_append h, List.append_nil, Text.splitLines]
  have htext : (line ++ "\n" ++ rest).toList = line.toList ++ '\n' :: rest.toList := by
    simp [String.toList_append]
  rw [Text.lines, htext, hsplit, List.map_cons, Text.lines, ended]

theorem lines_eq_singleton_of_newline_not_mem {line : String} (h : '\n' ∉ line.toList)
    (hne : line ≠ "") : Text.lines line = [line] := by
  have hsplit : Text.splitLines [] line.toList = [line.toList] := by
    have happend := Text.splitLines_append h [] []
    rw [List.append_nil, List.append_nil] at happend
    rw [happend, Text.splitLines]
    simp [hne]
  rw [Text.lines, hsplit, List.map_singleton, String.ofList_toList]

-- A line that can be split off a text as it is.
structure IsLine (line : String) : Prop where
  newline : '\n' ∉ line.toList
  last : ∃ c ∈ line.toList.getLast?, c ≠ '\r'

namespace IsLine

variable {line : String}

theorem toList_ne_nil (h : IsLine line) : line.toList ≠ [] := by
  obtain ⟨c, hc, -⟩ := h.last
  exact List.ne_nil_of_mem (List.mem_of_getLast? hc)

theorem endLine_reverse (h : IsLine line) : Text.endLine line.toList.reverse = line.toList := by
  obtain ⟨c, hc, hne⟩ := h.last
  rw [Text.endLine.eq_def]
  split
  · rename_i begun heq
    have hlast : line.toList.getLast? = some '\r' := by rw [← List.head?_reverse, heq]; rfl
    rw [hlast] at hc
    exact absurd (Option.some.inj hc).symm hne
  · exact List.reverse_reverse _

theorem ended_eq (h : IsLine line) : ended line = line := by
  rw [ended, h.endLine_reverse, String.ofList_toList]

theorem lines_append (h : IsLine line) (rest : String) :
    Text.lines (line ++ "\n" ++ rest) = line :: Text.lines rest := by
  rw [lines_append_of_newline_not_mem h.newline, h.ended_eq]

theorem lines_eq_singleton (h : IsLine line) : Text.lines line = [line] :=
  lines_eq_singleton_of_newline_not_mem h.newline fun hempty =>
    h.toList_ne_nil (congrArg String.toList hempty)

theorem append (h : IsLine line) {before : String} (hbefore : '\n' ∉ before.toList) :
    IsLine (before ++ line) := by
  refine ⟨newline_not_mem_append.mpr ⟨hbefore, h.newline⟩, ?_⟩
  rw [String.toList_append, List.getLast?_append_of_ne_nil _ h.toList_ne_nil]
  exact h.last

end IsLine

-- A text between two others of which the last one is not empty.
theorem isLine_between {before after inner : String} (hbefore : '\n' ∉ before.toList)
    (hinner : '\n' ∉ inner.toList) (hafter : IsLine after) : IsLine (before ++ inner ++ after) := by
  rw [String.append_assoc]
  exact (hafter.append hinner).append hbefore

theorem unindent_append {before : String} (h : ∀ c ∈ before.toList, isIndent c = true)
    (line : String) : unindent (before ++ line) = unindent line := by
  rw [unindent, String.toList_append, List.dropWhile_append_of_pos h, unindent]

theorem unindent_of_head {line : String} {c : Char} (hhead : line.toList.head? = some c)
    (hc : isIndent c = false) : unindent line = line := by
  obtain ⟨rest, hline⟩ := List.head?_eq_some_iff.mp hhead
  rw [unindent, hline, List.dropWhile_cons_of_neg (by simp [hc]), ← hline, String.ofList_toList]

section

open Outline

variable {text : String}

theorem isLine_placeholder : IsLine "NULL;" := ⟨by decide, ';', rfl, by decide⟩

theorem isLine_else : IsLine "ELSE" := ⟨by decide, 'E', rfl, by decide⟩

theorem isLine_endIf : IsLine "END IF;" := ⟨by decide, ';', rfl, by decide⟩

theorem isLine_endCase : IsLine "END CASE;" := ⟨by decide, ';', rfl, by decide⟩

theorem isLine_opening (h : '\n' ∉ text.toList) : IsLine (opening text) :=
  isLine_between (by decide) h ⟨by decide, 'N', rfl, by decide⟩

theorem isLine_nextOpening (h : '\n' ∉ text.toList) : IsLine (nextOpening text) :=
  isLine_between (by decide) h ⟨by decide, 'N', rfl, by decide⟩

theorem isLine_selection (h : '\n' ∉ text.toList) : IsLine (selection text) :=
  isLine_between (by decide) h ⟨by decide, 'S', rfl, by decide⟩

theorem isLine_caseLine {key : Option String} (h : ∀ text ∈ key, '\n' ∉ text.toList) :
    IsLine (caseLine key) := by
  refine isLine_between (by decide) ?_ ⟨by decide, '>', rfl, by decide⟩
  cases key with
  | none => decide
  | some text => exact h text rfl

theorem unindent_opening (text : String) : unindent (opening text) = opening text :=
  unindent_of_head (congrArg Prod.fst (edges_opening text)) (by decide)

theorem unindent_nextOpening (text : String) : unindent (nextOpening text) = nextOpening text :=
  unindent_of_head (congrArg Prod.fst (edges_nextOpening text)) (by decide)

theorem unindent_selection (text : String) : unindent (selection text) = selection text :=
  unindent_of_head (congrArg Prod.fst (edges_selection text)) (by decide)

theorem unindent_caseLine (key : Option String) : unindent (caseLine key) = caseLine key :=
  unindent_of_head (congrArg Prod.fst (edges_caseLine key)) (by decide)

end

-- Lines are taken apart again where they were joined.
theorem Layout.lines_joinLines {lines : List String} (h : ∀ line ∈ lines, IsLine line) :
    Text.lines (joinLines lines) = lines := by
  induction lines with
  | nil => rfl
  | cons line rest ih =>
      obtain ⟨hfirst, hrest⟩ := List.forall_mem_cons.mp h
      cases rest with
      | nil =>
          rw [joinLines, String.intercalate_singleton]
          exact hfirst.lines_eq_singleton
      | cons next rest =>
          rw [joinLines, String.intercalate_cons_cons, hfirst.lines_append]
          exact congrArg (line :: ·) (ih hrest)

-- Some lines that are the given ones once they are not indented.
structure Shows (shown lines : List String) : Prop where
  isLine : ∀ line ∈ shown, IsLine line
  unindent : shown.map unindent = lines

namespace Shows

variable {shown lines : List String} {line : String}

theorem nil : Shows [] [] := ⟨nofun, rfl⟩

theorem cons {same : String} (hline : IsLine line) (hsame : Rtl.unindent line = same)
    (h : Shows shown lines) : Shows (line :: shown) (same :: lines) :=
  ⟨List.forall_mem_cons.mpr ⟨hline, h.isLine⟩, congrArg₂ List.cons hsame h.unindent⟩

theorem append {shown' lines' : List String} (h : Shows shown lines) (h' : Shows shown' lines') :
    Shows (shown ++ shown') (lines ++ lines') :=
  ⟨List.forall_mem_append.mpr ⟨h.isLine, h'.isLine⟩,
    by rw [List.map_append, h.unindent, h'.unindent]⟩

theorem lines_joinLines (h : Shows shown lines) : Text.lines (Layout.joinLines shown) = shown :=
  Layout.lines_joinLines h.isLine

end Shows

namespace Layout.Vhdl

variable {indent : String}

theorem indentLine_eq {line : String} (h : IsLine line) :
    indentLine indent line = indent ++ line := by
  have hne : line.isEmpty = false := by
    rw [Bool.eq_false_iff, ne_eq, String.isEmpty_iff]
    rintro rfl
    exact h.toList_ne_nil rfl
  rw [indentLine, hne]
  rfl

section

variable (hindent : ∀ c ∈ indent.toList, isIndent c = true)

include hindent

theorem isLine_indent {line : String} (h : IsLine line) : IsLine (indent ++ line) :=
  h.append (newline_not_mem_of_isIndent hindent)

theorem shows_indent {shown lines : List String} (h : Shows shown lines) :
    Shows (shown.map (indentLine indent)) lines := by
  obtain ⟨hlines, rfl⟩ := h
  induction shown with
  | nil => exact .nil
  | cons line rest ih =>
      obtain ⟨hfirst, hrest⟩ := List.forall_mem_cons.mp hlines
      rw [List.map_cons, indentLine_eq hfirst]
      exact .cons (isLine_indent hindent hfirst) (unindent_append hindent line) (ih hrest)

end

-- Texts of statements, each with the lines of one.
def ShowsAll (texts : List String) (outlines : List Outline) : Prop :=
  List.Forall₂ (fun text outline => Shows (Text.lines text) outline.lines) texts outlines

theorem shows_flatMap {texts : List String} {outlines : List Outline}
    (h : ShowsAll texts outlines) :
    Shows (texts.flatMap Text.lines) (Outline.linesOf outlines) := by
  induction h with
  | nil => exact .nil
  | cons hfirst _ ih => exact hfirst.append ih

-- A condition or a key with its texts. Both are on one line.

def ShowsElif (elif : String × List String) (outline : String × List Outline) : Prop :=
  outline.1 = elif.1 ∧ '\n' ∉ elif.1.toList ∧ ShowsAll elif.2 outline.2

def ShowsCase (case : Option String × List String) (outline : Option String × List Outline) :
    Prop :=
  outline.1 = case.1 ∧ (∀ key ∈ case.1, '\n' ∉ key.toList) ∧ ShowsAll case.2 outline.2

-- A body that is left out if it is empty.
def present (body : List Outline) : Option (List Outline) :=
  if body.isEmpty then none else some body

section

variable {texts : List String} {outlines : List Outline}
  (hindent : ∀ c ∈ indent.toList, isIndent c = true)

include hindent

theorem shows_statements (h : ShowsAll texts outlines) :
    Shows (statements indent texts) (Outline.bodyLines outlines) := by
  cases h with
  | nil =>
      have hsame : unindent (indent ++ "NULL;") = "NULL;" :=
        (unindent_append hindent "NULL;").trans (by decide)
      exact .cons (isLine_indent hindent isLine_placeholder) hsame .nil
  | cons hfirst hrest => exact shows_indent hindent (shows_flatMap (.cons hfirst hrest))

theorem shows_elifs {elifs : List (String × List String)}
    {outlines : List (String × List Outline)}
    (h : List.Forall₂ ShowsElif elifs outlines) :
    Shows (elifs.flatMap fun (condition, texts) =>
        ("ELSIF " ++ condition ++ " THEN") :: statements indent texts)
      (Outline.elifLines outlines) := by
  induction h with
  | nil => exact .nil
  | @cons elif outline elifs outlines hfirst _ ih =>
      obtain ⟨_, texts⟩ := elif
      obtain ⟨condition, body⟩ := outline
      obtain ⟨rfl, hcondition, hbody⟩ := hfirst
      have hrest := (shows_statements hindent hbody).append ih
      exact .cons (isLine_nextOpening hcondition) (unindent_nextOpening condition) hrest

theorem shows_otherwise (h : ShowsAll texts outlines) :
    Shows (if texts.isEmpty then [] else "ELSE" :: statements indent texts)
      (Outline.elseLines (present outlines)) := by
  have hbody := shows_statements hindent h
  cases h with
  | nil => exact .nil
  | cons => exact .cons isLine_else (by decide) hbody

theorem shows_branch (piece : BranchPiece) {body otherwise : List Outline}
    {elifs : List (String × List Outline)} (hcondition : '\n' ∉ piece.condition.toList)
    (hbody : ShowsAll piece.body body)
    (helifs : List.Forall₂ ShowsElif piece.elifs elifs)
    (hotherwise : ShowsAll piece.otherwise otherwise) :
    Shows (Text.lines (branch indent piece))
      (Outline.branch piece.condition body elifs (present otherwise)).lines := by
  have hclosing : Shows ["END IF;"] ["END IF;"] := .cons isLine_endIf (by decide) .nil
  have hopening : Shows [Outline.opening piece.condition] [Outline.opening piece.condition] :=
    .cons (isLine_opening hcondition) (unindent_opening _) .nil
  have hall := (((hopening.append (shows_statements hindent hbody)).append
    (shows_elifs hindent helifs)).append (shows_otherwise hindent hotherwise)).append hclosing
  have hlines : Text.lines (branch indent piece) = _ := hall.lines_joinLines
  rw [hlines]
  simpa only [Outline.lines, List.append_assoc, List.cons_append, List.nil_append] using hall

theorem shows_cases {cases : List (Option String × List String)}
    {outlines : List (Option String × List Outline)}
    (h : List.Forall₂ ShowsCase cases outlines) :
    Shows (cases.flatMap fun (key, texts) =>
        (indent ++ "WHEN " ++ key.getD "OTHERS" ++ " =>") ::
          (statements indent texts).map (indentLine indent))
      (Outline.caseLines outlines) := by
  induction h with
  | nil => exact .nil
  | @cons case outline cases outlines hfirst _ ih =>
      obtain ⟨_, texts⟩ := case
      obtain ⟨key, body⟩ := outline
      obtain ⟨rfl, hkey, hbody⟩ := hfirst
      have hrest := (shows_indent hindent (shows_statements hindent hbody)).append ih
      have hline : indent ++ "WHEN " ++ key.getD "OTHERS" ++ " =>" =
          indent ++ Outline.caseLine key := by
        simp only [Outline.caseLine, String.append_assoc]
      have hhead : IsLine (indent ++ "WHEN " ++ key.getD "OTHERS" ++ " =>") :=
        hline.symm ▸ isLine_indent hindent (isLine_caseLine hkey)
      have hsame : unindent (indent ++ "WHEN " ++ key.getD "OTHERS" ++ " =>") =
          Outline.caseLine key := by
        rw [hline, unindent_append hindent, unindent_caseLine]
      exact .cons hhead hsame hrest

theorem shows_select (piece : SelectPiece) {cases : List (Option String × List Outline)}
    (hsubject : '\n' ∉ piece.subject.toList)
    (hcases : List.Forall₂ ShowsCase piece.cases cases) :
    Shows (Text.lines (select indent piece)) (Outline.select piece.subject cases).lines := by
  have hclosing : Shows ["END CASE;"] ["END CASE;"] := .cons isLine_endCase (by decide) .nil
  have hopening : Shows [Outline.selection piece.subject] [Outline.selection piece.subject] :=
    .cons (isLine_selection hsubject) (unindent_selection _) .nil
  have hall := (hopening.append (shows_cases hindent hcases)).append hclosing
  have hlines : Text.lines (select indent piece) = _ := hall.lines_joinLines
  rw [hlines]
  simpa only [Outline.lines, List.append_assoc, List.cons_append, List.nil_append] using hall

end

end Layout.Vhdl

end Rtl
