import Rtl.Proofs.Layout.Nesting

namespace Rtl

theorem isCode_append {line : String} (h : isCode line = true) (more : String) :
    isCode (line ++ more) = true := by
  have hcode : ∃ c ∈ (unindent line).toList.head?, c ≠ '#' := by
    rw [isCode] at h
    split at h
    · rename_i c hc
      exact ⟨c, hc, bne_iff_ne.mp h⟩
    · cases h
  obtain ⟨c, hc, hne⟩ := hcode
  have hunindent : (unindent (line ++ more)).toList = (unindent line).toList ++ more.toList := by
    have hkept : ((line.toList.dropWhile isIndent).isEmpty) = false := by
      rw [unindent, String.toList_ofList] at hc
      rw [List.isEmpty_eq_false_iff_exists_mem]
      exact ⟨c, List.mem_of_mem_head? hc⟩
    simp only [unindent, String.toList_append, String.toList_ofList, List.dropWhile_append, hkept,
      Bool.false_eq_true, if_false]
  have hhead : (unindent (line ++ more)).toList.head? = some c := by
    rw [hunindent, List.head?_append, Option.mem_def.mp hc]
    rfl
  simp only [isCode, hhead]
  exact bne_iff_ne.mpr hne

theorem isCode_indent {indent : String} (hindent : ∀ c ∈ indent.toList, isIndent c = true)
    (line : String) : isCode (indent ++ line) = isCode line := by
  rw [isCode, isCode, unindent_append hindent]

theorem IsHead.isCode {line : String} (h : IsHead line) : isCode line = true := by
  obtain ⟨c, hc, hblank, hne⟩ := h
  simp only [Rtl.isCode, unindent_of_head (Option.mem_def.mp hc) hblank, Option.mem_def.mp hc]
  exact bne_iff_ne.mpr hne

-- What is lost at the end of a line.
theorem exists_ended_append (line : String) : ∃ more, line = ended line ++ more := by
  rw [ended, Text.endLine.eq_def]
  split
  · rename_i begun hbegun
    refine ⟨"\r", String.toList_injective ?_⟩
    rw [String.toList_append, String.toList_ofList, ← List.reverse_reverse line.toList, hbegun,
      List.reverse_cons]
    rfl
  · exact ⟨"", by rw [List.reverse_reverse, String.ofList_toList, String.append_empty]⟩

theorem newline_not_mem_ended {line : String} (h : '\n' ∉ line.toList) :
    '\n' ∉ (ended line).toList := by
  obtain ⟨more, heq⟩ := exists_ended_append line
  rw [heq] at h
  exact (newline_not_mem_append.mp h).1

theorem endLine_of_ne {c : Char} (h : c ≠ '\r') (begun : List Char) :
    Text.endLine (c :: begun) = (c :: begun).reverse := by
  rw [Text.endLine.eq_def]
  split
  · rename_i heq
    exact absurd (List.cons.inj heq).1 h
  · rfl

theorem IsLine.ended_append {before : String} (h : IsLine before) (rest : String) :
    ended (before ++ rest) = before ++ ended rest := by
  cases hrest : rest.toList.reverse with
  | nil =>
      obtain rfl : rest = "" := String.toList_injective (List.reverse_eq_nil_iff.mp hrest)
      have hempty : ended "" = "" := by decide
      rw [String.append_empty, h.ended_eq, hempty, String.append_empty]
  | cons c begun =>
      have htext : (before ++ rest).toList.reverse = c :: (begun ++ before.toList.reverse) := by
        rw [String.toList_append, List.reverse_append, hrest, List.cons_append]
      apply String.toList_injective
      rw [ended, htext, String.toList_append, ended, hrest, String.toList_ofList,
        String.toList_ofList]
      by_cases hc : c = '\r'
      · subst hc
        rw [Text.endLine, Text.endLine, List.reverse_append, List.reverse_reverse]
      · rw [endLine_of_ne hc, endLine_of_ne hc, ← List.cons_append, List.reverse_append,
          List.reverse_reverse]

-- A line keeps its beginning, whatever else is on it.
theorem IsLine.exists_lines_append {before : String} (h : IsLine before) (text : String) :
    ∃ first others, Text.lines (before ++ text) = (before ++ first) :: others := by
  by_cases hmem : '\n' ∈ text.toList
  · obtain ⟨line, more, htext, hline⟩ := List.eq_append_cons_of_mem hmem
    have hsplit : before ++ text =
        before ++ String.ofList line ++ "\n" ++ String.ofList more := by
      apply String.toList_injective
      simp [htext]
    have hbegun : '\n' ∉ (before ++ String.ofList line).toList := by
      rw [newline_not_mem_append, String.toList_ofList]
      exact ⟨h.newline, hline⟩
    refine ⟨ended (String.ofList line), Text.lines (String.ofList more), ?_⟩
    rw [hsplit, lines_append_of_newline_not_mem hbegun, h.ended_append]
  · have hall := newline_not_mem_append.mpr ⟨h.newline, hmem⟩
    have hne : before ++ text ≠ "" := by
      intro hempty
      have hlist := congrArg String.toList hempty
      rw [String.toList_append] at hlist
      exact h.toList_ne_nil (List.append_eq_nil_iff.mp hlist).1
    exact ⟨text, [], lines_eq_singleton_of_newline_not_mem hall hne⟩

theorem lines_append_newline_append (front back : String) :
    Text.lines (front ++ "\n" ++ back) = Text.lines (front ++ "\n") ++ Text.lines back := by
  have hsplit (text rest begun : List Char) : Text.splitLines begun (text ++ '\n' :: rest) =
      Text.splitLines begun (text ++ ['\n']) ++ Text.splitLines [] rest := by
    induction text generalizing begun with
    | nil => rfl
    | cons c text ih =>
        by_cases hc : c = '\n'
        · subst hc
          simp only [List.cons_append, Text.splitLines, ih]
        · simp only [List.cons_append, Text.splitLines, ih]
  have htext : (front ++ "\n" ++ back).toList = front.toList ++ '\n' :: back.toList := by
    simp [String.toList_append]
  have hfront : (front ++ "\n").toList = front.toList ++ ['\n'] := String.toList_append
  rw [Text.lines, htext, hsplit, List.map_append, ← hfront, Text.lines, Text.lines]

-- An empty line or one that is for people alone.
structure IsRemark (line : String) : Prop where
  newline : '\n' ∉ line.toList
  silent : isCode line = false

theorem IsRemark.ended {line : String} (h : IsRemark line) : IsRemark (Rtl.ended line) := by
  refine ⟨newline_not_mem_ended h.newline, ?_⟩
  obtain ⟨more, heq⟩ := exists_ended_append line
  rw [Bool.eq_false_iff]
  intro hcode
  have hline := isCode_append hcode more
  rw [← heq, h.silent] at hline
  cases hline

-- Lines with remarks between them. The last one is no remark.
inductive Remarked : List String → List String → Prop
  | last {line : String} (h : IsLine line) : Remarked [line] [line]
  | line {line : String} {shown lines : List String} (h : IsLine line)
      (rest : Remarked shown lines) : Remarked (line :: shown) (line :: lines)
  | remark {line : String} {shown lines : List String} (h : IsRemark line)
      (rest : Remarked shown lines) : Remarked (line :: shown) lines

namespace Remarked

open Layout

variable {shown lines : List String} {indent : String}

theorem ne_nil (h : Remarked shown lines) : shown ≠ [] := by
  cases h with
  | last | line | remark => exact List.cons_ne_nil _ _

theorem of_lines (h : ∀ line ∈ lines, IsLine line) (hne : lines ≠ []) : Remarked lines lines := by
  induction lines with
  | nil => exact absurd rfl hne
  | cons line rest ih =>
      obtain ⟨hfirst, hrest⟩ := List.forall_mem_cons.mp h
      cases rest with
      | nil => exact .last hfirst
      | cons next rest => exact .line hfirst (ih hrest (List.cons_ne_nil _ _))

theorem filter_isCode (h : Remarked shown lines) (hcode : ∀ line ∈ lines, isCode line = true) :
    shown.filter isCode = lines := by
  induction h with
  | last => exact List.filter_eq_self.mpr hcode
  | line _ _ ih =>
      obtain ⟨hfirst, hrest⟩ := List.forall_mem_cons.mp hcode
      rw [List.filter_cons_of_pos hfirst, ih hrest]
  | remark hremark _ ih => rw [List.filter_cons_of_neg (by simp [hremark.silent]), ih hcode]

-- Joined lines are taken apart again, whether a text goes on after them or not.
theorem lines_joinLines (h : Remarked shown lines) :
    ∃ same, Remarked same lines ∧ Text.lines (joinLines shown) = same ∧
      ∀ rest, Text.lines (joinLines shown ++ "\n" ++ rest) = same ++ Text.lines rest := by
  have hjoin {line : String} {shown : List String} (hne : shown ≠ []) :
      joinLines (line :: shown) = line ++ "\n" ++ joinLines shown :=
    joinLines_append (List.cons_ne_nil line []) hne
  have hassoc (line joined rest : String) :
      line ++ "\n" ++ joined ++ "\n" ++ rest = line ++ "\n" ++ (joined ++ "\n" ++ rest) := by
    simp only [String.append_assoc]
  induction h with
  | @last line hline =>
      refine ⟨[line], .last hline, ?_, fun rest => ?_⟩
      · rw [joinLines, String.intercalate_singleton, hline.lines_eq_singleton]
      · rw [joinLines, String.intercalate_singleton, hline.lines_append, List.singleton_append]
  | @line line shown lines hline hrest ih =>
      obtain ⟨same, hsame, hjoined, hbefore⟩ := ih
      refine ⟨line :: same, .line hline hsame, ?_, fun rest => ?_⟩
      · rw [hjoin hrest.ne_nil, hline.lines_append, hjoined]
      · rw [hjoin hrest.ne_nil, hassoc, hline.lines_append, hbefore, List.cons_append]
  | @remark line shown lines hremark hrest ih =>
      obtain ⟨same, hsame, hjoined, hbefore⟩ := ih
      refine ⟨ended line :: same, .remark hremark.ended hsame, ?_, fun rest => ?_⟩
      · rw [hjoin hrest.ne_nil, lines_append_of_newline_not_mem hremark.newline, hjoined]
      · rw [hjoin hrest.ne_nil, hassoc, lines_append_of_newline_not_mem hremark.newline, hbefore,
          List.cons_append]

end Remarked

section

open Layout

variable {indent : String} (hindent : ∀ c ∈ indent.toList, isIndent c = true)

include hindent

theorem IsRemark.indentLine {line : String} (h : IsRemark line) :
    IsRemark (Layout.indentLine indent line) := by
  rw [Layout.indentLine]
  split
  · exact ⟨by decide, by decide⟩
  · refine ⟨?_, by rw [isCode_indent hindent, h.silent]⟩
    exact newline_not_mem_append.mpr ⟨newline_not_mem_of_isIndent hindent, h.newline⟩

theorem Remarked.map_indentLine {shown lines : List String} (h : Remarked shown lines) :
    Remarked (shown.map (indentLine indent)) (lines.map (indent ++ ·)) := by
  induction h with
  | last hline =>
      rw [List.map_singleton, List.map_singleton, Vhdl.indentLine_eq hline]
      exact .last (Vhdl.isLine_indent hindent hline)
  | line hline _ ih =>
      rw [List.map_cons, List.map_cons, Vhdl.indentLine_eq hline]
      exact .line (Vhdl.isLine_indent hindent hline) ih
  | remark hremark _ ih => exact .remark (hremark.indentLine hindent) ih

end

-- A process: its header, and its statements under that.
def Outline.processBlocks (name : String) (outlines : List Outline) : Blocks :=
  .cons ("def " ++ name ++ "(self, sim):") (blocksOf outlines).orPass .nil

namespace Layout.SimModel

open Outline

variable {indent : String}

theorem isPlain_def {name : String} (h : '\n' ∉ name.toList) :
    IsPlain ("def " ++ name ++ "(self, sim):") :=
  isPlain_between (by decide) ⟨'d', rfl, by decide⟩ h ⟨by decide, ':', rfl, by decide⟩

theorem isLine_def : IsLine "def" := ⟨by decide, 'f', rfl, by decide⟩

theorem isHead_def : IsHead "def" := ⟨'d', rfl, by decide⟩

theorem exists_joinLines_cons (line : String) (more : List String) :
    ∃ rest, joinLines (line :: more) = line ++ rest := by
  cases more with
  | nil => exact ⟨"", by rw [joinLines, String.intercalate_singleton, String.append_empty]⟩
  | cons next more =>
      refine ⟨"\n" ++ String.intercalate "\n" (next :: more), ?_⟩
      rw [joinLines, String.intercalate_cons_cons, String.append_assoc]

theorem exists_process_eq (indent : String) (piece : ProcessPiece) :
    ∃ rest, process indent piece = "def" ++ rest := by
  obtain ⟨rest, hrest⟩ := exists_joinLines_cons ("def " ++ piece.name ++ "(self, sim):") _
  refine ⟨" " ++ piece.name ++ "(self, sim):" ++ rest, hrest.trans ?_⟩
  have hdef : "def " = "def" ++ " " := by decide
  simp only [hdef, String.append_assoc]

-- The processes as they stand in a unit.
def sections (indent : String) (texts : List String) : List String :=
  texts.flatMap fun text => "" :: indentAll indent [text]

theorem sections_cons (text : String) (texts : List String) :
    sections indent (text :: texts) =
      "" :: ((Text.lines text).map (indentLine indent) ++ sections indent texts) := by
  rw [sections, List.flatMap_cons, indentAll, List.flatMap_singleton, List.cons_append, sections]

theorem exists_unit_eq (indent : String) (piece : UnitPiece) :
    ∃ front, unit indent piece = joinLines (front ++ sections indent piece.processes) := ⟨_, rfl⟩

variable (hindent : ∀ c ∈ indent.toList, isIndent c = true)

include hindent

theorem isRemark_sensitivity {names : List String} (h : ∀ name ∈ names, '\n' ∉ name.toList) :
    IsRemark (indent ++ "# sensitivity: " ++ String.intercalate ", " names) := by
  have hnames := newline_not_mem_intercalate (by decide : '\n' ∉ ", ".toList) h
  rw [String.append_assoc]
  refine ⟨?_, ?_⟩
  · simp only [newline_not_mem_append]
    exact ⟨newline_not_mem_of_isIndent hindent, by decide, hnames⟩
  · have hhead : ("# sensitivity: " ++ String.intercalate ", " names).toList.head? = some '#' := by
      rw [String.toList_append]
      rfl
    rw [isCode_indent hindent, isCode, unindent_of_head hhead (by decide), hhead]
    rfl

theorem remarked_process (piece : ProcessPiece) {outlines : List Outline}
    (hname : '\n' ∉ piece.name.toList) (hnames : ∀ name ∈ piece.sensitivity, '\n' ∉ name.toList)
    (h : List.Forall₂ (Nests indent) piece.lines outlines) :
    (processBlocks piece.name outlines).All IsPlain ∧ ∃ shown,
      process indent piece = joinLines shown ∧
      Remarked shown ((processBlocks piece.name outlines).lines indent) := by
  obtain ⟨body, hbody, hwrites⟩ := writes_statements hindent h
  have hdef := isPlain_def hname
  refine ⟨⟨hdef, hwrites.plain, trivial⟩, _, rfl, ?_⟩
  have hne : body.map (indent ++ ·) ≠ [] := by
    intro hnil
    exact Blocks.orPass_ne_nil _ (hwrites.eq_nil_iff.mp (List.map_eq_nil_iff.mp hnil))
  have hlines : ∀ line ∈ body.map (indent ++ ·), IsLine line := by
    intro line hline
    obtain ⟨inner, hinner, rfl⟩ := List.mem_map.mp hline
    exact Vhdl.isLine_indent hindent (hwrites.isLine hindent inner hinner)
  have hunder : Remarked ((if piece.sensitivity.isEmpty then []
      else [indent ++ "# sensitivity: " ++ String.intercalate ", " piece.sensitivity]) ++
        statements indent piece.lines) (body.map (indent ++ ·)) := by
    rw [hbody]
    split
    · exact .of_lines hlines hne
    · exact .remark (isRemark_sensitivity hindent hnames) (.of_lines hlines hne)
  have hall := Remarked.line hdef.1 hunder
  simpa only [processBlocks, Blocks.lines, ← hwrites.shown, List.append_nil, List.cons_append,
    List.nil_append, List.append_assoc] using hall

-- What follows a process is on its margin.
theorem margin_of_find?_sections {texts : List String}
    (h : ∀ text ∈ texts, ∃ piece, text = process indent piece) :
    ∀ line ∈ (Text.lines (joinLines (sections indent texts))).find? isCode,
      Margin.ofLine line = .ofBlanks indent.toList := by
  cases texts with
  | nil => exact nofun
  | cons text texts =>
      obtain ⟨piece, rfl⟩ := h text List.mem_cons_self
      obtain ⟨rest, hprocess⟩ := exists_process_eq indent piece
      obtain ⟨first, others, hfirst⟩ := isLine_def.exists_lines_append rest
      have hindentLine : indentLine indent ("def" ++ first) = indent ++ "def" ++ first := by
        rw [indentLine, if_neg (by simp), String.append_assoc]
      obtain ⟨more, hmore⟩ := exists_joinLines_cons (indent ++ "def" ++ first)
        (others.map (indentLine indent) ++ sections indent texts)
      obtain ⟨shown, _, hshown⟩ :=
        (Vhdl.isLine_indent hindent isLine_def).exists_lines_append (first ++ more)
      have hhead := isHead_append isHead_def shown
      have hcode : isCode (indent ++ "def" ++ shown) = true := by
        rw [String.append_assoc, isCode_indent hindent, hhead.isCode]
      have hempty : isCode (ended "") = false := by decide
      have hassoc : indent ++ "def" ++ first ++ more = indent ++ "def" ++ (first ++ more) :=
        String.append_assoc
      have hjoined : joinLines (sections indent (process indent piece :: texts)) =
          "" ++ "\n" ++ (indent ++ "def" ++ (first ++ more)) := by
        rw [sections_cons, hprocess, hfirst, List.map_cons, List.cons_append, hindentLine,
          joinLines, String.intercalate_cons_cons, ← joinLines, hmore, hassoc]
      rw [hjoined, lines_append_of_newline_not_mem (by decide), hshown,
        List.find?_cons_of_neg (by simp [hempty]), List.find?_cons_of_pos hcode]
      rintro _ ⟨⟩
      rw [String.append_assoc]
      exact congrArg Prod.fst (Blocks.mark_append hindent hhead)

-- The lines of a process in those of the unit.
theorem lines_unit {piece : UnitPiece} {before after lines : List String} {text : String}
    (hprocesses : piece.processes = before ++ text :: after)
    (hpieces : ∀ text ∈ piece.processes, ∃ piece, text = process indent piece)
    (h : Remarked (Text.lines text) lines) :
    ∃ front mine back, Text.lines (unit indent piece) = front ++ mine ++ back ∧
      Remarked mine (lines.map (indent ++ ·)) ∧
      ∀ line ∈ back.find? isCode, Margin.ofLine line = .ofBlanks indent.toList := by
  obtain ⟨begun, hunit⟩ := exists_unit_eq indent piece
  have hmine := h.map_indentLine hindent
  obtain ⟨mine, hsame, hjoined, hfollowed⟩ := hmine.lines_joinLines
  have hlines : begun ++ sections indent piece.processes =
      (begun ++ sections indent before ++ [""]) ++
        ((Text.lines text).map (indentLine indent) ++ sections indent after) := by
    rw [hprocesses, sections, List.flatMap_append, ← sections, ← sections, sections_cons]
    simp only [List.append_assoc, List.cons_append, List.nil_append]
  have hne : (Text.lines text).map (indentLine indent) ++ sections indent after ≠ [] :=
    List.append_ne_nil_of_left_ne_nil hmine.ne_nil _
  rw [hunit, hlines, joinLines_append (by simp) hne, lines_append_newline_append]
  generalize Text.lines (joinLines (begun ++ sections indent before ++ [""]) ++ "\n") = front
  cases after with
  | nil =>
      refine ⟨front, mine, [], ?_, hsame, nofun⟩
      rw [sections, List.flatMap_nil, List.append_nil, List.append_nil, hjoined]
  | cons other others =>
      have hother : sections indent (other :: others) ≠ [] := by
        rw [sections_cons]
        exact List.cons_ne_nil _ _
      refine ⟨front, mine, Text.lines (joinLines (sections indent (other :: others))), ?_, hsame,
        ?_⟩
      · rw [joinLines_append hmine.ne_nil hother, hfollowed, List.append_assoc]
      · refine margin_of_find?_sections hindent fun text htext => hpieces text ?_
        rw [hprocesses]
        exact List.mem_append_right _ (List.mem_cons_of_mem _ htext)

end Layout.SimModel

end Rtl
