import Rtl.Proofs.Quotations.Units

namespace Rtl

-- A string that indented lines leave as it is.
def Steady (indent s : String) : Prop :=
  '\n' ∉ s.toList ∨ indent = "" ∧ ¬ ['\r', '\n'] <:+: s.toList

section

variable {dialect : Dialect} {indent : String} {q : Quotation}

namespace Quotation

-- What stands further in by the indentation, or by two of them at once.
def MovedWith (indent : String) (q : Quotation) : Prop :=
  ∀ move ∈ q.moves, move = indent ∨ move = indent ++ indent

theorem MovedWith.deeper (h : q.MovedWith indent) : (q.deeper indent).MovedWith indent :=
  List.forall_mem_append.mpr ⟨h, List.forall_mem_singleton.mpr (.inl rfl)⟩

theorem MovedWith.twice (h : q.MovedWith indent) :
    (q.deeper (indent ++ indent)).MovedWith indent :=
  List.forall_mem_append.mpr ⟨h, List.forall_mem_singleton.mpr (.inr rfl)⟩

-- All of the indentation is empty as soon as one step of it is.
theorem kept_deeper_iff (h : q.MovedWith indent) :
    (q.deeper indent).Kept ↔ Steady indent q.content := by
  have hmoves : (∀ move ∈ (q.deeper indent).moves, move = "") ↔ indent = "" := by
    constructor
    · intro hempty
      exact hempty indent (List.mem_append_right _ (List.mem_singleton_self _))
    · rintro rfl move hmem
      rcases h.deeper move hmem with rfl | rfl <;> rfl
  rw [Kept, hmoves, Steady]
  exact or_iff_right (by simp [deeper])

theorem moves_of_mem_quoted {strings : List String} (h : q ∈ quoted strings) : q.moves = [] := by
  obtain ⟨s, -, rfl⟩ := List.mem_map.mp h
  rfl

theorem movedWith_of_mem_quoted {strings : List String} (h : q ∈ quoted strings) :
    q.MovedWith indent := by
  rw [MovedWith, moves_of_mem_quoted h]
  exact nofun

end Quotation

-- Constants of which each stands further in by the indentation of their text.
def AllMoved (indent : String) (qs : List Quotation) : Prop := ∀ q ∈ qs, q.MovedWith indent

variable {qs qs' : List Quotation}

theorem AllMoved.append (h : AllMoved indent qs) (h' : AllMoved indent qs') :
    AllMoved indent (qs ++ qs') := List.forall_mem_append.mpr ⟨h, h'⟩

theorem AllMoved.inset (h : AllMoved indent qs) : AllMoved indent (inset indent qs) :=
  List.forall_mem_map.mpr fun q hmem => (h q hmem).deeper

-- What is further in by the indentation has it at least once.
theorem AllMoved.kept_iff (h : AllMoved indent qs) (hmem : q ∈ Rtl.inset indent qs) :
    q.Kept ↔ Steady indent q.content := by
  obtain ⟨inner, hinner, rfl⟩ := List.mem_map.mp hmem
  exact Quotation.kept_deeper_iff (h inner hinner)

theorem AllMoved.inset_twice (h : AllMoved indent qs) :
    AllMoved indent (Rtl.inset (indent ++ indent) qs) :=
  List.forall_mem_map.mpr fun q hmem => (h q hmem).twice

theorem allMoved_flatMap {α : Type} {items : List α} {quote : α → List Quotation}
    (h : ∀ item ∈ items, AllMoved indent (quote item)) : AllMoved indent (items.flatMap quote) := by
  intro q hmem
  obtain ⟨item, hitem, hmem⟩ := List.mem_flatMap.mp hmem
  exact h item hitem q hmem

theorem allMoved_stringsIn (arch : Architecture) (e : Expr) :
    AllMoved indent (arch.stringsIn e) := fun _ => Quotation.movedWith_of_mem_quoted

theorem allMoved_branch {condition body otherwise : List Quotation}
    {elifs : List (List Quotation × List Quotation)} (hcondition : AllMoved indent condition)
    (hbody : AllMoved indent body)
    (helifs : ∀ part ∈ elifs, AllMoved indent part.1 ∧ AllMoved indent part.2)
    (hotherwise : AllMoved indent otherwise) :
    AllMoved indent (branchQuotations indent condition body elifs otherwise) :=
  ((hcondition.append hbody.inset).append (allMoved_flatMap fun part hmem =>
    (helifs part hmem).1.append (helifs part hmem).2.inset)).append hotherwise.inset

theorem allMoved_select {subject : List Quotation} {cases : List QuotedCase}
    (hsubject : AllMoved indent subject)
    (hcases : ∀ part ∈ cases, AllMoved indent (part.1.getD []) ∧ AllMoved indent part.2) :
    AllMoved indent (selectQuotations dialect indent subject cases) := by
  cases dialect with
  | vhdl =>
      exact hsubject.append (allMoved_flatMap fun part hmem =>
        (hcases part hmem).1.append (hcases part hmem).2.inset_twice)
  | simModel =>
      have hdefault : AllMoved indent ((defaultQuotations? cases).getD []) := by
        rw [defaultQuotations?]
        cases hfound : cases.find? (·.1.isNone) with
        | none => exact nofun
        | some part => exact (hcases part (List.mem_of_find?_eq_some hfound)).2
      have hkeyed : ∀ part ∈ keyedQuotations cases,
          AllMoved indent part.1 ∧ AllMoved indent part.2 := by
        intro part hmem
        obtain ⟨⟨key, body⟩, hcase, hpart⟩ := List.mem_filterMap.mp hmem
        obtain ⟨key, rfl, rfl⟩ := Option.map_eq_some_iff.mp hpart
        exact hcases _ hcase
      rw [selectQuotations]
      generalize keyedQuotations cases = keyed at hkeyed ⊢
      cases keyed with
      | nil => exact hdefault
      | cons first rest =>
          exact (allMoved_flatMap fun part hmem => (hsubject.append (hkeyed part hmem).1).append
            (hkeyed part hmem).2.inset).append hdefault.inset

namespace Architecture

variable (arch : Architecture) (dialect : Dialect) (indent : String)

mutual

theorem allMoved_quotations : ∀ t, AllMoved indent (arch.quotations dialect indent t)
  | .assign _ _ source _ _ => allMoved_stringsIn arch source
  | .branch _ _ body elifs otherwise =>
      allMoved_branch (allMoved_flatMap fun e _ => allMoved_stringsIn arch e)
        (allMoved_quotationsOf body) (allMoved_elifQuotations elifs)
        (allMoved_quotationsOf otherwise)
  | .select _ subject cases =>
      allMoved_select (allMoved_stringsIn arch subject) (allMoved_caseQuotations cases)
  | .wait .. => nofun

theorem allMoved_quotationsOf : ∀ body, AllMoved indent (arch.quotationsOf dialect indent body)
  | [] => nofun
  | t :: rest => (allMoved_quotations t).append (allMoved_quotationsOf rest)

theorem allMoved_elifQuotations : ∀ elifs,
    ∀ part ∈ arch.elifQuotations dialect indent elifs,
      AllMoved indent part.1 ∧ AllMoved indent part.2
  | [] => nofun
  | (_, body) :: rest =>
      List.forall_mem_cons.mpr
        ⟨⟨allMoved_flatMap fun e _ => allMoved_stringsIn arch e, allMoved_quotationsOf body⟩,
          allMoved_elifQuotations rest⟩

theorem allMoved_caseQuotations : ∀ cases,
    ∀ part ∈ arch.caseQuotations dialect indent cases,
      AllMoved indent (part.1.getD []) ∧ AllMoved indent part.2
  | [] => nofun
  | (none, body) :: rest =>
      List.forall_mem_cons.mpr
        ⟨⟨nofun, allMoved_quotationsOf body⟩, allMoved_caseQuotations rest⟩
  | (some key, body) :: rest =>
      List.forall_mem_cons.mpr
        ⟨⟨allMoved_stringsIn arch key, allMoved_quotationsOf body⟩, allMoved_caseQuotations rest⟩

end

theorem allMoved_processQuotations (process : Process) :
    AllMoved indent (arch.processQuotations dialect indent process) :=
  (arch.allMoved_quotationsOf dialect indent process.body).inset

end Architecture

-- Each constant has its place in the text, between the places of those before it and behind it,
-- and the reader finds it there if it was kept and not otherwise.
def Placed (dialect : Dialect) (text : List Char) (qs : List Quotation) : Prop :=
  ∀ front q back, qs = front ++ q :: back → ∃ before behind,
    text = before ++ '"' :: (q.body dialect ++ '"' :: behind) ∧
      Quotes dialect before front ∧ Quotes dialect behind back ∧
      (dialect.string? (q.body dialect ++ '"' :: behind) = some (q.content.toList, behind) ↔ q.Kept)

theorem Quotes.placed {text : List Char} (h : Quotes dialect text qs) :
    Placed dialect text qs := by
  intro front q back hqs
  induction h generalizing front with
  | nil => exact absurd hqs.symm (by simp)
  | plain c h ih =>
      obtain ⟨before, behind, rfl, hbefore, hrest⟩ := ih front hqs
      exact ⟨c :: before, behind, rfl, .plain c hbefore, hrest⟩
  | @literal first rest qs hnext h ih =>
      cases front with
      | nil =>
          obtain ⟨rfl, rfl⟩ := List.cons.inj hqs
          exact ⟨[], rest, rfl, .nil, h, Quotation.string?_eq_some_iff hnext⟩
      | cons _ front =>
          obtain ⟨rfl, hothers⟩ := List.cons.inj hqs
          obtain ⟨before, behind, rfl, hbefore, hrest⟩ := ih front hothers
          -- A text in front of a literal that follows another one is not empty.
          have hhead : before.head? ≠ some '"' := by
            cases before with
            | nil => exact absurd rfl hnext
            | cons => exact hnext
          exact ⟨'"' :: (first.body dialect ++ '"' :: before), behind, by simp,
            .literal first hhead hbefore, hrest⟩

end

namespace Renderer

-- The string constants of a process and of a unit have their places in its text. In a process
-- a constant reads back exactly if indented lines leave it as it is, in a declaration always.
theorem strings_read_back (r : Renderer) (indent : String) :
    (∀ id text last, Renderer.process (r.dialect.layout indent) id r = (.ok text, last) →
      ∃ process, r.design.arch.processes.get? id = some process ∧
        Placed r.dialect text.toList (r.design.arch.processQuotations r.dialect indent process) ∧
        ∀ q ∈ r.design.arch.processQuotations r.dialect indent process,
          q.Kept ↔ Steady indent q.content) ∧
    (r.design.arch.Numbered → ∀ text last,
      r.architecture (r.dialect.layout indent) = (.ok text, last) →
      ∃ (signals : List Signal) (processes : List Process),
        signals.Perm (Rtl.shownSignals r.design.arch) ∧
        processes.Perm r.design.arch.processes.toList ∧
        let declared := signals.flatMap fun signal => quoted signal.strings
        let inside := inset indent
          (processes.flatMap (r.design.arch.processQuotations r.dialect indent))
        Placed r.dialect text.toList (declared ++ inside) ∧ (∀ q ∈ declared, q.Kept) ∧
          ∀ q ∈ inside, q.Kept ↔ Steady indent q.content) := by
  constructor
  · intro id text last hok
    obtain ⟨process, hfound, hquotes⟩ := quotes_process_eq_ok hok
    have hmoved := r.design.arch.allMoved_quotationsOf r.dialect indent process.body
    exact ⟨process, hfound, hquotes.placed, fun q => hmoved.kept_iff⟩
  · intro hnumbered text last hok
    obtain ⟨signals, processes, hsignals, hprocesses, hquotes⟩ :=
      quotes_architecture hnumbered hok
    have hmoved : AllMoved indent
        (processes.flatMap (r.design.arch.processQuotations r.dialect indent)) :=
      allMoved_flatMap fun process _ => r.design.arch.allMoved_processQuotations _ _ process
    refine ⟨signals, processes, hsignals, hprocesses, hquotes.placed, fun q hmem => ?_,
      fun q => hmoved.kept_iff⟩
    obtain ⟨signal, -, hmem⟩ := List.mem_flatMap.mp hmem
    exact .inl (Quotation.moves_of_mem_quoted hmem)

-- A label that is a constant from the beginning and is set again by a process.

def labelSignals (content : String) : Architecture :=
  ((Architecture.ofEntity ⟨0⟩ (.ofName ⟨0⟩)).addSignal ⟨1⟩ ⟨0⟩
    (some ⟨⟨0⟩, .text (some content)⟩)).2

def labels (content : String) : Architecture :=
  ((labelSignals content).addProcess ⟨2⟩ []
    [.assign ⟨0⟩ ⟨0⟩ (.literal ⟨⟨0⟩, .text (some content)⟩) none false]).2

theorem built_labels (content : String) : (labels content).Built :=
  have hsignals : (labelSignals content).Built := .addSignal (.new _ (.new _)) ..
  .addProcess hsignals (if_pos (by rfl))

def ofLabels (dialect : Dialect) (content : String) : Renderer :=
  ofDesign dialect ⟨⟨#["top", "label", "p"]⟩, ⟨⟨#[.text]⟩⟩, labels content⟩ "ns"
    (dialect.baseScope [])

def labelProcess : String :=
  Layout.joinLines ["p: PROCESS", "BEGIN", "  label <= \"say \"\"go\"\"\";", "END PROCESS;"]

def labelUnit : String :=
  Layout.joinLines
    ["ENTITY top IS", "END ENTITY top;", "", "ARCHITECTURE top OF top IS",
      "  SIGNAL label_0 : STRING := \"say \"\"go\"\"\";", "BEGIN", "  p: PROCESS", "  BEGIN",
      "    label_0 <= \"say \"\"go\"\"\";", "  END PROCESS;", "END ARCHITECTURE top;"]

-- Quotes are doubled at both places and read back from there.
theorem strings_of_labels :
    ((ofLabels .vhdl "say \"go\"").process (Layout.Vhdl.layout "  ") ⟨0⟩).1 = .ok labelProcess ∧
    ((ofLabels .vhdl "say \"go\"").architecture (Layout.Vhdl.layout "  ")).1 = .ok labelUnit ∧
    (∃ before behind, labelProcess.toList = before ++ '"' :: behind ∧
      ∃ rest, Vhdl.string? behind = some ("say \"go\"".toList, rest)) ∧
    ∃ declared inside, Placed .vhdl labelUnit.toList (declared ++ inside) ∧
      declared = [⟨"say \"go\"", []⟩] ∧ inside = [⟨"say \"go\"", ["  ", "  "]⟩] ∧
      ∀ q ∈ declared ++ inside, q.Kept := by
  have hprocess : ((ofLabels .vhdl "say \"go\"").process (Layout.Vhdl.layout "  ") ⟨0⟩).1 =
      .ok labelProcess := by decide +kernel
  have hunit : ((ofLabels .vhdl "say \"go\"").architecture (Layout.Vhdl.layout "  ")).1 =
      .ok labelUnit := by decide +kernel
  have hsteady : Steady "  " "say \"go\"" := .inl (by decide)
  obtain ⟨halone, hwhole⟩ := strings_read_back (ofLabels .vhdl "say \"go\"") "  "
  refine ⟨hprocess, hunit, ?_, ?_⟩
  · obtain ⟨process, hfound, hplaced, hkept⟩ := halone ⟨0⟩ _ _ (Prod.ext hprocess rfl)
    obtain rfl := Option.some.inj hfound
    obtain ⟨before, behind, htext, -, -, hread⟩ := hplaced [] ⟨"say \"go\"", ["  "]⟩ [] rfl
    exact ⟨before, _, htext, behind, hread.mpr ((hkept _ List.mem_cons_self).mpr hsteady)⟩
  · obtain ⟨signals, processes, hsignals, hprocesses, hplaced, hdeclared, hinside⟩ :=
      hwhole (built_labels _).numbered _ _ (Prod.ext hunit rfl)
    obtain rfl := List.perm_singleton.mp hsignals
    obtain rfl := List.perm_singleton.mp hprocesses
    refine ⟨_, _, hplaced, rfl, rfl, List.forall_mem_append.mpr ⟨hdeclared, fun q hmem => ?_⟩⟩
    refine (hinside q hmem).mpr ?_
    obtain rfl := List.mem_singleton.mp hmem
    exact hsteady

-- The label with a line feed has an indentation in it, and a carriage return is lost also
-- where the indentation is empty.
theorem texts_of_lineBreaks :
    (((ofLabels .vhdl "a\nb").process (Layout.Vhdl.layout "    ") ⟨0⟩).1 =
        .ok "p: PROCESS\nBEGIN\n    label <= \"a\n    b\";\nEND PROCESS;" ∧
      Vhdl.string? "a\n    b\";\nEND PROCESS;".toList =
        some ("a\n    b".toList, ";\nEND PROCESS;".toList)) ∧
    (((ofLabels .simModel "a\nb").process (Layout.SimModel.layout "    ") ⟨0⟩).1 =
        .ok "def p(self, sim):\n    yield (self.label, mkUpdater(\"a\n    b\"), False)" ∧
      SimModel.string? "a\n    b\"), False)".toList =
        some ("a\n    b".toList, "), False)".toList)) ∧
    ((ofLabels .vhdl "a\r\nb").process (Layout.Vhdl.layout "") ⟨0⟩).1 =
        .ok "p: PROCESS\nBEGIN\nlabel <= \"a\nb\";\nEND PROCESS;" ∧
      Vhdl.string? "a\nb\";\nEND PROCESS;".toList =
        some ("a\nb".toList, ";\nEND PROCESS;".toList) := by
  refine ⟨⟨?_, ?_⟩, ⟨?_, ?_⟩, ?_, ?_⟩ <;> decide +kernel

end Renderer

end Rtl
