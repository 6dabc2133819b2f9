import Rtl.Proofs.Quotations.Statements
import Rtl.Proofs.Rendering.SameNames

namespace Rtl

section

variable {dialect : Dialect} {indent : String}

theorem quotes_process {piece : ProcessPiece} {qs : List Quotation}
    (h : QuotesTexts dialect piece.lines qs) :
    Quotes dialect (dialect.layout indent (.process piece)).toList (inset indent qs) := by
  cases dialect with
  | vhdl => exact (((QuotesLines.body indent "NULL;" h).prepend _).append_plain _).joinLines
  | simModel => exact ((QuotesLines.body indent "pass" h).prepend _).joinLines

theorem quotesLines_sections {texts : List String} {qs : List Quotation}
    (h : QuotesTexts dialect texts qs) :
    QuotesLines dialect (texts.flatMap fun text => "" :: Layout.indentAll indent [text])
      (inset indent qs) := by
  induction h with
  | nil => exact .of_plain []
  | cons hfirst _ ih =>
      rw [List.flatMap_cons, inset, List.map_append]
      have htext : QuotesLines dialect (Layout.indentAll indent _) _ :=
        .indentAll (.cons hfirst .nil)
      rw [List.append_nil] at htext
      exact (htext.prepend [""]).append ih

-- Processes are further in than the unit, signals are declared where they stand.
theorem quotes_unit {piece : UnitPiece} {signals processes : List Quotation}
    (hsignals : QuotesTexts dialect piece.signals signals)
    (hprocesses : QuotesTexts dialect piece.processes processes) :
    Quotes dialect (dialect.layout indent (.unit piece)).toList
      (signals ++ inset indent processes) := by
  cases dialect with
  | vhdl =>
      have hdeclared : QuotesLines .vhdl
          ((piece.types ++ piece.signals).map fun declaration => indent ++ declaration ++ ";")
          signals :=
        .of_texts (((QuotesTexts.of_plain piece.types).append hsignals).map fun h =>
          (h.before indent).ended (by decide))
      have hfront (before : List String) := (((hdeclared.prepend before).append_plain
        ["BEGIN"]).append_plain (Layout.indentAll indent piece.connections)).append_plain
        (piece.components.flatMap (Layout.Vhdl.component indent))
      exact (((hfront _).append (.indentAll hprocesses)).append_plain _).joinLines
  | simModel =>
      have hdeclared : QuotesLines .simModel
          ((piece.signals ++ piece.connections).map (indent ++ indent ++ ·)) signals := by
        have htexts := hsignals.append (QuotesTexts.of_plain piece.connections)
        rw [List.append_nil] at htexts
        exact .of_texts (htexts.map fun h => h.before (indent ++ indent))
      have hfront (before : List String) := (hdeclared.prepend before).append_plain
        (piece.components.flatMap (Layout.SimModel.component indent))
      exact (((hfront _).append_plain _).append (quotesLines_sections hprocesses)).joinLines

end

-- The constants of a process as it is written on its own.
def Architecture.processQuotations (arch : Architecture) (dialect : Dialect) (indent : String)
    (process : Process) : List Quotation :=
  inset indent (arch.quotationsOf dialect indent process.body)

-- The constant that a signal has from the beginning.
def Signal.strings (signal : Signal) : List String := (signal.default.map Value.strings).getD []

namespace Renderer

variable {r : Renderer} {indent text : String} {last : Renderer}

theorem quotes_processText {name : String} {process : Process}
    (h : r.processText (r.dialect.layout indent) name process = .ok text) :
    Quotes r.dialect text.toList
      (r.design.arch.processQuotations r.dialect indent process) := by
  obtain ⟨sensitivity, -, h⟩ := bind_eq_ok.mp h
  obtain ⟨lines, hlines, h⟩ := bind_eq_ok.mp h
  obtain rfl := Except.ok.inj h
  exact quotes_process (quotes_statements process.body lines hlines)

theorem quotes_process_eq_ok {id : ProcessId}
    (h : Renderer.process (r.dialect.layout indent) id r = (.ok text, last)) :
    ∃ process, r.design.arch.processes.get? id = some process ∧
      Quotes r.dialect text.toList
        (r.design.arch.processQuotations r.dialect indent process) := by
  simp only [process_eq] at h
  split at h
  · cases h
  · rename_i process hprocess
    split at h
    · cases h
    · obtain ⟨htext, -⟩ := Prod.mk.inj h
      exact ⟨process, findProcess_eq_ok.mp hprocess,
        quotes_processText (r := (r.checkedName _ _).2) htext⟩

theorem strings_of_not_anyDefined {value : Value} (h : ¬ value.anyDefined = true) :
    value.strings = [] := by
  obtain ⟨type, payload⟩ := value
  cases payload with
  | text content =>
      cases content with
      | none => rfl
      | some s => exact absurd rfl h
  | bits | boolean | integer | label => rfl

-- A default with its constant. One that is left out has none.
def QuotesDefault (dialect : Dialect) : Option String → List Quotation → Prop
  | some text, qs => Quotes dialect text.toList qs
  | none, qs => qs = []

theorem quotes_defaultText {default : Option Value} {shown : Option String}
    (h : r.defaultText default = .ok shown) :
    QuotesDefault r.dialect shown (quoted ((default.map Value.strings).getD [])) := by
  cases default with
  | none =>
      obtain rfl := Except.ok.inj h
      rfl
  | some value =>
      simp only [defaultText] at h
      split at h
      · obtain ⟨text, htext, rfl⟩ := map_eq_ok.mp h
        exact quotes_valueText htext
      · rename_i hundefined
        obtain rfl := Except.ok.inj h
        exact congrArg quoted (strings_of_not_anyDefined hundefined)

theorem quotes_signalDeclaration {dialect : Dialect} {declaration : SignalDeclaration}
    {qs : List Quotation} (h : QuotesDefault dialect declaration.default qs)
    (htext : dialect.signalDeclaration declaration = .ok text) :
    Quotes dialect text.toList qs := by
  obtain ⟨name, type, default, kind⟩ := declaration
  cases default with
  | none =>
      obtain rfl : qs = [] := h
      exact .of_plain _
  | some value =>
      have hvalue : Quotes dialect value.toList qs := h
      cases dialect with
      | vhdl =>
          match kind with
          | none => cases htext
          | some .signal | some .constant =>
              obtain rfl := Except.ok.inj htext
              exact (hvalue.before " := ").before _
      | simModel =>
          obtain rfl := Except.ok.inj htext
          exact (hvalue.before _).ended (by decide)

theorem quotes_declareSignal {id : SignalId} {signal : Signal}
    (hsignal : r.design.arch.signals.get? id = some signal) (h : r.declareSignal id = .ok text) :
    Quotes r.dialect text.toList (quoted signal.strings) := by
  simp only [declareSignal, bind_eq_ok, signal_eq_ok] at h
  obtain ⟨_, hsame, name, -, type, -, default, hdefault, h⟩ := h
  obtain rfl := Option.some.inj (hsignal.symm.trans hsame)
  exact quotes_signalDeclaration (quotes_defaultText hdefault) h

-- The constants of a unit stand in the declarations of its signals and in its processes.
theorem quotes_architecture (hnumbered : r.design.arch.Numbered)
    (h : r.architecture (r.dialect.layout indent) = (.ok text, last)) :
    ∃ (signals : List Signal) (processes : List Process),
      signals.Perm (Rtl.shownSignals r.design.arch) ∧
      processes.Perm r.design.arch.processes.toList ∧
      Quotes r.dialect text.toList
        (signals.flatMap (fun signal => quoted signal.strings) ++
          inset indent (processes.flatMap
            (r.design.arch.processQuotations r.dialect indent))) := by
  rw [architecture_eq] at h
  obtain ⟨htext, -⟩ := Prod.mk.inj h
  obtain ⟨entries, types, texts, named, later, preamble, sorted, piece, hnames, hpreamble, hsorted,
    hwritten, rfl, -, -, hsignals, rfl⟩ := body_eq_ok (Prod.ext htext rfl)
  obtain ⟨-, shown, hshown, -⟩ := shown_of_nameAll hnames
  obtain ⟨hdialect, hdesign, -, -, -⟩ := follows_nameAll.of_outcome hnames
  -- Naming changes neither the dialect nor the design.
  have hdialect : r.dialect = named.dialect := hdialect.symm
  have hdesign : r.design = named.design := hdesign.symm
  rw [hdesign] at hnumbered ⊢
  rw [hdialect] at hwritten ⊢
  have hperm := perm_of_shownSignals hshown
  have hprocesses := perm_of_sortedProcesses hsorted
  simp only [Renderer.preamble, bind_eq_ok, hshown] at hpreamble
  obtain ⟨_, hagain, lines, hlines, connections, -, hpreamble⟩ := hpreamble
  obtain rfl := Except.ok.inj hagain
  obtain rfl := Except.ok.inj hpreamble
  refine ⟨shown.map (·.2), sorted, hperm, hprocesses, quotes_unit ?_ ?_⟩
  · rw [hsignals, List.flatMap_map]
    refine .of_forall₂ (forall₂_of_forall_mem (mapM_eq_ok.mp hlines) ?_)
    intro entry hentry line hline
    have hmem := hperm.mem_iff.mp (List.mem_map_of_mem hentry)
    exact quotes_declareSignal ((mem_shownSignals_iff hnumbered).mp hmem).1 hline
  · have hwrites := writes_of_processes (fun process hmem =>
      hnumbered.processes.get?_of_mem (hprocesses.mem_iff.mp hmem)) hwritten
    refine .of_forall₂ (hwrites.imp fun process text ⟨_, _, _, _, htext⟩ => ?_)
    exact quotes_processText htext

end Renderer

end Rtl
