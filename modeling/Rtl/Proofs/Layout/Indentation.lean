import Rtl.Proofs.Layout.Units
import Rtl.Proofs.Rendering.SameNames
import Rtl.Settings.Reader

namespace Rtl

namespace Scope

theorem MadeFrom.newline_not_mem {candidate name : String} (h : MadeFrom candidate name)
    (hline : '\n' ∉ candidate.toList) : '\n' ∉ name.toList := by
  obtain rfl | ⟨number, rfl⟩ := h
  · exact hline
  · simp only [numbered, newline_not_mem_append]
    exact ⟨⟨hline, by decide⟩, newline_not_mem_toString number⟩

end Scope

theorem OutputSettings.made_push_scope (settings : OutputSettings) :
    settings.scope.push.Made := by
  intro level hlevel
  rcases List.mem_cons.mp hlevel with rfl | hbase
  · exact nofun
  · obtain rfl := List.mem_singleton.mp hbase
    exact nofun

theorem isLine_of_mem_timeUnits {unit : String} (h : unit ∈ Settings.timeUnits) : IsLine unit := by
  simp only [Settings.timeUnits, List.mem_cons, List.not_mem_nil, or_false] at h
  rcases h with rfl | rfl | rfl | rfl | rfl | rfl
  all_goals exact ⟨by decide, _, rfl, by decide⟩

namespace Settings

-- What a renderer relies on. An empty indentation is valid.
theorem of_validate {given settings : Settings} (h : given.validate = .ok settings) :
    (∀ c ∈ settings.output.indent.toList, isIndent c = true) ∧
      IsLine settings.output.timeUnit := by
  simp only [validate] at h
  split at h
  · cases h
  split at h
  · cases h
  rename_i hindent
  split at h
  · cases h
  rename_i hunit
  split at h
  · cases h
  obtain rfl := Except.ok.inj h
  refine ⟨fun c hc => ?_, isLine_of_mem_timeUnits (by simpa using hunit)⟩
  have hblank := List.any_eq_false.mp (Bool.eq_false_of_not_eq_true hindent) c hc
  simpa [isIndent, or_iff_not_imp_left] using hblank

end Settings

namespace Renderer

variable {r : Renderer} {indent : String}

-- What stands under what in a process, as its statements are nested.
def processBlocks (r : Renderer) (name : String) (process : Process) :
    Except RenderError Blocks := do
  return Outline.processBlocks name (← r.outlineAll process.body)

theorem remarked_processText (hsim : r.dialect = .simModel) (hunit : IsLine r.timeUnit)
    (hindent : ∀ c ∈ indent.toList, isIndent c = true) {name text : String} {process : Process}
    (hname : '\n' ∉ name.toList)
    (hsensitivity : ∀ id ∈ process.sensitivity, OnOneLine (r.signalName id))
    (hbody : ∀ s ∈ Statement.walkAll process.body, r.Unbroken s)
    (hok : r.processText (Layout.SimModel.layout indent) name process = .ok text) :
    ∃ outlines, r.outlineAll process.body = .ok outlines ∧
      (Outline.processBlocks name outlines).All IsPlain ∧
      Remarked (Text.lines text) ((Outline.processBlocks name outlines).lines indent) := by
  simp only [processText, bind_eq_ok] at hok
  obtain ⟨sensitivity, hsensitive, lines, hlines, hok⟩ := hok
  obtain rfl := Except.ok.inj hok
  obtain ⟨outlines, houtlines, hnests⟩ :=
    (draws_simModel hsim hunit hindent).statements process.body lines hbody hlines
  have hnames : ∀ signal ∈ dropRepeats (sortBy id textLe sensitivity), '\n' ∉ signal.toList := by
    intro signal hsignal
    rw [mem_dropRepeats, (perm_sortBy ..).mem_iff] at hsignal
    obtain ⟨id, hid, hwritten⟩ := exists_mem_of_forall₂ (mapM_eq_ok.mp hsensitive) hsignal
    exact hsensitivity id hid signal hwritten
  obtain ⟨hplain, shown, hshown, hremarked⟩ := Layout.SimModel.remarked_process hindent
    ⟨name, dropRepeats (sortBy id textLe sensitivity), lines⟩ hname hnames hnests
  obtain ⟨same, hsame, hjoined, -⟩ := hremarked.lines_joinLines
  refine ⟨outlines, houtlines, hplain, ?_⟩
  have hlayout : Layout.SimModel.layout indent (.process _) = _ := hshown
  rw [hlayout, hjoined]
  exact hsame

end Renderer

open Renderer

-- What stands under what in a process can be told from the indentation of its lines
-- exactly if there is any. What follows the process is on the margin of its header.
theorem read?_process_iff_of_architecture {given settings : Settings}
    (hsettings : given.validate = .ok settings) (hsim : settings.output.dialect = .simModel)
    {design : Design} (hbuilt : design.arch.Built) {text : String} {last : Renderer}
    (hok : (ofDesign settings.output.dialect design settings.output.timeUnit
      settings.output.scope).architecture settings.output.layout = (.ok text, last))
    {process : Process} (hprocess : process ∈ design.arch.processes.toList)
    (hname : OnOneLine (last.text process.name))
    (hsensitivity : ∀ id ∈ process.sensitivity, OnOneLine (last.signalName id))
    (hbody : ∀ s ∈ Statement.walkAll process.body, last.Unbroken s) :
    ∃ name blocks front mine back, last.processBlocks name process = .ok blocks ∧
      Text.lines text = front ++ mine ++ back ∧
      mine.filter isCode =
        (blocks.lines settings.output.indent).map (settings.output.indent ++ ·) ∧
      (∀ line ∈ back.find? isCode,
        Margin.ofLine line = .ofBlanks settings.output.indent.toList) ∧
      (Blocks.read? mine = some blocks ↔ settings.output.indent ≠ "") := by
  obtain ⟨hindent, hunit⟩ := Settings.of_validate hsettings
  obtain ⟨hdialect, -, htimeUnit⟩ := kept_of_architecture hok
  obtain ⟨piece, sorted, rfl, hperm, hwrites⟩ :=
    writes_of_architecture hbuilt.numbered.processes hok
  have hlayout : settings.output.layout = Layout.SimModel.layout settings.output.indent := by
    rw [OutputSettings.layout, hsim]
    rfl
  rw [hlayout] at hwrites ⊢
  have hpieces : ∀ text ∈ piece.processes, ∃ piece,
      text = Layout.SimModel.process settings.output.indent piece := by
    intro text htext
    obtain ⟨_, -, _, _, -, -, hwritten⟩ := exists_mem_of_forall₂ hwrites htext
    simp only [processText, bind_eq_ok] at hwritten
    obtain ⟨_, -, _, -, hwritten⟩ := hwritten
    exact ⟨_, (Except.ok.inj hwritten).symm⟩
  obtain ⟨text, htext, candidate, name, hcandidate, hmade, hwritten⟩ :=
    exists_mem_of_forall₂ hwrites.flip (hperm.mem_iff.mpr hprocess)
  have hnameLine :=
    (hmade settings.output.made_push_scope).newline_not_mem (hname candidate hcandidate)
  obtain ⟨outlines, houtlines, hplain, hremarked⟩ := remarked_processText
    (hdialect.trans hsim) (htimeUnit ▸ hunit) hindent hnameLine hsensitivity hbody hwritten
  obtain ⟨before, after, hsplit⟩ := List.append_of_mem htext
  obtain ⟨front, mine, back, hlines, hmine, hback⟩ :=
    Layout.SimModel.lines_unit hindent hsplit hpieces hremarked
  have hheads : (Outline.processBlocks name outlines).All IsHead := hplain.imp fun _ h => h.2
  have hcode : ∀ line ∈ ((Outline.processBlocks name outlines).lines settings.output.indent).map
      (settings.output.indent ++ ·), isCode line = true := by
    intro line hline
    obtain ⟨inner, hinner, rfl⟩ := List.mem_map.mp hline
    rw [isCode_indent hindent]
    exact (hheads.imp fun _ => IsHead.isCode).lines
      (fun line hline => (isCode_indent hindent line).trans hline) inner hinner
  have hfilter := hmine.filter_isCode hcode
  refine ⟨name, _, front, mine, back, bind_eq_ok.mpr ⟨outlines, houtlines, rfl⟩, hlines, hfilter,
    hback, ?_⟩
  exact Blocks.read?_lines_iff hindent hindent hheads (Blocks.orPass_ne_nil _) hfilter

-- A latch that waits after its branch, and one that waits in it.

def latchAfter : List Statement :=
  [.branch ⟨0⟩ [.signal ⟨0⟩] [.assign ⟨1⟩ ⟨0⟩ (.signal ⟨0⟩) none false] [] [],
    .wait ⟨2⟩ true (some 5)]

def latchWithin : List Statement :=
  [.branch ⟨0⟩ [.signal ⟨0⟩]
    [.assign ⟨1⟩ ⟨0⟩ (.signal ⟨0⟩) none false, .wait ⟨2⟩ true (some 5)] [] []]

def latchSignal : Architecture :=
  ((Architecture.ofEntity ⟨0⟩ (.ofName ⟨0⟩)).addSignal ⟨1⟩ ⟨0⟩ none).2

def latch (body : List Statement) : Architecture := (latchSignal.addProcess ⟨2⟩ [⟨0⟩] body).2

def latchProcess (body : List Statement) : Process := ⟨⟨0⟩, ⟨2⟩, [⟨0⟩], body⟩

def latchToml (indent : String) : String :=
  "[codegen]\ndialect = \"sim_model\"\nindent = \"" ++ indent ++ "\"\n"

def latchSettings (indent : String) : Settings := ⟨.default, ⟨.simModel, indent, "ns", []⟩⟩

def latchWritten (indent : String) (body : List Statement) :
    Except RenderError String × Renderer :=
  let output := (latchSettings indent).output
  let design : Design := ⟨⟨#["top", "q", "hold"]⟩, ⟨⟨#[.bit]⟩⟩, latch body⟩
  (ofDesign output.dialect design output.timeUnit output.scope).architecture output.layout

theorem built_latch : (latch latchAfter).Built :=
  have hsignal : latchSignal.Built := .addSignal (.new _ (.new _)) ..
  .addProcess hsignal (if_pos (by decide))

def latchText : String :=
  Layout.joinLines
    ["class top(SimModel):",
     "\t_name = \"top\"",
     "",
     "\tdef __init__(self, sim):",
     "\t\tsuper().__init__(sim)",
     "\t\tself.q = mkSig(sim, \"q\", BIT, None)",
     "\t\tself._processes = (self.hold,)",
     "",
     "\tdef hold(self, sim):",
     "\t\t# sensitivity: q",
     "\t\tif (self.q._oldVal)._eq('1'):",
     "\t\t\tyield (self.q, mkUpdater(self.q._oldVal), False)",
     "\t\twait for 5 ns"]

theorem read?_latch :
    ∃ name blocks front mine back,
      (latchWritten "\t" latchAfter).2.processBlocks name (latchProcess latchAfter) = .ok blocks ∧
      Text.lines latchText = front ++ mine ++ back ∧
      mine.filter isCode = (blocks.lines "\t").map ("\t" ++ ·) ∧
      (∀ line ∈ back.find? isCode, Margin.ofLine line = .ofBlanks "\t".toList) ∧
      (Blocks.read? mine = some blocks ↔ "\t" ≠ "") := by
  have hsettings : (latchSettings "\t").validate = .ok (latchSettings "\t") := by decide +kernel
  have htext : (latchWritten "\t" latchAfter).1 = .ok latchText := by decide +kernel
  have hprocess : latchProcess latchAfter ∈ (latch latchAfter).processes.toList :=
    List.mem_cons_self
  exact read?_process_iff_of_architecture hsettings rfl built_latch (Prod.ext htext rfl) hprocess
    (by decide +kernel) (by decide +kernel) (by decide +kernel)

-- Without an indentation the two are written alike.
theorem latchWritten_flat :
    Settings.ofText (latchToml "") = .ok (latchSettings "") ∧
      (latchWritten "" latchAfter).1 = .ok (Layout.joinLines
        ["class top(SimModel):",
         "_name = \"top\"",
         "",
         "def __init__(self, sim):",
         "super().__init__(sim)",
         "self.q = mkSig(sim, \"q\", BIT, None)",
         "self._processes = (self.hold,)",
         "",
         "def hold(self, sim):",
         "# sensitivity: q",
         "if (self.q._oldVal)._eq('1'):",
         "yield (self.q, mkUpdater(self.q._oldVal), False)",
         "wait for 5 ns"]) ∧
      (latchWritten "" latchWithin).1 = (latchWritten "" latchAfter).1 ∧
      (latchWritten "" latchWithin).2.processBlocks "hold" (latchProcess latchWithin) ≠
        (latchWritten "" latchAfter).2.processBlocks "hold" (latchProcess latchAfter) := by
  decide +kernel

end Rtl
