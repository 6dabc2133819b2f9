import Rtl.Proofs.Names.Passes

namespace Rtl

section

variable (r : Renderer) (naming : Naming) (layout : Layout)

def SignalWritten (signal : Signal) (text : String) : Prop :=
  ∃ type default, r.dialect.signalDeclaration
    ⟨naming (.signal signal.id), type, default, Renderer.signalKind? signal⟩ = .ok text

def LinkWritten (link : Connection) (names : String × String) : Prop :=
  SignalNamed r naming link.destination names.1 ∧ SignalNamed r naming link.source names.2

inductive BindingWritten (binding : PortId × SignalId) : String × String → Prop
  | input {port : Port} {name : String}
      (hport : r.design.arch.entity.ports.get? binding.1 = some port)
      (hdirection : port.direction = .input) (hname : SignalNamed r naming binding.2 name) :
      BindingWritten binding (name, naming (.port binding.1))
  | output {port : Port} {name : String}
      (hport : r.design.arch.entity.ports.get? binding.1 = some port)
      (hdirection : port.direction = .output) (hname : SignalNamed r naming binding.2 name) :
      BindingWritten binding (naming (.port binding.1), name)

def shownSignals (arch : Architecture) : List Signal :=
  arch.signals.toList.filter fun signal => !signal.hidden

def ConnectionsWritten (texts : List String) : Prop :=
  ∃ links bindings pairs : List (String × String),
    List.Forall₂ (LinkWritten r naming) r.design.arch.connections links ∧
    List.Forall₂ (BindingWritten r naming) r.design.arch.portBindings bindings ∧
    pairs.Perm (links ++ bindings) ∧
    texts = pairs.map fun names => r.dialect.connection names.1 names.2

-- A unit under a naming. The types are those that are declared; everything but
-- the ports comes in some order of its own.
structure UnitWritten (types : List TypeId) (piece : UnitPiece) : Prop where
  entity : r.design.names.text? r.design.arch.entity.name = some piece.entity
  architecture : r.design.names.text? r.design.arch.name = some piece.architecture
  ports : List.Forall₂ (PortWritten naming) r.design.arch.entity.ports.toList piece.ports
  types : List.Forall₂ (TypeWritten r naming) types piece.types
  signals : ∃ signals : List Signal, signals.Perm (shownSignals r.design.arch) ∧
    List.Forall₂ (SignalWritten r naming) signals piece.signals
  connections : ConnectionsWritten r naming piece.connections
  processes : ∃ processes : List Process, processes.Perm r.design.arch.processes.toList ∧
    List.Forall₂ (ProcessWritten r naming layout) processes piece.processes
  components : ∃ components : List Component, components.Perm r.design.arch.components ∧
    List.Forall₂ (fun entry written => ComponentWritten r naming entry.1 entry.2 written)
      components.zipIdx piece.components

-- What has a name before any statement is written.
def declaredOwners (arch : Architecture) (types : List TypeId) : List Owner :=
  arch.entity.ports.toList.map (fun port => .port port.id) ++
    (types.map .type ++ (shownSignals arch).map fun signal => .signal signal.id)

-- Everything in a unit that has a name.
def owners (arch : Architecture) (types : List TypeId) : List Owner :=
  declaredOwners arch types ++ (arch.processes.toList.map (fun process => .process process.id) ++
    (List.range arch.components.length).map .component)

end

theorem signal_mem_declaredOwners_iff {arch : Architecture} {types : List TypeId} {id : SignalId} :
    Owner.signal id ∈ declaredOwners arch types ↔ ∃ signal ∈ shownSignals arch, signal.id = id := by
  simp [declaredOwners]

namespace Renderer

variable {words : List String} {r s t : Renderer} {naming : Naming} {layout : Layout}

theorem map_snd_of_named {α : Type} {name : α → NameId} {items : List α}
    {entries : List (String × α)} (hok : s.named name items = .ok entries) :
    entries.map (·.2) = items := by
  rw [named, mapM_eq_ok] at hok
  induction hok with
  | nil => rfl
  | cons hfirst hrest ih =>
      obtain ⟨text, -, h⟩ := bind_eq_ok.mp hfirst
      obtain rfl := Except.ok.inj h
      exact congrArg (_ :: ·) ih

theorem declareSignal_written {signal : Signal} {text : String} (hnamed : r.Named naming s)
    (hsignal : r.design.arch.signals.get? signal.id = some signal) (hshown : signal.hidden = false)
    (hok : s.declareSignal signal.id = .ok text) : SignalWritten r naming signal text := by
  simp only [declareSignal, bind_eq_ok, signal_eq_ok, hnamed.design, hsignal] at hok
  obtain ⟨_, hsame, name, hname, type, -, default, -, htext⟩ := hok
  obtain rfl := Option.some.inj hsame
  rw [hnamed.dialect] at htext
  cases hnamed.signalNamed hname with
  | shown => exact ⟨type, default, htext⟩
  | hidden hother hhidden =>
      obtain rfl := Option.some.inj (hsignal.symm.trans hother)
      rw [hshown] at hhidden
      cases hhidden

theorem connectionTexts_written {entries : List (PortId × PortPiece)} {texts : List String}
    (hnamed : r.Named naming s) (hports : r.design.arch.entity.ports.Numbered Port.id)
    (hentries : List.Forall₂ (fun port entry => entry.1 = port.id ∧ PortWritten naming port entry.2)
      r.design.arch.entity.ports.toList entries)
    (hok : s.connectionTexts entries = .ok texts) : ConnectionsWritten r naming texts := by
  simp only [connectionTexts, bind_eq_ok, hnamed.design] at hok
  obtain ⟨links, hlinks, bindings, hbindings, hok⟩ := hok
  obtain rfl := Except.ok.inj hok
  refine ⟨links, bindings, _, ?_, ?_, perm_sortBy id pairLe _, by rw [hnamed.dialect]⟩
  · refine (mapM_eq_ok.mp hlinks).imp fun link names h => ?_
    simp only [connectionNames, bind_eq_ok] at h
    obtain ⟨driven, hdriven, driving, hdriving, h⟩ := h
    obtain rfl := Except.ok.inj h
    exact ⟨hnamed.signalNamed hdriven, hnamed.signalNamed hdriving⟩
  · refine (mapM_eq_ok.mp hbindings).imp fun binding names h => ?_
    simp only [bindingNames] at h
    split at h
    · cases h
    rename_i text htext
    obtain ⟨signal, hsignal, h⟩ := bind_eq_ok.mp h
    have hname := hnamed.signalNamed hsignal
    obtain ⟨entry, hentry, hfiled, rfl⟩ := exists_mem_of_portName? htext
    obtain ⟨port, hmem, hid, hwritten, -⟩ := exists_mem_of_forall₂ hentries hentry
    have hport := hports.get?_of_mem hmem
    rw [← hid, hfiled] at hport hwritten
    rw [hnamed.design, hwritten, Architecture.portDirection?, hport, Option.map_some] at h
    cases hdirection : port.direction with
    | input =>
        rw [hdirection] at h
        obtain rfl := Except.ok.inj h
        exact .input hport hdirection hname
    | output =>
        rw [hdirection] at h
        obtain rfl := Except.ok.inj h
        exact .output hport hdirection hname
    | inout =>
        rw [hdirection] at h
        cases h

theorem perm_of_shownSignals {shown : List (String × Signal)}
    (hok : s.shownSignals = .ok shown) :
    (shown.map (·.2)).Perm (Rtl.shownSignals s.design.arch) := by
  simp only [shownSignals, bind_eq_ok] at hok
  obtain ⟨entries, hentries, hok⟩ := hok
  obtain rfl := Except.ok.inj hok
  exact ((perm_sortBy ..).map _).trans (.of_eq (map_snd_of_named hentries))

theorem perm_of_sortedProcesses {sorted : List Process} (hok : s.sortedProcesses = .ok sorted) :
    sorted.Perm s.design.arch.processes.toList := by
  simp only [sortedProcesses, bind_eq_ok] at hok
  obtain ⟨entries, hentries, hok⟩ := hok
  obtain rfl := Except.ok.inj hok
  exact ((perm_sortBy ..).map _).trans (.of_eq (map_snd_of_named hentries))

theorem mem_shownSignals_iff {arch : Architecture} (hnumbered : arch.Numbered) {signal : Signal} :
    signal ∈ Rtl.shownSignals arch ↔
      arch.signals.get? signal.id = some signal ∧ signal.hidden = false := by
  rw [Rtl.shownSignals, List.mem_filter, Bool.not_eq_true']
  refine and_congr_left fun _ => ⟨hnumbered.signals.get?_of_mem, fun h => ?_⟩
  exact Array.mem_toList_iff.mpr (Array.mem_of_getElem? h)

-- Ports, types and signals in the preamble of a unit.
theorem nameAll_written {entries : List (PortId × PortPiece)} {declarations : List String}
    (h : s.Orderly words) (hfirst : ∀ owner, s.IsNew owner) (hdesign : s.design = r.design)
    (hnumbered : r.design.arch.Numbered)
    (hok : nameAll.outcome s = .ok ((entries, declarations), t)) :
    t.Orderly words ∧ ∃ types : List TypeId,
      s.Gives (declaredOwners r.design.arch types) t ∧
      ∀ naming, t.Agrees naming →
        List.Forall₂ (fun port entry => entry.1 = port.id ∧ PortWritten naming port entry.2)
          r.design.arch.entity.ports.toList entries ∧
        List.Forall₂ (TypeWritten r naming) types declarations := by
  obtain ⟨middle, shown, hports, hshown, hsignals⟩ := nameAll_eq_ok.mp hok
  rw [hdesign] at hports
  obtain ⟨horderly, hgives, hwritten⟩ :=
    namePorts_written h hnumbered.ports.nodup (fun port _ => hfirst _) hports
  have hmiddle := hgives.design.trans hdesign
  have hperm := perm_of_shownSignals hshown
  rw [hmiddle] at hperm
  have hnodup : (shown.map fun entry => entry.2.id).Nodup := by
    have hids := (hnumbered.signals.nodup.sublist (List.filter_sublist.map _)).perm
      (hperm.map Signal.id).symm
    rwa [List.map_map] at hids
  obtain ⟨hlast, types, htypes, hnow⟩ := nameSignals_written horderly hmiddle hnodup
    (fun entry _ => hgives.isNew_iff.mpr ⟨by simp, hfirst _⟩) hsignals
  refine ⟨hlast, types, (hgives.trans htypes).of_perm ?_, fun naming hnaming => ?_⟩
  · refine (List.Perm.append_left _ ?_).append_left _
    have hnames := hperm.map fun signal => Owner.signal signal.id
    rwa [List.map_map] at hnames
  · exact ⟨hwritten naming (htypes.agrees hnaming), hnow naming hnaming⟩

theorem continues_of_declared {types : List TypeId} (hdialect : s.dialect = r.dialect)
    (hdesign : s.design = r.design) (htime : s.timeUnit = r.timeUnit)
    (hfirst : ∀ owner, s.IsNew owner) (hnumbered : r.design.arch.Numbered)
    (hgives : s.Gives (declaredOwners r.design.arch types) t) : r.Continues t where
  dialect := hgives.dialect.trans hdialect
  design := hgives.design.trans hdesign
  timeUnit := hgives.timeUnit.trans htime
  shown id := by
    rw [hgives.isNew_iff, and_iff_left (hfirst _), signal_mem_declaredOwners_iff]
    constructor
    · intro hnone signal hsignal
      by_contra hshown
      have hid := hnumbered.signals id signal hsignal
      refine hnone ⟨signal, (mem_shownSignals_iff hnumbered).mpr ⟨?_, ?_⟩, hid⟩
      · rwa [hid]
      · exact Bool.eq_false_of_not_eq_true hshown
    · rintro hall ⟨signal, hmem, rfl⟩
      obtain ⟨hsignal, hshown⟩ := (mem_shownSignals_iff hnumbered).mp hmem
      rw [hall signal hsignal] at hshown
      cases hshown

theorem preamble_written {entries : List (PortId × PortPiece)} {declarations : List String}
    {preamble : Preamble} (hnamed : r.Named naming s) (hnumbered : r.design.arch.Numbered)
    (hentries : List.Forall₂ (fun port entry => entry.1 = port.id ∧ PortWritten naming port entry.2)
      r.design.arch.entity.ports.toList entries)
    (hok : s.preamble entries declarations = .ok preamble) :
    preamble.ports = entries.map (·.2) ∧ preamble.types = declarations ∧
      (∃ signals : List Signal, signals.Perm (Rtl.shownSignals r.design.arch) ∧
        List.Forall₂ (SignalWritten r naming) signals preamble.signals) ∧
      ConnectionsWritten r naming preamble.connections := by
  simp only [Renderer.preamble, bind_eq_ok] at hok
  obtain ⟨shown, hshown, declared, hdeclared, connections, hconnections, hok⟩ := hok
  obtain rfl := Except.ok.inj hok
  have hperm := perm_of_shownSignals hshown
  rw [hnamed.design] at hperm
  refine ⟨rfl, rfl, ⟨shown.map (·.2), hperm, ?_⟩,
    connectionTexts_written hnamed hnumbered.ports hentries hconnections⟩
  rw [List.forall₂_map_left_iff]
  have hmem : ∀ entry ∈ shown, entry.2 ∈ Rtl.shownSignals r.design.arch :=
    fun entry hentry => hperm.mem_iff.mp (List.mem_map_of_mem hentry)
  refine ((List.forall₂_and_left _ _).mpr ⟨hmem, mapM_eq_ok.mp hdeclared⟩).imp ?_
  rintro entry text ⟨hentry, htext⟩
  obtain ⟨hsignal, hhidden⟩ := (mem_shownSignals_iff hnumbered).mp hentry
  exact declareSignal_written hnamed hsignal hhidden htext

-- The components come last of all.
theorem unitText_written {preamble : Preamble} {processes : List String} {text : String}
    (h : s.Orderly words) (hr : r.Continues s) (hnew : ∀ position, s.IsNew (.component position))
    (hok : (unitText layout preamble processes).outcome s = .ok (text, t)) :
    ∃ (entity architecture : String) (pieces : List ComponentPiece),
      text = layout (.unit { preamble with entity, architecture, components := pieces, processes })
      ∧ (∃ sorted, s.sortedComponents = .ok sorted ∧
        (components 0 sorted).outcome s = .ok (pieces, t)) ∧
      r.design.names.text? r.design.arch.entity.name = some entity ∧
      r.design.names.text? r.design.arch.name = some architecture ∧ t.Orderly words ∧
      s.Gives ((List.range r.design.arch.components.length).map .component) t ∧
      ∀ naming, t.Agrees naming →
        ∃ components : List Component, components.Perm r.design.arch.components ∧
          List.Forall₂ (fun entry piece => ComponentWritten r naming entry.1 entry.2 piece)
            components.zipIdx pieces := by
  simp only [outcome_unitText, sortedComponents, bind_eq_ok, text_eq_ok, hr.design] at hok
  obtain ⟨_, ⟨entries, hentries, hsorted⟩, ⟨pieces, _⟩, hpieces, entity, hentity, architecture,
    harchitecture, hok⟩ := hok
  have hfound : s.sortedComponents = .ok (sortBy (·.1) textLe entries) := by
    simp only [sortedComponents, hr.design, bind_eq_ok]
    exact ⟨entries, hentries, rfl⟩
  obtain rfl := Except.ok.inj hsorted
  obtain ⟨rfl, rfl⟩ := Prod.mk.inj (Except.ok.inj hok)
  have hperm := perm_sortBy (·.1) textLe entries
  obtain ⟨hlast, hgives, hcontinues, hwritten⟩ :=
    components_written h hr (fun later _ => hnew later) hpieces
  rw [hcontinues.design] at hentity harchitecture
  have hlength : entries.length = r.design.arch.components.length := by
    rw [← map_snd_of_named hentries, List.length_map]
  rw [hperm.length_eq, hlength, ← List.range_eq_range'] at hgives
  refine ⟨entity, architecture, pieces, rfl, ⟨_, hfound, hpieces⟩, hentity, harchitecture, hlast,
    hgives, ?_⟩
  intro naming hnaming
  refine ⟨_, (hperm.map (·.2)).trans (.of_eq (map_snd_of_named hentries)), ?_⟩
  rw [List.zipIdx_map, List.forall₂_map_left_iff]
  exact hwritten naming hnaming

-- The passes that give names, up to the renderer after all of them.
def NamesUnit (layout : Layout) (s last : Renderer) : Prop :=
  ∃ entries declarations named sorted texts middle listed pieces,
    nameAll.outcome s = .ok ((entries, declarations), named) ∧ named.sortedProcesses = .ok sorted ∧
    processes layout sorted named = (.ok texts, middle) ∧ middle.sortedComponents = .ok listed ∧
    (components 0 listed).outcome middle = .ok (pieces, last)

-- A unit is written if every pass before it gives its part.
theorem body_iff_passes {text : String} :
    body layout s = (.ok text, t) ↔ ∃ entries declarations named preamble sorted texts middle,
      nameAll.outcome s = .ok ((entries, declarations), named) ∧
      named.preamble entries declarations = .ok preamble ∧ named.sortedProcesses = .ok sorted ∧
      processes layout sorted named = (.ok texts, middle) ∧
      (unitText layout preamble texts).outcome middle = .ok (text, t) := by
  rw [← Pass.outcome_eq_ok]
  simp only [outcome_body, outcome_writeUnit, bind_eq_ok, ← Pass.outcome_eq_ok]
  constructor
  · rintro ⟨⟨⟨entries, declarations⟩, named⟩, hnames, preamble, hpreamble, sorted, hsorted,
      ⟨texts, middle⟩, hprocesses, hunit⟩
    exact ⟨entries, declarations, named, preamble, sorted, texts, middle, hnames, hpreamble,
      hsorted, hprocesses, hunit⟩
  · rintro ⟨entries, declarations, named, preamble, sorted, texts, middle, hnames, hpreamble,
      hsorted, hprocesses, hunit⟩
    exact ⟨((entries, declarations), named), hnames, preamble, hpreamble, sorted, hsorted,
      (texts, middle), hprocesses, hunit⟩

theorem body_finished {text : String} (h : s.Orderly words) (hfirst : ∀ owner, s.IsNew owner)
    (hdialect : s.dialect = r.dialect) (hdesign : s.design = r.design)
    (htime : s.timeUnit = r.timeUnit) (hnumbered : r.design.arch.Numbered)
    (hok : body layout s = (.ok text, t)) :
    ∃ types : List TypeId, NamesUnit layout s t ∧ t.Orderly words ∧
      s.Gives (owners r.design.arch types) t ∧ ∀ naming, t.Agrees naming →
        ∃ piece, text = layout (.unit piece) ∧ UnitWritten r naming layout types piece := by
  obtain ⟨entries, declarations, named, preamble, sorted, texts, middle, hnames, hpreamble, hsorted,
    hprocesses, hunit⟩ := body_iff_passes.mp hok
  obtain ⟨hnamed, types, hdeclared, hdeclarations⟩ :=
    nameAll_written h hfirst hdesign hnumbered hnames
  have hr := continues_of_declared hdialect hdesign htime hfirst hnumbered hdeclared
  have hfound := perm_of_sortedProcesses hsorted
  rw [hr.design] at hfound
  have hnodup := (hfound.map Process.id).nodup_iff.mpr hnumbered.processes.nodup
  obtain ⟨hmiddle, hgiven, hwritten⟩ := processes_written hnamed hr hnodup
    (fun process _ => hdeclared.isNew_iff.mpr ⟨by simp [declaredOwners], hfirst _⟩)
    (fun process hmem => hnumbered.processes.get?_of_mem (hfound.mem_iff.mp hmem)) hprocesses
  -- Names are given to declarations, then to processes and last to components.
  have hlater := hdeclared.trans hgiven
  obtain ⟨entity, architecture, pieces, rfl, ⟨listed, hlisted, hcomponents⟩, hentity,
    harchitecture, hlast, hrest, hpieces⟩ := unitText_written hmiddle (hr.gives hgiven (by simp))
      (fun position => hlater.isNew_iff.mpr ⟨by simp [declaredOwners], hfirst _⟩) hunit
  refine ⟨types, ⟨entries, declarations, named, sorted, texts, middle, listed, pieces, hnames,
    hsorted, hprocesses, hlisted, hcomponents⟩, hlast, (hlater.trans hrest).of_perm ?_,
    fun naming hnaming => ?_⟩
  · rw [owners, List.append_assoc]
    exact ((hfound.map _).append_right _).append_left _
  · have hagrees := hrest.agrees hnaming
    have hbefore := hgiven.agrees hagrees
    obtain ⟨hentries, htypes⟩ := hdeclarations naming hbefore
    obtain ⟨hports, hsame, hsignals, hconnections⟩ :=
      preamble_written (hr.named hnamed hbefore) hnumbered hentries hpreamble
    refine ⟨_, rfl, hentity, harchitecture, ?_, ?_, hsignals, hconnections,
      ⟨_, hfound, hwritten naming hagrees⟩, hpieces naming hnaming⟩
    · rw [hports, List.forall₂_map_right_iff]
      exact hentries.imp fun _ _ h => h.2
    · rw [hsame]
      exact htypes

theorem body_written {text : String} (h : s.Orderly words) (hfirst : ∀ owner, s.IsNew owner)
    (hdialect : s.dialect = r.dialect) (hdesign : s.design = r.design)
    (htime : s.timeUnit = r.timeUnit) (hnumbered : r.design.arch.Numbered)
    (hok : body layout s = (.ok text, t)) :
    ∃ types : List TypeId, t.Orderly words ∧ s.Gives (owners r.design.arch types) t ∧
      ∀ naming, t.Agrees naming →
        ∃ piece, text = layout (.unit piece) ∧ UnitWritten r naming layout types piece := by
  obtain ⟨types, -, hlast⟩ := body_finished h hfirst hdialect hdesign htime hnumbered hok
  exact ⟨types, hlast⟩

-- Whoever was given a name is looked up among those that were.
theorem Orderly.exists_agrees (h : s.Orderly words) : ∃ naming, s.Agrees naming := by
  refine ⟨fun owner => (s.scope.given.lookup owner).getD "", fun entry hentry => ?_⟩
  exact congrArg (Option.getD · "") ((lookup_eq_some_iff_mem h.fair.owners).mpr hentry)

theorem exists_unitWritten {design : Design} (hnumbered : design.arch.Numbered) {dialect : Dialect}
    {reserved : List String} {timeUnit text : String}
    (hok : (ofDesign dialect design timeUnit (dialect.baseScope reserved)).architecture layout =
      (.ok text, t)) :
    ∃ naming types piece, text = layout (.unit piece) ∧
      UnitWritten (ofDesign dialect design timeUnit (dialect.baseScope reserved)) naming layout
        types piece := by
  let start := ofDesign dialect design timeUnit (dialect.baseScope reserved).push
  have hbody : (body layout start).1 = .ok text := congrArg Prod.fst hok
  have hstart : start.Orderly ((dialect.keywords ++ reserved).map
      (Scope.normalize dialect.ignoreCase)) := ⟨Scope.fair_baseScope dialect reserved, rfl, rfl⟩
  obtain ⟨types, horderly, -, hwritten⟩ := body_written
    (r := ofDesign dialect design timeUnit (dialect.baseScope reserved)) hstart
    (fun _ => List.not_mem_nil) rfl rfl rfl hnumbered (Prod.ext hbody rfl)
  obtain ⟨naming, hnaming⟩ := horderly.exists_agrees
  exact ⟨naming, types, hwritten naming hnaming⟩

end Renderer

open Renderer

-- In a unit that was written everything is called by the one name it was given,
-- and no such name is a keyword, a reserved word or the name of anything else.
theorem exists_naming_of_architecture {design : Design} (hbuilt : design.arch.Built)
    {dialect : Dialect} {reserved : List String} {timeUnit text : String} {layout : Layout}
    {last : Renderer}
    (hok : (ofDesign dialect design timeUnit (dialect.baseScope reserved)).architecture layout =
      (.ok text, last)) :
    ∃ (naming : Naming) (types : List TypeId) (piece : UnitPiece), text = layout (.unit piece) ∧
      UnitWritten (ofDesign dialect design timeUnit (dialect.baseScope reserved)) naming layout
        types piece ∧
      ((owners design.arch types).map fun owner =>
        Scope.normalize dialect.ignoreCase (naming owner)).Nodup ∧
      ∀ owner ∈ owners design.arch types, ∀ word ∈ dialect.keywords ++ reserved,
        Scope.normalize dialect.ignoreCase (naming owner) ≠
          Scope.normalize dialect.ignoreCase word := by
  let start := ofDesign dialect design timeUnit (dialect.baseScope reserved).push
  have hbody : (body layout start).1 = .ok text := congrArg Prod.fst hok
  have hstart : start.Orderly ((dialect.keywords ++ reserved).map
      (Scope.normalize dialect.ignoreCase)) := ⟨Scope.fair_baseScope dialect reserved, rfl, rfl⟩
  have hnone : start.scope.given = [] := rfl
  let named := (body layout start).2
  obtain ⟨types, horderly, hgives, hwritten⟩ := body_written
    (r := ofDesign dialect design timeUnit (dialect.baseScope reserved)) hstart
    (fun _ => List.not_mem_nil) rfl rfl rfl hbuilt.numbered (Prod.ext hbody rfl)
  -- Whoever was given a name is looked up among those that were.
  let naming : Naming := fun owner => (named.scope.given.lookup owner).getD ""
  have hagrees : named.Agrees naming := by
    intro entry hentry
    have hlookup := (lookup_eq_some_iff_mem horderly.fair.owners).mpr hentry
    exact congrArg (Option.getD · "") hlookup
  obtain ⟨piece, htext, hunit⟩ := hwritten naming hagrees
  have hperm : (named.scope.given.map (·.1)).Perm (owners design.arch types) := by
    have howners := hgives.owners_perm
    rwa [hnone, List.map_nil, List.append_nil] at howners
  have hcase : named.scope.ignoreCase = dialect.ignoreCase := by
    rw [hgives.ignoreCase]
    rfl
  have hkeys : (named.scope.given.map fun entry => Scope.normalize named.scope.ignoreCase entry.2) =
      (named.scope.given.map (·.1)).map fun owner =>
        Scope.normalize dialect.ignoreCase (naming owner) := by
    rw [List.map_map]
    refine List.map_congr_left fun entry hentry => ?_
    rw [Function.comp_apply, hagrees entry hentry, hcase]
  refine ⟨naming, types, piece, htext, hunit, ?_, ?_⟩
  · rw [← (hperm.map _).nodup_iff, ← hkeys]
    exact horderly.fair.keys
  · intro owner howner word hword hsame
    obtain ⟨entry, hentry, rfl⟩ := List.mem_map.mp (hperm.mem_iff.mpr howner)
    refine horderly.fair.free entry hentry (List.mem_map.mpr ⟨word, hword, ?_⟩)
    rw [← hsame, hagrees entry hentry, hcase]

-- A port, a signal on it and a process of the same name, and a signal called by
-- a keyword.

def crowdedSignals : Architecture :=
  let entity := ((Entity.ofName ⟨0⟩).addPort ⟨1⟩ .input ⟨0⟩).2
  (((Architecture.ofEntity ⟨0⟩ entity).addSignal ⟨1⟩ ⟨0⟩ none).2.addSignal ⟨2⟩ ⟨0⟩ none).2

def crowded : Architecture :=
  ((crowdedSignals.bindPort ⟨0⟩ ⟨0⟩).addProcess ⟨1⟩ [⟨0⟩]
    [.assign ⟨0⟩ ⟨1⟩ (.signal ⟨0⟩) none false]).2

theorem built_crowded : crowded.Built :=
  have hsignals : crowdedSignals.Built :=
    .addSignal (.addSignal (.new _ (.addPort (.new _) ..)) ..) ..
  .addProcess (.bindPort hsignals (if_pos (by decide))) (if_pos (by decide))

def roster : Layout
  | .unit piece => String.intercalate "; "
      (piece.ports.map PortPiece.name ++ piece.signals ++ piece.connections ++ piece.processes)
  | .process piece =>
      piece.name ++ ": " ++ String.intercalate ", " (piece.sensitivity ++ piece.lines)
  | .branch _ | .select _ => ""

def crowdedDesign : Design := ⟨⟨#["top", "s", "in"]⟩, (TypeTable.empty.ofWidth 1).2, crowded⟩

theorem roster_crowded :
    ∃ (naming : Naming) (types : List TypeId) (piece : UnitPiece),
      "s; SIGNAL in_0 : STD_LOGIC; SIGNAL s_0 : STD_LOGIC; s_0 <= s;; s_1: s_0, in_0 <= s_0;" =
        roster (.unit piece) ∧
      UnitWritten (ofDesign .vhdl crowdedDesign "ns" (Dialect.vhdl.baseScope ["t"])) naming roster
        types piece ∧
      ((owners crowded types).map fun owner => Scope.normalize true (naming owner)).Nodup ∧
      ∀ owner ∈ owners crowded types, ∀ word ∈ Vhdl.keywords ++ ["t"],
        Scope.normalize true (naming owner) ≠ Scope.normalize true word :=
  exists_naming_of_architecture built_crowded (Prod.ext (by cbv) rfl)

end Rtl
