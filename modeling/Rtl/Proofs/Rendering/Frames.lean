import Rtl.Proofs.Rendering.Passes
import Rtl.Proofs.Types.Declared

namespace Rtl

-- A scope with an inner level that closes to the outer scope.
structure Scope.Over (outer scope : Scope) : Prop where
  nested : scope.nested ≠ []
  pop : scope.pop = outer

namespace Scope

theorem over_push (scope : Scope) : scope.Over scope.push := ⟨List.cons_ne_nil _ _, pop_push scope⟩

theorem Over.checkedName {outer scope : Scope} (h : outer.Over scope) (owner : Owner)
    (candidate : String) : outer.Over (scope.checkedName owner candidate).2 := by
  rw [Scope.checkedName]
  split
  · exact h
  · obtain ⟨nested, base, ignoreCase⟩ := scope
    cases nested with
    | nil => exact absurd rfl h.nested
    | cons level levels => exact ⟨List.cons_ne_nil _ _, h.pop⟩

-- The candidate for a name, as it stands or with a number.
def MadeFrom (candidate name : String) : Prop :=
  name = candidate ∨ ∃ number, name = numbered candidate number

-- All names were made from the candidates for them.
def Made (scope : Scope) : Prop :=
  ∀ level ∈ scope.levels, ∀ entry ∈ level.owned, MadeFrom entry.1.candidate entry.2

theorem madeFrom_freeName (scope : Scope) (candidate : String) :
    MadeFrom candidate (scope.freeName candidate) := by
  simp only [freeName]
  split
  · exact .inl rfl
  · split
    · exact .inr ⟨_, rfl⟩
    · exact .inl rfl

theorem Made.enter {scope : Scope} (h : scope.Made) {request : NameRequest} {name : String}
    (hname : MadeFrom request.candidate name) : (scope.enter request name).Made := by
  obtain ⟨nested, base, ignoreCase⟩ := scope
  cases nested with
  | nil =>
      intro level hlevel entry hentry
      obtain rfl := List.mem_singleton.mp hlevel
      rcases List.mem_cons.mp hentry with rfl | hold
      · exact hname
      · exact h base List.mem_cons_self entry hold
  | cons inner outer =>
      intro level hlevel entry hentry
      rcases List.mem_cons.mp hlevel with rfl | hlevel
      · rcases List.mem_cons.mp hentry with rfl | hold
        · exact hname
        · exact h inner List.mem_cons_self entry hold
      · exact h level (List.mem_cons_of_mem _ hlevel) entry hentry

theorem Made.checkedName {scope : Scope} (h : scope.Made) (owner : Owner) (candidate : String) :
    MadeFrom candidate (scope.checkedName owner candidate).1 ∧
      (scope.checkedName owner candidate).2.Made := by
  rw [Scope.checkedName]
  split
  · rename_i name hname
    obtain ⟨level, hlevel, hlookup⟩ := List.exists_of_findSome?_eq_some hname
    obtain ⟨front, back, howned, -⟩ := List.lookup_eq_some_iff.mp hlookup
    refine ⟨h level hlevel (⟨owner, candidate⟩, name) ?_, h⟩
    rw [howned]
    exact List.mem_append_right _ List.mem_cons_self
  · exact ⟨madeFrom_freeName scope candidate, h.enter (madeFrom_freeName scope candidate)⟩

end Scope

namespace Renderer

open Pass

variable {s t u : Renderer} {layout : Layout}

-- What a pass leaves as it was. Names are entered on the innermost level alone.
structure Follows (s t : Renderer) : Prop where
  dialect : t.dialect = s.dialect
  design : t.design = s.design
  timeUnit : t.timeUnit = s.timeUnit
  scope : ∀ outer : Scope, outer.Over s.scope → outer.Over t.scope
  made : s.scope.Made → t.scope.Made

-- A pass that names no signals.
structure KeepsSignals (s t : Renderer) : Prop extends Follows s t where
  signalNames : t.signalNames = s.signalNames

-- A pass that declares no types either.
structure Enters (s t : Renderer) : Prop extends KeepsSignals s t where
  typeNames : t.typeNames = s.typeNames

theorem Follows.refl (s : Renderer) : s.Follows s := ⟨rfl, rfl, rfl, fun _ h => h, id⟩

theorem Follows.trans (h : s.Follows t) (hnext : t.Follows u) : s.Follows u :=
  ⟨hnext.dialect.trans h.dialect, hnext.design.trans h.design, hnext.timeUnit.trans h.timeUnit,
    fun outer houter => hnext.scope outer (h.scope outer houter),
    fun hmade => hnext.made (h.made hmade)⟩

instance : IsPreorder Renderer Follows where
  refl := Follows.refl
  trans _ _ _ := Follows.trans

instance : IsPreorder Renderer KeepsSignals where
  refl s := ⟨.refl s, rfl⟩
  trans _ _ _ h hnext :=
    ⟨h.toFollows.trans hnext.toFollows, hnext.signalNames.trans h.signalNames⟩

instance : IsPreorder Renderer Enters where
  refl s := ⟨refl_of KeepsSignals s, rfl⟩
  trans _ _ _ h hnext :=
    ⟨trans_of KeepsSignals h.toKeepsSignals hnext.toKeepsSignals,
      hnext.typeNames.trans h.typeNames⟩

theorem enters_checkedName (owner : Owner) (candidate : String) (s : Renderer) :
    s.Enters (s.checkedName owner candidate).2 :=
  ⟨⟨⟨rfl, rfl, rfl, fun _ h => h.checkedName owner candidate,
    fun h => (h.checkedName owner candidate).2⟩, rfl⟩, rfl⟩

theorem keepsSignals_nameType (id : TypeId) (candidate : String) (s : Renderer) :
    s.KeepsSignals (s.nameType id candidate).2 :=
  ⟨⟨rfl, rfl, rfl, fun _ h => h.checkedName (.type id) candidate,
    fun h => (h.checkedName (.type id) candidate).2⟩, rfl⟩

theorem follows_nameSignal (id : SignalId) (candidate : String) (s : Renderer) :
    s.Follows (s.nameSignal id candidate).2 :=
  ⟨rfl, rfl, rfl, fun _ h => h.checkedName (.signal id) candidate,
    fun h => (h.checkedName (.signal id) candidate).2⟩

theorem enters_namePorts (ports : List Port) : (namePorts ports).Keeps Enters := by
  induction ports with
  | nil => exact keeps_pure _
  | cons port rest ih =>
      refine .ask fun candidate => .give (enters_checkedName _ candidate) fun name => ?_
      exact .ask fun type => ih.bind fun pieces => keeps_pure _

theorem keepsSignals_declareType (id : TypeId) : (declareType id).Keeps KeepsSignals := by
  refine .look fun declared => ?_
  split
  · exact keeps_pure _
  · refine .ask fun type => ?_
    cases type with
    | enumeration name labels =>
        exact .give (keepsSignals_nameType id _) fun name => keeps_pure _
    | array name element size =>
        refine .give (keepsSignals_nameType id _) fun name => ?_
        exact .ask fun text => keeps_pure _
    | bits | boolean | integer | text => exact .ask fun text => keeps_throw _

section Preorder

variable {R : Renderer → Renderer → Prop} [IsPreorder Renderer R]

theorem keeps_declareWithin (htypes : ∀ id, (declareType id).Keeps R) (depth : Nat)
    (id : TypeId) : (declareWithin depth id).Keeps R := by
  induction depth generalizing id with
  | zero => exact keeps_throw _
  | succ depth ih =>
      refine .ask fun type => ?_
      cases type with
      | enumeration => exact (htypes id).bind fun declaration => keeps_pure _
      | array name element size =>
          refine (ih element).bind fun before => ?_
          exact (htypes id).bind fun declaration => keeps_pure _
      | bits | boolean | integer | text => exact keeps_pure _

theorem keeps_declareAll (htypes : ∀ id, (declareType id).Keeps R) (id : TypeId) :
    (declareAll id).Keeps R := .look fun depth => keeps_declareWithin htypes depth id

theorem keeps_nameSignals (htypes : ∀ id, (declareType id).Keeps R)
    (hsignals : ∀ id candidate s, R s (s.nameSignal id candidate).2)
    (shown : List (String × Signal)) : (nameSignals shown).Keeps R := by
  induction shown with
  | nil => exact keeps_pure _
  | cons entry rest ih =>
      refine (keeps_declareAll htypes entry.2.type).bind fun types => ?_
      exact .give (hsignals _ _) fun name => ih.bind fun more => keeps_pure _

end Preorder

theorem keepsSignals_declareWithin (depth : Nat) (id : TypeId) :
    (declareWithin depth id).Keeps KeepsSignals :=
  keeps_declareWithin keepsSignals_declareType depth id

theorem keepsSignals_declareAll (id : TypeId) : (declareAll id).Keeps KeepsSignals :=
  keeps_declareAll keepsSignals_declareType id

theorem follows_nameSignals (shown : List (String × Signal)) : (nameSignals shown).Keeps Follows :=
  keeps_nameSignals (fun id => (keepsSignals_declareType id).imp fun _ _ h => h.toFollows)
    follows_nameSignal shown

-- The newest names come first.
theorem signalNames_of_nameSignals {shown : List (String × Signal)} {texts : List String}
    (hok : (nameSignals shown).outcome s = .ok (texts, t)) :
    ∃ names, t.signalNames = names ++ s.signalNames ∧
      names.map (·.1) = (shown.map fun entry => entry.2.id).reverse := by
  induction shown generalizing s texts with
  | nil =>
      obtain ⟨-, rfl⟩ := Prod.mk.inj (Except.ok.inj hok)
      exact ⟨[], rfl, rfl⟩
  | cons entry rest ih =>
      obtain ⟨name, signal⟩ := entry
      simp only [outcome_nameSignals_cons, bind_eq_ok] at hok
      obtain ⟨⟨types, middle⟩, htypes, ⟨more, _⟩, hmore, hok⟩ := hok
      obtain ⟨-, rfl⟩ := Prod.mk.inj (Except.ok.inj hok)
      have hsame := ((keepsSignals_declareAll signal.type).of_outcome htypes).signalNames
      obtain ⟨names, hnames, hids⟩ := ih hmore
      have hfirst : (middle.nameSignal signal.id name).2.signalNames =
        (signal.id, (middle.nameSignal signal.id name).1) :: middle.signalNames := rfl
      refine ⟨names ++ [(signal.id, (middle.nameSignal signal.id name).1)], ?_, ?_⟩
      · rw [hnames, hfirst, hsame, List.append_assoc, List.singleton_append]
      · simp only [List.map_append, hids, List.map_cons, List.map_nil, List.reverse_cons]

theorem exists_name_of_nameSignals {shown : List (String × Signal)} {texts : List String}
    (hok : (nameSignals shown).outcome s = .ok (texts, t)) {entry : String × Signal}
    (hentry : entry ∈ shown) :
    ∃ name, t.signalNames.lookup entry.2.id = some name := by
  obtain ⟨names, hnames, hids⟩ := signalNames_of_nameSignals hok
  rw [← Option.ne_none_iff_exists', ne_eq, List.lookup_eq_none_iff, hnames]
  intro hnone
  have hid : entry.2.id ∈ names.map (·.1) := by
    rw [hids, List.mem_reverse]
    exact List.mem_map_of_mem hentry
  obtain ⟨named, hmem, hsame⟩ := List.mem_map.mp hid
  exact bne_iff_ne.mp (hnone named (List.mem_append_left _ hmem)) hsame.symm

theorem enters_process (layout : Layout) (id : ProcessId) : (process layout id).Keeps Enters :=
  .ask fun _ => .ask fun candidate =>
    .give (enters_checkedName _ candidate) fun _ => keeps_ask _

theorem enters_processes (layout : Layout) (sorted : List Process) :
    (processes layout sorted).Keeps Enters := by
  induction sorted with
  | nil => exact keeps_pure _
  | cons first rest ih =>
      exact (enters_process layout first.id).bind fun text => ih.bind fun texts => keeps_pure _

theorem enters_components (position : Nat) (sorted : List (String × Component)) :
    (components position sorted).Keeps Enters := by
  induction sorted generalizing position with
  | nil => exact keeps_pure _
  | cons first rest ih =>
      refine .give (enters_checkedName _ first.1) fun name => .ask fun portMap => ?_
      exact .ask fun entity => (ih _).bind fun pieces => keeps_pure _

theorem enters_writeUnit (layout : Layout) (ports : List (PortId × PortPiece))
    (types : List String) : (writeUnit layout ports types).Keeps Enters := by
  refine .ask fun preamble => .ask fun sorted => ?_
  refine (enters_processes layout sorted).bind fun texts => .ask fun components => ?_
  exact (enters_components 0 components).bind fun pieces =>
    .ask fun entity => .ask fun architecture => keeps_pure _

section Preorder

variable {R : Renderer → Renderer → Prop} [IsPreorder Renderer R]

-- Only types and signals get names that the renderer keeps.
theorem keeps_nameAll (henters : ∀ s t, s.Enters t → R s t)
    (hsignals : ∀ shown, (nameSignals shown).Keeps R) : nameAll.Keeps R := by
  refine .look fun ports => ((enters_namePorts ports).imp henters).bind fun entries => ?_
  exact .ask fun shown => (hsignals shown).bind fun types => keeps_pure _

theorem keeps_body (henters : ∀ s t, s.Enters t → R s t)
    (hsignals : ∀ shown, (nameSignals shown).Keeps R) (layout : Layout) : (body layout).Keeps R :=
  (keeps_nameAll henters hsignals).bind fun named =>
    (enters_writeUnit layout named.1 named.2).imp henters

end Preorder

theorem follows_nameAll : nameAll.Keeps Follows :=
  keeps_nameAll (fun _ _ h => h.toFollows) follows_nameSignals

-- All ports and all shown signals have their names then.
theorem shown_of_nameAll {entries : List (PortId × PortPiece)} {types : List String}
    (hok : nameAll.outcome s = .ok ((entries, types), t)) :
    entries.map (·.1) = s.design.arch.entity.ports.toList.map Port.id ∧
      ∃ shown, t.shownSignals = .ok shown ∧
        ∀ entry ∈ shown, ∃ name, t.signalNames.lookup entry.2.id = some name := by
  obtain ⟨middle, shown, hports, hshown, hsignals⟩ := nameAll_eq_ok.mp hok
  refine ⟨filed_of_namePorts hports, shown, ?_, fun _ => exists_name_of_nameSignals hsignals⟩
  rw [shownSignals_congr ((follows_nameSignals shown).of_outcome hsignals).design]
  exact hshown

theorem follows_body (layout : Layout) : (body layout).Keeps Follows :=
  keeps_body (fun _ _ h => h.toFollows) follows_nameSignals layout

theorem body_of_nameAll {entries : List (PortId × PortPiece)} {types : List String}
    (hnames : nameAll.outcome s = .ok ((entries, types), t)) (layout : Layout) :
    body layout s = writeUnit layout entries types t := by
  rw [body_eq, outcome_eq_ok.mp hnames]

-- The renderer with a level of its own for the names of a unit.
def opened (r : Renderer) : Renderer := { r with scope := r.scope.push }

theorem architecture_eq (r : Renderer) (layout : Layout) :
    r.architecture layout = ((body layout r.opened).1,
      { (body layout r.opened).2 with scope := (body layout r.opened).2.scope.pop }) := rfl

-- Whatever names were given, the scope is as before.
theorem scope_architecture (r : Renderer) (layout : Layout) :
    (r.architecture layout).2.scope = r.scope :=
  ((follows_body layout r.opened).scope r.scope r.scope.over_push).pop

-- Wherever the writing of a unit stops, names were given on the level opened for it alone, and
-- without that level the scope is the one from before.
theorem scope_given_back (r : Renderer) (layout : Layout) :
    ∃ stopped : Renderer, body layout r.opened = ((r.architecture layout).1, stopped) ∧
      stopped.scope.nested ≠ [] ∧ stopped.scope.pop = r.scope ∧
      (r.architecture layout).2 = { stopped with scope := r.scope } := by
  have hover := (follows_body layout r.opened).scope r.scope r.scope.over_push
  refine ⟨(body layout r.opened).2, rfl, hover.nested, hover.pop, ?_⟩
  rw [architecture_eq, hover.pop]

-- A signal that nothing uses stops the writing after its name was entered.
example :
    let empty : Design := ⟨.empty, .empty, .ofEntity ⟨0⟩ (.ofName ⟨0⟩)⟩
    let design := (empty.addWire "lonely" 8).2
    let r : Renderer := .ofDesign .vhdl design "ns" (Dialect.vhdl.baseScope [])
    let stop := body (fun _ => "") r.opened
    stop.1 = .error (.unsupported (.unusedSignal "lonely")) ∧
      stop.2.scope.isUsed "lonely" = true ∧ r.scope.isUsed "lonely" = false := by
  decide +kernel

theorem kept_of_architecture {outcome : Except RenderError String}
    (h : s.architecture layout = (outcome, t)) :
    t.dialect = s.dialect ∧ t.design = s.design ∧ t.timeUnit = s.timeUnit := by
  have hbody := follows_body layout s.opened
  rw [architecture_eq] at h
  obtain ⟨-, rfl⟩ := Prod.mk.inj h
  exact ⟨hbody.dialect, hbody.design, hbody.timeUnit⟩

-- The renderer keeps the names under which signals were declared.
theorem architecture_eq_ok {text : String} (hok : s.architecture layout = (.ok text, t)) :
    ∃ (entries : List (PortId × PortPiece)) (types : List String) (named : Renderer)
      (preamble : Preamble) (piece : UnitPiece),
      nameAll.outcome s.opened = .ok ((entries, types), named) ∧
      named.preamble entries types = .ok preamble ∧ t.signalNames = named.signalNames ∧
      text = layout (.unit piece) ∧ piece.types = preamble.types ∧
      piece.signals = preamble.signals := by
  rw [architecture_eq] at hok
  obtain ⟨htext, rfl⟩ := Prod.mk.inj hok
  obtain ⟨entries, types, _, named, _, preamble, _, piece, hnames, hpreamble, -, -, hpiece, -,
    htypes, hsignals, -⟩ := body_eq_ok (Prod.ext htext rfl)
  refine ⟨entries, types, named, preamble, piece, hnames, hpreamble, ?_, hpiece, htypes, hsignals⟩
  rw [body_of_nameAll hnames]
  exact (enters_writeUnit layout entries types named).signalNames

end Renderer

end Rtl
