import Rtl.Proofs.Rendering.SameNames
import Rtl.Proofs.Rendering.Stopping

namespace Rtl

-- No shown signal is of a type that a unit has to declare.
def Design.Undeclaring (design : Design) : Prop :=
  ∀ signal ∈ shownSignals design.arch, ∀ type, design.types.get? signal.type = some type →
    type.needsDeclaration = false

namespace Renderer

open Pass

variable {s t u v : Renderer} {older names : List (SignalId × String)}

-- The renderer with some more names that signals had before its own.
def recalling (older : List (SignalId × String)) (r : Renderer) : Renderer :=
  r.withSignalNames (r.signalNames ++ older)

def Recalls (older : List (SignalId × String)) (r s : Renderer) : Prop := s = r.recalling older

-- Older names change nothing of what is named and declared now.

theorem relates_namePorts (ports : List Port) :
    Relates (Recalls older) Eq (namePorts ports) (namePorts ports) := by
  induction ports with
  | nil => exact relates_pure rfl
  | cons port rest ih =>
      refine .same (fun _ _ h => h ▸ rfl) fun candidate _ => ?_
      refine .give (fun _ _ h => h ▸ ⟨rfl, rfl⟩) fun name => ?_
      refine .same (fun _ _ h => h ▸ rfl) fun type _ => ?_
      exact ih.bind fun pieces _ hsame => relates_pure (congrArg _ hsame)

theorem relates_declareType (id : TypeId) :
    Relates (Recalls older) Eq (declareType id) (declareType id) := by
  refine .look (fun _ _ h => h ▸ rfl) fun declared => ?_
  split
  · exact relates_pure rfl
  · refine .same (fun _ _ h => h ▸ rfl) fun type _ => ?_
    cases type with
    | enumeration => exact .give (fun _ _ h => h ▸ ⟨rfl, rfl⟩) fun name => relates_pure rfl
    | array =>
        refine .give (fun _ _ h => h ▸ ⟨rfl, rfl⟩) fun name => ?_
        exact .same (fun _ _ h => h ▸ rfl) fun element _ => relates_pure rfl
    | bits | boolean | integer | text =>
        exact .same (fun _ _ h => h ▸ rfl) fun text _ => relates_throw _

theorem relates_declareWithin (depth : Nat) (id : TypeId) :
    Relates (Recalls older) Eq (declareWithin depth id) (declareWithin depth id) := by
  induction depth generalizing id with
  | zero => exact relates_throw _
  | succ depth ih =>
      refine .same (fun _ _ h => h ▸ rfl) fun type _ => ?_
      cases type with
      | enumeration =>
          exact (relates_declareType id).bind fun declaration _ hsame =>
            relates_pure (congrArg Option.toList hsame)
      | array name element size =>
          refine (ih element).bind fun before _ hbefore => ?_
          exact (relates_declareType id).bind fun declaration _ hsame =>
            relates_pure (congrArg₂ (fun front last => front ++ last.toList) hbefore hsame)
      | bits | boolean | integer | text => exact relates_pure rfl

theorem relates_nameSignals (shown : List (String × Signal)) :
    Relates (Recalls older) Eq (nameSignals shown) (nameSignals shown) := by
  induction shown with
  | nil => exact relates_pure rfl
  | cons entry rest ih =>
      have htypes : Relates (Recalls older) Eq (declareAll entry.2.type)
          (declareAll entry.2.type) :=
        .look (fun _ _ h => h ▸ rfl) fun depth => relates_declareWithin depth _
      refine htypes.bind fun types _ hfirst => ?_
      refine .give (fun _ _ h => h ▸ ⟨rfl, rfl⟩) fun _ => ?_
      exact ih.bind fun more _ hrest => relates_pure (congrArg₂ (· ++ ·) hfirst hrest)

theorem relates_nameAll : Relates (Recalls older) Eq nameAll nameAll := by
  refine .look (fun _ _ h => h ▸ rfl) fun ports => ?_
  refine (relates_namePorts ports).bind fun entries _ hports => ?_
  refine .same (fun _ _ h => h ▸ rfl) fun shown _ => ?_
  exact (relates_nameSignals shown).bind fun types _ htypes =>
    relates_pure (congrArg₂ Prod.mk hports htypes)

theorem nameAll_recalling (s : Renderer) (older : List (SignalId × String)) :
    nameAll (s.recalling older) = ((nameAll s).1, (nameAll s).2.recalling older) := by
  obtain ⟨hresult, hlast⟩ := relates_nameAll s (s.recalling older) rfl
  exact Prod.ext (parallel_eq_iff.mp hresult) hlast

theorem exists_nameAll_withSignalNames {entries : List (PortId × PortPiece)} {types : List String}
    (hok : nameAll.outcome s = .ok ((entries, types), t)) :
    ∃ named : Renderer, t = named.recalling s.signalNames ∧ ∀ names,
      nameAll.outcome (s.withSignalNames names) =
        .ok ((entries, types), named.recalling names) := by
  have hnames (names : List (SignalId × String)) : nameAll (s.withSignalNames names) =
      ((nameAll (s.withSignalNames [])).1, (nameAll (s.withSignalNames [])).2.recalling names) :=
    nameAll_recalling (s.withSignalNames []) names
  have hsame := (hnames s.signalNames).symm.trans (outcome_eq_ok.mp hok)
  obtain ⟨hresult, hlast⟩ := Prod.mk.inj hsame
  refine ⟨_, hlast.symm, fun names => outcome_eq_ok.mpr ?_⟩
  rw [hnames, hresult]

-- A name that was given again hides the same older one.
theorem sameNames_recalling (s : Renderer) (older : List (SignalId × String)) :
    SameNames (s.recalling older) (s.recalling (s.signalNames ++ older)) where
  dialect := rfl
  design := rfl
  timeUnit := rfl
  scope := rfl
  typeNames := rfl
  lookup id := by
    simp only [recalling, withSignalNames, List.lookup_append, ← Option.or_assoc, Option.or_self]

theorem architecture_of_error {cause : RenderError}
    (herror : nameAll.outcome s.opened = .error cause) (layout : Layout) :
    (s.architecture layout).1 = .error cause := by
  rw [architecture_eq, body_eq]
  rw [outcome_eq_error] at herror
  rcases hnames : nameAll s.opened with ⟨result, t⟩
  rw [hnames] at herror
  rw [show result = .error cause from herror]

theorem architecture_of_nameAll {entries : List (PortId × PortPiece)} {types : List String}
    (hok : nameAll.outcome s.opened = .ok ((entries, types), t)) (layout : Layout) :
    s.architecture layout = ((writeUnit layout entries types t).1,
      { s with typeNames := t.typeNames, signalNames := t.signalNames }) := by
  have hscope := scope_architecture s layout
  have hnamed := follows_nameAll.of_outcome hok
  have hunit := enters_writeUnit layout entries types t
  rw [architecture_eq, body_of_nameAll hok] at hscope ⊢
  refine Prod.ext rfl ?_
  rw [Renderer.mk.injEq]
  exact ⟨hunit.dialect.trans hnamed.dialect, hunit.design.trans hnamed.design,
    hunit.timeUnit.trans hnamed.timeUnit, hscope, hunit.typeNames, hunit.signalNames⟩

-- All types that the unit needs were declared before.
def Settled (s : Renderer) : Prop :=
  ∀ entries types t, nameAll.outcome s.opened = .ok ((entries, types), t) →
    types = [] ∧ t.typeNames = s.typeNames

theorem design_architecture (s : Renderer) (layout : Layout) :
    (s.architecture layout).2.design = s.design :=
  (kept_of_architecture (Prod.ext rfl rfl)).2.1

theorem Settled.architecture_again (h : s.Settled) (layout : Layout) :
    ((s.architecture layout).2.architecture layout).1 = (s.architecture layout).1 := by
  cases hnames : nameAll.outcome s.opened with
  | error cause =>
      have hagain : nameAll.outcome (s.architecture layout).2.opened = .error cause :=
        nameAll_error_again (s := s.opened) (design_architecture s layout) hnames
      rw [architecture_of_error hnames, architecture_of_error hagain]
  | ok result =>
      obtain ⟨⟨entries, types⟩, t⟩ := result
      obtain ⟨named, rfl, hnamed⟩ := exists_nameAll_withSignalNames hnames
      have hlast : (s.architecture layout).2 =
          s.withSignalNames (named.signalNames ++ s.signalNames) := by
        rw [architecture_of_nameAll hnames, (h _ _ _ hnames).2]
        rfl
      have hagain : nameAll.outcome
          (s.withSignalNames (named.signalNames ++ s.signalNames)).opened =
          .ok ((entries, types), named.recalling (named.signalNames ++ s.signalNames)) := hnamed _
      rw [hlast, architecture_of_nameAll hnames, architecture_of_nameAll hagain]
      have hsame := SameNames.writeUnit layout entries types _ _
        (sameNames_recalling named s.signalNames)
      exact parallel_eq_iff.mp hsame.1

-- Whatever is declared of a type, it is declared only once.

theorem isDeclared_of_declareType {id : TypeId} {declaration : Option String}
    (hok : (declareType id).outcome s = .ok (declaration, t)) :
    t.isDeclared id = true ∧ ∀ other, s.isDeclared other = true → t.isDeclared other = true := by
  simp only [outcome_declareType] at hok
  split at hok
  · rename_i hdeclared
    obtain ⟨-, rfl⟩ := Prod.mk.inj (Except.ok.inj hok)
    exact ⟨hdeclared, fun _ hother => hother⟩
  obtain ⟨type, -, hok⟩ := bind_eq_ok.mp hok
  split at hok
  · obtain ⟨-, rfl⟩ := Prod.mk.inj (Except.ok.inj hok)
    simp +contextual [isDeclared_nameType]
  · obtain ⟨_, -, hok⟩ := bind_eq_ok.mp hok
    obtain ⟨-, rfl⟩ := Prod.mk.inj (Except.ok.inj hok)
    simp +contextual [isDeclared_nameType]
  · obtain ⟨_, -, hok⟩ := bind_eq_ok.mp hok
    cases hok

theorem declareType_of_isDeclared {id : TypeId} (h : s.isDeclared id = true) :
    (declareType id).outcome s = .ok (none, s) := (outcome_declareType s id).trans (if_pos h)

theorem declareWithin_again {depth : Nat} {id : TypeId} {texts : List String}
    (hok : (declareWithin depth id).outcome s = .ok (texts, t)) (hdesign : u.design = s.design)
    (hdeclared : ∀ other, t.isDeclared other = true → u.isDeclared other = true) :
    (declareWithin depth id).outcome u = .ok ([], u) := by
  induction depth generalizing id s t texts with
  | zero => cases hok
  | succ depth ih =>
      rw [outcome_declareWithin_succ] at hok
      obtain ⟨type, htype, hok⟩ := bind_eq_ok.mp hok
      have hsame : u.type id = .ok type := by rw [← htype, Renderer.type, Renderer.type, hdesign]
      rw [outcome_declareWithin_succ, hsame]
      cases type with
      | enumeration name labels =>
          obtain ⟨⟨declaration, _⟩, hlast, hok⟩ := bind_eq_ok.mp hok
          obtain ⟨-, rfl⟩ := Prod.mk.inj (Except.ok.inj hok)
          have hid := hdeclared id (isDeclared_of_declareType hlast).1
          simp only [bind, Except.bind, declareType_of_isDeclared hid]
          rfl
      | array name element size =>
          obtain ⟨⟨before, middle⟩, hbefore, hok⟩ := bind_eq_ok.mp hok
          obtain ⟨⟨declaration, _⟩, hlast, hok⟩ := bind_eq_ok.mp hok
          obtain ⟨-, rfl⟩ := Prod.mk.inj (Except.ok.inj hok)
          obtain ⟨hid, hkept⟩ := isDeclared_of_declareType hlast
          have helement := ih hbefore hdesign fun other hother =>
            hdeclared other (hkept other hother)
          simp only [bind, Except.bind, helement, declareType_of_isDeclared (hdeclared id hid)]
          rfl
      | bits | boolean | integer | text => rfl

-- A mention of the type writes no declarations.
def Idle (s : Renderer) (id : TypeId) : Prop :=
  ∀ (u : Renderer) (texts : List String) (t : Renderer), u.design = s.design →
    u.typeNames = s.typeNames → (declareAll id).outcome u = .ok (texts, t) → texts = [] ∧ t = u

theorem nameSignals_of_idle {shown : List (String × Signal)} {texts : List String}
    (hidle : ∀ entry ∈ shown, s.Idle entry.2.type)
    (hok : (nameSignals shown).outcome s = .ok (texts, t)) :
    texts = [] ∧ t.typeNames = s.typeNames := by
  induction shown generalizing s texts with
  | nil =>
      obtain ⟨rfl, rfl⟩ := Prod.mk.inj (Except.ok.inj hok)
      exact ⟨rfl, rfl⟩
  | cons entry rest ih =>
      obtain ⟨name, signal⟩ := entry
      simp only [outcome_nameSignals_cons, bind_eq_ok] at hok
      obtain ⟨⟨types, middle⟩, htypes, ⟨more, _⟩, hmore, hok⟩ := hok
      obtain ⟨rfl, rfl⟩ := Prod.mk.inj (Except.ok.inj hok)
      obtain ⟨hfirst, hrest⟩ := List.forall_mem_cons.mp hidle
      obtain ⟨rfl, rfl⟩ := hfirst s types middle rfl rfl htypes
      exact ih (s := (middle.nameSignal signal.id name).2) hrest hmore

theorem settled_of_idle
    (hidle : ∀ shown, s.shownSignals = .ok shown → ∀ entry ∈ shown, s.Idle entry.2.type) :
    s.Settled := by
  intro entries types t hok
  obtain ⟨middle, shown, hports, hshown, hsignals⟩ := nameAll_eq_ok.mp hok
  have hmiddle := (enters_namePorts _).of_outcome hports
  have hdesign : middle.design = s.design := hmiddle.design
  have htypes : middle.typeNames = s.typeNames := hmiddle.typeNames
  rw [shownSignals_congr hdesign] at hshown
  obtain ⟨hnone, hsame⟩ := nameSignals_of_idle (fun entry hentry u texts t hu hnames =>
    hidle shown hshown entry hentry u texts t (hu.trans hdesign) (hnames.trans htypes)) hsignals
  exact ⟨hnone, hsame.trans htypes⟩

theorem idle_of_nameSignals {shown : List (String × Signal)} {texts : List String}
    (hok : (nameSignals shown).outcome s = .ok (texts, t)) :
    ∀ entry ∈ shown, t.Idle entry.2.type := by
  induction shown generalizing s texts with
  | nil => exact nofun
  | cons entry rest ih =>
      obtain ⟨name, signal⟩ := entry
      simp only [outcome_nameSignals_cons, bind_eq_ok] at hok
      obtain ⟨⟨types, middle⟩, htypes, ⟨more, last⟩, hmore, hok⟩ := hok
      obtain ⟨rfl, rfl⟩ := Prod.mk.inj (Except.ok.inj hok)
      refine List.forall_mem_cons.mpr ⟨fun u texts v hdesign hnames hagain => ?_, ih hmore⟩
      obtain ⟨-, _, hdeclares⟩ := nameSignals_declares
        (s := (middle.nameSignal signal.id name).2) rfl rfl hmore
      have hmiddle := ((keepsSignals_declareAll signal.type).of_outcome htypes).design
      have hsame : u.design = s.design := (hdesign.trans hdeclares.design).trans hmiddle
      have hnothing : (declareAll signal.type).outcome u = .ok ([], u) := by
        rw [outcome_declareAll, hsame]
        refine declareWithin_again htypes hsame fun other hother => ?_
        rw [isDeclared, hnames]
        exact hdeclares.isDeclared hother
      obtain ⟨rfl, rfl⟩ := Prod.mk.inj (Except.ok.inj (hnothing.symm.trans hagain))
      exact ⟨rfl, rfl⟩

-- The first unit declares what all later ones need.
theorem settled_architecture (s : Renderer) (layout : Layout) :
    (s.architecture layout).2.Settled := by
  cases hnames : nameAll.outcome s.opened with
  | error cause =>
      intro entries types t hok
      have hagain := nameAll_error_again (s := s.opened) (t := (s.architecture layout).2.opened)
        (design_architecture s layout) hnames
      cases hagain.symm.trans hok
  | ok result =>
      obtain ⟨⟨entries, types⟩, last⟩ := result
      rw [architecture_of_nameAll hnames]
      obtain ⟨middle, shown, hports, hshown, hsignals⟩ := nameAll_eq_ok.mp hnames
      have hmiddle : middle.design = s.design :=
        ((enters_namePorts _).of_outcome hports).design
      have hlast : last.design = s.design :=
        ((follows_nameSignals shown).of_outcome hsignals).design.trans hmiddle
      refine settled_of_idle fun found hfound entry hentry u texts v hu hnamed => ?_
      have hsame : found = shown :=
        Except.ok.inj (hfound.symm.trans ((shownSignals_congr hmiddle).symm.trans hshown))
      exact idle_of_nameSignals hsignals entry (hsame ▸ hentry) u texts v (hu.trans hlast.symm)
        hnamed

theorem idle_of_plain {id : TypeId}
    (hplain : ∀ type, s.design.types.get? id = some type → type.needsDeclaration = false) :
    s.Idle id := by
  intro u texts t hdesign _ hok
  rw [outcome_declareAll] at hok
  cases hdepth : u.design.types.size with
  | zero =>
      rw [hdepth] at hok
      cases hok
  | succ depth =>
      rw [hdepth, outcome_declareWithin_succ] at hok
      obtain ⟨type, htype, hok⟩ := bind_eq_ok.mp hok
      rw [type_eq_ok, hdesign] at htype
      have hnone := hplain type htype
      cases type with
      | enumeration | array => cases hnone
      | bits | boolean | integer | text =>
          obtain ⟨rfl, rfl⟩ := Prod.mk.inj (Except.ok.inj hok)
          exact ⟨rfl, rfl⟩

theorem settled_of_undeclaring (h : s.design.Undeclaring) : s.Settled :=
  settled_of_idle fun _ hshown entry hentry => idle_of_plain fun type htype =>
    h entry.2 ((perm_of_shownSignals hshown).mem_iff.mp (List.mem_map_of_mem hentry)) type htype

theorem types_of_preamble {entries : List (PortId × PortPiece)} {types : List String}
    {preamble : Preamble} (hok : s.preamble entries types = .ok preamble) :
    preamble.types = types := by
  simp only [Renderer.preamble, bind_eq_ok] at hok
  obtain ⟨shown, -, signals, -, connections, -, hok⟩ := hok
  exact congrArg Preamble.types (Except.ok.inj hok).symm

theorem exists_unit_of_architecture {layout : Layout} {text : String}
    (hok : (s.architecture layout).1 = .ok text) :
    ∃ entries types named piece, nameAll.outcome s.opened = .ok ((entries, types), named) ∧
      text = layout (.unit piece) ∧ piece.types = types := by
  obtain ⟨entries, types, named, preamble, piece, hnames, hpreamble, -, htext, htypes, -⟩ :=
    architecture_eq_ok (Prod.ext hok rfl)
  exact ⟨entries, types, named, piece, hnames, htext, htypes.trans (types_of_preamble hpreamble)⟩

-- Where nothing was declared before, no declarations are left out.
theorem undeclaring_of_nameAll {entries : List (PortId × PortPiece)} (hnone : s.typeNames = [])
    (hok : nameAll.outcome s = .ok ((entries, []), t)) : s.design.Undeclaring := by
  obtain ⟨middle, shown, hports, hshown, hsignals⟩ := nameAll_eq_ok.mp hok
  have hmiddle := (enters_namePorts _).of_outcome hports
  obtain ⟨hmentions, entries, hdeclares⟩ := nameSignals_declares (r := middle) rfl rfl hsignals
  have hentries : entries = [] :=
    List.forall₂_nil_right_iff.mp (hdeclares.written _ (List.Subset.refl _))
  have hempty : t.typeNames = [] := by
    rw [hdeclares.typeNames, hentries, hmiddle.typeNames, hnone]
    rfl
  intro signal hsignal type htype
  rw [← hmiddle.design] at hsignal htype
  obtain ⟨entry, hentry, rfl⟩ :=
    List.mem_map.mp ((perm_of_shownSignals hshown).mem_iff.mpr hsignal)
  refine Bool.eq_false_of_not_eq_true fun hneeds => ?_
  have hdeclared := hmentions entry hentry type (hdeclares.design ▸ htype) hneeds
  rw [isDeclared, hempty] at hdeclared
  cases hdeclared

-- What one renderer writes if it writes the architecture again and again.
def again (r : Renderer) (layout : Layout) : Nat → Except RenderError String × Renderer
  | 0 => r.architecture layout
  | number + 1 => (r.again layout number).2.architecture layout

theorem scope_again (r : Renderer) (layout : Layout) (number : Nat) :
    (r.again layout number).2.scope = r.scope := by
  induction number with
  | zero => exact scope_architecture r layout
  | succ number ih => exact (scope_architecture _ layout).trans ih

theorem settled_again (r : Renderer) (layout : Layout) (number : Nat) :
    (r.again layout number).2.Settled := by
  cases number with
  | zero => exact settled_architecture r layout
  | succ number => exact settled_architecture _ layout

theorem again_succ (r : Renderer) (layout : Layout) (number : Nat) :
    (r.again layout (number + 1)).1 = (r.again layout 1).1 := by
  induction number with
  | zero => rfl
  | succ number ih => exact ((settled_again r layout number).architecture_again layout).trans ih

end Renderer

open Renderer

-- From the second unit on all units are the same, and none declares types. The
-- first one is the same too if it has no types to declare.
theorem architecture_written_again (dialect : Dialect) (design : Design) (timeUnit : String)
    (scope : Scope) (layout : Layout) (number : Nat) :
    let units := (ofDesign dialect design timeUnit scope).again layout
    (units number).2.scope = scope ∧ (units (number + 1)).1 = (units 1).1 ∧
      (design.Undeclaring → (units number).1 = (units 0).1) ∧
      ∀ text later, (units 0).1 = .ok text → (units (number + 1)).1 = .ok later →
        ∃ piece next, text = layout (.unit piece) ∧ later = layout (.unit next) ∧
          next.types = [] ∧ (piece.types = [] ↔ design.Undeclaring) := by
  intro units
  have hsettled : design.Undeclaring → (ofDesign dialect design timeUnit scope).Settled :=
    fun hnone => settled_of_undeclaring hnone
  refine ⟨scope_again .., again_succ .., fun hnone => ?_, fun text later htext hlater => ?_⟩
  · have hfirst : (units 1).1 = (units 0).1 := (hsettled hnone).architecture_again layout
    cases number with
    | zero => rfl
    | succ number => exact (again_succ _ layout number).trans hfirst
  · obtain ⟨_, _, _, piece, hnames, hpiece, htypes⟩ := exists_unit_of_architecture htext
    obtain ⟨_, _, _, next, hagain, hnext, hlast⟩ := exists_unit_of_architecture hlater
    have hlater := settled_again (ofDesign dialect design timeUnit scope) layout number
    refine ⟨piece, next, hpiece, hnext, hlast.trans (hlater _ _ _ hagain).1, ?_⟩
    rw [htypes]
    constructor
    · rintro rfl
      exact undeclaring_of_nameAll (s := (ofDesign dialect design timeUnit scope).opened) rfl hnames
    · intro hnone
      exact (hsettled hnone _ _ _ hnames).1

-- A type is declared in the first unit alone.

def machineEntity : Entity := ((Entity.ofName ⟨0⟩).addPort ⟨1⟩ .input ⟨0⟩).2

def machineSignals : Architecture :=
  ((Architecture.ofEntity ⟨2⟩ machineEntity).addSignal ⟨3⟩ ⟨0⟩ none).2

def machineDesign : Design :=
  ⟨⟨#["top", "go", "rtl", "now"]⟩, ⟨⟨#[.enumeration (some "state") ["idle", "busy"]]⟩⟩,
    machineSignals.bindPort ⟨0⟩ ⟨0⟩⟩

def machineUnits : Nat → Except RenderError String × Renderer :=
  (ofDesign .vhdl machineDesign "ns" (Dialect.vhdl.baseScope [])).again (Dialect.vhdl.layout "    ")

def machineText : String :=
  Layout.joinLines
    ["ENTITY top IS",
     "    PORT (",
     "        go : IN enumT_0",
     "    );",
     "END ENTITY top;",
     "",
     "ARCHITECTURE rtl OF top IS",
     "    TYPE STATE IS (idle, busy);",
     "    SIGNAL now : STATE;",
     "BEGIN",
     "    now <= go;",
     "END ARCHITECTURE rtl;"]

def machineTextAgain : String :=
  Layout.joinLines
    ["ENTITY top IS",
     "    PORT (",
     "        go : IN STATE",
     "    );",
     "END ENTITY top;",
     "",
     "ARCHITECTURE rtl OF top IS",
     "    SIGNAL now : STATE;",
     "BEGIN",
     "    now <= go;",
     "END ARCHITECTURE rtl;"]

theorem machineUnits_zero : (machineUnits 0).1 = .ok machineText := by decide +kernel

theorem machineUnits_one : (machineUnits 1).1 = .ok machineTextAgain := by decide +kernel

theorem machineUnits_written_again :
    ∃ piece next, machineText = Dialect.vhdl.layout "    " (.unit piece) ∧
      machineTextAgain = Dialect.vhdl.layout "    " (.unit next) ∧ next.types = [] ∧
      (piece.types = [] ↔ machineDesign.Undeclaring) :=
  (architecture_written_again .vhdl machineDesign "ns" (Dialect.vhdl.baseScope [])
    (Dialect.vhdl.layout "    ") 0).2.2.2 machineText machineTextAgain machineUnits_zero
    machineUnits_one

theorem machineUnits_one_ne_zero : (machineUnits 1).1 ≠ (machineUnits 0).1 := by
  rw [machineUnits_zero, machineUnits_one]
  decide

end Rtl
