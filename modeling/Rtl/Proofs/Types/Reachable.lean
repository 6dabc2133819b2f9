import Rtl.Proofs.Names.Sessions
import Rtl.Proofs.Pipeline.Rendering
import Rtl.Proofs.Rendering.Again
import Rtl.Proofs.Types.Elements

namespace Rtl

-- A type with a name of its own: an enumeration or an array.
def TypeTable.Named (table : TypeTable) (id : TypeId) : Prop :=
  ∃ type, table.get? id = some type ∧ type.needsDeclaration = true

-- The types that the shown signals of a design need to be declared.
def Design.Needs (design : Design) (id : TypeId) : Prop :=
  design.types.Named id ∧ ∃ signal ∈ shownSignals design.arch, design.types.Reaches signal.type id

-- What ports, shown signals and arrays mention is there.
structure Design.Nameable (design : Design) : Prop where
  portNames : ∀ port ∈ design.arch.entity.ports.toList,
    (design.names.text? port.name).isSome = true
  portTypes : ∀ port ∈ design.arch.entity.ports.toList,
    (design.types.get? port.type).isSome = true
  signalNames : ∀ signal ∈ shownSignals design.arch,
    (design.names.text? signal.name).isSome = true
  signalTypes : ∀ signal ∈ shownSignals design.arch,
    (design.types.get? signal.type).isSome = true
  elements : design.types.Closed

section

variable (r : Renderer)

-- Declarations one after the other. Each is of a new type, and mentions other declared types by
-- the names of the declarations before it.
inductive DeclaredInOrder : List (TypeId × String) → List String → Prop
  | nil : DeclaredInOrder [] []
  | snoc {before : List (TypeId × String)} {lines : List String} {entry : TypeId × String}
      {line : String} (hbefore : DeclaredInOrder before lines)
      (hnew : entry.1 ∉ before.map (·.1)) (hline : TypeDeclared r before entry line) :
      DeclaredInOrder (before ++ [entry]) (lines ++ [line])

-- The declarations are those of all types that are needed, under names that are told apart.
structure DeclaresNeeded (declared : List (TypeId × String)) (lines : List String) : Prop where
  ordered : DeclaredInOrder r declared lines
  needed : ∀ id, id ∈ declared.map (·.1) ↔ r.design.Needs id
  names : (declared.map fun entry => Scope.normalize r.scope.ignoreCase entry.2).Nodup

end

theorem Scope.Holds.checkedName {scope : Scope} {request : NameRequest} {name : String}
    (h : scope.Holds request name) (owner : Owner) (candidate : String) :
    (scope.checkedName owner candidate).2.Holds request name := by
  rw [Scope.checkedName]
  split
  · exact h
  · have hmem : (request, name) ∈
        (scope.enter ⟨owner, candidate⟩ (scope.freeName candidate)).entries := by
      rw [entries_enter]
      exact List.mem_cons_of_mem _ (mem_entries_iff.mpr h)
    exact mem_entries_iff.mp hmem

namespace Renderer

variable {r s t : Renderer} {reserved lines texts : List String} {id other : TypeId}

-- Each declared type has one name, which the scope has on record as given to it.
structure Records (reserved : List String) (s : Renderer) : Prop where
  once : (s.typeNames.map (·.1)).Nodup
  held : ∀ entry ∈ s.typeNames, ∃ candidate, s.scope.Holds ⟨.type entry.1, candidate⟩ entry.2
  sound : s.scope.Sound reserved

-- The types declared so far are declared by the lines written for them.
structure Lists (r : Renderer) (reserved lines : List String) (s : Renderer) : Prop
    extends Records reserved s where
  dialect : s.dialect = r.dialect
  design : s.design = r.design
  ignoreCase : s.scope.ignoreCase = r.scope.ignoreCase
  ordered : DeclaredInOrder r s.typeNames.reverse lines

theorem isDeclared_iff : s.isDeclared id = true ↔ id ∈ s.typeNames.map (·.1) := by
  constructor
  · intro h
    obtain ⟨name, hname⟩ := Option.isSome_iff_exists.mp h
    obtain ⟨front, back, hsplit, -⟩ := List.lookup_eq_some_iff.mp hname
    rw [hsplit, List.map_append]
    exact List.mem_append_right _ List.mem_cons_self
  · intro h
    by_contra hnot
    exact not_mem_of_not_isDeclared (Bool.eq_false_of_not_eq_true hnot) h

section Recorded

theorem Records.checkedName (h : s.Records reserved) (owner : Owner) (candidate : String) :
    (s.checkedName owner candidate).2.Records reserved := by
  refine ⟨h.once, fun entry hentry => ?_, h.sound.checkedName owner candidate⟩
  obtain ⟨used, hused⟩ := h.held entry hentry
  exact ⟨used, hused.checkedName owner candidate⟩

theorem Records.nameType (h : s.Records reserved) (hnew : s.isDeclared id = false)
    (candidate : String) : (s.nameType id candidate).2.Records reserved := by
  obtain ⟨-, hheld, hsound⟩ := h.checkedName (.type id) candidate
  exact ⟨List.nodup_cons.mpr ⟨not_mem_of_not_isDeclared hnew, h.once⟩,
    List.forall_mem_cons.mpr
      ⟨⟨candidate, Scope.holds_checkedName h.sound (.type id) candidate⟩, hheld⟩, hsound⟩

-- Two types never have one name.
theorem Records.names (h : s.Records reserved) :
    (s.typeNames.map fun entry => Scope.normalize s.scope.ignoreCase entry.2).Nodup := by
  refine (h.once.of_map _).map_on fun first hfirst second hsecond hkey => ?_
  obtain ⟨candidate, hname⟩ := h.held first hfirst
  obtain ⟨another, hgiven⟩ := h.held second hsecond
  have howner := congrArg NameRequest.owner (h.sound.request_eq hname hgiven hkey)
  exact List.inj_on_of_nodup_map h.once hfirst hsecond (Owner.type.inj howner)

end Recorded

theorem ignoreCase_checkedName (s : Renderer) (owner : Owner) (candidate : String) :
    (s.checkedName owner candidate).2.scope.ignoreCase = s.scope.ignoreCase :=
  s.scope.ignoreCase_step (.name owner candidate)

theorem Lists.checkedName (h : r.Lists reserved lines s) (owner : Owner) (candidate : String) :
    r.Lists reserved lines (s.checkedName owner candidate).2 :=
  ⟨h.toRecords.checkedName owner candidate, h.dialect, h.design,
    (ignoreCase_checkedName ..).trans h.ignoreCase, h.ordered⟩

theorem Lists.nameSignal (h : r.Lists reserved lines s) (signal : SignalId) (candidate : String) :
    r.Lists reserved lines (s.nameSignal signal candidate).2 := by
  obtain ⟨⟨honce, hheld, hsound⟩, hdialect, hdesign, hcase, hordered⟩ :=
    h.checkedName (.signal signal) candidate
  exact ⟨⟨honce, hheld, hsound⟩, hdialect, hdesign, hcase, hordered⟩

theorem Lists.nameType (h : r.Lists reserved lines s) {candidate line : String}
    (hnew : s.isDeclared id = false)
    (hline : TypeDeclared r s.typeNames.reverse (id, (s.nameType id candidate).1) line) :
    r.Lists reserved (lines ++ [line]) (s.nameType id candidate).2 := by
  have hnames : (s.nameType id candidate).2.typeNames =
    (id, (s.nameType id candidate).1) :: s.typeNames := rfl
  refine ⟨h.toRecords.nameType hnew candidate, h.dialect, h.design,
    (ignoreCase_checkedName s (.type id) candidate).trans h.ignoreCase, ?_⟩
  rw [hnames, List.reverse_cons]
  refine .snoc h.ordered ?_ hline
  rw [List.map_reverse, List.mem_reverse]
  exact not_mem_of_not_isDeclared hnew

theorem Lists.declareType (h : r.Lists reserved lines s)
    {declaration : Option String} (helement : ∀ name element size,
      s.design.types.get? id = some (.array name element size) → s.Mentionable element)
    (hok : (declareType id).outcome s = .ok (declaration, t)) :
    r.Lists reserved (lines ++ declaration.toList) t ∧
      ∀ other, t.isDeclared other = true ↔ other = id ∨ s.isDeclared other = true := by
  have hnamed (candidate : String) : ∀ other,
      (s.nameType id candidate).2.isDeclared other = true ↔
        other = id ∨ s.isDeclared other = true := by
    intro other
    rw [isDeclared_nameType, Bool.or_eq_true, beq_iff_eq]
  simp only [Renderer.outcome_declareType] at hok
  split at hok
  · rename_i hdeclared
    obtain ⟨rfl, rfl⟩ := Prod.mk.inj (Except.ok.inj hok)
    refine ⟨(List.append_nil lines).symm ▸ h, fun other => (or_iff_right_of_imp ?_).symm⟩
    rintro rfl
    exact hdeclared
  rename_i hdeclared
  have hnew := Bool.eq_false_of_not_eq_true hdeclared
  obtain ⟨type, htype, hok⟩ := bind_eq_ok.mp hok
  rw [type_eq_ok] at htype
  split at hok
  · rename_i name labels
    obtain ⟨rfl, rfl⟩ := Prod.mk.inj (Except.ok.inj hok)
    exact ⟨h.nameType hnew (.enumeration _ (h.design ▸ htype)), hnamed _⟩
  · rename_i name element size
    obtain ⟨mention, hmention, hok⟩ := bind_eq_ok.mp hok
    obtain ⟨rfl, rfl⟩ := Prod.mk.inj (Except.ok.inj hok)
    refine ⟨h.nameType hnew (.array _ (h.design ▸ htype) ?_), hnamed _⟩
    have hdeclares := helement name element size htype
    have hlater := typeMentioned_of_typeText (r := r)
      (s := (s.nameType id (name.getD "arrT_")).2) h.dialect h.design (List.Subset.refl _)
      (fun type hfound hneeds => (hnamed _ element).mpr (.inr (hdeclares type hfound hneeds)))
      hmention
    -- The name just given is that of the array, which the type of its elements is not: that one
    -- is declared already.
    cases hlater with
    | plain hfound hplain htext => exact .plain hfound hplain htext
    | declared hname =>
        rcases List.mem_cons.mp hname with hself | hbefore
        · obtain ⟨rfl, -⟩ := Prod.mk.inj hself
          exact absurd (hdeclares _ htype rfl) hdeclared
        · exact .declared (List.mem_reverse.mpr hbefore)
  · obtain ⟨_, -, hok⟩ := bind_eq_ok.mp hok
    cases hok

-- With a type all that it reaches is declared. The induction is on the depth.
theorem Lists.declareWithin {depth : Nat} (h : r.Lists reserved lines s)
    (hok : (declareWithin depth id).outcome s = .ok (texts, t)) :
    r.Lists reserved (lines ++ texts) t ∧ ∀ other, t.isDeclared other = true ↔
      s.isDeclared other = true ∨
        (r.design.types.Named other ∧ r.design.types.Reaches id other) := by
  induction depth generalizing id s t lines texts with
  | zero => cases hok
  | succ depth ih =>
      rw [outcome_declareWithin_succ] at hok
      obtain ⟨type, htype, hok⟩ := bind_eq_ok.mp hok
      rw [type_eq_ok] at htype
      have hfound := h.design ▸ htype
      split at hok
      · rename_i name labels
        obtain ⟨⟨declaration, _⟩, hdeclared, hok⟩ := bind_eq_ok.mp hok
        obtain ⟨rfl, rfl⟩ := Prod.mk.inj (Except.ok.inj hok)
        obtain ⟨hlast, hall⟩ := h.declareType
          (fun name element size harray => nomatch htype.symm.trans harray) hdeclared
        refine ⟨hlast, fun other => ?_⟩
        rw [hall, or_comm, TypeTable.reaches_iff_of_not_array
          fun _ ⟨_, _, harray⟩ => nomatch hfound.symm.trans harray]
        refine or_congr_right ⟨?_, And.right⟩
        rintro rfl
        exact ⟨⟨_, hfound, rfl⟩, rfl⟩
      · rename_i name element size
        obtain ⟨⟨before, middle⟩, hbefore, hok⟩ := bind_eq_ok.mp hok
        obtain ⟨⟨declaration, _⟩, hdeclared, hok⟩ := bind_eq_ok.mp hok
        obtain ⟨rfl, rfl⟩ := Prod.mk.inj (Except.ok.inj hok)
        obtain ⟨hmiddle, hreached⟩ := ih h hbefore
        obtain ⟨helement, -⟩ := declareWithin_declares h.dialect h.design hbefore
        have hsame : middle.design = s.design := hmiddle.design.trans h.design.symm
        obtain ⟨hlast, hall⟩ := hmiddle.declareType (fun _ other _ harray => by
          rw [hsame, htype] at harray
          cases harray
          exact helement) hdeclared
        refine ⟨(List.append_assoc ..) ▸ hlast, fun other => ?_⟩
        rw [hall, hreached, TypeTable.reaches_iff_of_array hfound, or_left_comm]
        refine or_congr_right ⟨?_, fun ⟨hnamed, hreaches⟩ => hreaches.imp_right (⟨hnamed, ·⟩)⟩
        rintro (rfl | ⟨hnamed, hreaches⟩)
        · exact ⟨⟨_, hfound, rfl⟩, .inl rfl⟩
        · exact ⟨hnamed, .inr hreaches⟩
      · rename_i henumeration harray
        obtain ⟨rfl, rfl⟩ := Prod.mk.inj (Except.ok.inj hok)
        refine ⟨(List.append_nil lines).symm ▸ h, fun other => (or_iff_left ?_).symm⟩
        rw [TypeTable.reaches_iff_of_not_array fun element ⟨name, size, hother⟩ =>
          harray name element size (Option.some.inj (hfound.symm.trans hother))]
        rintro ⟨⟨named, hnamed, hneeds⟩, rfl⟩
        obtain rfl := Option.some.inj (hfound.symm.trans hnamed)
        cases type with
        | enumeration name labels => exact henumeration name labels rfl
        | array name element size => exact harray name element size rfl
        | bits | boolean | integer | text => cases hneeds

theorem Lists.nameSignals {shown : List (String × Signal)} (h : r.Lists reserved lines s)
    (hok : (nameSignals shown).outcome s = .ok (texts, t)) :
    r.Lists reserved (lines ++ texts) t ∧ ∀ other, t.isDeclared other = true ↔
      s.isDeclared other = true ∨ (r.design.types.Named other ∧
        ∃ entry ∈ shown, r.design.types.Reaches entry.2.type other) := by
  induction shown generalizing s texts lines with
  | nil =>
      obtain ⟨rfl, rfl⟩ := Prod.mk.inj (Except.ok.inj hok)
      refine ⟨(List.append_nil lines).symm ▸ h, fun other => (or_iff_left ?_).symm⟩
      rintro ⟨-, entry, hentry, -⟩
      cases hentry
  | cons entry rest ih =>
      obtain ⟨name, signal⟩ := entry
      simp only [Renderer.outcome_nameSignals_cons, bind_eq_ok] at hok
      obtain ⟨⟨types, middle⟩, htypes, ⟨more, _⟩, hmore, hok⟩ := hok
      obtain ⟨rfl, rfl⟩ := Prod.mk.inj (Except.ok.inj hok)
      obtain ⟨hmiddle, hfirst⟩ := h.declareWithin htypes
      obtain ⟨hlast, hothers⟩ := ih (hmiddle.nameSignal signal.id name) hmore
      have hsame (other : TypeId) : (middle.nameSignal signal.id name).2.isDeclared other =
        middle.isDeclared other := rfl
      refine ⟨(List.append_assoc ..) ▸ hlast, fun other => ?_⟩
      rw [hothers, hsame, hfirst, or_assoc, ← and_or_left]
      simp only [List.mem_cons, exists_eq_or_imp]

theorem Lists.namePorts {ports : List Port} {entries : List (PortId × PortPiece)}
    (h : r.Lists reserved lines s) (hok : (namePorts ports).outcome s = .ok (entries, t)) :
    r.Lists reserved lines t := by
  induction ports generalizing s entries with
  | nil =>
      obtain ⟨-, rfl⟩ := Prod.mk.inj (Except.ok.inj hok)
      exact h
  | cons port rest ih =>
      simp only [Renderer.outcome_namePorts_cons, bind_eq_ok] at hok
      obtain ⟨candidate, -, type, -, ⟨others, _⟩, hrest, hok⟩ := hok
      obtain ⟨-, rfl⟩ := Prod.mk.inj (Except.ok.inj hok)
      exact ih (h.checkedName (.port port.id) candidate) hrest

-- A renderer that has declared nothing declares the types that are needed.
theorem declaresNeeded_of_nameAll {entries : List (PortId × PortPiece)}
    (hfirst : r.Lists reserved [] s) (hnone : s.typeNames = [])
    (hok : nameAll.outcome s = .ok ((entries, texts), t)) :
    DeclaresNeeded r t.typeNames.reverse texts := by
  obtain ⟨middle, shown, hports, hshown, hsignals⟩ := nameAll_eq_ok.mp hok
  have hmiddle := hfirst.namePorts hports
  obtain ⟨hlast, hall⟩ := hmiddle.nameSignals hsignals
  have hfresh : middle.typeNames = [] :=
    ((enters_namePorts _).of_outcome hports).typeNames.trans hnone
  have hperm := perm_of_shownSignals hshown
  rw [hmiddle.design] at hperm
  refine ⟨hlast.ordered, fun id => ?_, ?_⟩
  · rw [List.map_reverse, List.mem_reverse, ← isDeclared_iff, hall, isDeclared_iff, hfresh]
    simp only [List.map_nil, List.not_mem_nil, false_or, Design.Needs, ← hperm.mem_iff,
      List.mem_map, exists_exists_and_eq_and]
  · rw [List.map_reverse, List.nodup_reverse, ← hlast.ignoreCase]
    exact hlast.toRecords.names

section Existence

-- The depth at which the width of a type is known is enough to declare it.
theorem exists_declareWithin {depth : Nat} (hclosed : s.design.types.Closed)
    (hdepth : ∃ width, s.design.types.widthWithin depth id = some width) :
    ∃ texts t, (declareWithin depth id).outcome s = .ok (texts, t) := by
  induction depth generalizing id s with
  | zero =>
      obtain ⟨_, hwidth⟩ := hdepth
      cases hwidth
  | succ depth ih =>
      rw [TypeTable.widthWithin] at hdepth
      cases htype : s.design.types.get? id with
      | none =>
          rw [htype] at hdepth
          obtain ⟨_, hwidth⟩ := hdepth
          cases hwidth
      | some type =>
          simp only [outcome_declareWithin_succ, bind_eq_ok, type_eq_ok, htype]
          cases type with
          | bits | boolean | integer | text => exact ⟨_, _, _, rfl, rfl⟩
          | enumeration name labels =>
              obtain ⟨declaration, t, hdeclared⟩ :=
                exists_declareType rfl htype (by rintro _ _ _ ⟨⟩)
              exact ⟨_, _, _, rfl, bind_eq_ok.mpr ⟨_, hdeclared, rfl⟩⟩
          | array name element size =>
              rw [htype] at hdepth
              obtain ⟨_, hwidth⟩ := hdepth
              obtain ⟨width, hwidth, -⟩ := Option.map_eq_some_iff.mp hwidth
              obtain ⟨before, middle, hbefore⟩ := ih hclosed ⟨width, hwidth⟩
              have hdesign := ((keepsSignals_declareWithin depth element).of_outcome hbefore).design
              have helement := hclosed id element ⟨name, size, htype⟩
              obtain ⟨declaration, t, hdeclared⟩ := exists_declareType (s := middle) rfl
                (hdesign ▸ htype) (by rintro _ _ _ ⟨⟩; exact hdesign ▸ helement)
              exact ⟨_, _, _, rfl,
                bind_eq_ok.mpr ⟨_, hbefore, bind_eq_ok.mpr ⟨_, hdeclared, rfl⟩⟩⟩

theorem exists_nameSignals_of_acyclic {shown : List (String × Signal)}
    (hacyclic : s.design.types.Acyclic) (hclosed : s.design.types.Closed)
    (htypes : ∀ entry ∈ shown, ∃ type, s.design.types.get? entry.2.type = some type) :
    ∃ texts t, (nameSignals shown).outcome s = .ok (texts, t) := by
  induction shown generalizing s with
  | nil => exact ⟨_, _, rfl⟩
  | cons entry rest ih =>
      obtain ⟨name, signal⟩ := entry
      obtain ⟨hfirst, hothers⟩ := List.forall_mem_cons.mp htypes
      obtain ⟨types, middle, hdeclared⟩ :=
        exists_declareWithin hclosed (TypeTable.exists_bitWidth? hacyclic hclosed hfirst)
      have hdesign := ((keepsSignals_declareWithin _ _).of_outcome hdeclared).design
      obtain ⟨more, t, hmore⟩ := ih (s := (middle.nameSignal signal.id name).2)
        (hdesign ▸ hacyclic) (hdesign ▸ hclosed) (hdesign ▸ hothers)
      simp only [Renderer.outcome_nameSignals_cons, bind_eq_ok]
      exact ⟨_, _, _, hdeclared, _, hmore, rfl⟩

-- All is named and declared.
theorem exists_nameAll_of_acyclic (hacyclic : s.design.types.Acyclic) (h : s.design.Nameable) :
    ∃ entries texts t, nameAll.outcome s = .ok ((entries, texts), t) := by
  obtain ⟨entries, middle, hports, hdesign⟩ := exists_namePorts
    (fun port hport => Option.isSome_iff_exists.mp (h.portNames port hport))
    fun port hport => Option.isSome_iff_exists.mp (h.portTypes port hport)
  rw [← hdesign] at hacyclic h
  obtain ⟨named, hnamed⟩ := exists_named middle fun signal hsignal =>
    Option.isSome_iff_exists.mp (h.signalNames signal hsignal)
  have hshown : middle.shownSignals = .ok (sortBy (·.1) textLe named) :=
    bind_eq_ok.mpr ⟨named, hnamed, rfl⟩
  obtain ⟨texts, t, hsignals⟩ := exists_nameSignals_of_acyclic hacyclic h.elements
    fun entry hentry => Option.isSome_iff_exists.mp (h.signalTypes entry.2
      ((perm_of_shownSignals hshown).mem_iff.mp (List.mem_map_of_mem hentry)))
  exact ⟨entries, texts, t, nameAll_eq_ok.mpr ⟨middle, _, hports, hshown, hsignals⟩⟩

end Existence

end Renderer

open Renderer

-- The first unit of a renderer declares each enumeration and each array that a shown signal
-- reaches, once, after the types that it mentions and under a name of its own. Nothing keeps the
-- types of a design from being declared if no array is made of itself.
theorem declaresNeeded_of_architecture (dialect : Dialect) (design : Design) (timeUnit : String)
    (words : List String) (ignoreCase : Bool) (steps : List Scope.Step) (layout : Layout) :
    let r := ofDesign dialect design timeUnit ((Scope.ofWords words ignoreCase).run steps)
    (∀ text, (r.architecture layout).1 = .ok text →
      ∃ declared piece, text = layout (.unit piece) ∧ DeclaresNeeded r declared piece.types) ∧
    (design.types.Acyclic → design.Nameable → ∃ entries lines named,
      nameAll.outcome r.opened = .ok ((entries, lines), named) ∧
      DeclaresNeeded r named.typeNames.reverse lines) := by
  intro r
  have hfirst : r.Lists (words ++ steps.flatMap Scope.Step.words) [] r.opened :=
    ⟨⟨List.nodup_nil, nofun, ((Scope.sound_ofWords words ignoreCase).run steps).push⟩, rfl, rfl,
      rfl, .nil⟩
  refine ⟨fun text htext => ?_, fun hacyclic hnameable => ?_⟩
  · obtain ⟨entries, lines, named, piece, hnames, hpiece, htypes⟩ :=
      exists_unit_of_architecture htext
    exact ⟨_, piece, hpiece, htypes ▸ declaresNeeded_of_nameAll hfirst rfl hnames⟩
  · obtain ⟨entries, lines, named, hnames⟩ :=
      exists_nameAll_of_acyclic (s := r.opened) hacyclic hnameable
    exact ⟨entries, lines, named, hnames, declaresNeeded_of_nameAll hfirst rfl hnames⟩

-- A grid of cells, whose rows go by the name of the cells. The type of a hidden signal is not
-- needed.

def gridTypes : TypeTable :=
  ⟨⟨#[.enumeration (some "cell") ["x", "o"], .array (some "Cell") ⟨0⟩ 3, .array none ⟨1⟩ 3,
    .enumeration none ["unseen"]]⟩⟩

def gridArchitecture : Architecture :=
  let grid := (Architecture.ofEntity ⟨1⟩ (Entity.ofName ⟨0⟩)).addSignal ⟨2⟩ ⟨2⟩ none
  (grid.2.addHidden ⟨3⟩ ⟨3⟩ (.signal grid.1)).2

def gridDesign : Design := ⟨⟨#["top", "rtl", "grid", "ghost"]⟩, gridTypes, gridArchitecture⟩

def typeLines : Layout
  | .unit piece => String.intercalate "; " piece.types
  | .process _ | .branch _ | .select _ => ""

theorem ascending_gridTypes : gridTypes.Ascending := TypeTable.ascending_iff.mpr (by decide)

theorem nameable_gridDesign : gridDesign.Nameable where
  portNames := nofun
  portTypes := nofun
  signalNames := by decide
  signalTypes := by decide
  elements := ascending_gridTypes.closed

theorem declaresNeeded_gridDesign :
    let r := ofDesign .vhdl gridDesign "ns" ((Scope.ofWords ["of"] true).run [])
    (∃ declared piece,
      "TYPE CELL IS (x, o); TYPE Cell_0 IS ARRAY ((2) DOWNTO 0) OF CELL; " ++
        "TYPE arrT_ IS ARRAY ((2) DOWNTO 0) OF Cell_0" = typeLines (.unit piece) ∧
      DeclaresNeeded r declared piece.types) ∧
    ∃ entries lines named, nameAll.outcome r.opened = .ok ((entries, lines), named) ∧
      DeclaresNeeded r named.typeNames.reverse lines :=
  have h := declaresNeeded_of_architecture .vhdl gridDesign "ns" ["of"] true [] typeLines
  ⟨h.1 _ (by cbv), h.2 ascending_gridTypes.acyclic nameable_gridDesign⟩

end Rtl
