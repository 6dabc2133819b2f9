import Rtl.Layout
import Rtl.Proofs.Names.Theorems

namespace Rtl

section

variable (r : Renderer) (declared : List (TypeId × String))

-- A mention of a type, given the names under which types are declared.
inductive TypeMentioned (id : TypeId) : String → Prop
  | plain {type : HwType} {text : String} (htype : r.design.types.get? id = some type)
      (hplain : type.needsDeclaration = false) (htext : r.typeText id = .ok text) :
      TypeMentioned id text
  | declared {name : String} (hname : (id, name) ∈ declared) : TypeMentioned id name

-- The declaration of a type under its name.
inductive TypeDeclared : TypeId × String → String → Prop
  | enumeration {id : TypeId} {original : Option String} {labels : List String} (name : String)
      (htype : r.design.types.get? id = some (.enumeration original labels)) :
      TypeDeclared (id, name) ("TYPE " ++ name ++ " IS (" ++ String.intercalate ", " labels ++ ")")
  | array {id element : TypeId} {original : Option String} {size : Nat} {mention : String}
      (name : String) (htype : r.design.types.get? id = some (.array original element size))
      (hmention : TypeMentioned r declared element mention) :
      TypeDeclared (id, name)
        (s!"TYPE {name} IS ARRAY (({(size : Int) - 1}) DOWNTO 0) OF " ++ mention)

def SignalTyped (signal : Signal) (text : String) : Prop :=
  ∃ name type default, TypeMentioned r declared signal.type type ∧
    r.dialect.signalDeclaration ⟨name, type, default, Renderer.signalKind? signal⟩ = .ok text

-- In a unit no type is declared twice, and the elements of arrays and the
-- signals mention types by the names these are declared under.
structure TypesDeclared (piece : UnitPiece) : Prop where
  once : (declared.map (·.1)).Nodup
  types : List.Forall₂ (TypeDeclared r declared) declared piece.types
  signals : ∃ signals : List Signal, signals.Perm (shownSignals r.design.arch) ∧
    List.Forall₂ (SignalTyped r declared) signals piece.signals

end

-- What stands for an enumeration or an array that was not declared.
def undeclaredName (id : TypeId) : HwType → Option String
  | .enumeration .. => some s!"enumT_{id.index}"
  | .array .. => some s!"arrT_{id.index}"
  | .bits .. | .boolean | .integer | .text => none

namespace Renderer

variable {r s t u : Renderer} {declared : List (TypeId × String)} {texts : List String}

-- Types that need no declaration are written alike by all renderers.
theorem typeText_of_plain {id : TypeId} {type : HwType} {text : String}
    (hdialect : s.dialect = r.dialect) (hdesign : s.design = r.design)
    (htype : r.design.types.get? id = some type) (hplain : type.needsDeclaration = false)
    (h : s.typeText id = .ok text) : r.typeText id = .ok text := by
  simp only [typeText, bind_eq_ok, type_eq_ok, hdesign, hdialect, htype] at h ⊢
  obtain ⟨found, hfound, h⟩ := h
  obtain rfl := Option.some.inj hfound
  refine ⟨type, rfl, ?_⟩
  cases type with
  | bits | boolean | integer | text => exact h
  | enumeration | array => cases hplain

-- Whatever is mentioned is declared if it has to be.
def Mentionable (s : Renderer) (id : TypeId) : Prop :=
  ∀ type, s.design.types.get? id = some type → type.needsDeclaration = true →
    s.isDeclared id = true

theorem mem_typeNames_of_typeText {id : TypeId} {type : HwType} {text : String}
    (htype : s.design.types.get? id = some type) (hneeds : type.needsDeclaration = true)
    (hdeclared : s.isDeclared id = true) (h : s.typeText id = .ok text) :
    (id, text) ∈ s.typeNames := by
  obtain ⟨name, hname⟩ := Option.isSome_iff_exists.mp hdeclared
  obtain rfl : name = text := by
    simp only [typeText, bind_eq_ok, type_eq_ok, htype, hname] at h
    obtain ⟨_, hfound, h⟩ := h
    obtain rfl := Option.some.inj hfound
    cases type with
    | bits | boolean | integer | text => cases hneeds
    | enumeration | array => exact Except.ok.inj h
  obtain ⟨front, back, hsplit, -⟩ := List.lookup_eq_some_iff.mp hname
  rw [hsplit]
  exact List.mem_append_right _ List.mem_cons_self

theorem typeMentioned_of_typeText {id : TypeId} {text : String} (hdialect : s.dialect = r.dialect)
    (hdesign : s.design = r.design) (hnames : s.typeNames ⊆ declared) (hid : s.Mentionable id)
    (h : s.typeText id = .ok text) : TypeMentioned r declared id text := by
  obtain ⟨type, htype, -⟩ := bind_eq_ok.mp h
  rw [type_eq_ok] at htype
  cases hneeds : type.needsDeclaration with
  | false =>
      have hsame := hdesign ▸ htype
      exact .plain hsame hneeds (typeText_of_plain hdialect hdesign hsame hneeds h)
  | true =>
      exact .declared (hnames (mem_typeNames_of_typeText htype hneeds (hid type htype hneeds) h))

-- A step that declares some more types, those before others on which these
-- build, and that changes nothing else of what types are called.
structure Declares (r s : Renderer) (entries : List (TypeId × String)) (texts : List String)
    (t : Renderer) : Prop where
  dialect : t.dialect = s.dialect
  design : t.design = s.design
  typeNames : t.typeNames = entries.reverse ++ s.typeNames
  once : (s.typeNames.map (·.1)).Nodup → (t.typeNames.map (·.1)).Nodup
  written : ∀ declared, t.typeNames ⊆ declared →
    List.Forall₂ (TypeDeclared r declared) entries texts

namespace Declares

variable {entries more : List (TypeId × String)} {others : List String}

theorem refl (r s : Renderer) : Declares r s [] [] s :=
  ⟨rfl, rfl, rfl, id, fun _ _ => .nil⟩

theorem subset (h : Declares r s entries texts t) : s.typeNames ⊆ t.typeNames :=
  h.typeNames ▸ List.subset_append_right ..

theorem trans (h : Declares r s entries texts t) (hnext : Declares r t more others u) :
    Declares r s (entries ++ more) (texts ++ others) u where
  dialect := hnext.dialect.trans h.dialect
  design := hnext.design.trans h.design
  typeNames := by rw [hnext.typeNames, h.typeNames, List.reverse_append, List.append_assoc]
  once hnodup := hnext.once (h.once hnodup)
  written declared hnames :=
    List.rel_append (h.written declared (List.Subset.trans hnext.subset hnames))
      (hnext.written declared hnames)

theorem isDeclared (h : Declares r s entries texts t) {id : TypeId}
    (hid : s.isDeclared id = true) : t.isDeclared id = true := by
  rw [Renderer.isDeclared, h.typeNames, List.lookup_append]
  cases List.lookup id entries.reverse with
  | none => exact hid
  | some name => rfl

theorem mentionable (h : Declares r s entries texts t) {id : TypeId} (hid : s.Mentionable id) :
    t.Mentionable id := fun type htype hneeds =>
  h.isDeclared (hid type (h.design ▸ htype) hneeds)

end Declares

theorem not_mem_of_not_isDeclared {id : TypeId} (h : s.isDeclared id = false) :
    id ∉ s.typeNames.map (·.1) := by
  intro hmem
  obtain ⟨entry, hentry, rfl⟩ := List.mem_map.mp hmem
  have hnone : s.typeNames.lookup entry.1 = none := by simpa [isDeclared] using h
  exact bne_iff_ne.mp (List.lookup_eq_none_iff.mp hnone entry hentry) rfl

theorem isDeclared_nameType (s : Renderer) (id other : TypeId) (candidate : String) :
    (s.nameType id candidate).2.isDeclared other = (other == id || s.isDeclared other) := by
  have hnames : (s.nameType id candidate).2.typeNames =
    (id, (s.nameType id candidate).1) :: s.typeNames := rfl
  rw [isDeclared, hnames, List.lookup_cons, isDeclared]
  cases other == id with
  | false | true => rfl

-- A type is named once, under the declaration that is written then.
theorem declares_nameType {id : TypeId} {candidate text : String} (hnew : s.isDeclared id = false)
    (hwritten : ∀ declared, (s.nameType id candidate).2.typeNames ⊆ declared →
      TypeDeclared r declared (id, (s.nameType id candidate).1) text) :
    Declares r s [(id, (s.nameType id candidate).1)] [text] (s.nameType id candidate).2 :=
  ⟨rfl, rfl, rfl, fun hnodup => List.nodup_cons.mpr ⟨not_mem_of_not_isDeclared hnew, hnodup⟩,
    fun declared hnames => .cons (hwritten declared hnames) .nil⟩

-- The element of an array has to be declared by then.
theorem declareType_declares {id : TypeId} {declaration : Option String}
    (hdialect : s.dialect = r.dialect) (hdesign : s.design = r.design)
    (helement : ∀ name element size, s.design.types.get? id = some (.array name element size) →
      s.Mentionable element)
    (hok : (declareType id).outcome s = .ok (declaration, t)) :
    t.isDeclared id = true ∧ ∃ entries, Declares r s entries declaration.toList t := by
  simp only [outcome_declareType] at hok
  split at hok
  · rename_i hdeclared
    obtain ⟨rfl, rfl⟩ := Prod.mk.inj (Except.ok.inj hok)
    exact ⟨hdeclared, [], .refl r s⟩
  rename_i hdeclared
  have hnew := Bool.eq_false_of_not_eq_true hdeclared
  obtain ⟨type, htype, hok⟩ := bind_eq_ok.mp hok
  rw [type_eq_ok] at htype
  split at hok
  · rename_i name labels
    obtain ⟨rfl, rfl⟩ := Prod.mk.inj (Except.ok.inj hok)
    refine ⟨by simp [isDeclared_nameType], _, declares_nameType hnew fun declared _ => ?_⟩
    exact .enumeration _ (hdesign ▸ htype)
  · rename_i name element size
    obtain ⟨mention, hmention, hok⟩ := bind_eq_ok.mp hok
    obtain ⟨rfl, rfl⟩ := Prod.mk.inj (Except.ok.inj hok)
    refine ⟨by simp [isDeclared_nameType], _, declares_nameType hnew fun declared hnames => ?_⟩
    refine .array _ (hdesign ▸ htype) ?_
    refine typeMentioned_of_typeText (s := (s.nameType id (name.getD "arrT_")).2) hdialect hdesign
      hnames (fun type hfound hneeds => ?_) hmention
    rw [isDeclared_nameType, helement name element size htype type hfound hneeds, Bool.or_true]
  · obtain ⟨_, -, hok⟩ := bind_eq_ok.mp hok
    cases hok

-- Elements are declared before the arrays of them.
theorem declareWithin_declares {depth : Nat} {id : TypeId} (hdialect : s.dialect = r.dialect)
    (hdesign : s.design = r.design) (hok : (declareWithin depth id).outcome s = .ok (texts, t)) :
    t.Mentionable id ∧ ∃ entries, Declares r s entries texts t := by
  induction depth generalizing id s t texts with
  | zero => cases hok
  | succ depth ih =>
      rw [outcome_declareWithin_succ] at hok
      obtain ⟨type, htype, hok⟩ := bind_eq_ok.mp hok
      rw [type_eq_ok] at htype
      split at hok
      · obtain ⟨⟨declaration, _⟩, hdeclared, hok⟩ := bind_eq_ok.mp hok
        obtain ⟨rfl, rfl⟩ := Prod.mk.inj (Except.ok.inj hok)
        obtain ⟨hid, entries, hentries⟩ := declareType_declares hdialect hdesign
          (fun name element size harray => nomatch htype.symm.trans harray) hdeclared
        exact ⟨fun _ _ _ => hid, entries, hentries⟩
      · rename_i name element size
        obtain ⟨⟨before, middle⟩, hbefore, hok⟩ := bind_eq_ok.mp hok
        obtain ⟨⟨declaration, _⟩, hdeclared, hok⟩ := bind_eq_ok.mp hok
        obtain ⟨rfl, rfl⟩ := Prod.mk.inj (Except.ok.inj hok)
        obtain ⟨helement, entries, hentries⟩ := ih hdialect hdesign hbefore
        obtain ⟨hid, more, hmore⟩ := declareType_declares (hentries.dialect.trans hdialect)
          (hentries.design.trans hdesign) (fun _ other _ harray => by
            rw [hentries.design, htype] at harray
            cases harray
            exact helement) hdeclared
        exact ⟨fun _ _ _ => hid, _, hentries.trans hmore⟩
      · rename_i henumeration harray
        obtain ⟨rfl, rfl⟩ := Prod.mk.inj (Except.ok.inj hok)
        refine ⟨fun other hother hneeds => ?_, [], .refl r s⟩
        obtain rfl := Option.some.inj (htype.symm.trans hother)
        cases type with
        | enumeration name labels => exact absurd rfl (henumeration name labels)
        | array name element size => exact absurd rfl (harray name element size)
        | bits | boolean | integer | text => cases hneeds

theorem declares_nameSignal (r s : Renderer) (signal : SignalId) (candidate : String) :
    Declares r s [] [] (s.nameSignal signal candidate).2 := ⟨rfl, rfl, rfl, id, fun _ _ => .nil⟩

-- The types of all shown signals are declared.
theorem nameSignals_declares {shown : List (String × Signal)} (hdialect : s.dialect = r.dialect)
    (hdesign : s.design = r.design) (hok : (nameSignals shown).outcome s = .ok (texts, t)) :
    (∀ entry ∈ shown, t.Mentionable entry.2.type) ∧ ∃ entries, Declares r s entries texts t := by
  induction shown generalizing s texts with
  | nil =>
      obtain ⟨rfl, rfl⟩ := Prod.mk.inj (Except.ok.inj hok)
      exact ⟨nofun, [], .refl r s⟩
  | cons entry rest ih =>
      obtain ⟨name, signal⟩ := entry
      simp only [outcome_nameSignals_cons, bind_eq_ok] at hok
      obtain ⟨⟨types, middle⟩, htypes, ⟨more, _⟩, hmore, hok⟩ := hok
      obtain ⟨rfl, rfl⟩ := Prod.mk.inj (Except.ok.inj hok)
      obtain ⟨hsignal, first, hfirst⟩ := declareWithin_declares hdialect hdesign htypes
      have hnamed := hfirst.trans (declares_nameSignal r middle signal.id name)
      obtain ⟨hothers, last, hlast⟩ :=
        ih (hnamed.dialect.trans hdialect) (hnamed.design.trans hdesign) hmore
      have hall := hnamed.trans hlast
      rw [List.append_nil, List.append_nil] at hall
      refine ⟨List.forall_mem_cons.mpr ⟨hlast.mentionable ?_, hothers⟩, _, hall⟩
      exact (declares_nameSignal r middle signal.id name).mentionable hsignal

-- A mention of a type depends on the names of types alone.
theorem typeText_congr (hdialect : s.dialect = r.dialect) (hdesign : s.design = r.design)
    (hnames : s.typeNames = r.typeNames) (id : TypeId) : s.typeText id = r.typeText id := by
  simp only [typeText, Renderer.type, hdialect, hdesign, hnames]

def PortTyped (r : Renderer) (port : Port) (piece : PortPiece) : Prop :=
  r.typeText port.type = .ok piece.type

-- No type is declared while the ports are named.
theorem namePorts_typed {ports : List Port} {pieces : List (PortId × PortPiece)}
    (hdialect : s.dialect = r.dialect) (hdesign : s.design = r.design)
    (hnames : s.typeNames = r.typeNames) (hok : (namePorts ports).outcome s = .ok (pieces, t)) :
    (t.dialect = r.dialect ∧ t.design = r.design ∧ t.typeNames = r.typeNames) ∧
      List.Forall₂ (PortTyped r) ports (pieces.map (·.2)) := by
  induction ports generalizing s pieces with
  | nil =>
      obtain ⟨rfl, rfl⟩ := Prod.mk.inj (Except.ok.inj hok)
      exact ⟨⟨hdialect, hdesign, hnames⟩, .nil⟩
  | cons port rest ih =>
      simp only [outcome_namePorts_cons, bind_eq_ok] at hok
      obtain ⟨candidate, -, type, htype, ⟨others, _⟩, hrest, hok⟩ := hok
      obtain ⟨rfl, rfl⟩ := Prod.mk.inj (Except.ok.inj hok)
      obtain ⟨hlast, hothers⟩ := ih (s := (s.checkedName (.port port.id) candidate).2)
        hdialect hdesign hnames hrest
      refine ⟨hlast, .cons ?_ hothers⟩
      exact (typeText_congr hdialect hdesign hnames port.type).symm.trans htype

theorem declareSignal_typed {signal : Signal} {text : String} (hdialect : s.dialect = r.dialect)
    (hdesign : s.design = r.design) (hnames : s.typeNames ⊆ declared)
    (hsignal : r.design.arch.signals.get? signal.id = some signal)
    (htype : s.Mentionable signal.type) (hok : s.declareSignal signal.id = .ok text) :
    SignalTyped r declared signal text := by
  simp only [declareSignal, bind_eq_ok, signal_eq_ok, hdesign, hsignal, hdialect] at hok
  obtain ⟨_, hsame, name, -, type, hmention, default, -, htext⟩ := hok
  obtain rfl := Option.some.inj hsame
  exact ⟨name, type, default, typeMentioned_of_typeText hdialect hdesign hnames htype hmention,
    htext⟩

theorem unitText_eq_ok {layout : Layout} {preamble : Preamble} {processes : List String}
    {text : String} (hok : (unitText layout preamble processes).outcome s = .ok (text, t)) :
    ∃ entity architecture components, text =
      layout (.unit { preamble with entity, architecture, components, processes }) := by
  simp only [outcome_unitText, bind_eq_ok] at hok
  obtain ⟨_, -, ⟨components, _⟩, -, entity, -, architecture, -, hok⟩ := hok
  exact ⟨entity, architecture, components, (congrArg Prod.fst (Except.ok.inj hok)).symm⟩

theorem shownSignals_congr (hdesign : s.design = t.design) : s.shownSignals = t.shownSignals := by
  simp only [shownSignals, named, text, hdesign]

theorem design_nameAll {entries : List (PortId × PortPiece)} {types : List String}
    (hok : nameAll.outcome s = .ok ((entries, types), t)) : t.design = s.design := by
  obtain ⟨middle, shown, hports, -, hsignals⟩ := nameAll_eq_ok.mp hok
  obtain ⟨⟨-, hmiddle, -⟩, -⟩ := namePorts_typed (r := s) rfl rfl rfl hports
  obtain ⟨-, _, hdeclares⟩ := nameSignals_declares (r := middle) rfl rfl hsignals
  exact hdeclares.design.trans hmiddle

-- A unit is written from what was named and declared first.
theorem body_eq_ok {layout : Layout} {text : String} (hok : body layout s = (.ok text, t)) :
    ∃ (entries : List (PortId × PortPiece)) (types texts : List String) (named later : Renderer)
      (preamble : Preamble) (sorted : List Process) (piece : UnitPiece),
      nameAll.outcome s = .ok ((entries, types), named) ∧
      named.preamble entries types = .ok preamble ∧
      named.sortedProcesses = .ok sorted ∧ processes layout sorted named = (.ok texts, later) ∧
      text = layout (.unit piece) ∧ piece.ports = preamble.ports ∧ piece.types = preamble.types ∧
      piece.signals = preamble.signals ∧ piece.processes = texts := by
  obtain ⟨entries, types, named, preamble, sorted, texts, later, hnames, hpreamble, hsorted,
    hprocesses, hunit⟩ := body_iff_passes.mp hok
  obtain ⟨entity, architecture, components, htext⟩ := unitText_eq_ok hunit
  exact ⟨entries, types, texts, named, later, preamble, sorted, _, hnames, hpreamble, hsorted,
    hprocesses, htext, rfl, rfl, rfl, rfl⟩

theorem body_typed {layout : Layout} {text : String} (hdialect : s.dialect = r.dialect)
    (hdesign : s.design = r.design) (hfresh : s.typeNames = r.typeNames) (hnone : r.typeNames = [])
    (hnumbered : r.design.arch.Numbered) (hok : body layout s = (.ok text, t)) :
    ∃ (declared : List (TypeId × String)) (piece : UnitPiece), text = layout (.unit piece) ∧
      TypesDeclared r declared piece ∧
      List.Forall₂ (PortTyped r) r.design.arch.entity.ports.toList piece.ports := by
  obtain ⟨_, _, _, last, _, preamble, _, piece, hnames, hpreamble, -, -, htext, hports, htypes,
    hsignals, -⟩ := body_eq_ok hok
  obtain ⟨middle, shown, hportNames, hshown, hsignalNames⟩ := nameAll_eq_ok.mp hnames
  rw [hdesign] at hportNames
  obtain ⟨⟨hmiddle, hsame, hempty⟩, hentries⟩ :=
    namePorts_typed hdialect hdesign hfresh hportNames
  obtain ⟨hmentions, declared, hdeclares⟩ := nameSignals_declares hmiddle hsame hsignalNames
  simp only [Renderer.preamble, bind_eq_ok, shownSignals_congr hdeclares.design, hshown]
    at hpreamble
  obtain ⟨_, hagain, texts, hdeclared, connections, -, hpreamble⟩ := hpreamble
  obtain rfl := Except.ok.inj hagain
  obtain rfl := Except.ok.inj hpreamble
  have hperm := perm_of_shownSignals hshown
  rw [hsame] at hperm
  have hall : last.typeNames = declared.reverse := by
    rw [hdeclares.typeNames, hempty, hnone, List.append_nil]
  have hsubset : last.typeNames ⊆ declared := hall ▸ (List.reverse_perm declared).subset
  refine ⟨declared, piece, htext, ⟨?_, ?_, shown.map (·.2), hperm, ?_⟩, hports ▸ hentries⟩
  · have honce := hdeclares.once (by rw [hempty, hnone]; exact List.nodup_nil)
    rwa [hall, List.map_reverse, List.nodup_reverse] at honce
  · rw [htypes]
    exact hdeclares.written declared hsubset
  · rw [hsignals, List.forall₂_map_left_iff]
    refine ((List.forall₂_and_left _ _).mpr ⟨fun entry => id, mapM_eq_ok.mp hdeclared⟩).imp ?_
    rintro entry text ⟨hentry, htext⟩
    obtain ⟨hsignal, -⟩ := (mem_shownSignals_iff hnumbered).mp
      (hperm.mem_iff.mp (List.mem_map_of_mem hentry))
    exact declareSignal_typed (hdeclares.dialect.trans hmiddle) (hdeclares.design.trans hsame)
      hsubset hsignal (hmentions entry hentry) htext

theorem typeText_eq_undeclaredName {id : TypeId} {type : HwType} {name : String}
    (hnone : r.typeNames = []) (htype : r.design.types.get? id = some type)
    (hname : undeclaredName id type = some name) : r.typeText id = .ok name := by
  simp only [typeText, type_eq_ok.mpr htype, hnone]
  cases type with
  | bits | boolean | integer | text => cases hname
  | enumeration | array => exact congrArg Except.ok (Option.some.inj hname)

-- Before any type is declared, one is called by what it will be declared as only
-- if that is the name made from its number.
theorem typeMentioned_iff_of_typeText {id : TypeId} {text : String} (hnone : r.typeNames = [])
    (h : r.typeText id = .ok text) :
    TypeMentioned r declared id text ↔
      ∀ type name, r.design.types.get? id = some type → undeclaredName id type = some name →
        (id, name) ∈ declared := by
  constructor
  · intro hmention type name htype hname
    obtain rfl := Except.ok.inj ((typeText_eq_undeclaredName hnone htype hname).symm.trans h)
    cases hmention with
    | declared hmem => exact hmem
    | plain hother hplain =>
        obtain rfl := Option.some.inj (htype.symm.trans hother)
        cases type with
        | bits | boolean | integer | text => cases hname
        | enumeration | array => cases hplain
  · intro hall
    obtain ⟨type, htype, -⟩ := bind_eq_ok.mp h
    rw [type_eq_ok] at htype
    cases hname : undeclaredName id type with
    | some name =>
        obtain rfl := Except.ok.inj ((typeText_eq_undeclaredName hnone htype hname).symm.trans h)
        exact .declared (hall type name htype hname)
    | none =>
        refine .plain htype ?_ h
        cases type with
        | bits | boolean | integer | text => rfl
        | enumeration | array => cases hname

theorem portsMentioned_iff {ports : List Port} {pieces : List PortPiece}
    (hnone : r.typeNames = []) (htyped : List.Forall₂ (PortTyped r) ports pieces) :
    List.Forall₂ (fun port piece => TypeMentioned r declared port.type piece.type) ports pieces ↔
      ∀ port ∈ ports, ∀ type name, r.design.types.get? port.type = some type →
        undeclaredName port.type type = some name → (port.type, name) ∈ declared := by
  induction htyped with
  | nil => exact iff_of_true .nil nofun
  | cons hport hports ih =>
      rw [List.forall₂_cons, ih, List.forall_mem_cons, typeMentioned_iff_of_typeText hnone hport]

end Renderer

open Renderer

-- Every type in a unit is declared once, and array elements and signals call it
-- by its declared name. Ports call enumerations and arrays by their numbers.
theorem types_declared_of_architecture {design : Design} (hbuilt : design.arch.Built)
    {dialect : Dialect} {scope : Scope} {timeUnit text : String} {layout : Layout}
    {last : Renderer}
    (hok : (ofDesign dialect design timeUnit scope).architecture layout = (.ok text, last)) :
    ∃ (declared : List (TypeId × String)) (piece : UnitPiece), text = layout (.unit piece) ∧
      TypesDeclared (ofDesign dialect design timeUnit scope) declared piece ∧
      List.Forall₂ (PortTyped (ofDesign dialect design timeUnit scope))
        design.arch.entity.ports.toList piece.ports ∧
      (List.Forall₂ (fun port piece =>
          TypeMentioned (ofDesign dialect design timeUnit scope) declared port.type piece.type)
          design.arch.entity.ports.toList piece.ports ↔
        ∀ port ∈ design.arch.entity.ports.toList, ∀ type name,
          design.types.get? port.type = some type →
          undeclaredName port.type type = some name → (port.type, name) ∈ declared) := by
  have hbody : (body layout (ofDesign dialect design timeUnit scope.push)).1 = .ok text :=
    congrArg Prod.fst hok
  obtain ⟨declared, piece, htext, htypes, hports⟩ := body_typed
    (r := ofDesign dialect design timeUnit scope) (s := ofDesign dialect design timeUnit scope.push)
    rfl rfl rfl rfl hbuilt.numbered (Prod.ext hbody rfl)
  exact ⟨declared, piece, htext, htypes, hports, portsMentioned_iff rfl hports⟩

-- A memory on a port. Its type is declared, but not under the name that the
-- port has for it.

def memoryEntity : Entity := ((Entity.ofName ⟨0⟩).addPort ⟨1⟩ .input ⟨1⟩).2

def memorySignals : Architecture :=
  ((Architecture.ofEntity ⟨2⟩ memoryEntity).addSignal ⟨3⟩ ⟨1⟩ none).2

def memory : Architecture := memorySignals.bindPort ⟨0⟩ ⟨0⟩

theorem built_memory : memory.Built :=
  have hsignals : memorySignals.Built := .addSignal (.new _ (.addPort (.new _) ..)) ..
  .bindPort hsignals (if_pos (by decide))

def memoryDesign : Design :=
  ⟨⟨#["top", "cells", "rtl", "now"]⟩,
    ⟨⟨#[.enumeration (some "state") ["idle", "busy"], .array (some "states") ⟨0⟩ 2]⟩⟩, memory⟩

theorem roster_memoryDesign :
    ∃ (declared : List (TypeId × String)) (piece : UnitPiece),
      "cells; self.now = mkSig(sim, \"now\", states, None); self._connect(self.now, self.cells)" =
        roster (.unit piece) ∧
      TypesDeclared (ofDesign .simModel memoryDesign "ns" (Dialect.simModel.baseScope [])) declared
        piece ∧
      List.Forall₂
        (PortTyped (ofDesign .simModel memoryDesign "ns" (Dialect.simModel.baseScope [])))
        memory.entity.ports.toList piece.ports ∧
      (List.Forall₂ (fun port piece =>
          TypeMentioned (ofDesign .simModel memoryDesign "ns" (Dialect.simModel.baseScope []))
            declared port.type piece.type) memory.entity.ports.toList piece.ports ↔
        ∀ port ∈ memory.entity.ports.toList, ∀ type name,
          memoryDesign.types.get? port.type = some type →
          undeclaredName port.type type = some name → (port.type, name) ∈ declared) :=
  types_declared_of_architecture built_memory (Prod.ext (by decide +kernel) rfl)

theorem text_memoryDesign :
    ((ofDesign .vhdl memoryDesign "ns" (Dialect.vhdl.baseScope [])).architecture
      (Dialect.vhdl.layout "    ")).1 = .ok (Layout.joinLines
        ["ENTITY top IS",
         "    PORT (",
         "        cells : IN arrT_1",
         "    );",
         "END ENTITY top;",
         "",
         "ARCHITECTURE rtl OF top IS",
         "    TYPE STATE IS (idle, busy);",
         "    TYPE states IS ARRAY ((1) DOWNTO 0) OF STATE;",
         "    SIGNAL now : states;",
         "BEGIN",
         "    now <= cells;",
         "END ARCHITECTURE rtl;"]) := by
  decide +kernel

end Rtl
