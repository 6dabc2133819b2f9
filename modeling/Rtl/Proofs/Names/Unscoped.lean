import Rtl.Proofs.Names.Sessions
import Rtl.Proofs.Rendering.Frames
import Rtl.Layout

namespace Rtl

-- What an owner would be called if no word were in use.
inductive Renderer.Asks (r : Renderer) : Owner → String → Prop
  | port {id : PortId} {port : Port} {candidate : String}
      (hport : r.design.arch.entity.ports.get? id = some port)
      (hname : r.design.names.text? port.name = some candidate) : Asks r (.port id) candidate
  | signal {id : SignalId} {signal : Signal} {candidate : String}
      (hsignal : r.design.arch.signals.get? id = some signal)
      (hname : r.design.names.text? signal.name = some candidate) : Asks r (.signal id) candidate
  | enumeration {id : TypeId} {name : Option String} {labels : List String}
      (htype : r.design.types.get? id = some (.enumeration name labels)) :
      Asks r (.type id) (Text.toCapitals (name.getD "enumT_"))
  | array {id element : TypeId} {name : Option String} {size : Nat}
      (htype : r.design.types.get? id = some (.array name element size)) :
      Asks r (.type id) (name.getD "arrT_")
  | process {id : ProcessId} {process : Process} {candidate : String}
      (hprocess : r.design.arch.processes.get? id = some process)
      (hname : r.design.names.text? process.name = some candidate) : Asks r (.process id) candidate
  | component {position : Nat} {sorted : List (String × Component)} {entry : String × Component}
      (hsorted : r.sortedComponents = .ok sorted) (hentry : sorted[position]? = some entry) :
      Asks r (.component position) entry.1

-- Nobody asks for two names.
theorem Renderer.Asks.unique {r : Renderer} {owner : Owner} {candidate other : String}
    (h : r.Asks owner candidate) (hother : r.Asks owner other) : candidate = other := by
  cases h with
  | port hport hname =>
      cases hother with
      | port hsame hagain =>
          obtain rfl := Option.some.inj (hport.symm.trans hsame)
          exact Option.some.inj (hname.symm.trans hagain)
  | signal hsignal hname =>
      cases hother with
      | signal hsame hagain =>
          obtain rfl := Option.some.inj (hsignal.symm.trans hsame)
          exact Option.some.inj (hname.symm.trans hagain)
  | enumeration htype =>
      cases hother with
      | enumeration hsame =>
          cases htype.symm.trans hsame
          rfl
      | array hsame => cases htype.symm.trans hsame
  | array htype =>
      cases hother with
      | enumeration hsame => cases htype.symm.trans hsame
      | array hsame =>
          cases htype.symm.trans hsame
          rfl
  | process hprocess hname =>
      cases hother with
      | process hsame hagain =>
          obtain rfl := Option.some.inj (hprocess.symm.trans hsame)
          exact Option.some.inj (hname.symm.trans hagain)
  | component hsorted hentry =>
      cases hother with
      | component hsame hagain =>
          obtain rfl := Except.ok.inj (hsorted.symm.trans hsame)
          rw [Option.some.inj (hentry.symm.trans hagain)]

namespace Scope

-- Each name was made from what its owner asks for, which is in use since.
def Serves (asks : Owner → String → Prop) (scope : Scope) : Prop :=
  ∀ entry ∈ scope.entries, asks entry.1.owner entry.1.candidate ∧
    MadeFrom entry.1.candidate entry.2 ∧
    normalize scope.ignoreCase entry.1.candidate ∈ scope.usedWords

-- Whatever name is found for a candidate, the candidate is in use then.
theorem candidate_mem_usedWords_enter (scope : Scope) (owner : Owner) (candidate : String) :
    normalize scope.ignoreCase candidate ∈
      (scope.enter ⟨owner, candidate⟩ (scope.freeName candidate)).usedWords := by
  rw [mem_usedWords_enter]
  rcases (isNew_freeName scope candidate).least with ⟨-, hname⟩ | ⟨hused, -⟩
  · exact .inl (congrArg _ hname.symm)
  · exact .inr (isUsed_eq_true_iff.mp hused)

theorem Serves.checkedName {asks : Owner → String → Prop} {scope : Scope} {owner : Owner}
    {candidate : String} (h : scope.Serves asks) (hasks : asks owner candidate) :
    (scope.checkedName owner candidate).2.Serves asks := by
  rw [Scope.checkedName]
  split
  · exact h
  · rw [Serves, entries_enter, ignoreCase_enter]
    refine List.forall_mem_cons.mpr ⟨⟨hasks, madeFrom_freeName scope candidate,
      candidate_mem_usedWords_enter scope owner candidate⟩, fun entry hentry => ?_⟩
    obtain ⟨hasked, hmade, hused⟩ := h entry hentry
    exact ⟨hasked, hmade, (mem_usedWords_enter ..).mpr (.inr hused)⟩

theorem given_eq_map_entries (scope : Scope) :
    scope.given = scope.entries.map fun entry => (entry.1.owner, entry.2) := by
  rw [given, entries, List.map_flatMap]

end Scope

namespace Renderer

variable {words : List String} {r s t : Renderer} {layout : Layout}

-- The names were given to those who ask for them in the design of the renderer.
structure Serves (r s : Renderer) : Prop where
  design : s.design = r.design
  scope : s.scope.Serves r.Asks

theorem Serves.checkedName (h : r.Serves s) {owner : Owner} {candidate : String}
    (hasks : r.Asks owner candidate) : r.Serves (s.checkedName owner candidate).2 :=
  ⟨h.design, h.scope.checkedName hasks⟩

theorem Serves.nameSignal (h : r.Serves s) {id : SignalId} {candidate : String}
    (hasks : r.Asks (.signal id) candidate) : r.Serves (s.nameSignal id candidate).2 :=
  ⟨h.design, h.scope.checkedName hasks⟩

theorem Serves.nameType (h : r.Serves s) {id : TypeId} {candidate : String}
    (hasks : r.Asks (.type id) candidate) : r.Serves (s.nameType id candidate).2 :=
  ⟨h.design, h.scope.checkedName hasks⟩

theorem Serves.namePorts {ports : List Port} {pieces : List (PortId × PortPiece)}
    (h : r.Serves s)
    (hports : ∀ port ∈ ports, r.design.arch.entity.ports.get? port.id = some port)
    (hok : (Renderer.namePorts ports).outcome s = .ok (pieces, t)) : r.Serves t := by
  induction ports generalizing s pieces with
  | nil =>
      obtain ⟨-, rfl⟩ := Prod.mk.inj (Except.ok.inj hok)
      exact h
  | cons port rest ih =>
      obtain ⟨hport, hrest⟩ := List.forall_mem_cons.mp hports
      simp only [Renderer.outcome_namePorts_cons, bind_eq_ok, text_eq_ok, h.design] at hok
      obtain ⟨candidate, hcandidate, type, -, ⟨others, _⟩, hothers, hok⟩ := hok
      obtain ⟨-, rfl⟩ := Prod.mk.inj (Except.ok.inj hok)
      exact ih (h.checkedName (.port hport hcandidate)) hrest hothers

theorem Serves.declareType {id : TypeId} {declaration : Option String} (h : r.Serves s)
    (hok : (Renderer.declareType id).outcome s = .ok (declaration, t)) : r.Serves t := by
  simp only [Renderer.outcome_declareType] at hok
  split at hok
  · obtain ⟨-, rfl⟩ := Prod.mk.inj (Except.ok.inj hok)
    exact h
  obtain ⟨type, htype, hok⟩ := bind_eq_ok.mp hok
  rw [type_eq_ok, h.design] at htype
  split at hok
  · obtain ⟨-, rfl⟩ := Prod.mk.inj (Except.ok.inj hok)
    exact h.nameType (.enumeration htype)
  · obtain ⟨_, -, hok⟩ := bind_eq_ok.mp hok
    obtain ⟨-, rfl⟩ := Prod.mk.inj (Except.ok.inj hok)
    exact h.nameType (.array htype)
  · obtain ⟨_, -, hok⟩ := bind_eq_ok.mp hok
    cases hok

theorem Serves.declareWithin {depth : Nat} {id : TypeId} {texts : List String} (h : r.Serves s)
    (hok : (Renderer.declareWithin depth id).outcome s = .ok (texts, t)) : r.Serves t := by
  induction depth generalizing id s t texts with
  | zero => cases hok
  | succ depth ih =>
      rw [outcome_declareWithin_succ] at hok
      obtain ⟨type, -, hok⟩ := bind_eq_ok.mp hok
      split at hok
      · obtain ⟨⟨declaration, _⟩, hdeclared, hok⟩ := bind_eq_ok.mp hok
        obtain ⟨-, rfl⟩ := Prod.mk.inj (Except.ok.inj hok)
        exact h.declareType hdeclared
      · obtain ⟨⟨before, middle⟩, hbefore, hok⟩ := bind_eq_ok.mp hok
        obtain ⟨⟨declaration, _⟩, hdeclared, hok⟩ := bind_eq_ok.mp hok
        obtain ⟨-, rfl⟩ := Prod.mk.inj (Except.ok.inj hok)
        exact (ih h hbefore).declareType hdeclared
      · obtain ⟨-, rfl⟩ := Prod.mk.inj (Except.ok.inj hok)
        exact h

theorem Serves.nameSignals {shown : List (String × Signal)} {texts : List String}
    (h : r.Serves s) (hshown : ∀ entry ∈ shown, r.Asks (.signal entry.2.id) entry.1)
    (hok : (Renderer.nameSignals shown).outcome s = .ok (texts, t)) : r.Serves t := by
  induction shown generalizing s texts with
  | nil =>
      obtain ⟨-, rfl⟩ := Prod.mk.inj (Except.ok.inj hok)
      exact h
  | cons entry rest ih =>
      obtain ⟨name, signal⟩ := entry
      obtain ⟨hfirst, hrest⟩ := List.forall_mem_cons.mp hshown
      simp only [Renderer.outcome_nameSignals_cons, bind_eq_ok] at hok
      obtain ⟨⟨types, middle⟩, htypes, ⟨more, _⟩, hmore, hok⟩ := hok
      obtain ⟨-, rfl⟩ := Prod.mk.inj (Except.ok.inj hok)
      exact ih ((h.declareWithin htypes).nameSignal hfirst) hrest hmore

-- What is listed with names is what was to be listed, each with its own.
theorem mem_of_named {α : Type} {name : α → NameId} {items : List α} {entries : List (String × α)}
    (hok : s.named name items = .ok entries) :
    ∀ entry ∈ entries, entry.2 ∈ items ∧ s.design.names.text? (name entry.2) = some entry.1 := by
  intro entry hentry
  obtain ⟨item, hitem, h⟩ := exists_mem_of_forall₂ (mapM_eq_ok.mp hok) hentry
  simp only [bind_eq_ok, text_eq_ok] at h
  obtain ⟨text, htext, h⟩ := h
  obtain rfl := Except.ok.inj h
  exact ⟨hitem, htext⟩

theorem asks_of_shownSignals {shown : List (String × Signal)} (hdesign : s.design = r.design)
    (hnumbered : r.design.arch.Numbered) (hok : s.shownSignals = .ok shown) :
    ∀ entry ∈ shown, r.Asks (.signal entry.2.id) entry.1 := by
  simp only [shownSignals, bind_eq_ok] at hok
  obtain ⟨entries, hentries, hok⟩ := hok
  obtain rfl := Except.ok.inj hok
  intro entry hentry
  obtain ⟨hmem, hname⟩ := mem_of_named hentries entry ((perm_sortBy ..).mem_iff.mp hentry)
  rw [hdesign] at hmem hname
  exact .signal (hnumbered.signals.get?_of_mem (List.mem_of_mem_filter hmem)) hname

theorem Serves.nameAll {entries : List (PortId × PortPiece)} {texts : List String}
    (h : r.Serves s) (hnumbered : r.design.arch.Numbered)
    (hok : Renderer.nameAll.outcome s = .ok ((entries, texts), t)) : r.Serves t := by
  obtain ⟨middle, shown, hports, hshown, hsignals⟩ := nameAll_eq_ok.mp hok
  rw [h.design] at hports
  have hmiddle := h.namePorts (fun port => hnumbered.ports.get?_of_mem) hports
  exact hmiddle.nameSignals (asks_of_shownSignals hmiddle.design hnumbered hshown) hsignals

theorem Serves.process (h : r.Serves s) (layout : Layout) (id : ProcessId) :
    r.Serves (Renderer.process layout id s).2 := by
  simp only [process_eq]
  split
  · exact h
  · rename_i process hprocess
    rw [findProcess_eq_ok, h.design] at hprocess
    split
    · exact h
    · rename_i candidate hcandidate
      rw [text_eq_ok, h.design] at hcandidate
      exact h.checkedName (.process hprocess hcandidate)

theorem Serves.processes (h : r.Serves s) (layout : Layout) (sorted : List Process) :
    r.Serves (Renderer.processes layout sorted s).2 := by
  induction sorted generalizing s with
  | nil => exact h
  | cons first rest ih =>
      have hfirst := h.process layout first.id
      rw [processes_cons]
      split
      · rename_i hprocess
        rwa [hprocess] at hfirst
      · rename_i hprocess
        rw [hprocess] at hfirst
        exact ih hfirst

theorem sortedComponents_congr (hdesign : s.design = r.design) :
    s.sortedComponents = r.sortedComponents := by
  simp only [sortedComponents, named, text, hdesign]

-- Components are counted on from a position in the whole list.
theorem Serves.components {listed sorted : List (String × Component)} {position : Nat}
    {pieces : List ComponentPiece} (h : r.Serves s) (hsorted : r.sortedComponents = .ok sorted)
    (hlisted : listed = sorted.drop position)
    (hok : (Renderer.components position listed).outcome s = .ok (pieces, t)) : r.Serves t := by
  induction listed generalizing s position pieces with
  | nil =>
      obtain ⟨-, rfl⟩ := Prod.mk.inj (Except.ok.inj hok)
      exact h
  | cons entry rest ih =>
      obtain ⟨candidate, component⟩ := entry
      simp only [Renderer.outcome_components_cons, bind_eq_ok] at hok
      obtain ⟨portMap, -, entity, -, ⟨more, _⟩, hmore, hok⟩ := hok
      obtain ⟨-, rfl⟩ := Prod.mk.inj (Except.ok.inj hok)
      have hentry : sorted[position]? = some (candidate, component) := by
        rw [← List.head?_drop, ← hlisted, List.head?_cons]
      have hrest : rest = sorted.drop (position + 1) := by
        rw [← List.tail_drop, ← hlisted, List.tail_cons]
      exact ih (h.checkedName (.component hsorted hentry)) hrest hmore

theorem Serves.unit (h : r.Serves s) (hnumbered : r.design.arch.Numbered)
    (hunit : NamesUnit layout s t) : r.Serves t := by
  obtain ⟨entries, texts, named, sorted, written, middle, listed, pieces, hnames, -, hprocesses,
    hlisted, hcomponents⟩ := hunit
  have hmiddle : r.Serves middle := by
    have hlater := (h.nameAll hnumbered hnames).processes layout sorted
    rwa [hprocesses] at hlater
  have hsame := (sortedComponents_congr hmiddle.design).symm.trans hlisted
  exact hmiddle.components hsame List.drop_zero.symm hcomponents

end Renderer

section Clashes

variable (dialect : Dialect)

-- A word that no name may be.
def Reserved (reserved : List String) (word : String) : Prop :=
  ∃ other ∈ dialect.keywords ++ reserved,
    Scope.normalize dialect.ignoreCase other = Scope.normalize dialect.ignoreCase word

-- A word that someone is called by.
def Clashes (naming : Naming) (owners : List Owner) (word : String) : Prop :=
  ∃ owner ∈ owners, Scope.normalize dialect.ignoreCase (naming owner) =
    Scope.normalize dialect.ignoreCase word

end Clashes

-- What is known of the names at the end of a unit: who has which, and that each is free for what
-- its owner asked for.
structure Renderer.Accounts (r : Renderer) (dialect : Dialect) (reserved : List String)
    (naming : Naming) (owners : List Owner) (s : Renderer) : Prop where
  ignoreCase : s.scope.ignoreCase = dialect.ignoreCase
  fair : s.scope.Fair ((dialect.keywords ++ reserved).map (Scope.normalize dialect.ignoreCase))
  serves : s.scope.Serves r.Asks
  owners : (s.scope.given.map (·.1)).Perm owners
  agrees : s.Agrees naming

namespace Renderer.Accounts

variable {r s : Renderer} {dialect : Dialect} {reserved : List String} {naming : Naming}
  {owners : List Owner} {owner : Owner} {word candidate : String}

theorem exists_entry (h : r.Accounts dialect reserved naming owners s) (howner : owner ∈ owners) :
    ∃ entry ∈ s.scope.entries, entry.1.owner = owner ∧ naming owner = entry.2 := by
  obtain ⟨given, hgiven, rfl⟩ := List.mem_map.mp (h.owners.mem_iff.mpr howner)
  have hname := h.agrees given hgiven
  rw [Scope.given_eq_map_entries] at hgiven
  obtain ⟨entry, hentry, rfl⟩ := List.mem_map.mp hgiven
  exact ⟨entry, hentry, rfl, hname⟩

theorem not_reserved (h : r.Accounts dialect reserved naming owners s)
    (hword : Clashes dialect naming owners word) : ¬ Reserved dialect reserved word := by
  obtain ⟨owner, howner, hkey⟩ := hword
  obtain ⟨entry, hentry, rfl, hname⟩ := h.exists_entry howner
  rintro ⟨other, hother, hsame⟩
  have hgiven : (entry.1.owner, entry.2) ∈ s.scope.given := by
    rw [Scope.given_eq_map_entries]
    exact List.mem_map_of_mem hentry
  refine h.fair.free _ hgiven (List.mem_map.mpr ⟨other, hother, ?_⟩)
  rw [h.ignoreCase, hsame, ← hkey, hname]

theorem exists_asks (h : r.Accounts dialect reserved naming owners s)
    (hword : Clashes dialect naming owners word) :
    ∃ owner ∈ owners, ∃ candidate made, r.Asks owner candidate ∧
      Scope.MadeFrom candidate made ∧
      Scope.normalize dialect.ignoreCase made = Scope.normalize dialect.ignoreCase word := by
  obtain ⟨owner, howner, hkey⟩ := hword
  obtain ⟨entry, hentry, rfl, hname⟩ := h.exists_entry howner
  obtain ⟨hasks, hmade, -⟩ := h.serves entry hentry
  exact ⟨_, howner, entry.1.candidate, entry.2, hasks, hmade, hname ▸ hkey⟩

-- What someone asks for is in use, and if it is not reserved, somebody has it.
theorem clashes (h : r.Accounts dialect reserved naming owners s) (howner : owner ∈ owners)
    (hasks : r.Asks owner candidate)
    (hkey : Scope.normalize dialect.ignoreCase candidate =
      Scope.normalize dialect.ignoreCase word)
    (hfree : ¬ Reserved dialect reserved word) : Clashes dialect naming owners word := by
  obtain ⟨entry, hentry, rfl, -⟩ := h.exists_entry howner
  obtain ⟨hasked, -, hused⟩ := h.serves entry hentry
  obtain rfl := hasks.unique hasked
  rw [h.fair.used, h.ignoreCase] at hused
  rcases hused with hword | hgiven
  · obtain ⟨other, hother, hsame⟩ := List.mem_map.mp hword
    exact absurd ⟨other, hother, hsame.trans hkey⟩ hfree
  · obtain ⟨given, hmem, hsame⟩ := List.mem_map.mp hgiven
    refine ⟨given.1, h.owners.mem_iff.mp (List.mem_map_of_mem hmem), ?_⟩
    rw [h.agrees given hmem, hsame, hkey]

end Renderer.Accounts

open Renderer

-- A label of an enumeration stands in a unit as it is, and so do the attributes of a simulation
-- model: no scope is asked for them. Such a word is the name of something only if it is not
-- reserved and someone asks for it, or for what it is made from by a number. If someone asks for
-- it and it is not reserved, it is.
theorem clashes_of_architecture {design : Design} (hbuilt : design.arch.Built) {dialect : Dialect}
    {reserved : List String} {timeUnit text : String} {layout : Layout} {last : Renderer}
    (hok : (ofDesign dialect design timeUnit (dialect.baseScope reserved)).architecture layout =
      (.ok text, last)) :
    let r := ofDesign dialect design timeUnit (dialect.baseScope reserved)
    ∃ (naming : Naming) (types : List TypeId) (piece : UnitPiece), text = layout (.unit piece) ∧
      UnitWritten r naming layout types piece ∧
      (∀ id ∈ types, ∀ name labels, design.types.get? id = some (.enumeration name labels) →
        "TYPE " ++ naming (.type id) ++ " IS (" ++ String.intercalate ", " labels ++ ")" ∈
          piece.types) ∧
      ∀ word,
        (Clashes dialect naming (owners design.arch types) word →
          ¬ Reserved dialect reserved word ∧ ∃ owner ∈ owners design.arch types, ∃ candidate made,
            r.Asks owner candidate ∧ Scope.MadeFrom candidate made ∧
            Scope.normalize dialect.ignoreCase made = Scope.normalize dialect.ignoreCase word) ∧
        ∀ owner ∈ owners design.arch types, ∀ candidate, r.Asks owner candidate →
          Scope.normalize dialect.ignoreCase candidate =
            Scope.normalize dialect.ignoreCase word →
          ¬ Reserved dialect reserved word →
          Clashes dialect naming (owners design.arch types) word := by
  intro r
  let start := ofDesign dialect design timeUnit (dialect.baseScope reserved).push
  have hbody : (body layout start).1 = .ok text := congrArg Prod.fst hok
  have hstart : start.Orderly ((dialect.keywords ++ reserved).map
      (Scope.normalize dialect.ignoreCase)) := ⟨Scope.fair_baseScope dialect reserved, rfl, rfl⟩
  let named := (body layout start).2
  obtain ⟨types, hunit, horderly, hgives, hwritten⟩ := body_finished (r := r) hstart
    (fun _ => List.not_mem_nil) rfl rfl rfl hbuilt.numbered (Prod.ext hbody rfl)
  have hfirst : r.Serves start := ⟨rfl, nofun⟩
  obtain ⟨naming, hagrees⟩ := horderly.exists_agrees
  obtain ⟨piece, htext, hpiece⟩ := hwritten naming hagrees
  have haccounts : r.Accounts dialect reserved naming (owners design.arch types) named :=
    { ignoreCase := hgives.ignoreCase
      fair := horderly.fair
      serves := (hfirst.unit hbuilt.numbered hunit).scope
      owners := hgives.owners_perm.trans (.of_eq (List.append_nil _))
      agrees := hagrees }
  refine ⟨naming, types, piece, htext, hpiece, fun id hid name labels htype => ?_, fun word =>
    ⟨fun hword => ⟨haccounts.not_reserved hword, haccounts.exists_asks hword⟩,
      fun owner howner candidate hasks => haccounts.clashes howner hasks⟩⟩
  obtain ⟨line, hline, hdeclared⟩ := exists_mem_of_forall₂ hpiece.types.flip hid
  cases hdeclared with
  | enumeration hsame =>
      cases htype.symm.trans hsame
      exact hline
  | array _ _ hsame => cases htype.symm.trans hsame

-- A signal that is called like a label of its type, and a label that is a reserved word.

def idleSignals : Architecture :=
  ((Architecture.ofEntity ⟨1⟩ (Entity.ofName ⟨0⟩)).addSignal ⟨2⟩ ⟨0⟩ none).2

def idleArchitecture : Architecture := (idleSignals.addHidden ⟨3⟩ ⟨0⟩ (.signal ⟨0⟩)).2

theorem built_idleArchitecture : idleArchitecture.Built :=
  have hsignals : idleSignals.Built := .addSignal (.new _ (.new _)) ..
  .addHidden hsignals (if_pos (by decide))

def idleDesign : Design :=
  ⟨⟨#["top", "rtl", "Idle", "next"]⟩,
    ⟨⟨#[.enumeration (some "state") ["idle", "begin"]]⟩⟩, idleArchitecture⟩

def idleNaming : Naming
  | .type _ => "STATE"
  | .signal _ => "Idle"
  | .port _ | .process _ | .component _ => ""

def idlePiece : UnitPiece :=
  { entity := "top", architecture := "rtl", ports := [],
    types := ["TYPE " ++ "STATE" ++ " IS (" ++ String.intercalate ", " ["idle", "begin"] ++ ")"],
    signals := ["CONSTANT Idle : STATE"], connections := [], components := [], processes := [] }

-- A signal and a process that are called like what every simulation model has.

def namesakeSignals : Architecture :=
  ((Architecture.ofEntity ⟨1⟩ (Entity.ofName ⟨0⟩)).addSignal ⟨2⟩ ⟨0⟩ none).2

def namesakeDesign : Design :=
  ⟨⟨#["top", "rtl", "_connect", "__init__"]⟩, (TypeTable.empty.ofWidth 1).2,
    (namesakeSignals.addProcess ⟨3⟩ [] []).2⟩

theorem clashes_idleDesign :
    ((ofDesign .vhdl idleDesign "ns" (Dialect.vhdl.baseScope [])).architecture
      (Dialect.vhdl.layout "    ")).1 = .ok (Dialect.vhdl.layout "    " (.unit idlePiece)) ∧
    UnitWritten (ofDesign .vhdl idleDesign "ns" (Dialect.vhdl.baseScope [])) idleNaming
      (Dialect.vhdl.layout "    ") [⟨0⟩] idlePiece ∧
    Clashes .vhdl idleNaming (owners idleArchitecture [⟨0⟩]) "idle" ∧ Reserved .vhdl [] "begin" ∧
    ((ofDesign .simModel namesakeDesign "ns" (Dialect.simModel.baseScope [])).architecture
      (Dialect.simModel.layout "    ")).1 = .ok (Layout.joinLines
        ["class top(SimModel):",
         "    _name = \"top\"",
         "",
         "    def __init__(self, sim):",
         "        super().__init__(sim)",
         "        self._connect = mkSig(sim, \"_connect\", BIT, None)",
         "        self._processes = (self.__init__,)",
         "",
         "    def __init__(self, sim):",
         "        pass"]) := by
  refine ⟨by decide +kernel, ?_, ⟨.signal ⟨0⟩, by decide, by decide +kernel⟩,
    ⟨"begin", by decide, rfl⟩, by decide +kernel⟩
  exact {
    entity := rfl
    architecture := rfl
    ports := .nil
    types := .cons (.enumeration rfl) .nil
    signals := ⟨_, .refl _, .cons ⟨"STATE", none, by decide⟩ .nil⟩
    connections := ⟨[], [], [], .nil, .nil, .refl _, rfl⟩
    processes := ⟨_, .refl _, .nil⟩
    components := ⟨_, .refl _, .nil⟩ }

theorem clashes_roster :
    let r := ofDesign .vhdl idleDesign "ns" (Dialect.vhdl.baseScope [])
    ∃ (naming : Naming) (types : List TypeId) (piece : UnitPiece),
      "CONSTANT Idle : STATE" = roster (.unit piece) ∧ UnitWritten r naming roster types piece ∧
      (∀ id ∈ types, ∀ name labels, idleDesign.types.get? id = some (.enumeration name labels) →
        "TYPE " ++ naming (.type id) ++ " IS (" ++ String.intercalate ", " labels ++ ")" ∈
          piece.types) ∧
      ∀ word,
        (Clashes .vhdl naming (owners idleArchitecture types) word →
          ¬ Reserved .vhdl [] word ∧ ∃ owner ∈ owners idleArchitecture types, ∃ candidate made,
            r.Asks owner candidate ∧ Scope.MadeFrom candidate made ∧
            Scope.normalize true made = Scope.normalize true word) ∧
        ∀ owner ∈ owners idleArchitecture types, ∀ candidate, r.Asks owner candidate →
          Scope.normalize true candidate = Scope.normalize true word →
          ¬ Reserved .vhdl [] word → Clashes .vhdl naming (owners idleArchitecture types) word :=
  clashes_of_architecture built_idleArchitecture (Prod.ext (by decide +kernel) rfl)

end Rtl
