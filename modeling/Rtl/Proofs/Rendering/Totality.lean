import Rtl.Proofs.Rendering.Reports

namespace Rtl

variable {allowed : Nat → Prop}

theorem Design.InRange.nameable {design : Design} (h : design.InRange allowed) :
    design.Nameable where
  portNames port hport := (h.ports port hport).1
  portTypes port hport := (h.ports port hport).2
  signalNames signal hsignal := (h.signals signal (List.mem_of_mem_filter hsignal)).2.1
  signalTypes signal hsignal := (h.signals signal (List.mem_of_mem_filter hsignal)).2.2
  elements := h.types.closed

theorem Dialect.reports_signalDeclaration (dialect : Dialect) (declaration : SignalDeclaration) :
    Reports allowed (dialect.signalDeclaration declaration) := by
  cases dialect with
  | simModel => exact .ok _
  | vhdl =>
      obtain ⟨name, type, default, kind⟩ := declaration
      cases kind with
      | none => exact .error trivial
      | some kind =>
          exact .of_exists (Renderer.exists_signalDeclaration .vhdl name type default kind)

namespace Renderer

open Pass

variable {r s : Renderer} {layout : Layout} {entries : List (PortId × PortPiece)}

-- The names by which things are sorted are there.
theorem exists_sortedProcesses (h : r.design.InRange allowed) :
    ∃ sorted, r.sortedProcesses = .ok sorted := by
  obtain ⟨named, hnamed⟩ := exists_named r fun process hprocess =>
    Design.hasName_iff.mp (h.processes process hprocess).2.1
  exact ⟨_, bind_eq_ok.mpr ⟨named, hnamed, rfl⟩⟩

theorem exists_sortedComponents (h : r.design.InRange allowed) :
    ∃ sorted, r.sortedComponents = .ok sorted ∧
      ∀ entry ∈ sorted, entry.2 ∈ r.design.arch.components := by
  obtain ⟨named, hnamed⟩ := exists_named r fun component hcomponent =>
    Design.hasName_iff.mp (h.components component hcomponent).1
  refine ⟨_, bind_eq_ok.mpr ⟨named, hnamed, rfl⟩, fun entry hentry => ?_⟩
  rw [← map_snd_of_named hnamed]
  exact List.mem_map_of_mem ((perm_sortBy ..).mem_iff.mp hentry)

theorem exists_shownSignals_of_inRange (h : r.design.InRange allowed) :
    ∃ shown, r.shownSignals = .ok shown ∧
      ∀ entry ∈ shown, entry.2 ∈ r.design.arch.signals.toList := by
  obtain ⟨named, hnamed⟩ := exists_named r fun signal hsignal =>
    Design.hasName_iff.mp (h.signals signal (List.mem_of_mem_filter hsignal)).2.1
  have hshown : r.shownSignals = .ok (sortBy (·.1) textLe named) :=
    bind_eq_ok.mpr ⟨named, hnamed, rfl⟩
  refine ⟨_, hshown, fun entry hentry => ?_⟩
  exact List.mem_of_mem_filter
    ((perm_of_shownSignals hshown).mem_iff.mp (List.mem_map_of_mem hentry))

theorem reports_defaultText (h : r.design.InRange allowed) {signal : Signal}
    (hsignal : signal ∈ r.design.arch.signals.toList) :
    Reports allowed (r.defaultText signal.default) := by
  rw [defaultText.eq_def]
  split
  · rename_i value hdefault
    split
    · exact (reports_valueText h.types (h.defaults signal hsignal value hdefault)).map
    · exact .ok _
  · exact .ok _

theorem reports_declareSignal (h : r.design.InRange allowed) {id : SignalId}
    (hid : r.design.arch.hasSignal id = true) : Reports allowed (r.declareSignal id) := by
  refine .bind_exists (exists_signal hid) fun signal hsignal => ?_
  have hmem := Arena.mem_toList_of_get? (signal_eq_ok.mp hsignal)
  refine .bind_exists (exists_ownName h hid) fun name _ => ?_
  refine .bind_exists (exists_mention (h.signals signal hmem).2.2) fun type _ => ?_
  exact (reports_defaultText h hmem).bind fun default _ => r.dialect.reports_signalDeclaration _

theorem reports_bindingNames (h : r.design.InRange allowed) {binding : PortId × SignalId}
    (hfiled : binding.1 ∈ entries.map (·.1))
    (hport : r.design.arch.entity.ports.contains binding.1 = true)
    (hsignal : r.design.arch.hasSignal binding.2 = true) :
    Reports allowed (r.bindingNames entries binding) := by
  rw [bindingNames]
  split
  · rename_i hnone
    exact absurd hfiled (portName?_eq_none_iff.mp hnone)
  · refine .bind_exists (exists_ownName h hsignal) fun name _ => ?_
    have hget := Array.getElem?_eq_getElem (of_decide_eq_true hport)
    split
    · rename_i hnone
      cases (Option.map_eq_none_iff.mp hnone).symm.trans hget
    · exact .ok _
    · exact .ok _
    · exact .error trivial

theorem reports_connectionTexts (h : r.design.InRange allowed)
    (hfiled : entries.map (·.1) = r.design.arch.entity.ports.toList.map Port.id) :
    Reports allowed (r.connectionTexts entries) := by
  have hlinks : Reports allowed (r.design.arch.connections.mapM r.connectionNames) := by
    refine .mapM fun link hlink => ?_
    obtain ⟨hdestination, hsource⟩ := h.connections link hlink
    refine .bind_exists (exists_ownName h hdestination) fun _ _ => ?_
    exact .bind_exists (exists_ownName h hsource) fun _ _ => .ok _
  have hbindings : Reports allowed
      (r.design.arch.portBindings.mapM (r.bindingNames entries)) := by
    refine .mapM fun binding hbinding => ?_
    obtain ⟨⟨port, hport, hid⟩, hplace, hsignal⟩ := h.bindings binding hbinding
    refine reports_bindingNames h ?_ hplace hsignal
    rw [hfiled, ← hid]
    exact List.mem_map_of_mem hport
  exact hlinks.bind fun _ _ => hbindings.bind fun _ _ => .ok _

theorem reports_preamble (h : r.design.InRange allowed)
    (hfiled : entries.map (·.1) = r.design.arch.entity.ports.toList.map Port.id)
    (types : List String) : Reports allowed (r.preamble entries types) := by
  obtain ⟨shown, hshown, hmem⟩ := exists_shownSignals_of_inRange h
  refine .bind_exists ⟨shown, hshown⟩ fun _ hsame => ?_
  obtain rfl := Except.ok.inj (hshown.symm.trans hsame)
  refine (Reports.mapM fun entry hentry => ?_).bind fun _ _ => ?_
  · exact reports_declareSignal h (h.signals entry.2 (hmem entry hentry)).1
  · exact (reports_connectionTexts h hfiled).bind fun _ _ => .ok _

theorem reports_process (h : r.design.InRange allowed) {id : ProcessId}
    (hid : r.design.arch.processes.contains id = true) :
    Reports allowed ((process layout id).outcome r) := by
  rw [outcome_process]
  have hfound : ∃ found, r.findProcess id = .ok found :=
    ⟨_, findProcess_eq_ok.mpr (Array.getElem?_eq_getElem (of_decide_eq_true hid))⟩
  refine .bind_exists hfound fun found hprocess => ?_
  have hmem := Arena.mem_toList_of_get? (findProcess_eq_ok.mp hprocess)
  obtain ⟨-, hname, hsensitivity⟩ := h.processes found hmem
  refine .bind_exists (exists_text hname) fun candidate _ => ?_
  have hnext : (r.checkedName (.process id) candidate).2.design.InRange allowed := h
  refine Reports.bind ?_ fun _ _ => .ok _
  refine (Reports.mapM fun id hsignal => ?_).bind fun _ _ => ?_
  · exact .of_exists (exists_ownName hnext (hsensitivity id hsignal))
  · refine (reports_statements fun s hs => ?_).bind fun _ _ => .ok _
    exact reports_statement hnext (h.bodies found hmem s hs)

theorem reports_processes {sorted : List Process} (h : r.design.InRange allowed)
    (hsorted : ∀ process ∈ sorted, r.design.arch.processes.contains process.id = true) :
    Reports allowed ((processes layout sorted).outcome r) := by
  induction sorted generalizing r with
  | nil => exact .ok _
  | cons first rest ih =>
      obtain ⟨hid, hrest⟩ := List.forall_mem_cons.mp hsorted
      rw [outcome_processes_cons]
      refine (reports_process h hid).bind fun ⟨text, next⟩ hprocess => ?_
      have hdesign := ((enters_process layout first.id).of_outcome hprocess).design
      exact (ih (hdesign ▸ h) (hdesign ▸ hrest)).bind fun _ _ => .ok _

theorem reports_components {sorted : List (String × Component)} (h : r.design.InRange allowed)
    (hsorted : ∀ entry ∈ sorted, entry.2 ∈ r.design.arch.components) (position : Nat) :
    Reports allowed ((components position sorted).outcome r) := by
  induction sorted generalizing r position with
  | nil => exact .ok _
  | cons first rest ih =>
      obtain ⟨candidate, component⟩ := first
      obtain ⟨hfirst, hrest⟩ := List.forall_mem_cons.mp hsorted
      obtain ⟨-, hentity, hports⟩ := h.components component hfirst
      have hnext : (r.checkedName (.component position) candidate).2.design.InRange allowed := h
      rw [outcome_components_cons]
      refine (Reports.mapM fun entry hentry => ?_).bind fun _ _ => ?_
      · obtain ⟨hport, hsignal⟩ := hports entry hentry
        refine .bind_exists (exists_text hport) fun _ _ => ?_
        exact .bind_exists (exists_ownName hnext hsignal) fun _ _ => .ok _
      · refine .bind_exists (exists_text hentity) fun _ _ => ?_
        exact (ih hnext hrest (position + 1)).bind fun _ _ => .ok _

theorem reports_unitText (h : r.design.InRange allowed) (preamble : Preamble)
    (processes : List String) :
    Reports allowed ((unitText layout preamble processes).outcome r) := by
  obtain ⟨sorted, hsorted, hmem⟩ := exists_sortedComponents h
  rw [outcome_unitText, hsorted]
  refine (reports_components h hmem 0).bind fun ⟨pieces, s⟩ hpieces => ?_
  have hdesign : s.design = r.design := ((enters_components 0 sorted).of_outcome hpieces).design
  refine .bind_exists (exists_text ?_) fun _ _ => .bind_exists (exists_text ?_) fun _ _ => .ok _
  · exact hdesign ▸ h.entity
  · exact hdesign ▸ h.name

theorem reports_writeUnit (h : r.design.InRange allowed)
    (hfiled : entries.map (·.1) = r.design.arch.entity.ports.toList.map Port.id)
    (types : List String) : Reports allowed ((writeUnit layout entries types).outcome r) := by
  obtain ⟨sorted, hsorted⟩ := exists_sortedProcesses h
  rw [outcome_writeUnit, hsorted]
  refine (reports_preamble h hfiled types).bind fun preamble _ => ?_
  have hprocesses : Reports allowed ((processes layout sorted).outcome r) := by
    refine reports_processes h fun process hprocess => ?_
    exact (h.processes process ((perm_of_sortedProcesses hsorted).mem_iff.mp hprocess)).1
  refine hprocesses.bind fun ⟨texts, next⟩ hwritten => ?_
  have hdesign := ((enters_processes layout sorted).of_outcome hwritten).design
  exact reports_unitText (hdesign ▸ h) ..

theorem reports_body (h : r.design.InRange allowed) :
    Reports allowed ((body layout).outcome r) := by
  obtain ⟨entries, types, named, hnames⟩ := exists_nameAll_of_acyclic h.types.acyclic h.nameable
  obtain ⟨hfiled, -⟩ := shown_of_nameAll hnames
  have hdesign := design_nameAll hnames
  rw [outcome_body, hnames]
  rw [← hdesign] at h hfiled
  exact reports_writeUnit h hfiled types

-- The width of a constant is checked before its only bit is asked for.
theorem get?_zero_of_valueText {value : Value} {vector : LogicVec} {text : String}
    (hpayload : value.payload = .bits vector) (htype : r.design.types.get? value.type = some .bit)
    (hok : r.valueText value = .ok text) : vector.get? 0 = some (vector.bit 0) := by
  have hwidth {width : Option Nat} (h : r.design.types.bitWidth? value.type = some width) :
      width = some 1 := by
    rw [TypeTable.bitWidth?] at h
    cases hsize : r.design.types.size with
    | zero =>
        rw [hsize] at h
        cases h
    | succ depth =>
        rw [hsize, TypeTable.widthWithin, htype] at h
        exact (Option.some.inj h).symm
  simp only [valueText, hpayload, bind_eq_ok] at hok
  obtain ⟨_, -, hok⟩ := hok
  split at hok
  · cases hok
  · rename_i width hfound
    split at hok
    · rename_i hfits
      have hone : vector.width = 1 := Option.some.inj (hfits.symm.trans (hwidth hfound))
      rw [LogicVec.get?, hone, if_pos Nat.one_pos]
    · obtain ⟨_, -, hok⟩ := bind_eq_ok.mp hok
      cases hok

end Renderer

open Pass Renderer

-- A design that is in range is written, or it is reported why it is not, whatever was written
-- before. No part of it is asked for that is not there; nothing else stands in the way than a bit
-- string of too many digits, which a constant or a test takes.
theorem architecture_reports {r : Renderer} (h : r.design.InRange allowed) (layout : Layout) :
    ((∃ text, (r.architecture layout).1 = .ok text) ∨
      (∃ construct, (r.architecture layout).1 = .error (.unsupported construct)) ∨
      (∃ cause, (r.architecture layout).1 = .error (.mismatch cause)) ∨
      ∃ count, (r.architecture layout).1 = .error (.tooManyDigits count) ∧ allowed count ∧
        LogicVec.maxHexDigits < count) ∧
    ∀ value vector text, value.payload = .bits vector →
      r.design.types.get? value.type = some .bit → r.valueText value = .ok text →
      vector.get? 0 = some (vector.bit 0) := by
  refine ⟨?_, fun value vector text => get?_zero_of_valueText⟩
  have hreports : Reports allowed ((body layout).outcome r.opened) := reports_body h
  rw [architecture_eq]
  cases houtcome : (body layout r.opened).1 with
  | ok text => exact .inl ⟨text, rfl⟩
  | error cause =>
      have hcause := hreports.reported cause (outcome_eq_error.mpr houtcome)
      cases cause with
      | unsupported construct => exact .inr (.inl ⟨construct, rfl⟩)
      | mismatch cause => exact .inr (.inr (.inl ⟨cause, rfl⟩))
      | missing part => exact absurd hcause id
      | tooManyDigits count => exact .inr (.inr (.inr ⟨count, rfl, hcause⟩))

-- A lamp whose level is taken from a hidden signal, which stands for a choice.

def lampLevel (level : Nat) : Expr := .literal ⟨⟨1⟩, .bits (.ofNat level 8)⟩

def lampChoice : Expr := .apply .ternary [.signal ⟨0⟩, .signal ⟨1⟩, lampLevel 255] ⟨1⟩

def lampStep : Statement :=
  .branch ⟨0⟩ [.signal ⟨0⟩] [.assign ⟨1⟩ ⟨1⟩ (.signal ⟨2⟩) none false] []
    [.assign ⟨2⟩ ⟨1⟩ (lampLevel 0) none false]

def lamp : Architecture :=
  let entity := ((Entity.ofName ⟨0⟩).addPort ⟨1⟩ .input ⟨0⟩).2
  let named := ((Architecture.ofEntity ⟨0⟩ entity).addSignal ⟨2⟩ ⟨0⟩ none).2
  let levelled := (named.addSignal ⟨3⟩ ⟨1⟩ (some ⟨⟨1⟩, .bits (.ofNat 15 8)⟩)).2
  let choosing := (levelled.addHidden ⟨4⟩ ⟨1⟩ lampChoice).2
  ((choosing.addProcess ⟨5⟩ [⟨0⟩] [lampStep]).2).bindPort ⟨0⟩ ⟨0⟩

def lampDesign : Design :=
  ⟨⟨#["lamp", "on", "is_on", "level", "choice", "dim"]⟩, ⟨⟨#[.bit, .vector 8]⟩⟩, lamp⟩

theorem inRange_lampLevel (level : Nat) :
    Value.InRange lampDesign (· ≤ LogicVec.maxHexDigits) ⟨⟨1⟩, .bits (.ofNat level 8)⟩ where
  type := rfl
  digits := by
    rintro vector type hpayload - - - - -
    obtain rfl := Payload.bits.inj hpayload
    exact (by decide : 8 / 4 ≤ LogicVec.maxHexDigits)

theorem tested_lampSwitch :
    Expr.Tested lampDesign (· ≤ LogicVec.maxHexDigits) (.signal ⟨0⟩) := by
  intro width signedness force htype
  obtain ⟨rfl, -, -⟩ := HwType.bits.inj (Option.some.inj htype)
  exact nofun

theorem inRange_lampChoice :
    lampChoice.InRange lampDesign (· ≤ LogicVec.maxHexDigits) 2 := by
  refine .apply rfl ?_ ?_
  · refine List.forall_mem_cons.mpr ⟨.signal (by decide), ?_⟩
    refine List.forall_mem_cons.mpr ⟨.signal (by decide), ?_⟩
    exact List.forall_mem_singleton.mpr (.literal (inRange_lampLevel 255))
  · rintro - test ⟨⟩
    exact tested_lampSwitch

theorem inRange_lampStep : lampStep.InRange lampDesign (· ≤ LogicVec.maxHexDigits) := by
  refine .branch ?_ ?_ nofun nofun ?_
  · exact List.forall_mem_singleton.mpr ⟨.signal (by decide), tested_lampSwitch⟩
  · exact List.forall_mem_singleton.mpr (.assign rfl (.signal (by decide)))
  · exact List.forall_mem_singleton.mpr (.assign rfl (.literal (inRange_lampLevel 0)))

theorem inRange_lampDesign : lampDesign.InRange (· ≤ LogicVec.maxHexDigits) where
  types := TypeTable.ascending_iff.mpr (by decide)
  entity := rfl
  name := rfl
  ports := by decide
  signals := by decide
  defaults := by
    refine List.forall_mem_cons.mpr ⟨nofun, List.forall_mem_cons.mpr ⟨?_, ?_⟩⟩
    · rintro value ⟨⟩
      exact inRange_lampLevel 15
    · exact List.forall_mem_singleton.mpr nofun
  origins := by
    refine List.forall_mem_cons.mpr ⟨nofun, List.forall_mem_cons.mpr ⟨nofun, ?_⟩⟩
    refine List.forall_mem_singleton.mpr ?_
    rintro origin ⟨⟩
    exact inRange_lampChoice
  processes := by decide
  bodies := List.forall_mem_singleton.mpr (List.forall_mem_singleton.mpr inRange_lampStep)
  connections := nofun
  bindings := by decide
  components := nofun

-- No constant of it and no test takes too many digits.
theorem architecture_lampDesign :
    let r := ofDesign .simModel lampDesign "ns" (Dialect.simModel.baseScope [])
    let outcome := (r.architecture (Dialect.simModel.layout "    ")).1
    (∃ text, outcome = .ok text) ∨ (∃ construct, outcome = .error (.unsupported construct)) ∨
      ∃ cause, outcome = .error (.mismatch cause) := by
  intro r outcome
  have h := (architecture_reports (r := r) inRange_lampDesign (Dialect.simModel.layout "    ")).1
  refine h.imp_right (Or.imp_right fun hlast => ?_)
  rcases hlast with hmismatch | ⟨count, -, hfits, hlarge⟩
  · exact hmismatch
  · exact absurd hfits (Nat.not_le.mpr hlarge)

-- A test of so many bits that its zeros cannot be written.

def broadUnit : Design :=
  ⟨⟨#["top", "big", "test"]⟩, broadDesign.types,
    (broadDesign.arch.addProcess ⟨2⟩ [⟨0⟩] [broadStep]).2⟩

theorem architecture_broadUnit :
    broadUnit.InRange (fun _ => True) ∧
    ((ofDesign .vhdl broadUnit "ns" (Dialect.vhdl.baseScope [])).architecture
      (Dialect.vhdl.layout "    ")).1 = .error (.tooManyDigits 65536) := by
  refine ⟨?_, by decide +kernel⟩
  exact
    { types := TypeTable.ascending_iff.mpr (by decide)
      entity := rfl
      name := rfl
      ports := nofun
      signals := by decide
      defaults := List.forall_mem_singleton.mpr nofun
      origins := List.forall_mem_singleton.mpr nofun
      processes := by decide
      bodies := by
        refine List.forall_mem_singleton.mpr (List.forall_mem_singleton.mpr ?_)
        refine .branch (List.forall_mem_singleton.mpr ?_) nofun nofun nofun nofun
        exact ⟨.signal (by decide), fun _ _ _ _ _ _ => trivial⟩
      connections := nofun
      bindings := nofun
      components := nofun }

end Rtl
