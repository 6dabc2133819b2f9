import Rtl.Proofs.Interface.Stems

namespace Rtl

open Forest

theorem Text.length_toLower (text : String) : text.toLower.length = text.length := by
  rw [← String.length_toList, toList_toLower, List.length_map, String.length_toList]

-- The text of the name of a signal.
def Design.signalText? (design : Design) (signal : SignalId) : Option String :=
  ((design.arch.signals.get? signal).map Signal.name).bind design.names.text?

-- Later signals and names leave the texts of earlier ones as they are.
def Design.Retains (before now : Design) : Prop :=
  ∀ signal text, before.signalText? signal = some text → now.signalText? signal = some text

theorem Design.Retains.trans {before now last : Design} (h : before.Retains now)
    (hnext : now.Retains last) : before.Retains last :=
  fun signal text htext => hnext signal text (h signal text htext)

theorem Arena.map_get?_modify {kind : Kind} {α β : Type} (arena : Arena kind α) (id : Id kind)
    {change : α → α} {f : α → β} (h : ∀ item, f (change item) = f item) (other : Id kind) :
    ((arena.modify id change).get? other).map f = (arena.get? other).map f := by
  simp only [get?, modify, Array.getElem?_modify]
  split
  · rw [Option.map_map]
    exact congrArg (Option.map · _) (funext h)
  · rfl

namespace Architecture

theorem name_setLeaf (arch : Architecture) (id : SignalId) (leaf : NodeId) (other : SignalId) :
    ((arch.setLeaf id leaf).signals.get? other).map Signal.name =
      (arch.signals.get? other).map Signal.name := by
  refine Arena.map_get?_modify _ _ ?_ _
  exact fun _ => rfl

theorem name_bindPort (arch : Architecture) (id : SignalId) (port : PortId) (other : SignalId) :
    ((arch.bindPort id port).signals.get? other).map Signal.name =
      (arch.signals.get? other).map Signal.name := by
  have hdriver (arch : Architecture) (driver : Driver) :
      ((arch.addDriver id driver).signals.get? other).map Signal.name =
        (arch.signals.get? other).map Signal.name := by
    refine Arena.map_get?_modify _ _ ?_ _
    exact fun _ => rfl
  have hreader (arch : Architecture) (reader : Reader) :
      ((arch.addReader id reader).signals.get? other).map Signal.name =
        (arch.signals.get? other).map Signal.name := by
    refine Arena.map_get?_modify _ _ ?_ _
    exact fun _ => rfl
  simp only [bindPort]
  cases arch.portDirection? port with
  | none => rfl
  | some direction =>
      cases direction with
      | input => rw [hdriver]
      | output => rw [hreader]
      | inout => rw [hreader, hdriver]

end Architecture

theorem Design.retains_addWire (design : Design) (name : String) (width : Nat) :
    design.Retains (design.addWire name width).2 ∧
      (design.addWire name width).2.signalText? (design.addWire name width).1 = some name := by
  let added (id : SignalId) : Signal :=
    { id, name := (design.names.intern name).1, type := (design.types.ofWidth width).1
      default := none, drivers := [], readers := [], hidden := false, origin := none, leaf := none }
  constructor
  · intro signal text htext
    obtain ⟨id, hname, htext⟩ := Option.bind_eq_some_iff.mp htext
    obtain ⟨found, hfound, rfl⟩ := Option.map_eq_some_iff.mp hname
    have hkept : (design.arch.signals.allocWith added).2.get? signal = some found :=
      Arena.get?_allocWith_iff.mpr (.inl hfound)
    have hlater : (design.addWire name width).2.arch.signals.get? signal = some found := hkept
    rw [signalText?, hlater]
    exact NameTable.text?_intern_of_text? htext name
  · have hnew : (design.addWire name width).2.arch.signals.get? (design.addWire name width).1 =
        some (added design.arch.signals.nextId) := Arena.get?_allocWith_self _ added
    rw [signalText?, hnew]
    exact design.names.text?_intern name

namespace Backing

-- The name that is asked for a leaf: that of the instance, and each member on the way
-- with the separator before it.
def requested (separator name : String) (path : List String) : String :=
  name ++ String.join (path.map (separator ++ ·))

theorem requested_nil (separator name : String) : requested separator name [] = name :=
  String.append_empty

theorem requested_snoc (separator name member : String) (path : List String) :
    requested separator name path ++ separator ++ member =
      requested separator name (path ++ [member]) := by
  simp [requested, String.join_append, String.append_assoc]

-- A leaf with a new signal of the name that is asked for.
structure Requests (separator name : String) (design : Design)
    (before after : List String × NodeState) : Prop where
  path : after.1 = before.1
  port : after.2.port = before.2.port
  signal : ∃ signal, after.2.signal = some signal ∧
    design.signalText? signal = some (requested separator name before.1)

theorem Requests.of_retains {separator name : String} {design later : Design}
    {before after : List String × NodeState} (h : Requests separator name design before after)
    (hlater : design.Retains later) : Requests separator name later before after := by
  obtain ⟨signal, hsignal, htext⟩ := h.signal
  exact ⟨h.path, h.port, signal, hsignal, hlater signal _ htext⟩

theorem requests_leaf (separator name : String) (path : List String) (id : NodeId)
    {state : NodeState} (design : Design) (h : state.signal = none) :
    design.Retains (leaf id (requested separator name path) state design).2.2 ∧
      Requests separator name (leaf id (requested separator name path) state design).2.2
        (path, state) (path, (leaf id (requested separator name path) state design).2.1) := by
  obtain ⟨hretains, hself⟩ :=
    design.retains_addWire (requested separator name path) state.width
  -- The tag and the port of a signal do not touch its name.
  have hsame (signal : SignalId) :
      (leaf id (requested separator name path) state design).2.2.signalText? signal =
        (design.addWire (requested separator name path) state.width).2.signalText? signal := by
    simp only [leaf, h]
    cases state.port with
    | none => exact congrArg (Option.bind · _) (Architecture.name_setLeaf ..)
    | some port =>
        exact congrArg (Option.bind · _)
          ((Architecture.name_bindPort ..).trans (Architecture.name_setLeaf ..))
  refine ⟨fun signal text htext => (hsame signal).trans (hretains signal text htext), rfl,
    port_leaf .., (design.addWire (requested separator name path) state.width).1, ?_, ?_⟩
  · simp only [leaf, h]
  · exact (hsame _).trans hself

-- All leaves below a node get signals whose names have the separator before each member.
theorem requests_members (separator name : String) (id : Nat) (path : List String)
    (forest : Forest NodeState) (design : Design)
    (h : ∀ leaf ∈ forest.leaves path, leaf.2.signal = none) :
    design.Retains (members separator id (requested separator name path) forest design).2.2 ∧
      List.Forall₂ (Requests separator name
          (members separator id (requested separator name path) forest design).2.2)
        (forest.leaves path)
        ((members separator id (requested separator name path) forest design).2.1.leaves path) := by
  induction forest generalizing id path design with
  | nil => exact ⟨fun _ _ htext => htext, .nil⟩
  | cons member state inner rest ihi ihr =>
      cases inner with
      | nil =>
          obtain ⟨hstate, hrest⟩ := List.forall_mem_cons.mp h
          obtain ⟨hfirst, hleaf⟩ :=
            requests_leaf separator name (path ++ [member]) ⟨id⟩ design hstate
          simp only [members, requested_snoc]
          obtain ⟨hlater, hleaves⟩ := ihr (id + 1) path _ hrest
          exact ⟨hfirst.trans hlater, .cons (hleaf.of_retains hlater) hleaves⟩
      | cons first item below beside =>
          obtain ⟨hinner, hrest⟩ := List.forall_mem_append.mp h
          obtain ⟨hwithin, hbelow⟩ := ihi (id + 1) (path ++ [member]) design hinner
          obtain ⟨hsize, -⟩ := members_keeps separator (id + 1)
            (requested separator name (path ++ [member])) (.cons first item below beside) design
          simp only [members, requested_snoc]
          obtain ⟨hlater, hleaves⟩ := ihr (id + 1 + (Forest.cons first item below beside).size)
            path _ hrest
          refine ⟨hwithin.trans hlater, ?_⟩
          generalize (members separator (id + 1) (requested separator name (path ++ [member]))
            (.cons first item below beside) design).2.1 = changed at hbelow hsize ⊢
          obtain ⟨_, _, _, _, rfl⟩ := exists_cons_of_size_eq hsize
          exact List.rel_append (hbelow.imp fun _ _ hleaf => hleaf.of_retains hlater) hleaves

-- The same for an instance as a whole.
theorem exists_materialize_requests {synth : Synthesizer} {root : NodeId}
    {spot : Spot NodeState} (hspot : synth.node? root = some spot) (habove : spot.above = [])
    (hunsigned : ∀ leaf ∈ spot.leaves, leaf.2.signal = none) (name : String) (design : Design) :
    ∃ signals made last after, synth.materialize root name design = some (signals, made, last) ∧
      made.node? root = some after ∧
      List.Forall₂ (Requests synth.separator name last) spot.leaves after.leaves := by
  obtain ⟨above, found, state, inner⟩ := spot
  simp only at habove
  subst habove
  simp only [Synthesizer.materialize, hspot]
  cases inner with
  | nil =>
      have hstate : state.signal = none := hunsigned _ List.mem_cons_self
      obtain ⟨-, hleaf⟩ := requests_leaf synth.separator name [] root design hstate
      rw [requested_nil] at hleaf
      exact ⟨_, _, _, _, rfl, spot?_update_self hspot, .cons hleaf .nil⟩
  | cons first item below beside =>
      obtain ⟨-, hleaves⟩ := requests_members synth.separator name (root.index + 1) []
        (.cons first item below beside) design hunsigned
      obtain ⟨hsize, -⟩ := members_keeps synth.separator (root.index + 1) name
        (.cons first item below beside) design
      rw [requested_nil] at hleaves
      refine ⟨_, _, _, _, rfl, spot?_update_self hspot, ?_⟩
      generalize members synth.separator (root.index + 1) name (.cons first item below beside)
        design = result at hleaves hsize ⊢
      obtain ⟨signals, changed, last⟩ := result
      obtain ⟨_, _, _, _, rfl⟩ := exists_cons_of_size_eq hsize
      exact hleaves

theorem length_requested (separator name : String) (path : List String) :
    (requested separator name path).length =
      name.length + path.length * separator.length + (String.join path).length := by
  induction path generalizing name with
  | nil => simp [requested]
  | cons member rest ih =>
      have hcons : requested separator name (member :: rest) =
          requested separator (name ++ separator ++ member) rest := by
        simp [requested, String.join_cons, String.append_assoc]
      rw [hcons, ih]
      simp only [String.length_append, List.length_cons, String.join_cons, Nat.add_mul]
      omega

-- Behind a stem that ends with the separator the names agree for the members of the
-- instance itself, and for others only if the separator is empty.
theorem requested_eq_iff_direct (separator name : String) (path : List String) :
    (requested separator name path).toLower =
        (name ++ separator ++ String.join path).toLower ↔
      separator = "" ∨ path.length = 1 := by
  constructor
  · intro h
    have hlength := congrArg String.length h
    simp only [Text.length_toLower, length_requested, String.length_append] at hlength
    have hproduct : path.length * separator.length = 1 * separator.length := by omega
    by_cases hempty : separator.length = 0
    · exact .inl (String.length_eq_zero_iff.mp hempty)
    · exact .inr (Nat.eq_of_mul_eq_mul_right (Nat.pos_of_ne_zero hempty) hproduct)
  · rintro (rfl | hone)
    · simp [requested]
    · obtain ⟨member, rfl⟩ := List.length_eq_one_iff.mp hone
      simp [requested, String.join_cons, String.append_assoc]

-- Behind another stem they do for the instance itself only, if that is a leaf.
theorem requested_eq_iff_whole (separator name : String) (path : List String) :
    (requested separator name path).toLower = (name ++ String.join path).toLower ↔
      separator = "" ∨ path = [] := by
  constructor
  · intro h
    have hlength := congrArg String.length h
    simp only [Text.length_toLower, length_requested, String.length_append] at hlength
    have hproduct : path.length * separator.length = 0 := by omega
    obtain hpath | hempty := Nat.mul_eq_zero.mp hproduct
    · exact .inr (List.length_eq_zero_iff.mp hpath)
    · exact .inl (String.length_eq_zero_iff.mp hempty)
  · rintro (rfl | rfl)
    · simp [requested]
    · simp [requested]

end Backing

namespace Synthesizer

open Backing

-- What a found instance asks for when it is materialized under its name: a signal for
-- each leaf, called by the instance and the members down to the leaf, each with the
-- separator before it. The port of the leaf is called by the stem and the members with
-- nothing between them. So under a stem that ends with the separator the names of both
-- are one, up to case, for the members of the instance itself and, unless the separator
-- is empty, for no others. Under another stem they are for an instance that is a leaf.
theorem materialize_names_extractAll {synth next later : Synthesizer} {claims now : Claims}
    {cls : InterfaceClass} {found : List (String × NodeId)}
    (h : synth.extractAll cls claims = (.ok found, next, now)) {name : String} {root : NodeId}
    (hmem : (name, root) ∈ found) (hlater : later.node? root = next.node? root)
    (hseparator : later.separator = synth.separator) (design : Design) :
    ∃ first stem spot, (synth.template cls).1.firstMember = .ok first ∧
      name = synth.instanceName stem ∧ next.node? root = some spot ∧
      FoundUnder claims first stem spot ∧
      ∃ signals made last after,
        later.materialize root name design = some (signals, made, last) ∧
        made.node? root = some after ∧
        List.Forall₂ (fun leaf made => made.1 = leaf.1 ∧ made.2.port = leaf.2.port ∧
          ∃ port entry signal text, leaf.2.port = some port ∧
            claims.ports.get? port = some entry ∧
            entry.name.toLower = (stem ++ String.join leaf.1).toLower ∧
            made.2.signal = some signal ∧ last.signalText? signal = some text ∧
            text = name ++ String.join (leaf.1.map (synth.separator ++ ·)) ∧
            (synth.separator.toList <:+ stem.toList →
              (text.toLower = entry.name.toLower ↔
                synth.separator = "" ∨ leaf.1.length = 1)) ∧
            (¬ synth.separator.toList <:+ stem.toList →
              (text.toLower = entry.name.toLower ↔ leaf.1 = [])))
          spot.leaves after.leaves := by
  obtain ⟨first, stems, hfirst, hstems, -⟩ := exists_stems_extractAll h
  obtain ⟨stem, -, hname, spot, hspot, hunder⟩ := exists_mem_of_forall₂ hstems.flip hmem
  obtain ⟨signals, made, last, after, hmade, hafter, hleaves⟩ :=
    exists_materialize_requests (hlater.trans hspot) hunder.above hunder.unsigned name design
  replace hname : name = synth.instanceName stem := hname
  rw [hseparator] at hleaves
  refine ⟨first, stem, spot, hfirst, hname, hspot, hunder, signals, made, last, after, hmade,
    hafter, forall₂_of_forall_mem hleaves fun leaf hleaf made hrequests => ?_⟩
  obtain ⟨port, hport, entry, hentry, -, hlower⟩ := hunder.leaves leaf hleaf
  obtain ⟨signal, hsignal, htext⟩ := hrequests.signal
  refine ⟨hrequests.path, hrequests.port, port, entry, signal, _, hport, hentry, hlower, hsignal,
    htext, rfl, fun hsuffix => ?_, fun hshort => ?_⟩
  · have hstem : stem = name ++ synth.separator :=
      hname ▸ (synth.instanceName_cases stem).resolve_right fun hlong => hlong.2 hsuffix
    rw [hlower, hstem]
    exact requested_eq_iff_direct ..
  · have hstem : name = stem := by
      refine hname.trans ((synth.instanceName_cases stem).resolve_left fun heq => hshort ?_).1
      rw [heq, String.toList_append]
      exact List.suffix_append _ _
    have hseparator : synth.separator ≠ "" := by
      intro hempty
      rw [hempty] at hshort
      exact hshort (List.nil_suffix)
    rw [hlower, ← hstem]
    exact (requested_eq_iff_whole ..).trans (or_iff_right hseparator)

def control : InterfaceClass :=
  .mk "control" [] [.leaf "en" .output 1, .nested "b" .output (.mk "data" [] [.leaf "x" .output 8])]

def controlPorts : Claims := .ofPorts [("p_en", .output), ("p_bx", .output)]

def noSignals : Design := ⟨.empty, .empty, .ofEntity ⟨0⟩ (.ofName ⟨0⟩)⟩

theorem materialize_names_control :
    ∃ next now, (ofSeparator "_").extractAll control controlPorts =
        (.ok [("p", ⟨0⟩)], next, now) ∧
      ∃ signals made last after,
        next.materialize ⟨0⟩ "p" noSignals = some (signals, made, last) ∧
        made.node? ⟨0⟩ = some after ∧
        ∀ leaf ∈ after.leaves, ∃ signal, leaf.2.signal = some signal ∧
          last.signalText? signal = some ("p" ++ String.join (leaf.1.map ("_" ++ ·))) := by
  rcases hextract : (ofSeparator "_").extractAll control controlPorts with ⟨outcome, next, now⟩
  have hfound : ((ofSeparator "_").extractAll control controlPorts).1 = .ok [("p", ⟨0⟩)] := by
    decide +kernel
  rw [hextract] at hfound
  obtain rfl : outcome = .ok [("p", ⟨0⟩)] := hfound
  obtain ⟨added, hextracts, -⟩ := extracts_extractAll hextract
  have hseparator : next.separator = "_" := congrArg Synthesizer.separator hextracts.nodes
  obtain ⟨_, _, _, -, -, -, -, signals, made, last, after, hmade, hafter, hleaves⟩ :=
    materialize_names_extractAll hextract List.mem_cons_self rfl hseparator noSignals
  refine ⟨next, now, rfl, signals, made, last, after, hmade, hafter, ?_⟩
  refine forall_mem_of_forall₂ hleaves.flip ?_
  rintro leaf before ⟨hpath, -, _, _, signal, _, -, -, -, hsignal, htext, rfl, -⟩
  exact ⟨signal, hsignal, hpath ▸ htext⟩

-- The port of a nested member has no separator inside, its signal has one.
theorem signalTexts_control :
    controlPorts.candidate? ⟨0⟩ "en" = some "p_" ∧
      ((ofSeparator "_").extractAll control controlPorts).1 = .ok [("p", ⟨0⟩)] ∧
      ((ofSeparator "_").extractAll control controlPorts).2.2.owners = [some ⟨1⟩, some ⟨3⟩] ∧
      (((ofSeparator "_").extractAll control controlPorts).2.1.materialize ⟨0⟩ "p" noSignals).map
        (fun result => result.1.map result.2.2.signalText?) = some [some "p_en", some "p_b_x"] ∧
      "p_b_x".toLower ≠ "p_bx".toLower := by
  decide +kernel

end Synthesizer

end Rtl
