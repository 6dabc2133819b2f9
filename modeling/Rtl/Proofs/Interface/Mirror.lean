import Rtl.Proofs.Interface.Forests
import Rtl.Proofs.Interface.Maximality

namespace Rtl

-- A direction with a flow agrees with another one exactly if its opposite does not.
theorem Direction.opposite_eq_iff {a b : Direction} (ha : a ≠ .inout) (hb : b ≠ .inout) :
    a.opposite = b ↔ a ≠ b := by
  cases a <;> cases b <;> simp_all [opposite]

theorem Forest.map_append {α β : Type} (f : α → β) (front back : Forest α) :
    (front.append back).map f = (front.map f).append (back.map f) := by
  induction front with
  | nil => rfl
  | cons name item inner rest _ ih => simp only [append, map, ih]

theorem Side.opposite_beq_master (side : Side) :
    (side.opposite == .master) = !(side == .master) := by
  cases side <;> rfl

namespace Claims

-- The same table for the same ports turned around.
def mirrored (claims : Claims) : Claims :=
  { claims with ports := ⟨claims.ports.items.map fun port =>
      { port with direction := port.direction.opposite }⟩ }

-- The names and directions of the ports, which no claim changes.
def listing (claims : Claims) : List (String × Direction) :=
  claims.ports.toList.map fun port => (port.name, port.direction)

theorem mirrored_ofPorts (ports : List (String × Direction)) :
    (ofPorts ports).mirrored =
      ofPorts (ports.map fun (name, direction) => (name, direction.opposite)) := by
  simp [mirrored, ofPorts, Function.comp_def]

theorem listing_ofPorts (ports : List (String × Direction)) : (ofPorts ports).listing = ports := by
  simp [listing, ofPorts, Arena.toList, Function.comp_def]

theorem get?_mirrored (claims : Claims) (port : PortId) :
    claims.mirrored.ports.get? port =
      (claims.ports.get? port).map fun port =>
        { port with direction := port.direction.opposite } := by
  simp [mirrored, Arena.get?]

theorem entries_mirrored (claims : Claims) :
    claims.mirrored.ports.entries =
      claims.ports.entries.map fun (id, port) =>
        (id, { port with direction := port.direction.opposite }) := by
  apply List.ext_getElem?
  intro index
  rw [Arena.getElem?_entries, get?_mirrored, List.getElem?_map, Arena.getElem?_entries]
  simp only [Option.map_map, Function.comp_def]

theorem findUnclaimed_mirrored (claims : Claims) (name : String) :
    claims.mirrored.findUnclaimed name = claims.findUnclaimed name := by
  simp only [findUnclaimed, entries_mirrored, List.filterMap_map, Function.comp_def]

theorem candidate?_mirrored (claims : Claims) (port : PortId) (ending : String) :
    claims.mirrored.candidate? port ending = claims.candidate? port ending := by
  simp only [candidate?, get?_mirrored]
  cases claims.ports.get? port with
  | none => rfl
  | some entry =>
      obtain ⟨name, direction, owner⟩ := entry
      cases owner <;> rfl

theorem setOwner_mirrored (claims : Claims) (port : PortId) (owner : Option NodeId) :
    (claims.setOwner port owner).mirrored = claims.mirrored.setOwner port owner := by
  refine congrArg₂ mk (congrArg Arena.mk ?_) rfl
  apply Array.ext_getElem?
  intro index
  simp only [setOwner, mirrored, Arena.modify, Array.getElem?_map, Array.getElem?_modify]
  split <;> simp [Function.comp_def]

theorem claim_mirrored (claims : Claims) (port : PortId) (leaf : NodeId) :
    (claims.claim port leaf).mirrored = claims.mirrored.claim port leaf := by
  simp only [claim, ← setOwner_mirrored]
  rfl

theorem rollback_mirrored (claims : Claims) (mark : Nat) :
    (claims.rollback mark).mirrored = claims.mirrored.rollback mark := by
  have hfreed (freed : List (PortId × NodeId)) (claims : Claims) :
      (freed.foldl (fun claims bound => claims.setOwner bound.1 none) claims).mirrored =
        freed.foldl (fun claims bound => claims.setOwner bound.1 none) claims.mirrored := by
    induction freed generalizing claims with
    | nil => rfl
    | cons first rest ih => rw [List.foldl_cons, List.foldl_cons, ih, setOwner_mirrored]
  have hports := congrArg Claims.ports (hfreed (claims.since mark) claims)
  exact congrArg (mk · (claims.log.drop (claims.log.length - mark))) hports

theorem listing_setOwner (claims : Claims) (port : PortId) (owner : Option NodeId) :
    (claims.setOwner port owner).listing = claims.listing := by
  simp only [listing, setOwner, Arena.toList, Arena.modify]
  apply List.ext_getElem?
  intro index
  simp only [List.getElem?_map, Array.getElem?_toList, Array.getElem?_modify]
  split <;> simp [Function.comp_def]

theorem listing_claim (claims : Claims) (port : PortId) (leaf : NodeId) :
    (claims.claim port leaf).listing = claims.listing :=
  listing_setOwner ..

theorem Grown.listing_eq {before now : Claims} {made : List (PortId × NodeId)}
    (h : before.Grown made now) : now.listing = before.listing := by
  induction h with
  | none => rfl
  | claim _ _ _ ih => rw [listing_claim, ih]

end Claims

namespace Match

open Synthesizer (reverseState)

-- A port that a leaf of this name can be bound to and the leaf each have a flow.
def Flows (listing : List (String × Direction)) (name : String) (direction : Direction) : Prop :=
  ∀ port ∈ listing, port.1.toLower = name.toLower → port.2 ≠ .inout ∧ direction ≠ .inout

theorem bindLeaf_mirrored {id : NodeId} {name : String} {leaf : NodeState} {claims : Claims}
    (h : Flows claims.listing name leaf.masterDirection) :
    bindLeaf id name leaf claims.mirrored =
      (bindLeaf id name leaf claims).map fun (bound, now) =>
        (reverseState bound, now.mirrored) := by
  simp only [bindLeaf, Claims.findUnclaimed_mirrored]
  split
  · rfl
  · rename_i port hfound
    have hmem : port ∈ claims.findUnclaimed name := hfound ▸ List.mem_singleton_self port
    obtain ⟨entry, hentry, -, hname⟩ := Claims.mem_findUnclaimed_iff.mp hmem
    have hlisted : (entry.name, entry.direction) ∈ claims.listing :=
      List.mem_map_of_mem (Array.mem_toList_iff.mpr (Array.mem_of_getElem? hentry))
    obtain ⟨hport, hleaf⟩ := h _ hlisted hname
    simp only [Claims.get?_mirrored, hentry, Option.map_some, Option.some.injEq, Except.map,
      Claims.claim_mirrored, Direction.opposite_eq_iff hport hleaf, reverseState]
    by_cases hagrees : entry.direction = leaf.masterDirection
    · simp [hagrees, Side.opposite]
    · simp [hagrees, Side.opposite]
  · rfl

theorem settle_mirrored (name : String) {agreed : List Bool} (h : agreed ≠ []) :
    settle name (agreed.map (!·)) = (settle name agreed).map Side.opposite := by
  obtain ⟨first, rest, rfl⟩ := List.exists_cons_of_ne_nil h
  cases first with
  | false => by_cases hmixed : true ∈ rest <;> simp [settle, hmixed, Except.map, Side.opposite]
  | true => by_cases hmixed : false ∈ rest <;> simp [settle, hmixed, Except.map, Side.opposite]

theorem nestedAgrees_opposite (side : Side) (direction : Direction) :
    nestedAgrees side.opposite direction = !nestedAgrees side direction := by
  cases side <;> cases direction <;> rfl

-- An attempt and one among the same ports turned around: they claim the same
-- ports, and where they succeed all sides are opposite.
structure Mirrors (attempt other : Attempt) : Prop where
  agreed : other.agreed = attempt.agreed.map fun agreed => agreed.map (!·)
  claims : other.claims = attempt.claims.mirrored
  nodes : ∀ agreed, attempt.agreed = .ok agreed → other.nodes = attempt.nodes.map reverseState

namespace Mirrors

variable {attempt other : Attempt}

theorem after (h : Mirrors attempt other) {name : String} {state : NodeState}
    {inner turned : Forest NodeState} (hinner : turned = inner.map reverseState) (agrees : Bool) :
    Mirrors (attempt.after name state inner agrees)
      (other.after name (reverseState state) turned (!agrees)) := by
  subst hinner
  constructor
  · simp only [Attempt.after, h.agreed]
    cases attempt.agreed <;> rfl
  · exact h.claims
  · intro agreed hagreed
    obtain ⟨others, hothers, -⟩ := agreed_after hagreed
    simp only [Attempt.after, h.nodes others hothers, Forest.map]

theorem of_error {cause : Incompatible} {nodes turned : Forest NodeState} {claims now : Claims}
    (h : now = claims.mirrored) :
    Mirrors ⟨.error cause, nodes, claims⟩ ⟨.error cause, turned, now⟩ :=
  ⟨rfl, h, nofun⟩

end Mirrors

theorem claims_listing (id : Nat) (stem : String) (forest : Forest NodeState) (claims : Claims) :
    (members id stem forest claims).claims.listing = claims.listing := by
  obtain ⟨made, hmade⟩ := members_grown id stem forest claims
  exact hmade.listing_eq

-- Among leaves and ports that each have a flow, turning the ports around turns
-- every side around and changes nothing else.
theorem mirrors_members (candidate : String) (path : List String) (id : Nat)
    (forest : Forest NodeState) (claims : Claims)
    (h : ∀ leaf ∈ forest.leaves path,
      Flows claims.listing (candidate ++ String.join leaf.1) leaf.2.masterDirection) :
    Mirrors (members id (candidate ++ String.join path) forest claims)
      (members id (candidate ++ String.join path) forest claims.mirrored) := by
  induction forest generalizing id path claims with
  | nil => exact ⟨rfl, rfl, fun _ _ => rfl⟩
  | cons name state inner rest ihi ihr =>
      have hstem : candidate ++ String.join path ++ name =
          candidate ++ String.join (path ++ [name]) := by
        simp [String.join_append, String.append_assoc]
      cases inner with
      | nil =>
          obtain ⟨hfirst, hrest⟩ := List.forall_mem_cons.mp h
          simp only [members, hstem, bindLeaf_mirrored hfirst]
          cases hbound : bindLeaf ⟨id⟩ (candidate ++ String.join (path ++ [name])) state claims with
          | error cause => exact .of_error rfl
          | ok result =>
              obtain ⟨bound, now⟩ := result
              obtain ⟨port, -, hgrown⟩ := bindLeaf_grown hbound
              have hlater := ihr path (id + 1) now fun leaf hleaf =>
                hgrown.listing_eq ▸ hrest leaf hleaf
              have hagrees := Side.opposite_beq_master bound.side
              simp only [Except.map, reverseState] at hagrees ⊢
              rw [hagrees]
              exact hlater.after rfl _
      | cons first item below beside =>
          obtain ⟨hfirst, hrest⟩ := List.forall_mem_append.mp h
          have hwithin := ihi (path ++ [name]) (id + 1) claims hfirst
          simp only [members, hstem]
          generalize hleft : members (id + 1) (candidate ++ String.join (path ++ [name]))
            (.cons first item below beside) claims = attempt at hwithin ⊢
          generalize members (id + 1) (candidate ++ String.join (path ++ [name]))
            (.cons first item below beside) claims.mirrored = other at hwithin ⊢
          have hlisting : attempt.claims.listing = claims.listing := hleft ▸ claims_listing ..
          cases hagreed : attempt.agreed with
          | error cause =>
              simp only [hwithin.agreed, hagreed]
              refine .of_error ?_
              simp only [Attempt.undo, hwithin.claims, Claims.rollback_mirrored]
              rfl
          | ok agreed =>
              have hne : agreed ≠ [] := (matched_of_agreed (hleft ▸ hagreed)).ne_nil
              simp only [hwithin.agreed, hagreed, Except.map, Except.bind, settle_mirrored _ hne]
              cases settle (candidate ++ String.join (path ++ [name])) agreed with
              | error cause =>
                  refine .of_error ?_
                  simp only [Attempt.undo, hwithin.claims, Claims.rollback_mirrored]
                  rfl
              | ok side =>
                  have hlater := ihr path (id + 1 + (Forest.cons first item below beside).size)
                    attempt.claims fun leaf hleaf => hlisting ▸ hrest leaf hleaf
                  simp only [hwithin.claims, nestedAgrees_opposite]
                  exact hlater.after (hwithin.nodes agreed hagreed) _

end Match

namespace Template

-- The leaves of a template, each with what the name of a port of it ends with
-- and its master direction.
def endings (template : Template) : List (String × Direction) :=
  ((Forest.cons "" ⟨.output, 0⟩ template.members .nil).leaves []).map fun (path, shape) =>
    (String.join path, shape.masterDirection)

-- Neither a port nor a leaf that its name may stand for is without a flow. The
-- case of names does not matter.
def FlowsThrough (template : Template) (ports : List (String × Direction)) : Prop :=
  ∀ leaf ∈ template.endings, ∀ port ∈ ports, leaf.1.toLower.toList <:+ port.1.toLower.toList →
    port.2 ≠ .inout ∧ leaf.2 ≠ .inout

instance (template : Template) (ports : List (String × Direction)) :
    Decidable (template.FlowsThrough ports) :=
  inferInstanceAs (Decidable (∀ leaf ∈ template.endings, ∀ port ∈ ports, _ → _))

-- An instance has the leaves of its template.
theorem endings_eq (template : Template) :
    template.endings =
      ((Forest.cons "" (template.instantiate true none []).1
        (template.instantiate true none []).2 .nil).leaves []).map fun leaf =>
          (String.join leaf.1, leaf.2.masterDirection) := by
  have hforest : (Forest.cons "" (template.instantiate true none []).1
        (template.instantiate true none []).2 .nil).map NodeState.masterDirection =
      (Forest.cons "" ⟨.output, 0⟩ template.members .nil).map Shape.masterDirection := by
    simp only [instantiate, Forest.map, Forest.map_map]
    rfl
  have hleaves := congrArg (List.map fun leaf => (String.join leaf.1, leaf.2))
    (congrArg (Forest.leaves []) hforest)
  rw [Forest.leaves_map, Forest.leaves_map, List.map_map, List.map_map] at hleaves
  exact hleaves.symm

theorem FlowsThrough.flows {template : Template} {ports : List (String × Direction)}
    (h : template.FlowsThrough ports) (candidate : String) {leaf : List String × NodeState}
    (hleaf : leaf ∈ (Forest.cons "" (template.instantiate true none []).1
      (template.instantiate true none []).2 .nil).leaves []) :
    Match.Flows ports (candidate ++ String.join leaf.1) leaf.2.masterDirection := by
  have hending : (String.join leaf.1, leaf.2.masterDirection) ∈ template.endings :=
    template.endings_eq ▸ List.mem_map_of_mem hleaf
  intro port hport hname
  refine h _ hending port hport ?_
  rw [hname, Text.toLower_append, String.toList_append]
  exact List.suffix_append _ _

theorem FlowsThrough.mirrors_fresh {template : Template} {claims : Claims}
    (h : template.FlowsThrough claims.listing) (id : NodeId) (candidate : String) :
    Match.Mirrors (Match.fresh template true none [] id candidate claims)
      (Match.fresh template true none [] id candidate claims.mirrored) := by
  have hmembers := Match.mirrors_members candidate [] id.index _ claims
    fun leaf hleaf => h.flows candidate hleaf
  rwa [String.join_nil, String.append_empty] at hmembers

end Template

namespace Synthesizer

-- Two synthesizers that went the same way from the same nodes, so that the nodes
-- they added differ in their sides, and in all of them.
structure Opposed (before : Forest NodeState) (synth other : Synthesizer) : Prop where
  registry : other.registry = synth.registry
  separator : other.separator = synth.separator
  nodes : ∃ new, synth.nodes = before.append new ∧
    other.nodes = before.append (new.map reverseState)

namespace Opposed

variable {before : Forest NodeState} {synth other : Synthesizer} {template : Template}
  {claims : Claims}

theorem refl (synth : Synthesizer) : Opposed synth.nodes synth synth :=
  ⟨rfl, rfl, .nil, (Forest.append_nil _).symm, (Forest.append_nil _).symm⟩

theorem size (h : Opposed before synth other) : other.size = synth.size := by
  obtain ⟨new, hsynth, hother⟩ := h.nodes
  rw [Synthesizer.size, Synthesizer.size, hsynth, hother, Forest.size_append, Forest.size_append,
    Forest.size_map]

theorem add (h : Opposed before synth other) (name : String) (root : NodeState)
    (members : Forest NodeState) :
    Opposed before (synth.add name root members).2
      (other.add name (reverseState root) (members.map reverseState)).2 := by
  obtain ⟨new, hsynth, hother⟩ := h.nodes
  refine ⟨h.registry, h.separator, new.append (.cons name root members .nil), ?_, ?_⟩
  · simp only [Synthesizer.add, hsynth, Forest.append_assoc]
  · simp only [Synthesizer.add, hother, Forest.append_assoc, Forest.map_append, Forest.map]

theorem listing_tryPort (synth : Synthesizer) (first : String) (port : PortId) :
    (synth.tryPort template first claims port).2.2.listing = claims.listing := by
  cases h : claims.candidate? port first with
  | none => simp only [Synthesizer.tryPort, h]
  | some candidate =>
      rw [claims_tryPort h]
      exact Match.claims_listing ..

theorem tryPort (h : Opposed before synth other) (first : String)
    (hflows : template.FlowsThrough claims.listing)
    (port : PortId) :
    (other.tryPort template first claims.mirrored port).1 =
        (synth.tryPort template first claims port).1 ∧
      Opposed before (synth.tryPort template first claims port).2.1
        (other.tryPort template first claims.mirrored port).2.1 ∧
      (other.tryPort template first claims.mirrored port).2.2 =
        (synth.tryPort template first claims port).2.2.mirrored := by
  cases hcandidate : claims.candidate? port first with
  | none =>
      simp only [Synthesizer.tryPort, Claims.candidate?_mirrored, hcandidate]
      exact ⟨trivial, h, trivial⟩
  | some candidate =>
      have hmatch := hflows.mirrors_fresh ⟨synth.size⟩ candidate
      simp only [Match.fresh] at hmatch
      simp only [Synthesizer.tryPort, Claims.candidate?_mirrored, hcandidate, h.size]
      generalize Match.node ⟨synth.size⟩ candidate _ _ claims = attempt at hmatch ⊢
      generalize Match.node ⟨synth.size⟩ candidate _ _ claims.mirrored = turned at hmatch ⊢
      cases hagreed : attempt.agreed with
      | error cause =>
          simp only [hmatch.agreed, hagreed, Except.map]
          exact ⟨trivial, h, hmatch.claims⟩
      | ok agreed =>
          simp only [hmatch.agreed, hagreed, Except.map, hmatch.nodes agreed hagreed]
          cases attempt.nodes with
          | nil => exact ⟨rfl, h, hmatch.claims⟩
          | cons name root members rest =>
              have hname : other.instanceName candidate = synth.instanceName candidate := by
                simp only [instanceName, h.separator]
              simp only [Forest.map, hname]
              refine ⟨?_, h.add _ root members, hmatch.claims⟩
              rw [Synthesizer.add, Synthesizer.add, h.size]

theorem tryPorts (h : Opposed before synth other) (first : String)
    (hflows : template.FlowsThrough claims.listing)
    (ports : List PortId) :
    (other.tryPorts template first claims.mirrored ports).1 =
        (synth.tryPorts template first claims ports).1 ∧
      Opposed before (synth.tryPorts template first claims ports).2.1
        (other.tryPorts template first claims.mirrored ports).2.1 ∧
      (other.tryPorts template first claims.mirrored ports).2.2 =
        (synth.tryPorts template first claims ports).2.2.mirrored := by
  induction ports generalizing synth other claims with
  | nil => exact ⟨rfl, h, rfl⟩
  | cons port rest ih =>
      obtain ⟨hfound, hnext, hclaims⟩ := h.tryPort first hflows port
      have hlisting :
          template.FlowsThrough (synth.tryPort template first claims port).2.2.listing := by
        rw [listing_tryPort]
        exact hflows
      obtain ⟨hmore, hlast, hlater⟩ := ih hnext hlisting
      simp only [Synthesizer.tryPorts, hfound, hclaims, hmore]
      exact ⟨trivial, hlast, hlater⟩

end Opposed

-- Turning all ports of an entity around turns every instance around that is found
-- among them, with all its members. The names, the ports that are held and all
-- else are the same.
theorem extractAll_opposite (synth : Synthesizer) (cls : InterfaceClass)
    (ports : List (String × Direction)) (h : (synth.template cls).1.FlowsThrough ports) :
    let found := synth.extractAll cls (.ofPorts ports)
    let turned := synth.extractAll cls
      (.ofPorts (ports.map fun (name, direction) => (name, direction.opposite)))
    turned.1 = found.1 ∧ turned.2.2 = found.2.2.mirrored ∧
      ∃ new, found.2.1.nodes = synth.nodes.append new ∧
        turned.2.1 = { found.2.1 with nodes := synth.nodes.append (new.map reverseState) } := by
  intro found turned
  have hturned : turned = synth.extractAll cls (Claims.ofPorts ports).mirrored := by
    rw [Claims.mirrored_ofPorts]
  have hflows : (synth.template cls).1.FlowsThrough (Claims.ofPorts ports).listing :=
    (Claims.listing_ofPorts ports).symm ▸ h
  have hports : (Claims.ofPorts ports).mirrored.ports.entries.map (·.1) =
      (Claims.ofPorts ports).ports.entries.map (·.1) := by
    rw [Claims.entries_mirrored, List.map_map]
    rfl
  obtain ⟨hfound, hopposed, hclaims⟩ : turned.1 = found.1 ∧
      Opposed synth.nodes found.2.1 turned.2.1 ∧ turned.2.2 = found.2.2.mirrored := by
    simp only [hturned, found, extractAll, hports]
    cases (synth.template cls).1.firstMember with
    | error cause => exact ⟨rfl, .refl (synth.template cls).2, rfl⟩
    | ok first =>
        obtain ⟨hfound, hopposed, hclaims⟩ :=
          (Opposed.refl (synth.template cls).2).tryPorts first hflows
            ((Claims.ofPorts ports).ports.entries.map (·.1))
        exact ⟨congrArg Except.ok hfound, hopposed, hclaims⟩
  obtain ⟨new, hnew, hother⟩ := hopposed.nodes
  refine ⟨hfound, hclaims, new, hnew, ?_⟩
  change turned.2.1 = ⟨_, found.2.1.registry, found.2.1.separator⟩
  rw [← hother, ← hopposed.registry, ← hopposed.separator]

-- A request with a reply that goes both ways.
def exchange : InterfaceClass :=
  .mk "exchange" []
    [.leaf "valid" .output 1, .nested "back_" .inout (.mk "reply" [] [.leaf "ready" .output 1])]

-- One of each side, and a pin that is part of neither.
def exchangePorts : List (String × Direction) :=
  [("m_valid", .output), ("m_back_ready", .input), ("s_valid", .input), ("s_back_ready", .output),
    ("pin", .inout)]

theorem extractAll_exchangePorts :
    ((ofSeparator "_").template exchange).1.FlowsThrough exchangePorts ∧
      let found := (ofSeparator "_").extractAll exchange (.ofPorts exchangePorts)
      let turned := (ofSeparator "_").extractAll exchange
        (.ofPorts (exchangePorts.map fun (name, direction) => (name, direction.opposite)))
      turned.1 = found.1 ∧ turned.2.2 = found.2.2.mirrored ∧
        ∃ new, found.2.1.nodes = (ofSeparator "_").nodes.append new ∧
          turned.2.1 =
            { found.2.1 with nodes := (ofSeparator "_").nodes.append (new.map reverseState) } := by
  have hflows : ((ofSeparator "_").template exchange).1.FlowsThrough exchangePorts := by
    decide +kernel
  exact ⟨hflows, extractAll_opposite _ _ _ hflows⟩

-- A member without a flow is on the slave side whichever way its port goes.
def pin : InterfaceClass := .mk "pin" [] [.leaf "x" .inout 1]

theorem nodes_extractAll_pin :
    ((ofSeparator "_").extractAll pin (.ofPorts [("x", Direction.input.opposite)])).2.1.nodes ≠
      ((ofSeparator "_").extractAll pin (.ofPorts [("x", .input)])).2.1.nodes.map reverseState := by
  decide +kernel

end Synthesizer

end Rtl
