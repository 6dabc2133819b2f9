import Rtl.Proofs.Interface.Stores.Connections
import Rtl.Proofs.Interface.Stores.Extraction

namespace Rtl

open Forest

namespace Blueprints

-- The blueprints behind a history of builds.
def buildAll? (blueprints : Blueprints) (history : List InterfaceClass) : Option Blueprints :=
  history.foldlM (fun blueprints cls => (blueprints.build? cls).map (·.2)) blueprints

end Blueprints

namespace Blueprint

-- What is made of a class, whatever was made of other classes before.
def Built (blueprint : Blueprint) : Prop :=
  ∃ history cls before after, Blueprints.empty.buildAll? history = some before ∧
    before.build? cls = some (blueprint, after)

-- Copies of blueprints one behind the other, each under a name of its own.
def grove : Nat → List (String × Blueprint) → List (Row Shape)
  | _, [] => []
  | base, (name, blueprint) :: rest =>
      (blueprint.rows.modify 0 fun row => { row with name }).map (Row.shift base) ++
        grove (base + blueprint.rows.length) rest

theorem grove_eq_rows (base : Nat) (instances : List (String × Template)) :
    grove base (instances.map fun (name, template) => (name, template.blueprint)) =
      (Forest.grove instances).rows none base := by
  induction instances generalizing base with
  | nil => rfl
  | cons entry rest ih =>
      obtain ⟨name, template⟩ := entry
      have hlength : base + template.blueprint.rows.length = base + 1 + template.members.size := by
        rw [Template.blueprint, length_rows, Template.tree, Forest.size, Forest.size]
        omega
      have hshift := rows_eq_shift base none 0 (cons name ⟨.output, 0⟩ template.members .nil)
      rw [Nat.zero_add] at hshift
      have hnamed : (template.blueprint.rows.modify 0 fun row => { row with name }) =
          (cons name ⟨.output, 0⟩ template.members .nil).rows none 0 := rfl
      rw [List.map_cons, grove, ih, hlength, hnamed, ← hshift, Forest.grove,
        rows_split name ⟨.output, 0⟩ template.members (Forest.grove rest)]
      rfl

end Blueprint

namespace Registry

theorem buildAll?_blueprints {registry : Registry} (h : registry.Distinct)
    (history : List InterfaceClass) :
    registry.blueprints.buildAll? history = some (registry.buildAll history).blueprints := by
  induction history generalizing registry with
  | nil => rfl
  | cons cls rest ih =>
      rw [Blueprints.buildAll?, List.foldlM_cons, registry.build?_blueprints cls h]
      exact ih (registry.distinct_build cls h).2

end Registry

theorem Template.Built.blueprint {template : Template} (h : template.Built) :
    template.blueprint.Built := by
  obtain ⟨history, cls, rfl⟩ := h
  have hempty : Registry.empty.Distinct := Registry.distinct_buildAll []
  exact ⟨history, cls, _, _, Registry.buildAll?_blueprints hempty history,
    Registry.build?_blueprints _ cls (Registry.distinct_buildAll history)⟩

theorem Blueprint.Built.exists_template {blueprint : Blueprint} (h : blueprint.Built) :
    ∃ template : Template, template.Built ∧ blueprint = template.blueprint := by
  obtain ⟨history, cls, before, after, hbefore, hmade⟩ := h
  have hempty : Registry.empty.Distinct := Registry.distinct_buildAll []
  have hbuilt : Blueprints.empty.buildAll? history = _ :=
    Registry.buildAll?_blueprints hempty history
  obtain rfl := Option.some.inj (hbefore.symm.trans hbuilt)
  have hsame := Registry.build?_blueprints _ cls (Registry.distinct_buildAll history)
  obtain ⟨rfl, -⟩ := Prod.mk.inj (Option.some.inj (hmade.symm.trans hsame))
  exact ⟨_, ⟨history, cls, rfl⟩, rfl⟩

namespace Nodes

variable {σ : Type} {act : NodeId → String → Bool → NodeState → σ → NodeState × σ}
  {extend : String → String → String} {nodes : Nodes} {id : NodeId}

-- There is nothing to be done to a node that does not exist.

theorem visit_of_none (h : nodes.get? id = none) (levels : Nat) (stem : String) (rest : σ) :
    visit act extend levels id stem (nodes, rest) = none := by
  cases levels with
  | zero => rfl
  | succ levels => rw [visit_succ, h, Option.bind_none]

theorem matchNode_of_none (h : nodes.get? id = none) (levels : Nat) (stem : String)
    (claims : Claims) : matchNode levels stem id (nodes, claims) = none := by
  cases levels with
  | zero => rfl
  | succ levels => rw [matchNode_succ, h, Option.bind_none]

end Nodes

namespace Store

-- A store that can come about. Its operations meet any design and any claims, and an instance
-- may be one of a blueprint that was made elsewhere. What is known about a node may be
-- written over, but for what its blueprint says of it.
inductive Handled : Store → Prop
  | start (separator : String) : Handled (ofSeparator separator)
  | template {store next : Store} {cls : InterfaceClass} {blueprint : Blueprint}
      (h : Handled store) (hnext : store.template? cls = some (blueprint, next)) : Handled next
  | instantiate {store : Store} {blueprint : Blueprint} (h : Handled store)
      (hbuilt : blueprint.Built) (external : Bool) (source : Option NodeId)
      (destinations : List NodeId) :
      Handled (store.instantiate blueprint external source destinations).2
  | propagateSource {store next : Store} {id : NodeId} (h : Handled store)
      (hnext : store.propagateSource? id = some next) : Handled next
  | matchByName {store next : Store} {id : NodeId} {stem : String} {claims now : Claims}
      {result : Except InterfaceError NodeId} (h : Handled store)
      (hnext : store.matchByName? id stem claims = some (result, next, now)) : Handled next
  | extractAll {store next : Store} {cls : InterfaceClass} {claims now : Claims}
      {result : Except InterfaceError (List (String × NodeId))} (h : Handled store)
      (hnext : store.extractAll? cls claims = some (result, next, now)) : Handled next
  | unExtract {store next : Store} {id : NodeId} {claims now : Claims} (h : Handled store)
      (hnext : store.unExtract? id claims = some (next, now)) : Handled next
  | reverse {store next : Store} {id : NodeId} (h : Handled store)
      (hnext : store.reverseDirection? id = some next) : Handled next
  | detach {store next : Store} {id : NodeId} {connections : Bool} (h : Handled store)
      (hnext : store.detachSignals? id connections = some next) : Handled next
  | materialize {store next : Store} {id : NodeId} {stem : String} {design now : Design}
      {signals : List SignalId} (h : Handled store)
      (hnext : store.materialize? id stem design = some (signals, next, now)) : Handled next
  | write {store next : Store} {id : NodeId} {change : NodeState → NodeState} (h : Handled store)
      (hchange : ∀ state, (change state).shape = state.shape)
      (hnext : store.updateState? id change = some next) : Handled next

end Store

namespace Synthesizer

variable {synth : Synthesizer} {id : NodeId}

theorem Stocked.distinct (h : synth.Stocked) : synth.registry.Distinct := by
  obtain ⟨history, hregistry⟩ := h.registry
  exact hregistry ▸ Registry.distinct_buildAll history

-- What was done to a node was done to one that exists.
theorem exists_node?_of_eq_some {α : Type} {result : Option α} {value : α}
    (h : result = some value) (hnone : synth.store.nodes.get? id = none → result = none) :
    ∃ spot, synth.node? id = some spot := by
  refine Option.ne_none_iff_exists'.mp fun hnode => ?_
  cases (hnone (get?_store_of_none hnode)).symm.trans h

theorem exists_node?_of_changeAll? {next : Store} {change : NodeState → NodeState}
    (h : synth.store.changeAll? id change = some next) : ∃ spot, synth.node? id = some spot := by
  refine exists_node?_of_eq_some h fun hnone => ?_
  rw [Store.changeAll?, Nodes.visit_of_none hnone]
  rfl

-- A change of all nodes below one leaves a store what it was made to be.
theorem Stocked.changeAll? {next : Store} {change : NodeState → NodeState} (h : synth.Stocked)
    (hchange : ∀ state, (change state).shape = state.shape)
    (hnext : synth.store.changeAll? id change = some next) :
    ∃ synth : Synthesizer, synth.Stocked ∧ next = synth.store := by
  obtain ⟨spot, hspot⟩ := exists_node?_of_changeAll? hnext
  rw [changeAll?_store hspot] at hnext
  exact ⟨_, h.changeAll hspot hchange, (Option.some.inj hnext).symm⟩

end Synthesizer

namespace Store

open Synthesizer

-- Every store that can come about is one of trees of nodes.
theorem Handled.exists_stocked {store : Store} (h : store.Handled) :
    ∃ synth : Synthesizer, synth.Stocked ∧ store = synth.store := by
  induction h with
  | start separator => exact ⟨.ofSeparator separator, ⟨⟨[], rfl⟩, .nil⟩, rfl⟩
  | @template _ _ cls _ _ hnext ih =>
      obtain ⟨synth, hsynth, rfl⟩ := ih
      rw [template?_store synth hsynth.distinct] at hnext
      exact ⟨_, (hsynth.template cls).2, (Prod.mk.inj (Option.some.inj hnext)).2.symm⟩
  | instantiate _ hbuilt external source destinations ih =>
      obtain ⟨synth, hsynth, rfl⟩ := ih
      obtain ⟨template, htemplate, rfl⟩ := hbuilt.exists_template
      exact ⟨_, hsynth.instantiate htemplate external source destinations,
        congrArg Prod.snd (synth.instantiate_store template external source destinations)⟩
  | @propagateSource _ _ id _ hnext ih =>
      obtain ⟨synth, hsynth, rfl⟩ := ih
      rw [propagateSource?_store] at hnext
      cases hentered : synth.propagateSource id with
      | error cause =>
          rw [hentered] at hnext
          cases hnext
      | ok next =>
          rw [hentered] at hnext
          exact ⟨next, hsynth.propagateSource hentered, (Option.some.inj hnext).symm⟩
  | @matchByName _ _ id stem claims _ _ _ hnext ih =>
      obtain ⟨synth, hsynth, rfl⟩ := ih
      obtain ⟨spot, hspot⟩ := exists_node?_of_eq_some hnext fun hnone => by
        rw [matchByName?, Nodes.matchNode_of_none hnone]
        rfl
      rw [matchByName?_store hspot] at hnext
      obtain ⟨-, hstore, -⟩ := Option.some.inj hnext
      exact ⟨_, hsynth.matchByName hspot stem claims, rfl⟩
  | @extractAll _ _ cls claims _ _ _ hnext ih =>
      obtain ⟨synth, hsynth, rfl⟩ := ih
      rw [extractAll?_store synth hsynth.distinct] at hnext
      obtain ⟨-, hstore, -⟩ := Option.some.inj hnext
      exact ⟨_, hsynth.extractAll cls claims, rfl⟩
  | @unExtract _ _ id claims _ _ hnext ih =>
      obtain ⟨synth, hsynth, rfl⟩ := ih
      obtain ⟨spot, hspot⟩ := exists_node?_of_eq_some hnext fun hnone => by
        rw [unExtract?, Nodes.visit_of_none hnone]
        rfl
      rw [unExtract?_store hspot] at hnext
      obtain ⟨hstore, -⟩ := Option.some.inj hnext
      exact ⟨_, hsynth.unExtract hspot claims, rfl⟩
  | reverse _ hnext ih =>
      obtain ⟨synth, hsynth, rfl⟩ := ih
      have hkept (state : NodeState) : (reverseState state).shape = state.shape := rfl
      exact hsynth.changeAll? hkept hnext
  | @detach _ _ _ connections _ hnext ih =>
      obtain ⟨synth, hsynth, rfl⟩ := ih
      have hkept (state : NodeState) : (detachState connections state).shape = state.shape := by
        cases connections <;> rfl
      exact hsynth.changeAll? hkept hnext
  | @materialize _ _ id stem design _ _ _ hnext ih =>
      obtain ⟨synth, hsynth, rfl⟩ := ih
      obtain ⟨spot, hspot⟩ := exists_node?_of_eq_some hnext fun hnone => by
        rw [materialize?, Nodes.visit_of_none hnone]
        rfl
      rw [materialize?_store hspot] at hnext
      obtain ⟨⟨signals, next, now⟩, hmade, heq⟩ := Option.map_eq_some_iff.mp hnext
      obtain ⟨-, rfl, -⟩ := heq
      exact ⟨_, hsynth.materialize hmade, rfl⟩
  | @write _ _ id change _ hchange hnext ih =>
      obtain ⟨synth, hsynth, rfl⟩ := ih
      obtain ⟨spot, hspot⟩ := exists_node?_of_eq_some hnext fun hnone => by
        rw [updateState?, hnone]
        rfl
      rw [updateState?_store hspot] at hnext
      exact ⟨_, hsynth.updateState hspot hchange, (Option.some.inj hnext).symm⟩

-- An instance comes behind all nodes there are, with the numbers of its blueprint moved on
-- by how many these are.
theorem rows_instantiate (store : Store) (blueprint : Blueprint) (external : Bool)
    (source : Option NodeId) (destinations : List NodeId) :
    (store.instantiate blueprint external source destinations).1 = ⟨store.rows.length⟩ ∧
      ∃ block, (store.instantiate blueprint external source destinations).2.rows =
          store.rows ++ block ∧
        block.map (Row.map NodeState.shape) =
          blueprint.rows.map (Row.shift store.rows.length) := by
  have hrow (row : Row Shape) (index : Nat) : Row.map NodeState.shape (Nodes.instanceRow
      store.rows.length external source destinations index row) =
        Row.shift store.rows.length row := by
    simp only [Nodes.instanceRow, Row.map]
    split <;> rfl
  have hblock := foldl_alloc store.rows blueprint.rows.zipIdx fun entry =>
    Nodes.instanceRow store.rows.length external source destinations entry.2 entry.1
  have hnumbers : blueprint.rows.map (Row.shift store.rows.length) =
      blueprint.rows.zipIdx.map (Row.shift store.rows.length ∘ Prod.fst) := by
    rw [← List.map_map, List.zipIdx_map_fst]
  refine ⟨rfl, _, congrArg Arena.toList hblock, ?_⟩
  rw [List.map_map, hnumbers]
  exact List.map_congr_left fun entry _ => hrow entry.1 entry.2

def Has (store : Store) (id : NodeId) : Prop := (store.nodes.get? id).isSome

-- Whatever goes from members to members comes to an end, and so does the way up. What is done
-- to a node is done to one that exists.
structure Ends (store : Store) : Prop where
  template : ∀ cls, (store.template? cls).isSome
  extractAll : ∀ cls claims, (store.extractAll? cls claims).isSome
  matchByName : ∀ id stem claims, store.Has id → (store.matchByName? id stem claims).isSome
  unExtract : ∀ id claims, store.Has id → (store.unExtract? id claims).isSome
  reverse : ∀ id, store.Has id → (store.reverseDirection? id).isSome
  detach : ∀ id connections, store.Has id → (store.detachSignals? id connections).isSome
  materialize : ∀ id stem design, store.Has id → (store.materialize? id stem design).isSome
  wiring : ∀ destination source, store.Has destination → store.Has source →
    (store.wiring? destination source).isSome
  propagation : ∀ id, store.Has id → (∀ row ∈ store.rows, ∀ destination ∈ row.item.destinations,
    store.Has destination) → (store.propagation? id).isSome
  fullName : ∀ id, store.Has id → (store.fullName? id).isSome

end Store

namespace Synthesizer

variable {synth : Synthesizer} {id : NodeId}

theorem has_store_iff : synth.store.Has id ↔ ∃ spot, synth.node? id = some spot := by
  constructor
  · intro h
    obtain ⟨row, hrow⟩ := Option.isSome_iff_exists.mp h
    exact exists_node?_of_eq_some hrow fun hnone => hnone
  · rintro ⟨spot, hspot⟩
    obtain ⟨row, hrow, -⟩ := get?_store_of_spot hspot
    exact Option.isSome_iff_exists.mpr ⟨row, hrow⟩

theorem aimed_of_store (h : ∀ row ∈ synth.store.rows, ∀ destination ∈ row.item.destinations,
    synth.store.Has destination) : synth.Aimed := by
  intro id spot hspot destination hdestination
  obtain ⟨row, hrow, -, hitem, -⟩ := get?_store_of_spot hspot
  have hmem : row ∈ synth.store.rows :=
    List.mem_of_getElem? ((Nodes.get?_ofRows ..).symm.trans hrow)
  exact has_store_iff.mp (h row hmem destination (hitem ▸ hdestination))

theorem Stocked.ends (h : synth.Stocked) : synth.store.Ends where
  template cls := by rw [template?_store synth h.distinct, Option.isSome_some]
  extractAll cls claims := by rw [extractAll?_store synth h.distinct, Option.isSome_some]
  matchByName id stem claims hid := by
    obtain ⟨spot, hspot⟩ := has_store_iff.mp hid
    rw [matchByName?_store hspot, Option.isSome_some]
  unExtract id claims hid := by
    obtain ⟨spot, hspot⟩ := has_store_iff.mp hid
    rw [unExtract?_store hspot, Option.isSome_some]
  reverse id hid := by
    obtain ⟨spot, hspot⟩ := has_store_iff.mp hid
    rw [Store.reverseDirection?, changeAll?_store hspot, Option.isSome_some]
  detach id connections hid := by
    obtain ⟨spot, hspot⟩ := has_store_iff.mp hid
    rw [Store.detachSignals?, changeAll?_store hspot, Option.isSome_some]
  materialize id stem design hid := by
    obtain ⟨spot, hspot⟩ := has_store_iff.mp hid
    rw [materialize?_store hspot, Option.isSome_map]
    simp only [Synthesizer.materialize, hspot]
    split <;> rfl
  wiring destination source hdestination hsource := by
    obtain ⟨driven, hdriven⟩ := has_store_iff.mp hdestination
    obtain ⟨driving, hdriving⟩ := has_store_iff.mp hsource
    rw [wiring?_store hdriven hdriving, Option.isSome_some]
  propagation id hid haimed := by
    obtain ⟨spot, hspot⟩ := has_store_iff.mp hid
    rw [propagation?_store hspot (aimed_of_store haimed), Option.isSome_some]
  fullName id hid := by
    obtain ⟨spot, hspot⟩ := has_store_iff.mp hid
    rw [Store.fullName?, fullName?_of_node? hspot, Option.isSome_some]

theorem Stocked.grove (h : synth.Stocked) :
    ∃ instances : List (String × Blueprint), (∀ entry ∈ instances, entry.2.Built) ∧
      synth.rows.map (Row.map NodeState.shape) = Blueprint.grove 0 instances := by
  obtain ⟨instances, hbuilt, hnodes⟩ := h.planted
  refine ⟨instances.map fun (name, template) => (name, template.blueprint),
    List.forall_mem_map.mpr fun entry hentry => (hbuilt entry hentry).blueprint, ?_⟩
  rw [Blueprint.grove_eq_rows, ← hnodes, rows_map]
  rfl

end Synthesizer

-- The names in a text that has dots between them.
def segments (text : String) : List String := (text.toList.splitOn '.').map String.ofList

theorem segments_intercalate {path : List String} (hne : path ≠ [])
    (hdots : ∀ name ∈ path, '.' ∉ name.toList) :
    segments (String.intercalate "." path) = path := by
  have hsplit : (".".toList.intercalate (path.map String.toList)).splitOn '.' =
      path.map String.toList :=
    List.splitOn_intercalate '.' (List.forall_mem_map.mpr hdots)
      (fun hnil => hne (List.map_eq_nil_iff.mp hnil))
  rw [segments, String.toList_intercalate, hsplit, List.map_map]
  simp [Function.comp_def]

namespace Store

open Synthesizer

-- However a store came about, its nodes are copies of blueprints that are linked among
-- themselves, and an instance is put behind them. Members lead to an end, and so do parents.
-- The names on the way up are the full name, and by them the way leads down again, also if
-- they are read off the text. A root has no such name: its text is empty.
theorem linked_of_handled {store : Store} (h : store.Handled) :
    (∃ instances : List (String × Blueprint), (∀ entry ∈ instances, entry.2.Built) ∧
        store.rows.map (Row.map NodeState.shape) = Blueprint.grove 0 instances) ∧
      Linked store.rows ∧ WellFounded (IsMember store.rows) ∧ store.Ends ∧
      (∀ blueprint external source destinations,
        (store.instantiate blueprint external source destinations).1 = ⟨store.rows.length⟩ ∧
          ∃ block, (store.instantiate blueprint external source destinations).2.rows =
              store.rows ++ block ∧
            block.map (Row.map NodeState.shape) =
              blueprint.rows.map (Row.shift store.rows.length)) ∧
      ∀ number row, store.rows[number]? = some row →
        ∃ path root, Climbs store.rows number path root ∧
          store.fullName? ⟨number⟩ = some (String.intercalate "." path) ∧
          (path = [] ↔ row.parent = none) ∧ follow store.rows root path = some number ∧
          (row.parent ≠ none → (∀ name ∈ path, '.' ∉ name.toList) →
            follow store.rows root (segments (String.intercalate "." path)) = some number) := by
  obtain ⟨synth, hsynth, rfl⟩ := h.exists_stocked
  have hlinked := hsynth.linked_rows
  refine ⟨hsynth.grove, hlinked, hlinked.wellFounded, hsynth.ends, synth.store.rows_instantiate,
    fun number row hrow => ?_⟩
  obtain ⟨spot, hspot, -⟩ := exists_spot_of_row hrow
  obtain ⟨root, hclimbs⟩ := exists_climbs hspot
  have hroot := hclimbs.eq_nil_iff hrow
  have hfollow := hlinked.follow_eq hclimbs
  have hname := fullName?_of_node? (show synth.node? ⟨number⟩ = some spot from hspot)
  refine ⟨_, root, hclimbs, hname, hroot, hfollow, fun hparent hdots => ?_⟩
  rw [segments_intercalate (fun hnil => hparent (hroot.mp hnil)) hdots]
  exact hfollow

-- Two instances that are found, with a candidate given up between them.
def streams : Synthesizer := ((Synthesizer.ofSeparator "_").extractAll stream gappedPorts).2.1

-- An internal instance behind these.
def mixed : Synthesizer := (streams.instantiate Workbench.duplexTemplate false none []).2

theorem handled_mixed : mixed.store.Handled := by
  have hempty : (Synthesizer.ofSeparator "_").registry.Distinct := Registry.distinct_buildAll []
  have hfound := extractAll?_store (.ofSeparator "_") hempty stream gappedPorts
  have hstreams : streams.store.Handled := (Handled.start "_").extractAll hfound
  have hbuilt : Workbench.duplexTemplate.Built := ⟨[], Workbench.duplex, by decide +kernel⟩
  have hmade := streams.instantiate_store Workbench.duplexTemplate false none []
  have hmixed := hstreams.instantiate hbuilt.blueprint false none []
  rwa [hmade] at hmixed

theorem follow_segments_token :
    mixed.store.Handled ∧ Linked mixed.store.rows ∧ WellFounded (IsMember mixed.store.rows) ∧
      mixed.store.Ends ∧
      mixed.store.rows.map (fun row => (row.name, row.parent)) =
        [("a", none), ("valid", some 0), ("ready", some 0),
          ("b", none), ("valid", some 3), ("ready", some 3),
          ("duplex", none), ("data", some 6), ("back_", some 6),
          ("ready", some 8), ("token", some 8)] ∧
      Climbs mixed.store.rows 10 ["back_", "token"] 6 ∧
      mixed.store.fullName? ⟨10⟩ = some "back_.token" ∧
      follow mixed.store.rows 6 (segments "back_.token") = some 10 := by
  have hrows : mixed.store.rows.map (fun row => (row.name, row.parent)) =
      [("a", none), ("valid", some 0), ("ready", some 0),
        ("b", none), ("valid", some 3), ("ready", some 3),
        ("duplex", none), ("data", some 6), ("back_", some 6),
        ("ready", some 8), ("token", some 8)] := by decide +kernel
  have hrow (number : Nat) : (mixed.store.rows[number]?).map (fun row => (row.name, row.parent)) =
      _ := (List.getElem?_map ..).symm.trans (congrArg (·[number]?) hrows)
  obtain ⟨duplex, hduplex, hroot⟩ := Option.map_eq_some_iff.mp (hrow 6)
  obtain ⟨back, hback, hmember⟩ := Option.map_eq_some_iff.mp (hrow 8)
  obtain ⟨token, htoken, hleaf⟩ := Option.map_eq_some_iff.mp (hrow 10)
  obtain ⟨-, hroot⟩ := Prod.mk.inj hroot
  obtain ⟨hname, hmember⟩ := Prod.mk.inj hmember
  obtain ⟨hnameToken, hleaf⟩ := Prod.mk.inj hleaf
  have hclimbs : Climbs mixed.store.rows 10 ["back_", "token"] 6 := by
    have hstep := Climbs.step htoken hleaf (.step hback hmember (.root hduplex hroot))
    rwa [hname, hnameToken] at hstep
  obtain ⟨-, hlinked, hfounded, hends, -, hnamed⟩ := linked_of_handled handled_mixed
  obtain ⟨path, root, hup, htext, -, -, hdown⟩ := hnamed 10 token htoken
  obtain ⟨rfl, rfl⟩ := hclimbs.unique hup
  exact ⟨handled_mixed, hlinked, hfounded, hends, hrows, hclimbs, htext,
    hdown (hleaf ▸ Option.some_ne_none 8) (by decide)⟩

end Store

end Rtl
